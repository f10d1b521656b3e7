import EfiCore.Console.EfiKey
import EfiCore.Lib.Run

/-! # The console lock (`ConSplitter.c`)

Input passes through the splitter unless it is locked. While it is, a timer event reads the keys
and compares what is typed before a carriage return with the password.
-/

namespace EfiCore.Console

open EfiCore.Uni (Char16)

def carriageReturn : Char16 := 13

def maxStdInPassword : Nat := 80

/-- The timer of `LockEvent`. The core takes a periodic timer of period 0 for one that is due
now and has no period (`SetTimer`, `CheckTimers`). -/
inductive LockTimer where
  | off
  | once
  | periodic
  deriving DecidableEq

/-- `mConIn`, with the keys that wait in each attached device. `Password` and `PwdAttempt` have
`MAX_STD_IN_PASSWORD` characters; `password` is the string in the first. -/
structure ConIn where
  passwordEnabled : Bool
  password : List Char16
  pwdIndex : Nat
  pwdAttempt : Nat → Char16
  lockEvent : LockTimer
  textInList : List (List InputKey)
  /-- The indexes of `PwdAttempt` that were written. -/
  writes : List Nat

/-- `ConSplitterTextInPrivateReadKeyStroke`: the next key of the first device that has one. -/
def privateReadKeyStroke : List (List InputKey) → Option (InputKey × List (List InputKey))
  | [] => none
  | (key :: keys) :: devices => some (key, keys :: devices)
  | [] :: devices => (privateReadKeyStroke devices).map fun r => (r.1, [] :: r.2)

/-- The two strings are equal; the second is read from an index on. -/
def efiStrCmp : List Char16 → (Nat → Char16) → Nat → Bool
  | [], second, index => second index = 0
  | c :: first, second, index => c = second index && efiStrCmp first second (index + 1)

def isEnter (key : InputKey) : Bool := key.unicodeChar = carriageReturn && key.scanCode = scanNull

namespace ConIn

def writeAttempt (s : ConIn) (c : Char16) : ConIn :=
  { s with
    pwdAttempt := Function.update s.pwdAttempt s.pwdIndex c
    writes := s.writes ++ [s.pwdIndex] }

/-- One key in the loop of `ConSpliterConsoleControlLockStdInEvent`; the loop goes on or not. -/
def lockKey (s : ConIn) (key : InputKey) : Bool × ConIn :=
  if isEnter key then
    let s := s.writeAttempt 0
    if efiStrCmp s.password s.pwdAttempt 0 then
      (false, { s with lockEvent := .once, passwordEnabled := false })
    else (true, { s with pwdIndex := 0 })
  else if s.pwdIndex < maxStdInPassword - 1 then
    let s := s.writeAttempt key.unicodeChar
    (true, { s with pwdIndex := s.pwdIndex + 1 })
  else (true, s)

/-- The loop of `ConSpliterConsoleControlLockStdInEvent`, in at most `fuel` turns. -/
def lockLoop : Nat → ConIn → ConIn
  | 0, s => s
  | fuel + 1, s =>
    match privateReadKeyStroke s.textInList with
    | none => s
    | some (key, devices) =>
      let r := { s with textInList := devices }.lockKey key
      if r.1 then lockLoop fuel r.2 else r.2

/-- The timer event, if it is armed. Each turn of the loop takes a key. -/
def lockTick (s : ConIn) : ConIn :=
  match s.lockEvent with
  | .off => s
  | .once => lockLoop s.textInList.flatten.length { s with lockEvent := .off }
  | .periodic => lockLoop s.textInList.flatten.length s

/-- `ConSpliterConsoleControlLockStdIn`; `EFI_SUCCESS` or not. -/
def lockStdIn (s : ConIn) : Option (List Char16) → Bool × ConIn
  | none => (false, s)
  | some password =>
    if password.length ≥ maxStdInPassword then (false, s)
    else (true, { s with
      password := password, passwordEnabled := true, pwdIndex := 0, lockEvent := .periodic })

/-- `ConSplitterTextInReadKeyStroke` -/
def readKeyStroke (s : ConIn) : Option InputKey × ConIn :=
  if s.passwordEnabled then (none, s)
  else
    match privateReadKeyStroke s.textInList with
    | none => (none, s)
    | some (key, devices) => (some key, { s with textInList := devices })

/-- `ConSplitterTextInWaitForKey` and `ConSplitterSimplePointerWaitForInput`: the event of the
splitter is signalled if an event of a device is. -/
def signalsEvent (s : ConIn) (device : Bool) : Bool := !s.passwordEnabled && device

/-- `ConSplitterSimplePointerGetState`, with what the devices answer. -/
def getState {α : Type} (s : ConIn) (answer : Option α) : Option α :=
  if s.passwordEnabled then none else answer

end ConIn

/-! ## What happens to the splitter -/

/-- `α` is the type of pointer states. -/
inductive LockCall (α : Type) where
  /-- A key arrives in a device. -/
  | press (device : Nat) (key : InputKey)
  | lockStdIn (password : Option (List Char16))
  | tick
  | readKeyStroke
  | waitForKey (device : Bool)
  | getState (answer : Option α)

inductive LockReply (α : Type) where
  | none
  | status (success : Bool)
  | key (key : Option InputKey)
  | signal (signalled : Bool)
  | state (state : Option α)

def ConIn.call {α : Type} (s : ConIn) : LockCall α → LockReply α × ConIn
  | .press device key =>
    (.none, { s with textInList := s.textInList.modify device (· ++ [key]) })
  | .lockStdIn password => ((.status (s.lockStdIn password).1), (s.lockStdIn password).2)
  | .tick => (.none, s.lockTick)
  | .readKeyStroke => (.key s.readKeyStroke.1, s.readKeyStroke.2)
  | .waitForKey device => (.signal (s.signalsEvent device), s)
  | .getState answer => (.state (s.getState answer), s)

/-- The splitter with its devices, before it is locked for the first time. -/
def ConIn.initial (devices : Nat) (pwdAttempt : Nat → Char16) : ConIn where
  passwordEnabled := false
  password := []
  pwdIndex := 0
  pwdAttempt := pwdAttempt
  lockEvent := .off
  textInList := List.replicate devices []
  writes := []

/-! ## A guard that does what a lock is for -/

/-- The password while it is locked, what was typed since, and the keys that wait. -/
structure Guard where
  locked : Option (List Char16)
  typed : List Char16
  textInList : List (List InputKey)

namespace Guard

/-- The keys are read up to the carriage return that unlocks. -/
def readLoop (password : List Char16) : Nat → Guard → Guard
  | 0, g => g
  | fuel + 1, g =>
    match privateReadKeyStroke g.textInList with
    | none => g
    | some (key, devices) =>
      if isEnter key then
        if g.typed = password then { g with locked := none, typed := [], textInList := devices }
        else readLoop password fuel { g with typed := [], textInList := devices }
      else readLoop password fuel
        { g with typed := g.typed ++ [key.unicodeChar], textInList := devices }

def tick (g : Guard) : Guard :=
  match g.locked with
  | none => g
  | some password => readLoop password g.textInList.flatten.length g

def call {α : Type} (g : Guard) : LockCall α → LockReply α × Guard
  | .press device key =>
    (.none, { g with textInList := g.textInList.modify device (· ++ [key]) })
  | .lockStdIn none => (.status false, g)
  | .lockStdIn (some password) =>
    if password.length ≥ maxStdInPassword then (.status false, g)
    else (.status true, { g with locked := some password, typed := [] })
  | .tick => (.none, g.tick)
  | .readKeyStroke =>
    match g.locked, privateReadKeyStroke g.textInList with
    | none, some (key, devices) => (.key (some key), { g with textInList := devices })
    | _, _ => (.key none, g)
  | .waitForKey device => (.signal (g.locked.isNone && device), g)
  | .getState answer => (.state (if g.locked.isSome then none else answer), g)

end Guard

end EfiCore.Console
