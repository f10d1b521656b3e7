import Mathlib.Data.List.Basic
import EfiCore.Uni.CaseMap

/-! # Escape sequences of a terminal (`UnicodeToEfiKey`)

The two-second event is `signalled`: the answer of each `CheckEvent` by its number. `SetTimer`
does nothing here, as any answer may follow. The key FIFO is the list of the keys inserted,
and `ResetSystem` leaves a mark with the number of characters read before the call.
-/

namespace EfiCore.Console

open EfiCore.Uni (Char16 ch)

abbrev ScanCode := BitVec 16

def scanNull : ScanCode := 0x00
def scanUp : ScanCode := 0x01
def scanDown : ScanCode := 0x02
def scanRight : ScanCode := 0x03
def scanLeft : ScanCode := 0x04
def scanHome : ScanCode := 0x05
def scanEnd : ScanCode := 0x06
def scanInsert : ScanCode := 0x07
def scanDelete : ScanCode := 0x08
def scanPageUp : ScanCode := 0x09
def scanPageDown : ScanCode := 0x0a
def scanF1 : ScanCode := 0x0b
def scanF2 : ScanCode := 0x0c
def scanF3 : ScanCode := 0x0d
def scanF4 : ScanCode := 0x0e
def scanF5 : ScanCode := 0x0f
def scanF6 : ScanCode := 0x10
def scanF7 : ScanCode := 0x11
def scanF8 : ScanCode := 0x12
def scanF9 : ScanCode := 0x13
def scanF10 : ScanCode := 0x14
def scanEsc : ScanCode := 0x17

/-- `EFI_INPUT_KEY` -/
structure InputKey where
  scanCode : ScanCode
  unicodeChar : Char16
  deriving DecidableEq, Repr

def esc : Char16 := 27
def csi : Char16 := 0x9b
def del : Char16 := 127
def leftOpenBracket : Char16 := 0x5b

abbrev InputState := BitVec 32

def inputStateDefault : InputState := 0x00
def inputStateEsc : InputState := 0x01
def inputStateCsi : InputState := 0x02
def inputStateLeftOpenBracket : InputState := 0x04
def inputStateO : InputState := 0x08
def inputState2 : InputState := 0x10

abbrev ResetState := BitVec 32

def resetStateDefault : ResetState := 0x00
def resetStateEscR : ResetState := 0x01
def resetStateEscREscr : ResetState := 0x02

/-- What `UnicodeToEfiKey` uses of `TERMINAL_DEV`, and what it did so far. -/
structure Terminal where
  inputState : InputState
  resetState : ResetState
  keys : List InputKey
  /-- How many characters were read at each call of `ResetSystem`. -/
  resets : List Nat
  /-- `ASSERT (FALSE)` was reached. -/
  asserted : Bool
  /-- Characters read. -/
  read : Nat
  /-- Calls of `CheckEvent`. -/
  checks : Nat

/-- The device as the driver starts it. -/
def Terminal.initial : Terminal :=
  ⟨inputStateDefault, resetStateDefault, [], [], false, 0, 0⟩

namespace Terminal

/-- `EfiKeyFiFoInsertOneKey`, never full. -/
def insertOneKey (t : Terminal) (scanCode : ScanCode) (unicodeChar : Char16) : Terminal :=
  { t with keys := t.keys ++ [⟨scanCode, unicodeChar⟩] }

/-- Insert a key if the bits are set in `InputState`. -/
def insertIf (t : Terminal) (state : InputState) (scanCode : ScanCode)
    (unicodeChar : Char16) : Terminal :=
  if t.inputState &&& state ≠ 0 then t.insertOneKey scanCode unicodeChar else t

/-- The keys that `UnicodeToEfiKeyFlushState` inserts. -/
def insertCollected (t : Terminal) : Terminal :=
  let t := t.insertIf inputStateEsc scanEsc 0
  let t := t.insertIf inputStateCsi scanNull csi
  let t := t.insertIf inputStateLeftOpenBracket scanNull leftOpenBracket
  let t := t.insertIf inputStateO scanNull (ch 'O')
  t.insertIf inputState2 scanNull (ch '2')

/-- `UnicodeToEfiKeyFlushState` -/
def flushState (t : Terminal) : Terminal :=
  { t.insertCollected with inputState := inputStateDefault }

/-- `CheckEvent`, and what follows if the event is signalled. -/
def checkTimeOut (signalled : Nat → Bool) (t : Terminal) : Terminal :=
  let t' := { t with checks := t.checks + 1 }
  if signalled t.checks then { t'.flushState with resetState := resetStateDefault } else t'

/-- What stands behind the switch. -/
def resume (t : Terminal) (unicodeChar : Char16) (setDefaultResetState : Bool) : Terminal :=
  let t := if unicodeChar = esc then { t with inputState := inputStateEsc } else t
  let t := if unicodeChar = csi then { t with inputState := inputStateCsi } else t
  if t.inputState ≠ inputStateDefault then t
  else
    let t := if setDefaultResetState then { t with resetState := resetStateDefault } else t
    if unicodeChar = del then t.insertOneKey scanDelete 0
    else t.insertOneKey scanNull unicodeChar

/-- The end of each case: the key if there is one, and else the characters collected. -/
def finish (t : Terminal) (scanCode : ScanCode) (unicodeChar : Char16)
    (setDefaultResetState : Bool) : Terminal :=
  if scanCode ≠ scanNull then
    flushState { t.insertOneKey scanCode 0 with inputState := inputStateDefault }
  else t.flushState.resume unicodeChar setDefaultResetState

end Terminal

/-- A switch on the character, with `SCAN_NULL` by default. -/
def switch (cases : List (Char16 × ScanCode)) (unicodeChar : Char16) : ScanCode :=
  (cases.lookup unicodeChar).getD scanNull

/-- `case INPUT_STATE_ESC`, but for the letters of the reset sequence. -/
def escCases : List (Char16 × ScanCode) :=
  [(ch '1', scanF1), (ch '2', scanF2), (ch '3', scanF3), (ch '4', scanF4), (ch '5', scanF5),
    (ch '6', scanF6), (ch '7', scanF7), (ch '8', scanF8), (ch '9', scanF9), (ch '0', scanF10),
    (ch 'h', scanHome), (ch 'k', scanEnd), (ch '+', scanInsert), (ch '-', scanDelete),
    (ch '/', scanPageDown), (ch '?', scanPageUp)]

/-- `case INPUT_STATE_ESC | INPUT_STATE_O` -/
def escOCases : List (Char16 × ScanCode) :=
  [(ch 'D', scanLeft), (ch 'A', scanUp), (ch 'C', scanRight), (ch 'B', scanDown),
    (ch 'P', scanF1), (ch 'Q', scanF2), (ch 'R', scanF3), (ch 'S', scanF4), (ch 'T', scanF5),
    (ch 'U', scanF6), (ch 'V', scanF7), (ch 'W', scanF8), (ch 'X', scanF9), (ch 'Y', scanF10)]

/-- `case INPUT_STATE_ESC | INPUT_STATE_LEFTOPENBRACKET` and `case INPUT_STATE_CSI` -/
def csiCases : List (Char16 × ScanCode) :=
  [(ch 'A', scanUp), (ch 'B', scanDown), (ch 'C', scanRight), (ch 'D', scanLeft),
    (ch 'H', scanHome), (ch 'K', scanEnd), (ch 'L', scanInsert), (ch '@', scanInsert),
    (ch 'P', scanDelete), (ch 'M', scanPageUp), (ch 'V', scanPageUp), (ch '?', scanPageUp),
    (ch 'U', scanPageDown), (ch '/', scanPageDown)]

/-- The cases with `INPUT_STATE_2` -/
def csi2Cases : List (Char16 × ScanCode) := [(ch 'J', scanPageDown)]

/-- The cases with `INPUT_STATE_O` behind `[` or CSI -/
def csiOCases : List (Char16 × ScanCode) :=
  [(ch 'P', scanF1), (ch 'Q', scanF2), (ch 'R', scanF3), (ch 'w', scanF3), (ch 'S', scanF4),
    (ch 'x', scanF4), (ch 'T', scanF5), (ch 't', scanF5), (ch 'U', scanF6), (ch 'u', scanF6),
    (ch 'V', scanF7), (ch 'q', scanF7), (ch 'W', scanF8), (ch 'r', scanF8), (ch 'X', scanF9),
    (ch 'p', scanF9), (ch 'Y', scanF10), (ch 'M', scanF10)]

namespace Terminal

/-- `case 'R'` and `case 'r'` behind ESC; the flag is `SetDefaultResetState`. -/
def resetLetter (t : Terminal) (unicodeChar : Char16) : Terminal × Bool :=
  if unicodeChar = ch 'R' then
    if t.resetState = resetStateDefault then ({ t with resetState := resetStateEscR }, false)
    else if t.resetState = resetStateEscREscr then
      ({ t with resets := t.resets ++ [t.read] }, true)
    else (t, true)
  else if unicodeChar = ch 'r' then
    if t.resetState = resetStateEscR then ({ t with resetState := resetStateEscREscr }, false)
    else (t, true)
  else (t, true)

/-- `case INPUT_STATE_ESC` -/
def translateEsc (t : Terminal) (unicodeChar : Char16) : Terminal :=
  if unicodeChar = leftOpenBracket then
    { t with
      inputState := t.inputState ||| inputStateLeftOpenBracket
      resetState := resetStateDefault }
  else if unicodeChar = ch 'O' then
    { t with inputState := t.inputState ||| inputStateO, resetState := resetStateDefault }
  else
    let scanCode := switch escCases unicodeChar
    let (t, setDefaultResetState) := t.resetLetter unicodeChar
    let t := if setDefaultResetState then { t with resetState := resetStateDefault } else t
    t.finish scanCode unicodeChar setDefaultResetState

/-- The body of the loop behind the check of the event. -/
def translate (t : Terminal) (unicodeChar : Char16) : Terminal :=
  if t.inputState = inputStateDefault then t.resume unicodeChar true
  else if t.inputState = inputStateEsc then t.translateEsc unicodeChar
  else if t.inputState = inputStateEsc ||| inputStateO then
    { t with resetState := resetStateDefault }.finish (switch escOCases unicodeChar)
      unicodeChar true
  else if t.inputState = inputStateEsc ||| inputStateLeftOpenBracket ∨
      t.inputState = inputStateCsi then
    let t := { t with resetState := resetStateDefault }
    if unicodeChar = ch 'O' then { t with inputState := t.inputState ||| inputStateO }
    else if unicodeChar = ch '2' then { t with inputState := t.inputState ||| inputState2 }
    else t.finish (switch csiCases unicodeChar) unicodeChar true
  else if t.inputState = inputStateEsc ||| inputStateLeftOpenBracket ||| inputState2 ∨
      t.inputState = inputStateCsi ||| inputState2 then
    { t with resetState := resetStateDefault }.finish (switch csi2Cases unicodeChar)
      unicodeChar true
  else if t.inputState = inputStateEsc ||| inputStateLeftOpenBracket ||| inputStateO ∨
      t.inputState = inputStateCsi ||| inputStateO then
    { t with resetState := resetStateDefault }.finish (switch csiOCases unicodeChar)
      unicodeChar true
  else { t with asserted := true }.flushState.resume unicodeChar true

/-- The state in which a character is fetched: the event is checked if a sequence is begun. -/
def await (signalled : Nat → Bool) (t : Terminal) : Terminal :=
  if t.inputState ≠ inputStateDefault then t.checkTimeOut signalled else t

/-- The loop of `UnicodeToEfiKey`, over what the Unicode FIFO holds. -/
def translateAll (signalled : Nat → Bool) (t : Terminal) : List Char16 → Terminal
  | [] => t
  | unicodeChar :: unicode =>
    let t := (t.await signalled).translate unicodeChar
    translateAll signalled { t with read := t.read + 1 } unicode

/-- `UnicodeToEfiKey` -/
def unicodeToEfiKey (signalled : Nat → Bool) (t : Terminal) (unicode : List Char16) :
    Terminal :=
  (t.checkTimeOut signalled).translateAll signalled unicode

/-- The calls with the characters that the Unicode FIFO holds at each. -/
def run (signalled : Nat → Bool) (t : Terminal) (groups : List (List Char16)) : Terminal :=
  groups.foldl (unicodeToEfiKey signalled) t

end Terminal

end EfiCore.Console
