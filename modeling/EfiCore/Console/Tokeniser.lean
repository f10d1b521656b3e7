import EfiCore.Console.EfiKey

/-! # The table of escape sequences

What `UnicodeToEfiKey` is for, read from the table of its comment, and what the code does on
every run.
-/

namespace EfiCore.Console

open EfiCore.Uni (Char16 ch)

/-! ## The reference -/

section Table

def escSeq (chars : List Char) : List Char16 := esc :: chars.map ch

def csiSeq (chars : List Char) : List Char16 := csi :: chars.map ch

/-- The rows of the table with their scan codes, without the row of ESC itself. -/
def keyTable : List (ScanCode × List (List Char16)) :=
  [(0x01, [escSeq ['[', 'A'], csiSeq ['A'], escSeq ['O', 'A']]),
    (0x02, [escSeq ['[', 'B'], csiSeq ['B'], escSeq ['O', 'B']]),
    (0x03, [escSeq ['[', 'C'], csiSeq ['C'], escSeq ['O', 'C']]),
    (0x04, [escSeq ['[', 'D'], csiSeq ['D'], escSeq ['O', 'D']]),
    (0x05, [escSeq ['[', 'H'], csiSeq ['H'], escSeq ['h']]),
    (0x06, [escSeq ['[', 'K'], csiSeq ['K'], escSeq ['k']]),
    (0x07, [escSeq ['[', '@'], csiSeq ['@'], escSeq ['[', 'L'], csiSeq ['L'], escSeq ['+']]),
    (0x08, [escSeq ['[', 'P'], csiSeq ['P'], escSeq ['-'], [del]]),
    (0x09, [escSeq ['[', '?'], csiSeq ['?'], escSeq ['[', 'V'], csiSeq ['V'], escSeq ['[', 'M'],
      csiSeq ['M'], escSeq ['?']]),
    (0x0a, [escSeq ['[', '/'], csiSeq ['/'], escSeq ['[', 'U'], csiSeq ['U'],
      escSeq ['[', '2', 'J'], csiSeq ['2', 'J'], escSeq ['/']]),
    (0x0b, [escSeq ['[', 'O', 'P'], csiSeq ['O', 'P'], escSeq ['O', 'P'], escSeq ['1']]),
    (0x0c, [escSeq ['[', 'O', 'Q'], csiSeq ['O', 'Q'], escSeq ['O', 'Q'], escSeq ['2']]),
    (0x0d, [escSeq ['[', 'O', 'w'], csiSeq ['O', 'w'], escSeq ['[', 'O', 'R'],
      csiSeq ['O', 'R'], escSeq ['O', 'R'], escSeq ['3']]),
    (0x0e, [escSeq ['[', 'O', 'x'], csiSeq ['O', 'x'], escSeq ['[', 'O', 'S'],
      csiSeq ['O', 'S'], escSeq ['O', 'S'], escSeq ['4']]),
    (0x0f, [escSeq ['[', 'O', 't'], csiSeq ['O', 't'], escSeq ['[', 'O', 'T'],
      csiSeq ['O', 'T'], escSeq ['O', 'T'], escSeq ['5']]),
    (0x10, [escSeq ['[', 'O', 'u'], csiSeq ['O', 'u'], escSeq ['[', 'O', 'U'],
      csiSeq ['O', 'U'], escSeq ['O', 'U'], escSeq ['6']]),
    (0x11, [escSeq ['[', 'O', 'q'], csiSeq ['O', 'q'], escSeq ['[', 'O', 'V'],
      csiSeq ['O', 'V'], escSeq ['O', 'V'], escSeq ['7']]),
    (0x12, [escSeq ['[', 'O', 'r'], csiSeq ['O', 'r'], escSeq ['[', 'O', 'W'],
      csiSeq ['O', 'W'], escSeq ['O', 'W'], escSeq ['8']]),
    (0x13, [escSeq ['[', 'O', 'p'], csiSeq ['O', 'p'], escSeq ['[', 'O', 'X'],
      csiSeq ['O', 'X'], escSeq ['O', 'X'], escSeq ['9']]),
    (0x14, [escSeq ['[', 'O', 'M'], csiSeq ['O', 'M'], escSeq ['[', 'O', 'Y'],
      csiSeq ['O', 'Y'], escSeq ['O', 'Y'], escSeq ['0']])]

@[irreducible] def sequences : List (List Char16 × ScanCode) :=
  keyTable.flatMap fun row => row.2.map fun sequence => (sequence, row.1)

/-- `ESC R ESC r ESC R` -/
def resetSequence : List Char16 := [esc, ch 'R', esc, ch 'r', esc, ch 'R']

end Table

def rawKey (c : Char16) : InputKey := if c = esc then ⟨0x17, 0⟩ else ⟨0, c⟩

/-- Some sequence goes on behind these characters. -/
def Continues (collected : List Char16) : Prop :=
  ∃ entry ∈ sequences, collected <+: entry.1 ∧ collected ≠ entry.1

instance (collected : List Char16) : Decidable (Continues collected) :=
  decidable_of_iff
    (sequences.any (fun entry => collected.isPrefixOf entry.1 && collected != entry.1) = true)
    (by simp [Continues])

/-- The keys for a character with nothing collected before, and what is collected then. -/
def scan (c : Char16) : List InputKey × List Char16 :=
  match sequences.lookup [c] with
  | some scanCode => ([⟨scanCode, 0⟩], [])
  | none => if Continues [c] then ([], [c]) else ([rawKey c], [])

/-- The keys for the next character, and what is collected then. -/
def tokenise (collected : List Char16) (c : Char16) : List InputKey × List Char16 :=
  match sequences.lookup (collected ++ [c]) with
  | some scanCode => ([⟨scanCode, 0⟩], [])
  | none =>
    if Continues (collected ++ [c]) then ([], collected ++ [c])
    else (collected.map rawKey ++ (scan c).1, (scan c).2)

/-- The state of the reference. -/
structure Reference where
  collected : List Char16
  /-- The characters since the event was last found signalled, the latest first. -/
  arrived : List Char16
  keys : List InputKey
  resets : List Nat
  read : Nat
  checks : Nat

def Reference.initial : Reference := ⟨[], [], [], [], 0, 0⟩

namespace Reference

def checkTimeOut (signalled : Nat → Bool) (r : Reference) : Reference :=
  if signalled r.checks then
    { r with
      collected := []
      arrived := []
      keys := r.keys ++ r.collected.map rawKey
      checks := r.checks + 1 }
  else { r with checks := r.checks + 1 }

def await (signalled : Nat → Bool) (r : Reference) : Reference :=
  if r.collected ≠ [] then r.checkTimeOut signalled else r

/-- A character arrives. -/
def step (r : Reference) (c : Char16) : Reference :=
  { r with
    collected := (tokenise r.collected c).2
    arrived := c :: r.arrived
    keys := r.keys ++ (tokenise r.collected c).1
    resets := if resetSequence.reverse <+: c :: r.arrived then r.resets ++ [r.read] else r.resets
    read := r.read + 1 }

def stepAll (signalled : Nat → Bool) (r : Reference) : List Char16 → Reference
  | [] => r
  | c :: unicode => stepAll signalled ((r.await signalled).step c) unicode

def call (signalled : Nat → Bool) (r : Reference) (unicode : List Char16) : Reference :=
  (r.checkTimeOut signalled).stepAll signalled unicode

def run (signalled : Nat → Bool) (r : Reference) (groups : List (List Char16)) : Reference :=
  groups.foldl (call signalled) r

end Reference

end EfiCore.Console
