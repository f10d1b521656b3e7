import EfiCore.Lib.Ring
import EfiCore.Console.EfiKey

/-! # The FIFOs of a terminal

`RAW_DATA_FIFO`, `UNICODE_FIFO` and `EFI_KEY_FIFO` differ in their elements and in the number of
their cells; the indexes of all three are `UINT8`.
-/

namespace EfiCore.Console

open EfiCore.Lib
open EfiCore.Uni (Char16)

abbrev Byte := BitVec 8

structure Fifo (α : Type) where
  head : Nat
  tail : Nat
  data : Nat → α
  /-- What was given to it, stored or lost. -/
  inserted : List α
  /-- What it gave back. -/
  removed : List α

namespace Fifo

variable {α : Type}

def isEmpty (f : Fifo α) : Bool := f.head == f.tail

/-- For a FIFO with `maxNumber + 1` cells. -/
def isFull (maxNumber : Nat) (f : Fifo α) : Bool := (f.tail + 1) % (maxNumber + 1) == f.head

/-- The element is lost if the FIFO is full. -/
def insertOneKey (maxNumber : Nat) (f : Fifo α) (input : α) : Fifo α :=
  if f.isFull maxNumber then { f with inserted := f.inserted ++ [input] }
  else { f with
    data := Function.update f.data f.tail input
    tail := (f.tail + 1) % (maxNumber + 1) % 2 ^ 8
    inserted := f.inserted ++ [input] }

/-- The output, if the FIFO is not empty. -/
def removeOneKey (maxNumber : Nat) (f : Fifo α) : Option α × Fifo α :=
  if f.isEmpty then (none, f)
  else (some (f.data f.head), { f with
    head := (f.head + 1) % (maxNumber + 1) % 2 ^ 8
    removed := f.removed ++ [f.data f.head] })

/-- Elements given to it that it did not give back. -/
def pending (f : Fifo α) : Nat := f.inserted.length - f.removed.length

end Fifo

def rawFifoMaxNumber : Nat := 256
def fifoMaxNumber : Nat := 128

def rawFiFoInsertOneKey : Fifo Byte → Byte → Fifo Byte := Fifo.insertOneKey rawFifoMaxNumber

def rawFiFoRemoveOneKey : Fifo Byte → Option Byte × Fifo Byte :=
  Fifo.removeOneKey rawFifoMaxNumber

def unicodeFiFoInsertOneKey : Fifo Char16 → Char16 → Fifo Char16 :=
  Fifo.insertOneKey fifoMaxNumber

def unicodeFiFoRemoveOneKey : Fifo Char16 → Option Char16 × Fifo Char16 :=
  Fifo.removeOneKey fifoMaxNumber

def efiKeyFiFoInsertOneKey : Fifo InputKey → InputKey → Fifo InputKey :=
  Fifo.insertOneKey fifoMaxNumber

def efiKeyFiFoRemoveOneKey : Fifo InputKey → Option InputKey × Fifo InputKey :=
  Fifo.removeOneKey fifoMaxNumber

/-! ## What they hold -/

namespace Fifo

variable {α : Type} {maxNumber n : Nat} {f : Fifo α} {l : List α} {a : α}

/-- The ring holds `l`, and this is what was inserted and is not removed: nothing was lost,
and nothing came twice. -/
structure Carries (n : Nat) (f : Fifo α) (l : List α) : Prop where
  holds : RingHolds n f.data f.head f.tail l
  inserted_eq : f.inserted = f.removed ++ l

/-- Every element is delivered exactly once and in order, or still waits. -/
def Delivers (n : Nat) (f : Fifo α) : Prop := ∃ l, f.Carries n l

/-- The number of cells that the indexes can reach: all, or as many as a `UINT8` counts. -/
def Cells (maxNumber n : Nat) : Prop :=
  (n = maxNumber + 1 ∧ n ≤ 2 ^ 8) ∨ (n = maxNumber ∧ n = 2 ^ 8)

theorem Cells.next (h : Cells maxNumber n) {k : Nat} (hk : k < n) :
    (k + 1) % (maxNumber + 1) % 2 ^ 8 = (k + 1) % n := by
  obtain ⟨rfl, hn⟩ | ⟨rfl, hn⟩ := h
  · have hlt : (k + 1) % (maxNumber + 1) < maxNumber + 1 := Nat.mod_lt _ (by omega)
    rw [Nat.mod_eq_of_lt (by omega)]
  · have hlt : k + 1 < n + 1 := by omega
    rw [Nat.mod_eq_of_lt hlt, ← hn]

/-- The declared number of cells counts one byte too many for a raw index. -/
theorem cells_raw : Cells rawFifoMaxNumber 256 := .inr ⟨rfl, rfl⟩

theorem cells_fifo : Cells fifoMaxNumber 129 := .inl ⟨rfl, by decide⟩

namespace Carries

theorem isEmpty_iff (h : f.Carries n l) : f.isEmpty = true ↔ l = [] := by
  rw [isEmpty, beq_iff_eq]
  exact h.holds.head_eq_tail_iff

theorem not_isFull (h : f.Carries n l) (hcells : Cells maxNumber n) (hfits : l.length + 1 < n) :
    f.isFull maxNumber = false := by
  have htail := h.holds.tail_lt
  have hhead := h.holds.head_lt
  rw [isFull, beq_eq_false_iff_ne]
  intro heq
  have hnext := h.holds.next_eq_head_iff.mp
  rw [← hcells.next htail, heq, Nat.mod_eq_of_lt] at hnext
  · have := hnext rfl
    omega
  · obtain ⟨-, hn⟩ | ⟨-, hn⟩ := hcells <;> omega

theorem insert (h : f.Carries n l) (hcells : Cells maxNumber n) (hfits : l.length + 1 < n)
    (a : α) : (f.insertOneKey maxNumber a).Carries n (l ++ [a]) := by
  rw [insertOneKey, h.not_isFull hcells hfits, if_neg Bool.false_ne_true,
    hcells.next h.holds.tail_lt]
  refine ⟨h.holds.push hfits a, ?_⟩
  simp only
  rw [h.inserted_eq, List.append_assoc]

theorem remove_nil (h : f.Carries n []) : f.removeOneKey maxNumber = (none, f) := by
  rw [removeOneKey, if_pos (h.isEmpty_iff.mpr rfl)]

theorem remove_cons (h : f.Carries n (a :: l)) (hcells : Cells maxNumber n) :
    ∃ f', f.removeOneKey maxNumber = (some a, f') ∧ f'.Carries n l ∧
      f'.inserted = f.inserted := by
  have hempty : ¬f.isEmpty = true := by
    rw [h.isEmpty_iff]
    exact List.cons_ne_nil a l
  obtain ⟨hcell, hrest⟩ := h.holds.pop
  rw [removeOneKey, if_neg hempty, hcells.next h.holds.head_lt, hcell]
  refine ⟨_, rfl, ⟨hrest, ?_⟩, rfl⟩
  simp only
  rw [h.inserted_eq, List.append_assoc, List.singleton_append]

/-- A key read by a caller; the FIFO may be empty. -/
theorem remove (h : f.Carries n l) (hcells : Cells maxNumber n) :
    (f.removeOneKey maxNumber).2.Carries n l.tail := by
  cases l with
  | nil =>
    rw [h.remove_nil]
    exact h
  | cons a l =>
    obtain ⟨f', hremove, hcarries, -⟩ := h.remove_cons hcells
    rw [hremove]
    exact hcarries

theorem insertAll (h : f.Carries n l) (hcells : Cells maxNumber n) {as : List α}
    (hfits : l.length + as.length < n) :
    (as.foldl (insertOneKey maxNumber) f).Carries n (l ++ as) := by
  induction as generalizing f l with
  | nil =>
    rw [List.append_nil]
    exact h
  | cons a as ih =>
    rw [List.length_cons] at hfits
    have hnext := h.insert hcells (by omega) a
    have hall := ih hnext (by
      rw [List.length_append, List.length_singleton]
      omega)
    rwa [List.append_assoc, List.singleton_append] at hall

end Carries

theorem insertOneKey_inserted (maxNumber : Nat) (f : Fifo α) (a : α) :
    (f.insertOneKey maxNumber a).inserted = f.inserted ++ [a] := by
  rw [insertOneKey]
  split <;> rfl

theorem insertAll_inserted (maxNumber : Nat) (f : Fifo α) (as : List α) :
    (as.foldl (insertOneKey maxNumber) f).inserted = f.inserted ++ as := by
  induction as generalizing f with
  | nil => rw [List.append_nil, List.foldl_nil]
  | cons a as ih =>
    rw [List.foldl_cons, ih, insertOneKey_inserted, List.append_assoc, List.singleton_append]

theorem insertOneKey_removed (maxNumber : Nat) (f : Fifo α) (a : α) :
    (f.insertOneKey maxNumber a).removed = f.removed := by
  rw [insertOneKey]
  split <;> rfl

theorem insertAll_removed (maxNumber : Nat) (f : Fifo α) (as : List α) :
    (as.foldl (insertOneKey maxNumber) f).removed = f.removed := by
  induction as generalizing f with
  | nil => rfl
  | cons a as ih => rw [List.foldl_cons, ih, insertOneKey_removed]

theorem removeOneKey_inserted (maxNumber : Nat) (f : Fifo α) :
    (f.removeOneKey maxNumber).2.inserted = f.inserted := by
  rw [removeOneKey]
  split <;> rfl

/-- Also when some of the elements are lost. -/
theorem Carries.insertAll_pending (h : f.Carries n l) (maxNumber : Nat) (as : List α) :
    (as.foldl (insertOneKey maxNumber) f).pending = l.length + as.length := by
  rw [pending, insertAll_inserted, insertAll_removed, h.inserted_eq, List.length_append,
    List.length_append]
  omega

end Fifo

end EfiCore.Console
