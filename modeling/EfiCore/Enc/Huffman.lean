import EfiCore.Lib.Kraft
import Mathlib.Algebra.BigOperators.Group.Multiset.Basic
import Mathlib.Logic.Function.Basic
import Mathlib.Order.Interval.Finset.Nat

/-! # The code lengths of the compressor

`MakeTree` of `compress.c`, with `DownHeap`, `CountLen`, `MakeLen` and `MakeCode`.  `none` stands
for a recursion or a loop without an end.

The heap keeps its entries, whatever their order.  Each entry is the root of a tree, and the trees
have the symbols that are in use as their leaves.
-/

namespace EfiCore.Enc

open EfiCore.Lib

/-! ## The heap -/

/-- `mHeap` and `mHeapSize` -/
structure Heap where
  entry : Nat → Nat
  size : Nat

def Heap.set (h : Heap) (i k : Nat) : Heap := { h with entry := Function.update h.entry i k }

/-- The loop of `DownHeap`, with the entry `k` on its way down at the place `i`.  The place at least
    doubles with each turn, so `mHeapSize` turns are enough. -/
def downLoop (freq : Nat → Nat) (k : Nat) : Nat → Heap → Nat → Heap
  | 0, h, i => h.set i k
  | fuel + 1, h, i =>
    if h.size < 2 * i then h.set i k
    else
      let j :=
        if 2 * i < h.size ∧ freq (h.entry (2 * i + 1)) < freq (h.entry (2 * i)) then 2 * i + 1
        else 2 * i
      if freq k ≤ freq (h.entry j) then h.set i k
      else downLoop freq k fuel (h.set i (h.entry j)) j

/-- `DownHeap` -/
def downHeap (freq : Nat → Nat) (h : Heap) (i : Nat) : Heap :=
  downLoop freq (h.entry i) h.size h i

/-- The loop that makes the priority queue, from the place `i` down. -/
def heapify (freq : Nat → Nat) : Nat → Heap → Heap
  | 0, h => h
  | i + 1, h => heapify freq i (downHeap freq h (i + 1))

/-! ## The tree -/

/-- What the `do` loop of `MakeTree` changes.  `sorted` is what it writes to `CodeParm`. -/
structure Build where
  heap : Heap
  avail : Nat
  freq : Nat → Nat
  left : Nat → Nat
  right : Nat → Nat
  sorted : List Nat

/-- The symbol `i` is written to `CodeParm`, a node is not. -/
def Build.sort (b : Build) (n i : Nat) : Build :=
  if i < n then { b with sorted := b.sorted ++ [i] } else b

/-- The last entry goes to the top of the heap, and down. -/
def Build.takeLast (b : Build) : Build :=
  let h := b.heap.set 1 (b.heap.entry b.heap.size)
  { b with heap := downHeap b.freq { h with size := h.size - 1 } 1 }

/-- The nodes `i` and `j` become one, in the place of `j` at the top. -/
def Build.join (b : Build) (i j : Nat) : Build :=
  let freq := Function.update b.freq b.avail ((b.freq i + b.freq j) % 2 ^ 16)
  { b with
    heap := downHeap freq (b.heap.set 1 b.avail) 1
    avail := b.avail + 1
    freq := freq
    left := Function.update b.left b.avail i
    right := Function.update b.right b.avail j }

/-- A turn of the `do` loop. -/
def Build.merge (b : Build) (n : Nat) : Build :=
  let i := b.heap.entry 1
  let b := (b.sort n i).takeLast
  let j := b.heap.entry 1
  (b.sort n j).join i j

/-- The `do` loop.  Each turn takes an entry from the heap. -/
def Build.loop (n : Nat) : Nat → Build → Build
  | 0, b => b
  | fuel + 1, b =>
    let b := b.merge n
    if 1 < b.heap.size then Build.loop n fuel b else b

/-! ## Lengths -/

/-- `CountLen`, with `Depth` as an argument.  The nodes of a tree have greater numbers than the ones
    below them. -/
def countLen (n : Nat) (left right : Nat → Nat) :
    Nat → Nat → Nat → (Nat → Nat) → Option (Nat → Nat)
  | 0, _, _, _ => none
  | fuel + 1, depth, i, lenCnt =>
    if i < n then
      let d := if depth < 16 then depth else 16
      some (Function.update lenCnt d ((lenCnt d + 1) % 2 ^ 16))
    else
      (countLen n left right fuel (depth + 1) (left i) lenCnt).bind
        (countLen n left right fuel (depth + 1) (right i))

/-- `Cum` -/
def codeSpace (lenCnt : Nat → Nat) : Nat :=
  ((List.range 16).map fun d => lenCnt (d + 1) <<< (15 - d)).sum % 2 ^ 32

/-- The greatest length up to `i` that a word has. -/
def longestWord (lenCnt : Nat → Nat) : Nat → Nat
  | 0 => 0
  | i + 1 => if lenCnt (i + 1) ≠ 0 then i + 1 else longestWord lenCnt i

/-- The loop that adjusts the counts.  `Cum` is a `UINT32` that goes down by 1, so there are fewer
    than `2 ^ 32` turns. -/
def adjustLoop : Nat → (Nat → Nat) → Nat → Option (Nat → Nat)
  | 0, _, _ => none
  | fuel + 1, lenCnt, cum =>
    if cum = 2 ^ 16 then some lenCnt
    else
      let lenCnt := Function.update lenCnt 16 ((lenCnt 16 + 2 ^ 16 - 1) % 2 ^ 16)
      let i := longestWord lenCnt 15
      let cum := (cum + 2 ^ 32 - 1) % 2 ^ 32
      if i = 0 then adjustLoop fuel lenCnt cum
      else
        -- a word of this length becomes two that are longer by a bit
        let lenCnt := Function.update lenCnt i (lenCnt i - 1)
        adjustLoop fuel (Function.update lenCnt (i + 1) ((lenCnt (i + 1) + 2) % 2 ^ 16)) cum

/-- The lengths in the order in which they are given away, the longest ones first. -/
def lengthsOf (lenCnt : Nat → Nat) : List Nat :=
  (List.range 16).flatMap fun t => List.replicate (lenCnt (16 - t)) (16 - t)

/-- The loops that give the lengths to the sorted symbols. -/
def assignLens (len : Nat → Nat) (pairs : List (Nat × Nat)) : Nat → Nat :=
  pairs.foldl (fun len p => Function.update len p.1 p.2) len

/-- `MakeLen`: the counts and the lengths. -/
def makeLen (n root : Nat) (left right : Nat → Nat) (sorted : List Nat) (len : Nat → Nat) :
    Option ((Nat → Nat) × (Nat → Nat)) := do
  let lenCnt ← countLen n left right (root + 1) 0 root fun _ => 0
  let lenCnt ← adjustLoop (2 ^ 32) lenCnt (codeSpace lenCnt)
  pure (lenCnt, assignLens len (sorted.zip (lengthsOf lenCnt)))

/-! ## Codes -/

/-- `Start` -/
def wordStart (lenCnt : Nat → Nat) : Nat → Nat
  | 0 => 0
  | i + 1 => if i = 0 then 0 else ((wordStart lenCnt i + lenCnt i) <<< 1) % 2 ^ 16

/-- The loop over the symbols. -/
def codeLoop (len : Nat → Nat) : List Nat → (Nat → Nat) → (Nat → Nat) → Nat → Nat
  | [], _, code => code
  | i :: rest, start, code =>
    codeLoop len rest (Function.update start (len i) ((start (len i) + 1) % 2 ^ 16))
      (Function.update code i (start (len i)))

/-- `MakeCode`.  `Start[0]` is not set, so symbols without a word get what it is at first. -/
def makeCode (unset n : Nat) (lenCnt len code : Nat → Nat) : Nat → Nat :=
  codeLoop len (List.range n) (Function.update (wordStart lenCnt) 0 unset) code

/-! ## MakeTree -/

/-- The root that `MakeTree` returns, and what it writes to its arrays. -/
structure Tree where
  root : Nat
  freq : Nat → Nat
  len : Nat → Nat
  code : Nat → Nat

/-- The symbols that are in use. -/
def usedSymbols (n : Nat) (freq : Nat → Nat) : List Nat :=
  (List.range n).filter fun i => freq i ≠ 0

/-- `MakeTree` -/
def makeTree (unset n : Nat) (freq len code : Nat → Nat) : Option Tree :=
  let used := usedSymbols n freq
  let len i := if i < n then 0 else len i
  let h : Heap := ⟨fun i => used.getD (i - 1) 0, used.length⟩
  if h.size < 2 then some ⟨h.entry 1, freq, len, Function.update code (h.entry 1) 0⟩
  else
    -- `mLeft` and `mRight` are read where they have been written
    let b := Build.loop n h.size
      ⟨heapify freq (h.size / 2) h, n, freq, fun _ => 0, fun _ => 0, []⟩
    let root := b.avail - 1
    (makeLen n root b.left b.right b.sorted len).map fun r =>
      ⟨root, b.freq, r.2, makeCode unset n r.1 r.2 code⟩

/-! ## The heap keeps its entries -/

/-- The entries of the heap. -/
def Heap.entries (h : Heap) : Multiset Nat := (Finset.Icc 1 h.size).val.map h.entry

section Heap

variable {h : Heap} {freq : Nat → Nat} {i j k fuel : Nat}

/-- Two places that change their entries. -/
theorem map_swap {s : Finset Nat} {f g : Nat → Nat} (hi : i ∈ s) (hj : j ∈ s) (hij : i ≠ j)
    (hfi : f i = g j) (hfj : f j = g i) (hf : ∀ x ∈ s, x ≠ i → x ≠ j → f x = g x) :
    s.val.map f = s.val.map g := by
  have hmem : j ∈ s.erase i := Finset.mem_erase.mpr ⟨hij.symm, hj⟩
  have hsplit : s.val = i ::ₘ j ::ₘ ((s.erase i).erase j).val := by
    rw [Finset.erase_val, Multiset.cons_erase hmem, Finset.erase_val, Multiset.cons_erase hi]
  have hrest : ((s.erase i).erase j).val.map f = ((s.erase i).erase j).val.map g := by
    refine Multiset.map_congr rfl fun x hx => ?_
    obtain ⟨hxj, hx⟩ := Finset.mem_erase.mp hx
    obtain ⟨hxi, hx⟩ := Finset.mem_erase.mp hx
    exact hf x hx hxi hxj
  rw [hsplit, Multiset.map_cons, Multiset.map_cons, Multiset.map_cons, Multiset.map_cons, hrest,
    hfi, hfj, Multiset.cons_swap]

theorem map_eq_cons {s : Finset Nat} (hi : i ∈ s) (f : Nat → Nat) :
    s.val.map f = f i ::ₘ (s.erase i).val.map f := by
  rw [← Multiset.map_cons, Finset.erase_val, Multiset.cons_erase hi]

theorem map_erase_update (s : Finset Nat) (f : Nat → Nat) (i v : Nat) :
    (s.erase i).val.map (Function.update f i v) = (s.erase i).val.map f := by
  refine Multiset.map_congr rfl fun x hx => ?_
  rw [Function.update_of_ne (Finset.mem_erase.mp hx).1]

theorem Heap.set_self (h : Heap) (i : Nat) : h.set i (h.entry i) = h := by
  rw [Heap.set, Function.update_eq_self]

theorem downLoop_entries (freq : Nat → Nat) (k fuel : Nat) (hi : 1 ≤ i) (hsize : i ≤ h.size) :
    (downLoop freq k fuel h i).size = h.size ∧
      (downLoop freq k fuel h i).entries = (h.set i k).entries := by
  induction fuel generalizing h i with
  | zero => exact ⟨rfl, rfl⟩
  | succ fuel ih =>
    rw [downLoop]
    by_cases hend : h.size < 2 * i
    · rw [if_pos hend]
      exact ⟨rfl, rfl⟩
    rw [if_neg hend]
    dsimp only
    generalize hj : (if 2 * i < h.size ∧ freq (h.entry (2 * i + 1)) < freq (h.entry (2 * i)) then
      2 * i + 1 else 2 * i) = j
    have hplace : i < j ∧ j ≤ h.size := by
      subst hj
      split <;> omega
    split
    · exact ⟨rfl, rfl⟩
    · obtain ⟨hsize', hentries⟩ := ih (h := h.set i (h.entry j)) (i := j) (by omega) hplace.2
      refine ⟨hsize', hentries.trans ?_⟩
      -- `k` and the entry at `j` change their places
      refine map_swap (i := i) (j := j) (Finset.mem_Icc.mpr ⟨hi, hsize⟩)
        (Finset.mem_Icc.mpr ⟨by omega, hplace.2⟩) (by omega) ?_ ?_ fun x _ hxi hxj => ?_
      · simp [Heap.set, Function.update_of_ne (show i ≠ j by omega),
          Function.update_of_ne (show j ≠ i by omega)]
      · simp [Heap.set]
      · simp [Heap.set, Function.update_of_ne hxi, Function.update_of_ne hxj]

theorem downHeap_entries (freq : Nat → Nat) (hi : 1 ≤ i) (hsize : i ≤ h.size) :
    (downHeap freq h i).size = h.size ∧ (downHeap freq h i).entries = h.entries := by
  have hdown := downLoop_entries freq (h.entry i) h.size hi hsize
  rwa [h.set_self] at hdown

theorem heapify_entries (freq : Nat → Nat) (hsize : i ≤ h.size) :
    (heapify freq i h).size = h.size ∧ (heapify freq i h).entries = h.entries := by
  induction i generalizing h with
  | zero => exact ⟨rfl, rfl⟩
  | succ i ih =>
    obtain ⟨hsame, hentries⟩ := downHeap_entries freq (Nat.le_add_left 1 i) hsize
    obtain ⟨hsame', hentries'⟩ := ih (h := downHeap freq h (i + 1)) (by omega)
    exact ⟨hsame'.trans hsame, hentries'.trans hentries⟩

theorem Heap.entries_set_top (hsize : 1 ≤ h.size) (k : Nat) :
    ∃ rest, h.entries = h.entry 1 ::ₘ rest ∧ (h.set 1 k).entries = k ::ₘ rest := by
  have htop : 1 ∈ Finset.Icc 1 h.size := Finset.mem_Icc.mpr ⟨Nat.le_refl 1, hsize⟩
  refine ⟨((Finset.Icc 1 h.size).erase 1).val.map h.entry, map_eq_cons htop _, ?_⟩
  show (Finset.Icc 1 h.size).val.map (Function.update h.entry 1 k) = _
  rw [map_eq_cons htop, map_erase_update, Function.update_self]

/-- The entry at the top is gone. -/
theorem takeLast_entries {b : Build} (hsize : 2 ≤ b.heap.size) :
    b.takeLast.heap.size = b.heap.size - 1 ∧
      b.heap.entries = b.heap.entry 1 ::ₘ b.takeLast.heap.entries := by
  obtain ⟨hsame, hentries⟩ := downHeap_entries b.freq
    (h := { b.heap.set 1 (b.heap.entry b.heap.size) with size := b.heap.size - 1 }) (Nat.le_refl 1)
    (by show 1 ≤ b.heap.size - 1; omega)
  refine ⟨hsame, ?_⟩
  show b.heap.entries = b.heap.entry 1 ::ₘ Heap.entries (downHeap _ _ _)
  rw [show (b.heap.set 1 (b.heap.entry b.heap.size)).size - 1 = b.heap.size - 1 from rfl, hentries]
  have hlast : b.heap.size ∈ Finset.Icc 1 b.heap.size :=
    Finset.mem_Icc.mpr ⟨by omega, Nat.le_refl _⟩
  have hbelow : Finset.Icc 1 (b.heap.size - 1) = (Finset.Icc 1 b.heap.size).erase b.heap.size := by
    ext x
    simp
    omega
  -- the top and the last entry change their places, and the last one goes
  let swapped := Function.update (b.heap.set 1 (b.heap.entry b.heap.size)).entry b.heap.size
    (b.heap.entry 1)
  have hswap : b.heap.entries = (Finset.Icc 1 b.heap.size).val.map swapped := by
    refine map_swap (i := 1) (j := b.heap.size) (Finset.mem_Icc.mpr ⟨Nat.le_refl 1, by omega⟩) hlast
      (by omega) ?_ ?_ fun x _ hx1 hxlast => ?_
    · simp [swapped]
    · simp [swapped, Heap.set, Function.update_of_ne (show 1 ≠ b.heap.size by omega)]
    · simp [swapped, Heap.set, Function.update_of_ne hx1, Function.update_of_ne hxlast]
  have htop : swapped b.heap.size = b.heap.entry 1 := Function.update_self ..
  rw [hswap, map_eq_cons hlast, map_erase_update, htop, ← hbelow]
  rfl

/-- The entry at the top is replaced. -/
theorem join_entries {b : Build} (hsize : 1 ≤ b.heap.size) :
    ∃ rest, (b.join i j).heap.size = b.heap.size ∧ b.heap.entries = b.heap.entry 1 ::ₘ rest ∧
      (b.join i j).heap.entries = b.avail ::ₘ rest := by
  obtain ⟨rest, hold, hnew⟩ := b.heap.entries_set_top hsize b.avail
  obtain ⟨hsame, hentries⟩ := downHeap_entries (b.join i j).freq
    (h := b.heap.set 1 b.avail) (Nat.le_refl 1) hsize
  exact ⟨rest, hsame, hold, hentries.trans hnew⟩

@[simp] theorem Heap.card_entries (h : Heap) : h.entries.card = h.size := by
  rw [Heap.entries, Multiset.card_map, Finset.card_val, Nat.card_Icc, Nat.add_sub_cancel]

end Heap

/-! ## The forest -/

/-- `mLeft` and `mRight` have this tree at the node `i`. -/
inductive Hangs (n : Nat) (left right : Nat → Nat) : Nat → CodeTree Nat → Prop
  | leaf {i : Nat} : i < n → Hangs n left right i (.leaf i)
  | node {k : Nat} {l r : CodeTree Nat} : n ≤ k → left k < k → right k < k →
      Hangs n left right (left k) l → Hangs n left right (right k) r →
      Hangs n left right k (.node l r)

theorem Hangs.update {n i k : Nat} {left right : Nat → Nat} {t : CodeTree Nat}
    (h : Hangs n left right i t) (hik : i < k) (a b : Nat) :
    Hangs n (Function.update left k a) (Function.update right k b) i t := by
  induction h with
  | leaf hi => exact .leaf hi
  | @node j l r hn hleft hright hl hr ihl ihr =>
    have hl' : Function.update left k a j = left j := Function.update_of_ne (by omega) _ _
    have hr' : Function.update right k b j = right j := Function.update_of_ne (by omega) _ _
    refine .node hn (by omega) (by omega) ?_ ?_
    · rw [hl']
      exact ihl (by omega)
    · rw [hr']
      exact ihr (by omega)

/-- The symbols among the entries. -/
def symbolsOf (n : Nat) (m : Multiset Nat) : Multiset Nat := m.filter (· < n)

theorem symbolsOf_cons_of_lt {n i : Nat} (m : Multiset Nat) (hi : i < n) :
    symbolsOf n (i ::ₘ m) = i ::ₘ symbolsOf n m :=
  Multiset.filter_cons_of_pos (p := (· < n)) m hi

theorem symbolsOf_cons_of_le {n i : Nat} (m : Multiset Nat) (hi : n ≤ i) :
    symbolsOf n (i ::ₘ m) = symbolsOf n m :=
  Multiset.filter_cons_of_neg (p := (· < n)) m (Nat.not_lt.mpr hi)

/-- The number of uses of a tree's symbols. -/
def weightOf (freq : Nat → Nat) (t : CodeTree Nat) : Nat := (t.leaves.map freq).sum

/-- The trees at the entries of the heap. -/
structure Build.Grown (n : Nat) (freq : Nat → Nat) (used : Multiset Nat) (b : Build)
    (forest : Multiset (Nat × CodeTree Nat)) : Prop where
  roots : forest.map Prod.fst = b.heap.entries
  hangs : ∀ p ∈ forest, Hangs n b.left b.right p.1 p.2
  below : ∀ p ∈ forest, p.1 < b.avail
  leaves : forest.bind (fun p => (p.2.leaves : Multiset Nat)) = used
  sorted : (b.sorted : Multiset Nat) + symbolsOf n b.heap.entries = used
  total : ∀ p ∈ forest, b.freq p.1 % 2 ^ 16 = weightOf freq p.2 % 2 ^ 16
  avail : n ≤ b.avail

section Forest

variable {n : Nat} {freq : Nat → Nat} {used : Multiset Nat} {b : Build}
  {forest : Multiset (Nat × CodeTree Nat)}

theorem sort_sorted (b : Build) (n i : Nat) (m : Multiset Nat) :
    ((b.sort n i).sorted : Multiset Nat) + symbolsOf n m = b.sorted + symbolsOf n (i ::ₘ m) := by
  by_cases hi : i < n
  · rw [Build.sort, if_pos hi, symbolsOf_cons_of_lt m hi, ← Multiset.singleton_add, ← add_assoc,
      ← Multiset.coe_singleton, Multiset.coe_add]
  · rw [Build.sort, if_neg hi, symbolsOf_cons_of_le m (Nat.not_lt.mp hi)]

/-- What a turn does. -/
structure Build.Merged (n : Nat) (b b' : Build) (i j : Nat) (rest : Multiset Nat) : Prop where
  before : b.heap.entries = i ::ₘ j ::ₘ rest
  after : b'.heap.entries = b.avail ::ₘ rest
  size : b'.heap.size + 1 = b.heap.size
  avail : b'.avail = b.avail + 1
  freq : b'.freq = Function.update b.freq b.avail ((b.freq i + b.freq j) % 2 ^ 16)
  left : b'.left = Function.update b.left b.avail i
  right : b'.right = Function.update b.right b.avail j
  sorted : (b'.sorted : Multiset Nat) + symbolsOf n rest = b.sorted + symbolsOf n b.heap.entries

theorem merge_merged (n : Nat) (hsize : 2 ≤ b.heap.size) :
    ∃ i j rest, b.Merged n (b.merge n) i j rest := by
  have hsort : ∀ (b : Build) (i : Nat), (b.sort n i).heap = b.heap ∧ (b.sort n i).avail = b.avail ∧
      (b.sort n i).freq = b.freq ∧ (b.sort n i).left = b.left ∧ (b.sort n i).right = b.right := by
    intro b i
    rw [Build.sort]
    split <;> exact ⟨rfl, rfl, rfl, rfl, rfl⟩
  let b₁ := b.sort n (b.heap.entry 1)
  let b₂ := b₁.takeLast
  let b₃ := b₂.sort n (b₂.heap.entry 1)
  obtain ⟨hheap₁, havail₁, hfreq₁, hleft₁, hright₁⟩ := hsort b (b.heap.entry 1)
  obtain ⟨hheap₃, havail₃, hfreq₃, hleft₃, hright₃⟩ := hsort b₂ (b₂.heap.entry 1)
  obtain ⟨hsize₂, hentries₂⟩ := takeLast_entries (b := b₁) (by rw [hheap₁]; exact hsize)
  rw [hheap₁] at hsize₂ hentries₂
  obtain ⟨rest, hsize₄, hentries₃, hentries₄⟩ := join_entries (i := b.heap.entry 1)
    (j := b₂.heap.entry 1) (b := b₃) (by rw [hheap₃, hsize₂]; omega)
  rw [hheap₃] at hsize₄ hentries₃
  have hsorted₁ := sort_sorted b n (b.heap.entry 1) (b₂.heap.entry 1 ::ₘ rest)
  have hsorted₃ := sort_sorted b₂ n (b₂.heap.entry 1) rest
  refine ⟨b.heap.entry 1, b₂.heap.entry 1, rest, ?_, ?_, ?_, ?_, ?_, ?_, ?_, ?_⟩
  · rw [hentries₂, hentries₃]
  · rw [← havail₁, ← show b₂.avail = b₁.avail from rfl, ← havail₃]
    exact hentries₄
  · show ((b₃.join _ _).heap.size) + 1 = _
    rw [hsize₄, hsize₂]
    omega
  · show b₃.avail + 1 = _
    rw [havail₃, ← havail₁]
    rfl
  · show Function.update b₃.freq b₃.avail _ = _
    rw [hfreq₃, havail₃, ← hfreq₁, ← havail₁]
    rfl
  · show Function.update b₃.left b₃.avail _ = _
    rw [hleft₃, havail₃, ← hleft₁, ← havail₁]
    rfl
  · show Function.update b₃.right b₃.avail _ = _
    rw [hright₃, havail₃, ← hright₁, ← havail₁]
    rfl
  · show (b₃.sorted : Multiset Nat) + _ = _
    rw [hsorted₃, hentries₂, hentries₃, ← hsorted₁]
    rfl

theorem Build.Grown.merge (h : b.Grown n freq used forest) {b' : Build} {i j : Nat}
    {rest : Multiset Nat} (hmerged : b.Merged n b' i j rest) :
    ∃ forest', b'.Grown n freq used forest' := by
  classical
  -- the two entries that are taken, and their trees
  have hroots := h.roots
  rw [hmerged.before] at hroots
  obtain ⟨⟨i', l⟩, hl, rfl, hrest⟩ := (Multiset.map_eq_cons _ _ _ _).mpr hroots
  obtain ⟨forest, rfl⟩ := Multiset.exists_cons_of_mem hl
  rw [Multiset.erase_cons_head] at hrest
  obtain ⟨⟨j', r⟩, hr, rfl, hrest'⟩ := (Multiset.map_eq_cons _ _ _ _).mpr hrest
  obtain ⟨forest, rfl⟩ := Multiset.exists_cons_of_mem hr
  rw [Multiset.erase_cons_head] at hrest'
  have hbelow := h.below
  have htotal := h.total
  have hhangs := h.hangs
  have hleaves := h.leaves
  simp only [Multiset.mem_cons, forall_eq_or_imp] at hbelow htotal hhangs
  obtain ⟨hi, hj, hbelow⟩ := hbelow
  obtain ⟨hwl, hwr, htotal⟩ := htotal
  obtain ⟨hhl, hhr, hhangs⟩ := hhangs
  -- the node is new, so the trees below it hang where they did
  have hnew : Hangs n b'.left b'.right b.avail (.node l r) := by
    rw [hmerged.left, hmerged.right]
    refine .node h.avail ?_ ?_ ?_ ?_
    · rwa [Function.update_self]
    · rwa [Function.update_self]
    · rw [Function.update_self]
      exact hhl.update hi _ _
    · rw [Function.update_self]
      exact hhr.update hj _ _
  refine ⟨(b.avail, .node l r) ::ₘ forest, ?_, ?_, ?_, ?_, ?_, ?_, ?_⟩
  · rw [Multiset.map_cons, hmerged.after, hrest']
  · simp only [Multiset.mem_cons, forall_eq_or_imp]
    refine ⟨hnew, fun p hp => ?_⟩
    rw [hmerged.left, hmerged.right]
    exact (hhangs p hp).update (hbelow p hp) _ _
  · simp only [Multiset.mem_cons, forall_eq_or_imp]
    rw [hmerged.avail]
    exact ⟨Nat.lt_succ_self _, fun p hp => (hbelow p hp).trans (Nat.lt_succ_self _)⟩
  · rw [← hleaves, Multiset.cons_bind, Multiset.cons_bind, Multiset.cons_bind, ← add_assoc,
      Multiset.coe_add]
    rfl
  · rw [hmerged.after, symbolsOf_cons_of_le _ h.avail, hmerged.sorted,
      h.sorted]
  · simp only [Multiset.mem_cons, forall_eq_or_imp]
    rw [hmerged.freq]
    refine ⟨?_, fun p hp => ?_⟩
    · rw [Function.update_self, Nat.mod_mod, weightOf, CodeTree.leaves, List.map_append,
        List.sum_append, Nat.add_mod, hwl, hwr, ← Nat.add_mod]
      rfl
    · rw [Function.update_of_ne (Nat.ne_of_lt (hbelow p hp))]
      exact htotal p hp
  · rw [hmerged.avail]
    exact Nat.le_succ_of_le h.avail

/-- At the end there is one tree. -/
structure Build.Finished (n : Nat) (freq : Nat → Nat) (used : Multiset Nat) (b : Build)
    (l r : CodeTree Nat) : Prop where
  root : n ≤ b.avail - 1
  hangs : Hangs n b.left b.right (b.avail - 1) (.node l r)
  leaves : ((CodeTree.node l r).leaves : Multiset Nat) = used
  sorted : (b.sorted : Multiset Nat) = used
  total : b.freq (b.avail - 1) % 2 ^ 16 = weightOf freq (.node l r) % 2 ^ 16

theorem Build.Grown.finished (h : b.Grown n freq used forest) {b' : Build} {i j : Nat}
    {rest : Multiset Nat} (hmerged : b.Merged n b' i j rest) (hsize : ¬ 1 < b'.heap.size) :
    ∃ l r, b'.Finished n freq used l r := by
  obtain ⟨forest', h'⟩ := h.merge hmerged
  have hcard := congrArg Multiset.card hmerged.after
  rw [Heap.card_entries, Multiset.card_cons] at hcard
  -- only the new node is left in the heap
  obtain rfl : rest = 0 := Multiset.card_eq_zero.mp (by omega)
  have hroots := h'.roots
  have hroot : b'.avail - 1 = b.avail := by
    rw [hmerged.avail, Nat.add_sub_cancel]
  rw [hmerged.after, Multiset.cons_zero] at hroots
  obtain ⟨⟨root, t⟩, rfl, hfst⟩ := Multiset.map_eq_singleton.mp hroots
  obtain rfl : root = b.avail := hfst
  have hhangs : Hangs n b'.left b'.right b.avail t := h'.hangs _ (Multiset.mem_singleton_self _)
  have htotal := h'.total _ (Multiset.mem_singleton_self _)
  have hleaves := h'.leaves
  have hsorted := h'.sorted
  rw [Multiset.singleton_bind] at hleaves
  rw [hmerged.after, symbolsOf_cons_of_le _ h.avail, symbolsOf, Multiset.filter_zero,
    add_zero] at hsorted
  cases t with
  | leaf a =>
    cases hhangs with
    | leaf hlt => exact absurd hlt (Nat.not_lt.mpr h.avail)
  | node l r =>
    refine ⟨l, r, ?_, ?_, hleaves, hsorted, ?_⟩
    · rw [hroot]
      exact h.avail
    · rwa [hroot]
    · rwa [hroot]

theorem Build.Grown.loop (fuel : Nat) (h : b.Grown n freq used forest) (hsize : 2 ≤ b.heap.size)
    (hfuel : b.heap.size ≤ fuel + 1) : ∃ l r, (Build.loop n fuel b).Finished n freq used l r := by
  induction fuel generalizing b forest with
  | zero => omega
  | succ fuel ih =>
    obtain ⟨i, j, rest, hmerged⟩ := merge_merged n hsize
    have hless := hmerged.size
    rw [Build.loop]
    by_cases hmore : 1 < (b.merge n).heap.size
    · rw [if_pos hmore]
      obtain ⟨forest', h'⟩ := h.merge hmerged
      exact ih h' hmore (by omega)
    · rw [if_neg hmore]
      exact h.finished hmerged hmore

end Forest

end EfiCore.Enc
