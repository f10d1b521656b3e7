import EfiCore.Lib.Descent
import EfiCore.Pe.Walk

/-! # Termination of the relocation walk

A pass ends, and processes each entry once, if every block that it reaches ends behind its start.  A
block that ends at its start is one that it never leaves.
-/

namespace EfiCore.Pe

open EfiCore.Lib

variable {A : Arch} {image : Image A} {pass : Pass} {adjust : BitVec 64} {dirEnd : Nat} {w : Walk}

/-! ## Steps -/

theorem imageAddress_le (image : Image A) (address : Nat) :
    image.imageAddress address ≤ image.imageEof := by
  rw [Image.imageAddress]
  split <;> omega

/-- The entries lie before the place where the pass is. -/
def Cursor.Behind (c : Cursor) (e : Nat) : Prop :=
  match c with
  | .block relocBase => e < relocBase
  | .entry reloc relocEnd _ => e < reloc ∧ e < relocEnd
  | .done _ => True

/-- The entries were processed in the order of their addresses, and the block ends before the address
space does. -/
structure Walk.Ordered (A : Arch) (w : Walk) : Prop where
  sorted : w.processed.Pairwise (· > ·)
  behind : ∀ e ∈ w.processed, w.cursor.Behind e
  fits : ∀ reloc relocEnd fixupBase, w.cursor = .entry reloc relocEnd fixupBase →
    relocEnd + 1 < 2 ^ A.bits

/-- What is left: of the directory, and then of the block. -/
def Walk.rest (dirEnd : Nat) (w : Walk) : Nat × Nat :=
  match w.cursor with
  | .block relocBase => (dirEnd - relocBase, 1)
  | .entry reloc relocEnd _ => (dirEnd - relocEnd, relocEnd - reloc + 2)
  | .done _ => (0, 0)

/-- A step where the block goes forward. -/
structure Advance (A : Arch) (dirEnd : Nat) (w w' : Walk) : Prop where
  ordered : w'.Ordered A
  less : w.cursor.isDone = false → Prod.Lex (· < ·) (· < ·) (w'.rest dirEnd) (w.rest dirEnd)

/-- A walk that ends. -/
theorem Advance.done {status : Outcome} {processed : List Nat}
    (hsorted : processed.Pairwise (· > ·)) :
    Advance A dirEnd w { w with cursor := .done status, processed := processed } where
  ordered := ⟨hsorted, fun _ _ => trivial, fun _ _ _ hc => nomatch hc⟩
  less := by
    intro hdone
    cases hcursor : w.cursor with
    | block relocBase =>
      simp only [Walk.rest, hcursor]
      rcases Nat.eq_zero_or_pos (dirEnd - relocBase) with hzero | hpos
      · rw [hzero]
        exact .right _ Nat.one_pos
      · exact .left _ _ hpos
    | entry reloc relocEnd fixupBase =>
      simp only [Walk.rest, hcursor]
      rcases Nat.eq_zero_or_pos (dirEnd - relocEnd) with hzero | hpos
      · rw [hzero]
        exact .right _ (Nat.succ_pos _)
      · exact .left _ _ hpos
    | done status =>
      rw [hcursor] at hdone
      cases hdone

theorem enter_advance (h : w.Ordered A) (hend : dirEnd ≤ image.imageEof) {relocBase : Nat}
    (hcursor : w.cursor = .block relocBase) (hlt : relocBase < dirEnd)
    (hforward : Forward image pass dirEnd w) :
    Advance A dirEnd w (enter image pass relocBase w) := by
  rw [enter]
  split
  case isTrue => exact .done h.sorted
  case isFalse haccepted =>
    obtain ⟨hbehind, hfits⟩ := hforward relocBase hcursor hlt (by simpa using haccepted)
    have hbelow := image.below
    have hreloc : A.add relocBase 8 = relocBase + 8 := Nat.mod_eq_of_lt (by omega)
    refine ⟨⟨h.sorted, fun e he => ?_, fun _ _ _ hc => ?_⟩, fun _ => ?_⟩
    · have hlow := h.behind e he
      rw [hcursor] at hlow
      have hlow : e < relocBase := hlow
      exact ⟨by omega, by omega⟩
    · cases hc
      exact hfits
    · simp only [Walk.rest, hcursor]
      exact .left _ _ (by omega)

theorem process_advance (h : w.Ordered A) {reloc relocEnd fixupBase : Nat}
    (hcursor : w.cursor = .entry reloc relocEnd fixupBase) (hlt : reloc < relocEnd) :
    Advance A dirEnd w (process (A := A) pass adjust reloc relocEnd fixupBase w) := by
  have hfits := h.fits reloc relocEnd fixupBase hcursor
  have hlow : ∀ e ∈ w.processed, e < reloc := fun e he => by
    have hbehind := h.behind e he
    rw [hcursor] at hbehind
    exact hbehind.1
  have hsorted : (reloc :: w.processed).Pairwise (· > ·) := List.pairwise_cons.mpr ⟨hlow, h.sorted⟩
  rw [process]
  split
  case h_1 s hs =>
    have hnext : A.add reloc 2 = reloc + 2 := Nat.mod_eq_of_lt (by omega)
    refine ⟨⟨hsorted, List.forall_mem_cons.mpr ⟨?_, fun e he => ?_⟩, fun _ _ _ hc => ?_⟩,
      fun _ => ?_⟩
    · exact ⟨by omega, hlt⟩
    · have := hlow e he
      exact ⟨by omega, by omega⟩
    · cases hc
      exact hfits
    · simp only [Walk.rest, hcursor]
      exact .right _ (by omega)
  case h_2 => exact .done hsorted

/-- One turn of a loop. -/
theorem step_advance (h : w.Ordered A) (hend : dirEnd ≤ image.imageEof)
    (hforward : Forward image pass dirEnd w) :
    Advance A dirEnd w (step image pass adjust dirEnd w) := by
  rw [step]
  split
  case h_1 relocBase hcursor =>
    split
    case isTrue hlt => exact enter_advance h hend hcursor hlt hforward
    case isFalse => exact .done h.sorted
  case h_2 reloc relocEnd fixupBase hcursor =>
    split
    case isTrue hlt => exact process_advance h hcursor hlt
    case isFalse hle =>
      refine ⟨⟨h.sorted, fun e he => ?_, fun _ _ _ hc => nomatch hc⟩, fun _ => ?_⟩
      · have hbehind := h.behind e he
        rw [hcursor] at hbehind
        exact hbehind.2
      · simp only [Walk.rest, hcursor]
        exact .right _ (by omega)
  case h_3 status hcursor =>
    refine ⟨h, fun hdone => ?_⟩
    rw [hcursor] at hdone
    cases hdone

/-! ## Passes -/

/-- If every block goes forward, the pass ends, and processes no entry twice. -/
theorem terminates_of_forward (h : w.Ordered A) (hend : dirEnd ≤ image.imageEof)
    (hforward : AllForward image pass adjust dirEnd w) : Terminates image pass adjust dirEnd w := by
  have hkept : ∀ w, w.Ordered A ∧ AllForward image pass adjust dirEnd w →
      (step image pass adjust dirEnd w).Ordered A ∧
        AllForward image pass adjust dirEnd (step image pass adjust dirEnd w) :=
    fun w hw => ⟨(step_advance hw.1 hend (hw.2 0)).ordered, fun n => hw.2 (n + 1)⟩
  constructor
  case ends =>
    have hless : WellFounded (Prod.Lex (· < · : Nat → Nat → Prop) (· < · : Nat → Nat → Prop)) :=
      WellFounded.prod_lex Nat.lt_wfRel.wf Nat.lt_wfRel.wf
    refine exists_iterate_of_descends hless (Walk.rest dirEnd)
      (D := fun w => w.cursor.isDone = true) (fun w hw hdone => ⟨hkept w hw, ?_⟩) ⟨h, hforward⟩
    exact (step_advance hw.1 hend (hw.2 0)).less (by simpa using hdone)
  case once =>
    intro n
    have hordered := (iterate_invariant hkept ⟨h, hforward⟩ n).1
    exact hordered.sorted.imp fun hgt => Ne.symm (Nat.ne_of_lt hgt)

/-- A block that ends at its start comes back after two steps. -/
theorem step_step_of_empty {relocBase : Nat} (hcursor : w.cursor = .block relocBase)
    (hlt : relocBase < dirEnd) (hend : dirEnd ≤ image.imageEof)
    (haccepted : pass.rejects image relocBase = false)
    (hempty : relocEnd A w.memory relocBase = relocBase) :
    step image pass adjust dirEnd (step image pass adjust dirEnd w) = w := by
  have hbelow := image.below
  have hreloc : A.add relocBase 8 = relocBase + 8 := Nat.mod_eq_of_lt (by omega)
  let fixupBase := image.imageAddress (virtualAddress w.memory relocBase)
  have hentered : step image pass adjust dirEnd w =
      { w with cursor := .entry (relocBase + 8) relocBase fixupBase } := by
    simp [step, hcursor, hlt, enter, hempty, haccepted, hreloc, fixupBase]
  rw [hentered, step]
  simp [← hcursor]

theorem step_isDone (w : Walk) (h : w.cursor.isDone = true) :
    (step image pass adjust dirEnd w).cursor.isDone = true := by
  cases hw : w.cursor with
  | done status =>
    rw [step, hw]
    exact h
  | block _ => rw [hw] at h; cases h
  | entry _ _ _ => rw [hw] at h; cases h

/-- Once the pass is done, no block is left to go into. -/
theorem allForward_of_done {n : Nat}
    (h : ∀ k < n, Forward image pass dirEnd (walk image pass adjust dirEnd w k))
    (hdone : (walk image pass adjust dirEnd w n).cursor.isDone = true) :
    AllForward image pass adjust dirEnd w := by
  intro k
  rcases Nat.lt_or_ge k n with hlt | hge
  · exact h k hlt
  · intro relocBase hcursor
    have hlate : (walk image pass adjust dirEnd w k).cursor.isDone = true := by
      rw [walk, ← Nat.sub_add_cancel hge, Function.iterate_add_apply]
      exact iterate_invariant (I := fun w : Walk => w.cursor.isDone = true) step_isDone hdone _
    rw [hcursor] at hlate
    cases hlate

/-- A pass that ends reaches no such block. -/
theorem Terminates.nonempty (h : Terminates image pass adjust dirEnd w)
    (hend : dirEnd ≤ image.imageEof) (n : Nat) {relocBase : Nat}
    (hcursor : (walk image pass adjust dirEnd w n).cursor = .block relocBase)
    (hlt : relocBase < dirEnd)
    (haccepted : pass.rejects image
      (relocEnd A (walk image pass adjust dirEnd w n).memory relocBase) = false) :
    relocEnd A (walk image pass adjust dirEnd w n).memory relocBase ≠ relocBase := by
  intro hempty
  obtain ⟨m, hdone⟩ := h.ends
  rw [hempty] at haccepted
  have hback : step image pass adjust dirEnd (step image pass adjust dirEnd
      (walk image pass adjust dirEnd w n)) = walk image pass adjust dirEnd w n :=
    step_step_of_empty hcursor hlt hend haccepted hempty
  refine not_done_of_periodic (f := step image pass adjust dirEnd) (a := w) (k := 2) (n := n)
    (D := fun w : Walk => w.cursor.isDone = true) Nat.two_pos hback step_isDone ?_ m hdone
  rw [← walk, hcursor]
  simp [Cursor.isDone]

/-- Where no length wraps, a block goes forward if it has one. -/
theorem forward_iff (hroom : image.imageEof + 2 ^ 32 < 2 ^ A.bits) (hend : dirEnd ≤ image.imageEof) :
    Forward image pass dirEnd w ↔ ∀ relocBase, w.cursor = .block relocBase → relocBase < dirEnd →
      pass.rejects image (relocEnd A w.memory relocBase) = false →
        relocEnd A w.memory relocBase ≠ relocBase := by
  have hsum : ∀ relocBase < dirEnd,
      relocEnd A w.memory relocBase = relocBase + sizeOfBlock w.memory relocBase ∧
        relocEnd A w.memory relocBase + 1 < 2 ^ A.bits := by
    intro relocBase hlt
    have hsize : sizeOfBlock w.memory relocBase < 2 ^ 32 := numAt_lt w.memory (relocBase + 4) 4
    have hadd : relocEnd A w.memory relocBase = relocBase + sizeOfBlock w.memory relocBase :=
      Nat.mod_eq_of_lt (by omega)
    exact ⟨hadd, by omega⟩
  constructor
  · intro h relocBase hcursor hlt haccepted hempty
    obtain ⟨hforward, -⟩ := h relocBase hcursor hlt haccepted
    omega
  · intro h relocBase hcursor hlt haccepted
    have hne := h relocBase hcursor hlt haccepted
    obtain ⟨hadd, hfits⟩ := hsum relocBase hlt
    exact ⟨by omega, hfits⟩

theorem start_ordered (image : Image A) (m : Memory) (fixupData : Nat) (relocDir : DataDirectory) :
    (start image m fixupData relocDir).Ordered A :=
  ⟨.nil, fun _ h => (nomatch h), fun _ _ _ h => (nomatch h)⟩

/-- For every directory and any fixups, a pass ends and processes no entry twice if every block that
it goes into goes forward, and only then if no length wraps. -/
theorem relocate_terminates (image : Image A) (pass : Pass) (adjust : BitVec 64) (m : Memory)
    (fixupData : Nat) (relocDir : DataDirectory) :
    let w := start image m fixupData relocDir
    let dirEnd := image.relocBaseEnd relocDir
    (AllForward image pass adjust dirEnd w → Terminates image pass adjust dirEnd w) ∧
      (image.imageEof + 2 ^ 32 < 2 ^ A.bits →
        (Terminates image pass adjust dirEnd w ↔ AllForward image pass adjust dirEnd w)) := by
  intro w dirEnd
  have hend : dirEnd ≤ image.imageEof := imageAddress_le image _
  have henough : AllForward image pass adjust dirEnd w → Terminates image pass adjust dirEnd w :=
    terminates_of_forward (start_ordered image m fixupData relocDir) hend
  refine ⟨henough, fun hroom => ⟨fun h n => ?_, henough⟩⟩
  exact (forward_iff hroom hend).mpr fun relocBase hcursor hlt haccepted =>
    h.nonempty hend n hcursor hlt haccepted

/-! ## A directory -/

/-- An image of 0x1000 bytes. -/
def smallImage : Image .efi64 := ⟨0x1000, 0x2000, 0x1000, by decide, by decide⟩

/-- A directory with one block, which has room for an entry. -/
def smallDir : DataDirectory := ⟨0x100, 10⟩

/-- The block, with a length, and zeros behind. -/
def blockOf (size : Nat) : Memory := putNum (fun _ => 0) 0x1104 4 size

/-- Five steps over the block. -/
theorem relocate_terminates_small :
    Terminates smallImage .loadPeRelocate 0 (smallImage.relocBaseEnd smallDir)
      (start smallImage (blockOf 10) 0x3000 smallDir) := by
  refine (relocate_terminates smallImage .loadPeRelocate 0 (blockOf 10) 0x3000 smallDir).1 ?_
  refine allForward_of_done (n := 4) (fun k hk relocBase hblock hlt _ => ?_) (by decide +kernel)
  have hcursor : ∀ k < 4, (walk smallImage .loadPeRelocate 0 (smallImage.relocBaseEnd smallDir)
      (start smallImage (blockOf 10) 0x3000 smallDir) k).cursor =
        [.block 0x1100, .entry 0x1108 0x110a 0x1000, .entry 0x110a 0x110a 0x1000,
          .block 0x110a].getD k (.done .success) := by decide +kernel
  rw [hcursor k hk] at hblock
  obtain rfl | rfl | rfl | rfl : k = 0 ∨ k = 1 ∨ k = 2 ∨ k = 3 := by omega
  · cases hblock
    decide +kernel
  · cases hblock
  · cases hblock
  · cases hblock
    exact absurd hlt (by decide +kernel)

/-- A block of length zero keeps a pass for ever. -/
theorem not_terminates_blockOf (pass : Pass) :
    ¬Terminates smallImage pass 0 (smallImage.relocBaseEnd smallDir)
      (start smallImage (blockOf 0) 0x3000 smallDir) := by
  intro h
  have hblock : (walk smallImage pass 0 (smallImage.relocBaseEnd smallDir)
      (start smallImage (blockOf 0) 0x3000 smallDir) 0).cursor = .block 0x1100 := rfl
  refine h.nonempty (imageAddress_le _ _) 0 hblock (by decide +kernel) ?_ ?_
  · cases pass <;> decide +kernel
  · cases pass <;> decide +kernel

theorem not_terminates_zero :
    ¬Terminates smallImage .loadPeRelocate 0 (smallImage.relocBaseEnd smallDir)
        (start smallImage (blockOf 0) 0x3000 smallDir) ∧
      ¬Terminates smallImage .convertPeImage 0 (smallImage.relocBaseEnd smallDir)
        (start smallImage (blockOf 0) 0x3000 smallDir) :=
  ⟨not_terminates_blockOf .loadPeRelocate, not_terminates_blockOf .convertPeImage⟩

end EfiCore.Pe
