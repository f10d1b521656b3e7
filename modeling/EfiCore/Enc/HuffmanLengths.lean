import EfiCore.Dec.MakeTable
import EfiCore.Enc.Huffman
import EfiCore.Enc.PutBits

/-! # The code that `MakeTree` makes

The lengths that `CountLen` finds take all the code space, or too much of it.  Each turn of the loop
in `MakeLen` takes back one place, so that the lengths are those of a complete code at the end, and
`MakeCode` gives the words of that code to the symbols.  The decompressor makes its tables of the
lengths, and reads with them what `SendBlock` puts for the symbols.
-/

namespace EfiCore.Enc

open EfiCore.Lib

variable {n : Nat} {lenCnt len freq : Nat → Nat} {lens : List Nat}

/-! ## Counts -/

/-- `mLenCnt` has the counts of these lengths. -/
structure CountsOf (lenCnt : Nat → Nat) (lens : List Nat) : Prop where
  range : ∀ len ∈ lens, 1 ≤ len ∧ len ≤ 16
  short : lens.length < 2 ^ 16
  count : ∀ d, lenCnt d = lens.count d

theorem CountsOf.count_lt (h : CountsOf lenCnt lens) (d : Nat) : lens.count d < 2 ^ 16 :=
  Nat.lt_of_le_of_lt List.count_le_length h.short

/-- `CountLen` counts the depths of the leaves. -/
theorem Hangs.countLen {left right : Nat → Nat} {i : Nat} {t : CodeTree Nat}
    (h : Hangs n left right i t) (fuel depth : Nat) (c : Nat → Nat) (hfuel : i < fuel)
    (hsmall : ∀ d, c d + (t.lengths 16 depth).count d < 2 ^ 16) :
    ∃ c', Enc.countLen n left right fuel depth i c = some c' ∧
      ∀ d, c' d = c d + (t.lengths 16 depth).count d := by
  induction h generalizing fuel depth c with
  | @leaf i hi =>
    obtain ⟨fuel, rfl⟩ : ∃ f, fuel = f + 1 := ⟨fuel - 1, by omega⟩
    have hmin : (if depth < 16 then depth else 16) = min depth 16 := by
      split <;> omega
    rw [Enc.countLen, if_pos hi, hmin]
    refine ⟨_, rfl, fun d => ?_⟩
    have hd := hsmall d
    rw [CodeTree.lengths, List.count_singleton] at hd ⊢
    by_cases heq : d = min depth 16
    · subst heq
      rw [beq_self_eq_true, if_pos rfl] at hd ⊢
      rw [Function.update_self, Nat.mod_eq_of_lt hd]
    · rw [Function.update_of_ne heq, if_neg (by simpa using Ne.symm heq), Nat.add_zero]
  | @node k l r hk hleft hright hl hr ihl ihr =>
    obtain ⟨fuel, rfl⟩ : ∃ f, fuel = f + 1 := ⟨fuel - 1, by omega⟩
    have hsplit : ∀ d, ((CodeTree.node l r).lengths 16 depth).count d =
        (l.lengths 16 (depth + 1)).count d + (r.lengths 16 (depth + 1)).count d := fun d => by
      rw [CodeTree.lengths, List.count_append]
    obtain ⟨c₁, hc₁, hcount₁⟩ := ihl fuel (depth + 1) c (by omega)
      fun d => by have := hsmall d; rw [hsplit] at this; omega
    obtain ⟨c₂, hc₂, hcount₂⟩ := ihr fuel (depth + 1) c₁ (by omega)
      fun d => by have := hsmall d; rw [hsplit] at this; rw [hcount₁]; omega
    refine ⟨c₂, ?_, fun d => ?_⟩
    · rw [Enc.countLen, if_neg (Nat.not_lt.mpr hk), hc₁, Option.bind_some, hc₂]
    · rw [hcount₂, hcount₁, hsplit, Nat.add_assoc]

/-- `Cum` is the part of the code space that the words take. -/
theorem codeSpace_eq (h : CountsOf lenCnt lens) (hlt : kraftSum 16 lens < 2 ^ 32) :
    codeSpace lenCnt = kraftSum 16 lens := by
  have hsum : ∀ k ≤ 16, ((List.range k).map fun d => lenCnt (d + 1) <<< (15 - d)).sum =
      kraftUpTo 16 k lens := by
    intro k hk
    induction k with
    | zero => rw [kraftUpTo_zero]; rfl
    | succ k ih =>
      have hplaces : 16 - (k + 1) = 15 - k := by omega
      rw [List.range_succ, List.map_append, List.sum_append, ih (by omega), List.map_singleton,
        List.sum_singleton, kraftUpTo_succ, h.count, Nat.shiftLeft_eq, hplaces]
  rw [codeSpace, hsum 16 (Nat.le_refl 16), kraftUpTo_eq fun len hlen => (h.range len hlen).2,
    Nat.mod_eq_of_lt hlt]

theorem longestWord_spec (lenCnt : Nat → Nat) (k : Nat) :
    longestWord lenCnt k ≤ k ∧ (longestWord lenCnt k ≠ 0 → lenCnt (longestWord lenCnt k) ≠ 0) ∧
      ∀ d, longestWord lenCnt k < d → d ≤ k → lenCnt d = 0 := by
  induction k with
  | zero => exact ⟨Nat.le_refl 0, fun h => absurd rfl h, fun d hlt hle => by omega⟩
  | succ k ih =>
    rw [longestWord]
    by_cases hk : lenCnt (k + 1) ≠ 0
    · rw [if_pos hk]
      exact ⟨Nat.le_refl _, fun _ => hk, fun d hlt hle => by omega⟩
    · rw [if_neg hk]
      obtain ⟨hle, hne, hzero⟩ := ih
      refine ⟨Nat.le_succ_of_le hle, hne, fun d hlt hd => ?_⟩
      rcases Nat.le_succ_iff.mp hd with hd | rfl
      · exact hzero d hlt hd
      · exact not_not.mp hk

/-! ## The adjustment -/

/-- The words take too many places, by fewer than there are words of 16 bits. -/
structure Within (lenCnt : Nat → Nat) (lens : List Nat) : Prop where
  counts : CountsOf lenCnt lens
  least : 2 ^ 16 ≤ kraftSum 16 lens
  most : kraftSum 16 lens = 2 ^ 16 ∨ kraftSum 16 lens < 2 ^ 16 + lens.count 16

theorem kraftSum_perm {xs ys : List Nat} (width : Nat) (h : xs.Perm ys) :
    kraftSum width xs = kraftSum width ys :=
  (h.map _).sum_eq

/-- Not all the words have 16 bits: there are not enough of them. -/
theorem Within.longestWord_ne (h : Within lenCnt lens) {c : Nat → Nat}
    (hc : ∀ d, d ≠ 16 → c d = lens.count d) : longestWord c 15 ≠ 0 := by
  intro hlongest
  obtain ⟨-, -, hzero⟩ := longestWord_spec c 15
  rw [hlongest] at hzero
  have hall : lens = List.replicate lens.length 16 := by
    refine List.eq_replicate_of_mem fun len hlen => ?_
    by_contra hshort
    have hrange := h.counts.range len hlen
    have hnone := hzero len (by omega) (by omega)
    rw [hc len hshort] at hnone
    exact List.count_eq_zero.mp hnone hlen
  have hsum := CodeTree.kraftSum_replicate lens.length (show 1 ≤ 16 by omega)
  rw [← hall] at hsum
  have := h.counts.short
  have := h.least
  omega

/-- A word of 16 bits and one of `i` bits become two of a bit more than `i`. -/
theorem kraftSum_move {i : Nat} (hi : i ≠ 0) (hle : i ≤ 15) (rest : List Nat) :
    kraftSum 16 ((i + 1) :: (i + 1) :: rest) + 1 = kraftSum 16 (16 :: i :: rest) := by
  have hhalf : 2 ^ (16 - i) = 2 ^ (16 - (i + 1)) + 2 ^ (16 - (i + 1)) := by
    rw [← Nat.two_mul, ← Nat.pow_succ']
    congr 1
    omega
  have hlast : places 16 16 = 1 := rfl
  rw [kraftSum_cons, kraftSum_cons, kraftSum_cons, kraftSum_cons, hlast, places, places,
    if_neg (Nat.succ_ne_zero i), if_neg hi, hhalf, Nat.add_comm _ 1, Nat.add_assoc]

theorem CountsOf.move {c : Nat → Nat} {i : Nat} {rest : List Nat} (h : CountsOf lenCnt lens)
    (hperm : lens.Perm (16 :: i :: rest)) (hi : i ≠ 0) (hle : i ≤ 15)
    (hc16 : c 16 = lens.count 16 - 1) (hc : ∀ d, d ≠ 16 → c d = lens.count d)
    (hnext : i + 1 ≠ 16 → c (i + 1) = 0) :
    CountsOf (Function.update (Function.update c i (c i - 1)) (i + 1)
      ((Function.update c i (c i - 1) (i + 1) + 2) % 2 ^ 16)) ((i + 1) :: (i + 1) :: rest) := by
  have hlength : ((i + 1) :: (i + 1) :: rest).length = lens.length := by
    rw [hperm.length_eq]
    rfl
  refine ⟨fun len hlen => ?_, by rw [hlength]; exact h.short, fun d => ?_⟩
  · have hnew : 1 ≤ i + 1 ∧ i + 1 ≤ 16 := by omega
    rcases List.mem_cons.mp hlen with rfl | hlen
    · exact hnew
    rcases List.mem_cons.mp hlen with rfl | hlen
    · exact hnew
    have hmem := List.mem_cons_of_mem 16 (List.mem_cons_of_mem i hlen)
    exact h.range len (hperm.mem_iff.mpr hmem)
  have hcount := hperm.count_eq d
  by_cases hdn : d = i + 1
  · subst hdn
    have hshort : rest.count (i + 1) + 2 < 2 ^ 16 := by
      have := List.count_le_length (a := i + 1) (l := rest)
      have := h.short
      rw [← hlength, List.length_cons, List.length_cons] at this
      omega
    have hold : c (i + 1) = rest.count (i + 1) := by
      by_cases hn : i + 1 = 16
      · have h16 : lens.count 16 = rest.count 16 + 1 := by
          simpa [show i ≠ 16 by omega] using hperm.count_eq 16
        rw [hn, hc16, h16, Nat.add_sub_cancel]
      · have hmore : rest.count (i + 1) ≤ lens.count (i + 1) := by
          rw [hcount]
          exact ((List.sublist_cons_self _ _).trans (List.sublist_cons_self _ _)).count_le _
        rw [← hc _ hn, hnext hn] at hmore
        rw [hnext hn, Nat.le_zero.mp hmore]
    rw [Function.update_self, Function.update_of_ne (by omega), hold, Nat.mod_eq_of_lt hshort]
    simp
  · rw [Function.update_of_ne hdn]
    by_cases hdi : d = i
    · subst hdi
      rw [Function.update_self, hc d (by omega), hcount]
      simp [List.count_cons]
      omega
    · rw [Function.update_of_ne hdi]
      by_cases hd16 : d = 16
      · subst hd16
        rw [hc16, hcount]
        simp [Ne.symm hdn, Ne.symm hdi]
      · rw [hc d hd16, hcount]
        simp [Ne.symm hdn, Ne.symm hdi, Ne.symm hd16]

/-- A turn of the loop: a word of 16 bits goes, and a shorter one becomes two. -/
theorem Within.adjust (h : Within lenCnt lens) (hne : kraftSum 16 lens ≠ 2 ^ 16) {c : Nat → Nat}
    {i : Nat} (hc : c = Function.update lenCnt 16 ((lenCnt 16 + 2 ^ 16 - 1) % 2 ^ 16))
    (hi : i = longestWord c 15) :
    i ≠ 0 ∧ ∃ lens', lens'.length = lens.length ∧ kraftSum 16 lens' + 1 = kraftSum 16 lens ∧
      Within (Function.update (Function.update c i (c i - 1)) (i + 1)
        ((Function.update c i (c i - 1) (i + 1) + 2) % 2 ^ 16)) lens' := by
  have hmost := h.most.resolve_left hne
  have hleast := h.least
  have hlt16 := h.counts.count_lt 16
  have hc16 : c 16 = lens.count 16 - 1 := by
    rw [hc, Function.update_self, h.counts.count]
    omega
  have hcd : ∀ d, d ≠ 16 → c d = lens.count d := fun d hd => by
    rw [hc, Function.update_of_ne hd, h.counts.count]
  -- there is a shorter word, since the words of 16 bits alone take too little
  have hi0 : i ≠ 0 := by
    rw [hi]
    exact h.longestWord_ne hcd
  obtain ⟨hle, hword, hzero⟩ := longestWord_spec c 15
  rw [← hi] at hle hword hzero
  have hmem16 : 16 ∈ lens := List.count_pos_iff.mp (by omega)
  have hmemi : i ∈ lens.erase 16 := by
    have := hword hi0
    rw [hcd i (by omega)] at this
    exact (List.mem_erase_of_ne (by omega)).mpr (List.count_pos_iff.mp (by omega))
  generalize hrest : (lens.erase 16).erase i = rest
  have hperm : lens.Perm (16 :: i :: rest) := by
    rw [← hrest]
    exact (List.perm_cons_erase hmem16).trans ((List.perm_cons_erase hmemi).cons 16)
  have hless : kraftSum 16 ((i + 1) :: (i + 1) :: rest) + 1 = kraftSum 16 lens := by
    rw [kraftSum_move hi0 hle, kraftSum_perm 16 hperm]
  have hgain : lens.count 16 ≤ ((i + 1) :: (i + 1) :: rest).count 16 + 1 := by
    rw [hperm.count_eq, List.count_cons_self, List.count_cons_of_ne (by omega)]
    exact Nat.succ_le_succ
      (((List.sublist_cons_self _ _).trans (List.sublist_cons_self _ _)).count_le 16)
  refine ⟨hi0, (i + 1) :: (i + 1) :: rest, by rw [hperm.length_eq]; rfl, hless, ?_, ?_, ?_⟩
  · exact h.counts.move hperm hi0 hle hc16 hcd fun hn => hzero (i + 1) (by omega) (by omega)
  · omega
  · omega

theorem Within.adjustLoop (h : Within lenCnt lens) (fuel : Nat)
    (hfuel : kraftSum 16 lens < fuel + 2 ^ 16) :
    ∃ c lens', Enc.adjustLoop fuel lenCnt (kraftSum 16 lens) = some c ∧ CountsOf c lens' ∧
      kraftSum 16 lens' = 2 ^ 16 ∧ lens'.length = lens.length := by
  have hleast := h.least
  induction fuel generalizing lenCnt lens with
  | zero => omega
  | succ fuel ih =>
    rw [Enc.adjustLoop]
    by_cases hdone : kraftSum 16 lens = 2 ^ 16
    · rw [if_pos hdone]
      exact ⟨lenCnt, lens, rfl, h.counts, hdone, rfl⟩
    · rw [if_neg hdone]
      obtain ⟨hi, lens', hlength, hsum, h'⟩ := h.adjust hdone rfl rfl
      have hlt : kraftSum 16 lens < 2 ^ 32 := by
        have := h.most.resolve_left hdone
        have := h.counts.count_lt 16
        omega
      have hcum : (kraftSum 16 lens + 2 ^ 32 - 1) % 2 ^ 32 = kraftSum 16 lens' := by omega
      obtain ⟨c, lens'', hloop, hcounts, hcomplete, hsame⟩ := ih h' (by omega) h'.least
      refine ⟨c, lens'', ?_, hcounts, hcomplete, hsame.trans hlength⟩
      dsimp only
      rw [if_neg hi, hcum]
      exact hloop

/-! ## Lengths -/

theorem count_lengthsOf {d : Nat} (hd : 1 ≤ d) (hle : d ≤ 16) :
    (lengthsOf lenCnt).count d = lenCnt d := by
  have hcount : ∀ k ≤ 16,
      ((List.range k).flatMap fun t => List.replicate (lenCnt (16 - t)) (16 - t)).count d =
        if 16 - k < d then lenCnt d else 0 := by
    intro k hk
    induction k with
    | zero => rw [if_neg (by omega)]; rfl
    | succ k ih =>
      rw [List.range_succ, List.flatMap_append, List.count_append, ih (by omega),
        List.flatMap_singleton, List.count_replicate]
      by_cases hlt : 16 - k < d
      · rw [if_pos hlt, if_neg (by simpa using hlt.ne), if_pos (by omega), Nat.add_zero]
      · rw [if_neg hlt, Nat.zero_add]
        by_cases hsame : 16 - k = d
        · rw [hsame, beq_self_eq_true, if_pos rfl, if_pos (by omega)]
        · rw [if_neg (by simpa using hsame), if_neg (by omega)]
  rw [lengthsOf, hcount 16 (Nat.le_refl 16), if_pos (by omega)]

theorem lengthsOf_mem : ∀ d ∈ lengthsOf lenCnt, 1 ≤ d ∧ d ≤ 16 := by
  intro d hd
  obtain ⟨t, ht, hd⟩ := List.mem_flatMap.mp hd
  have := List.mem_range.mp ht
  obtain rfl := List.eq_of_mem_replicate hd
  omega

theorem CountsOf.lengthsOf_perm (h : CountsOf lenCnt lens) : (lengthsOf lenCnt).Perm lens := by
  refine List.perm_iff_count.mpr fun d => ?_
  by_cases hd : 1 ≤ d ∧ d ≤ 16
  · rw [count_lengthsOf hd.1 hd.2, h.count]
  · rw [List.count_eq_zero.mpr fun hmem => hd (lengthsOf_mem d hmem),
      List.count_eq_zero.mpr fun hmem => hd (h.range d hmem)]

theorem assignLens_of_notMem {pairs : List (Nat × Nat)} {s : Nat}
    (hs : s ∉ pairs.map Prod.fst) : assignLens len pairs s = len s := by
  induction pairs generalizing len with
  | nil => rfl
  | cons p pairs ih =>
    rw [List.map_cons, List.mem_cons, not_or] at hs
    show assignLens (Function.update len p.1 p.2) pairs s = len s
    rw [ih hs.2, Function.update_of_ne hs.1]

/-- The sorted symbols get the lengths in their order. -/
theorem map_assignLens {sorted given : List Nat} (hnodup : sorted.Nodup)
    (hlength : sorted.length = given.length) :
    sorted.map (assignLens len (sorted.zip given)) = given := by
  induction sorted generalizing given len with
  | nil => exact (List.length_eq_zero_iff.mp hlength.symm).symm
  | cons s sorted ih =>
    obtain ⟨d, given, rfl⟩ := List.exists_cons_of_length_eq_add_one hlength.symm
    obtain ⟨hs, hnodup⟩ := List.nodup_cons.mp hnodup
    have hlength := Nat.succ.inj hlength
    have hstep : assignLens len ((s :: sorted).zip (d :: given)) =
        assignLens (Function.update len s d) (sorted.zip given) := rfl
    have hfst : (sorted.zip given).map Prod.fst = sorted := List.map_fst_zip hlength.le
    rw [hstep, List.map_cons, ih hnodup hlength, assignLens_of_notMem (by rwa [hfst]),
      Function.update_self]

theorem nodup_usedSymbols (n : Nat) (freq : Nat → Nat) : (usedSymbols n freq).Nodup :=
  List.nodup_range.filter _

theorem mem_usedSymbols {s : Nat} : s ∈ usedSymbols n freq ↔ s < n ∧ freq s ≠ 0 := by
  simp [usedSymbols]

/-- The symbols get the lengths, and the ones that are not in use get none. -/
theorem map_range_perm {len' : Nat → Nat} {given : List Nat}
    (hused : ((usedSymbols n freq).map len').Perm given)
    (hunused : ∀ s < n, freq s = 0 → len' s = 0) :
    ∃ m, ((List.range n).map len').Perm (given ++ List.replicate m 0) := by
  let unused := (List.range n).filter fun s => !decide (freq s ≠ 0)
  refine ⟨unused.length, ?_⟩
  have hsplit : (usedSymbols n freq ++ unused).Perm (List.range n) := List.filter_append_perm _ _
  have hzero : unused.map len' = List.replicate unused.length 0 := by
    refine List.eq_replicate_iff.mpr ⟨List.length_map _, fun d hd => ?_⟩
    obtain ⟨s, hs, rfl⟩ := List.mem_map.mp hd
    simp only [unused, List.mem_filter, List.mem_range] at hs
    exact hunused s hs.1 (by simpa using hs.2)
  have hmap := (hsplit.map len').symm
  rw [List.map_append, hzero] at hmap
  exact hmap.trans (hused.append_right _)

theorem kraftSum_append_zeros (width : Nat) (xs : List Nat) (m : Nat) :
    kraftSum width (xs ++ List.replicate m 0) = kraftSum width xs := by
  rw [CodeTree.kraftSum_append]
  simp [kraftSum, places]

/-- `MakeLen` finds the lengths of a complete code for the symbols in use. -/
theorem makeLen_complete (len : Nat → Nat) {root : Nat} {left right : Nat → Nat}
    {l r : CodeTree Nat} {sorted : List Nat} (hangs : Hangs n left right root (.node l r))
    (hleaves : (CodeTree.node l r).leaves.length = (usedSymbols n freq).length)
    (hsorted : sorted.Perm (usedSymbols n freq)) (hn : n < 2 ^ 16)
    (hzero : ∀ s < n, len s = 0) :
    ∃ c len', makeLen n root left right sorted len = some (c, len') ∧
      (∀ s < n, len' s ≠ 0 ↔ freq s ≠ 0) ∧ CompleteCode 16 ((List.range n).map len') ∧
      ∀ d, 1 ≤ d → d ≤ 16 → c d = ((List.range n).map len').count d := by
  -- the depths of the leaves, cut off at 16
  generalize hdepths : (CodeTree.node l r).lengths 16 0 = depths
  have hlength : depths.length = (usedSymbols n freq).length := by
    rw [← hdepths, CodeTree.length_lengths, hleaves]
  have hshort : depths.length < 2 ^ 16 := by
    have hle : (usedSymbols n freq).length ≤ (List.range n).length := List.length_filter_le _ _
    rw [List.length_range] at hle
    omega
  obtain ⟨c₀, hcount₀, hcounts⟩ := hangs.countLen (root + 1) 0
    (fun _ => 0) (Nat.lt_succ_self root) fun d => by
      rw [hdepths, Nat.zero_add]
      exact Nat.lt_of_le_of_lt List.count_le_length hshort
  rw [hdepths] at hcounts
  have hwithin : Within c₀ depths := by
    obtain ⟨hleast, hmost⟩ := CodeTree.kraftSum_root l r (show 1 ≤ 16 by decide)
    rw [hdepths] at hleast hmost
    refine ⟨⟨?_, hshort, fun d => (hcounts d).trans (Nat.zero_add _)⟩, hleast, hmost⟩
    rw [← hdepths]
    exact CodeTree.root_lengths_mem l r (by decide)
  have hspace : kraftSum 16 depths < 2 ^ 32 := by
    have := hwithin.most
    have := hwithin.counts.count_lt 16
    omega
  obtain ⟨c, lens, hloop, hcountsOf, hkraft, hsame⟩ := hwithin.adjustLoop (2 ^ 32) (by omega)
  -- the adjusted lengths are as many as the symbols in use
  have hperm := hcountsOf.lengthsOf_perm
  have hgiven : sorted.length = (lengthsOf c).length := by
    rw [hsorted.length_eq, hperm.length_eq, hsame, hlength]
  have hnodup : sorted.Nodup := hsorted.nodup_iff.mpr (nodup_usedSymbols n freq)
  have hmap : sorted.map (assignLens len (sorted.zip (lengthsOf c))) = lengthsOf c :=
    map_assignLens hnodup hgiven
  generalize hlen' : assignLens len (sorted.zip (lengthsOf c)) = len' at hmap
  have hin : ∀ s, s ∈ sorted ↔ s < n ∧ freq s ≠ 0 := fun s =>
    hsorted.mem_iff.trans mem_usedSymbols
  have hunused : ∀ s < n, freq s = 0 → len' s = 0 := by
    intro s hs hfreq
    rw [← hlen', assignLens_of_notMem, hzero s hs]
    rw [List.map_fst_zip hgiven.le, hin]
    exact fun h => h.2 hfreq
  obtain ⟨m, hall⟩ : ∃ m, ((List.range n).map len').Perm (lengthsOf c ++ List.replicate m 0) :=
    map_range_perm ((hsorted.symm.map len').trans (by rw [hmap])) hunused
  refine ⟨c, len', ?_, fun s hs => ⟨fun h hfreq => h (hunused s hs hfreq), fun hfreq => ?_⟩,
    ⟨fun d hd => ?_, ?_⟩, fun d hd hle => ?_⟩
  · simp only [makeLen, hcount₀, codeSpace_eq hwithin.counts hspace, hloop, hlen',
      Option.bind_eq_bind, Option.bind_some, Option.pure_def]
  · have hmem : len' s ∈ sorted.map len' := List.mem_map.mpr ⟨s, (hin s).mpr ⟨hs, hfreq⟩, rfl⟩
    rw [hmap] at hmem
    exact Nat.one_le_iff_ne_zero.mp (lengthsOf_mem _ hmem).1
  · rcases List.mem_append.mp (hall.mem_iff.mp hd) with hd | hd
    · exact (lengthsOf_mem d hd).2
    · rw [List.eq_of_mem_replicate hd]
      exact Nat.zero_le 16
  · rw [kraftSum_perm 16 hall, kraftSum_append_zeros, kraftSum_perm 16 hperm, hkraft]
  · have hnone : d ∉ List.replicate m 0 := fun hmem => by
      have := List.eq_of_mem_replicate hmem
      omega
    rw [hall.count_eq, List.count_append, count_lengthsOf hd hle, List.count_eq_zero.mpr hnone,
      Nat.add_zero]

/-! ## Words -/

/-- The first word of a length, as far as there is room for it in 16 bits. -/
theorem wordStart_eq (hcount : ∀ d, 1 ≤ d → d ≤ 16 → lenCnt d = lens.count d) {i : Nat}
    (hi : 1 ≤ i) (hle : i ≤ 16) :
    ∃ k, wordStart lenCnt i = k % 2 ^ 16 ∧ kraftUpTo 16 (i - 1) lens = k * 2 ^ (16 - i) := by
  induction i, hi using Nat.le_induction with
  | base => exact ⟨0, rfl, by rw [Nat.zero_mul]; exact kraftUpTo_zero⟩
  | succ i hi ih =>
    obtain ⟨k, hstart, hkraft⟩ := ih (by omega)
    obtain ⟨i, rfl⟩ : ∃ j, i = j + 1 := ⟨i - 1, by omega⟩
    refine ⟨(k + lenCnt (i + 1)) * 2, ?_, ?_⟩
    · rw [wordStart, if_neg (Nat.succ_ne_zero i), hstart, Nat.shiftLeft_eq, Nat.pow_one]
      omega
    · have hhalf : 2 ^ (16 - (i + 1)) = 2 * 2 ^ (16 - (i + 1 + 1)) := by
        rw [← Nat.pow_succ']
        congr 1
        omega
      rw [Nat.add_sub_cancel, kraftUpTo_succ, ← hcount (i + 1) (by omega) (by omega)]
      rw [Nat.add_sub_cancel] at hkraft
      rw [hkraft, ← Nat.add_mul, hhalf, Nat.mul_assoc]

theorem codeLoop_of_notMem {rest : List Nat} {start code : Nat → Nat} {s : Nat} (hs : s ∉ rest) :
    codeLoop len rest start code s = code s := by
  induction rest generalizing start code with
  | nil => rfl
  | cons i rest ih =>
    rw [List.mem_cons, not_or] at hs
    rw [codeLoop, ih hs.2, Function.update_of_ne hs.1]

/-- A symbol gets the first word of its length that the symbols before it have left. -/
theorem codeLoop_append {before after : List Nat} {start code : Nat → Nat} {s : Nat}
    (hs : s ∉ after) (hstart : start (len s) < 2 ^ 16) :
    codeLoop len (before ++ s :: after) start code s =
      (start (len s) + (before.map len).count (len s)) % 2 ^ 16 := by
  induction before generalizing start code with
  | nil =>
    rw [List.nil_append, codeLoop, codeLoop_of_notMem hs, Function.update_self, List.map_nil,
      List.count_nil, Nat.add_zero, Nat.mod_eq_of_lt hstart]
  | cons i before ih =>
    rw [List.cons_append, codeLoop, List.map_cons]
    by_cases hlen : len i = len s
    · rw [ih (by rw [hlen, Function.update_self]; exact Nat.mod_lt _ (by decide)), hlen,
        Function.update_self, List.count_cons_self, Nat.mod_add_mod, Nat.add_assoc, Nat.add_comm 1]
    · rw [ih (by rwa [Function.update_of_ne (Ne.symm hlen)]), Function.update_of_ne (Ne.symm hlen),
        List.count_cons_of_ne hlen]

/-- `MakeCode` gives the words of the canonical code. -/
theorem makeCode_eq {unset s : Nat} {code : Nat → Nat}
    (hcount : ∀ d, 1 ≤ d → d ≤ 16 → lenCnt d = ((List.range n).map len).count d)
    (hcomplete : CompleteCode 16 ((List.range n).map len)) (hs : HasWord n len s) :
    makeCode unset n lenCnt len code s = word 16 n len s := by
  have hle : len s ≤ 16 := hcomplete.le _ (List.mem_map.mpr ⟨s, List.mem_range.mpr hs.lt, rfl⟩)
  have hpos : 1 ≤ len s := Nat.one_le_iff_ne_zero.mpr hs.ne
  obtain ⟨k, hstart, hkraft⟩ := wordStart_eq hcount hpos hle
  have hfirst := firstPlace_eq 16 hs
  rw [hkraft, ← Nat.add_mul] at hfirst
  -- the word has room in 16 bits, so nothing is cut off
  have hroom := firstPlace_le_kraftSum 16 len hs.lt
  rw [hcomplete.kraft, places_of_ne hs.ne, hfirst, ← Nat.succ_mul] at hroom
  have hlt : k + ((List.range s).map len).count (len s) < 2 ^ 16 :=
    (Nat.le_mul_of_pos_right _ (Nat.two_pow_pos _)).trans hroom
  obtain ⟨m, hm⟩ := Nat.exists_eq_add_of_le (Nat.succ_le_of_lt hs.lt)
  have hrange : List.range n = List.range s ++ s :: (List.range m).map (s + 1 + ·) := by
    rw [hm, List.range_add, List.range_succ, List.append_assoc, List.singleton_append]
  have hupdate : Function.update (wordStart lenCnt) 0 unset (len s) = wordStart lenCnt (len s) :=
    Function.update_of_ne hs.ne _ _
  have hafter : s ∉ (List.range m).map (s + 1 + ·) := by
    rw [List.mem_map]
    rintro ⟨x, -, hx⟩
    omega
  rw [makeCode, hrange, codeLoop_append hafter (by
    rw [hupdate, hstart]; exact Nat.mod_lt _ (by decide)), hupdate, hstart, Nat.mod_add_mod,
    Nat.mod_eq_of_lt hlt, word, hfirst, Nat.shiftRight_eq_div_pow,
    Nat.mul_div_cancel _ (Nat.two_pow_pos _)]

/-! ## MakeTree -/

/-- The heap at first. -/
theorem entries_usedSymbols (used : List Nat) :
    Heap.entries ⟨fun i => used.getD (i - 1) 0, used.length⟩ = (used : Multiset Nat) := by
  have hicc : (Finset.Icc 1 used.length).val = (List.range' 1 used.length : Multiset Nat) := by
    rw [Nat.Icc_eq_range']
    rfl
  rw [Heap.entries, hicc, Multiset.map_coe]
  congr 1
  refine List.ext_getElem (by simp) fun i hi hi' => ?_
  simp [hi']

theorem symbolsOf_used {used : List Nat} (h : ∀ s ∈ used, s < n) :
    symbolsOf n (used : Multiset Nat) = used :=
  Multiset.filter_eq_self.mpr h

/-- Before the loop each symbol is a tree. -/
theorem grown_leaves {b : Build} {used : List Nat} (hheap : b.heap.entries = (used : Multiset Nat))
    (havail : b.avail = n) (hfreq : b.freq = freq) (hsorted : b.sorted = [])
    (hused : ∀ s ∈ used, s < n) :
    b.Grown n freq used (used.map fun s => (s, CodeTree.leaf s) : List (Nat × CodeTree Nat)) := by
  have hmem : ∀ p ∈ (used.map fun s => (s, CodeTree.leaf s) : List (Nat × CodeTree Nat)),
      ∃ s ∈ used, p = (s, .leaf s) := fun p hp => by
    obtain ⟨s, hs, rfl⟩ := List.mem_map.mp hp
    exact ⟨s, hs, rfl⟩
  refine ⟨?_, fun p hp => ?_, fun p hp => ?_, ?_, ?_, fun p hp => ?_, havail.ge⟩
  · rw [hheap, Multiset.map_coe, List.map_map]
    exact congrArg _ (List.map_id used)
  · obtain ⟨s, hs, rfl⟩ := hmem p hp
    exact .leaf (hused s hs)
  · obtain ⟨s, hs, rfl⟩ := hmem p hp
    rw [havail]
    exact hused s hs
  · rw [Multiset.coe_bind, List.flatMap_map]
    exact congrArg _ (List.flatMap_singleton' used)
  · rw [hsorted, hheap, symbolsOf_used hused, Multiset.coe_nil, zero_add]
  · obtain ⟨s, hs, rfl⟩ := hmem p hp
    rw [hfreq]
    simp [weightOf, CodeTree.leaves]

/-- The lengths are those of a complete code for the symbols in use, with the words of the canonical
    code, and the root has the number of uses. -/
structure Tree.Codes (t : Tree) (n : Nat) (freq : Nat → Nat) : Prop where
  total : t.freq t.root % 2 ^ 16 = ((List.range n).map freq).sum % 2 ^ 16
  used : ∀ s < n, t.len s ≠ 0 ↔ freq s ≠ 0
  complete : CompleteCode 16 ((List.range n).map t.len)
  code : ∀ s < n, freq s ≠ 0 → t.code s = word 16 n t.len s

theorem sum_usedSymbols (n : Nat) (freq : Nat → Nat) :
    ((usedSymbols n freq).map freq).sum = ((List.range n).map freq).sum := by
  induction n with
  | zero => rfl
  | succ n ih =>
    have hstep : usedSymbols (n + 1) freq =
        usedSymbols n freq ++ [n].filter fun i => freq i ≠ 0 := by
      rw [usedSymbols, List.range_succ, List.filter_append]
      rfl
    rw [hstep, List.range_succ, List.map_append, List.map_append, List.sum_append, List.sum_append,
      ih]
    by_cases hn : freq n = 0
    · simp [hn]
    · simp [hn]

/-- With two symbols in use at least, `MakeTree` makes a complete code for them. -/
theorem makeTree_codes (hn : n ≤ 510) (htwo : 2 ≤ (usedSymbols n freq).length) (unset : Nat)
    (len code : Nat → Nat) : ∃ t, makeTree unset n freq len code = some t ∧ t.Codes n freq := by
  generalize hused : usedSymbols n freq = used at htwo
  have hlt : ∀ s ∈ used, s < n := fun s hs => by
    rw [← hused] at hs
    exact (mem_usedSymbols.mp hs).1
  generalize hh : (⟨fun i => used.getD (i - 1) 0, used.length⟩ : Heap) = h
  have hsize : h.size = used.length := by rw [← hh]
  have hentries : h.entries = (used : Multiset Nat) := by rw [← hh, entries_usedSymbols]
  -- the order of the heap does not matter for the code to be complete
  obtain ⟨hsize', hentries'⟩ := heapify_entries freq (h := h) (i := h.size / 2) (by omega)
  generalize hb : (⟨heapify freq (h.size / 2) h, n, freq, fun _ => 0, fun _ => 0, []⟩ : Build) = b
  have hbheap : b.heap = heapify freq (h.size / 2) h := by rw [← hb]
  have hgrown : b.Grown n freq used
      (used.map fun s => (s, CodeTree.leaf s) : List (Nat × CodeTree Nat)) := grown_leaves
    (by rw [hbheap, hentries', hentries]) (by rw [← hb]) (by rw [← hb]) (by rw [← hb]) hlt
  obtain ⟨l, r, hdone⟩ := hgrown.loop h.size (by rw [hbheap]; omega) (by rw [hbheap]; omega)
  generalize hb' : Build.loop n h.size b = b' at hdone
  have hleaves : (CodeTree.node l r).leaves.Perm used := Multiset.coe_eq_coe.mp hdone.leaves
  have hsorted : b'.sorted.Perm used := Multiset.coe_eq_coe.mp hdone.sorted
  rw [← hused] at hleaves hsorted
  obtain ⟨c, len', hlen, husedLen, hcomplete, hcount⟩ := makeLen_complete
    (fun i => if i < n then 0 else len i) hdone.hangs hleaves.length_eq hsorted (by omega)
    fun s hs => if_pos hs
  refine ⟨⟨b'.avail - 1, b'.freq, len', makeCode unset n c len' code⟩, ?_, ?_, husedLen, hcomplete,
    fun s hs hfreq => makeCode_eq hcount hcomplete ⟨hs, (husedLen s hs).mpr hfreq⟩⟩
  · rw [hsize] at hb hb'
    simp only [makeTree, hused, hh, hb, hb', hlen]
    rw [if_neg (by omega), Option.map_some]
  · have hsum := (hleaves.map freq).sum_eq
    rw [sum_usedSymbols] at hsum
    rw [← hsum]
    exact hdone.total

/-! ## The block -/

/-- `EncodeC` -/
def Tree.encodeC (t : Tree) (c : Nat) : Put := ⟨t.len c, t.code c⟩

/-- The loop of `EncodeP`. -/
def positionBits (q : Nat) : Nat := if q = 0 then 0 else positionBits (q >>> 1) + 1
termination_by q
decreasing_by
  rw [Nat.shiftRight_one]
  omega

/-- `EncodeP` -/
def Tree.encodeP (t : Tree) (p : Nat) : List Put :=
  let c := positionBits p
  ⟨t.len c, t.code c⟩ :: if 1 < c then [⟨c - 1, p &&& (0xffff >>> (17 - c))⟩] else []

/-- A turn of the loop of `SendBlock`: a byte, or a match with its position. -/
def encodeToken (ctree ptree : Tree) (token : Nat × Nat) : List Put :=
  ctree.encodeC token.1 :: if token.1 < 256 then [] else ptree.encodeP token.2

theorem positionBits_spec (q : Nat) : q < 2 ^ positionBits q ∧
    (q ≠ 0 → positionBits q ≠ 0 ∧ 2 ^ (positionBits q - 1) ≤ q) := by
  induction q using positionBits.induct with
  | case1 =>
    rw [positionBits, if_pos rfl]
    exact ⟨by decide, fun h => absurd rfl h⟩
  | case2 q hq ih =>
    obtain ⟨hlt, hle⟩ := ih
    rw [Nat.shiftRight_one] at hlt hle
    rw [positionBits, if_neg hq, Nat.shiftRight_one]
    refine ⟨by rw [Nat.pow_succ]; omega, fun _ => ⟨Nat.succ_ne_zero _, ?_⟩⟩
    rw [Nat.add_sub_cancel]
    by_cases hhalf : q / 2 = 0
    · rw [hhalf, positionBits, if_pos rfl]
      omega
    · obtain ⟨hne, hhalf⟩ := hle hhalf
      obtain ⟨b, hb⟩ := Nat.exists_eq_succ_of_ne_zero hne
      rw [hb, Nat.succ_sub_one] at hhalf
      rw [hb, Nat.pow_succ]
      omega

theorem positionBits_lt {p : Nat} (hp : p < 2 ^ 13) : positionBits p < 14 := by
  by_contra hlarge
  have hne : p ≠ 0 := by
    rintro rfl
    rw [positionBits, if_pos rfl] at hlarge
    omega
  have hle := ((positionBits_spec p).2 hne).2
  have : 2 ^ 13 ≤ 2 ^ (positionBits p - 1) := Nat.pow_le_pow_right (by decide) (by omega)
  omega

/-- The bits behind the first one. -/
theorem position_eq (p : Nat) : (if positionBits p = 0 then 0 else
    2 ^ (positionBits p - 1) + p % 2 ^ (positionBits p - 1)) = p := by
  obtain ⟨hlt, hle⟩ := positionBits_spec p
  by_cases hzero : p = 0
  · subst hzero
    rw [positionBits, if_pos rfl, if_pos rfl]
  · obtain ⟨hne, hle⟩ := hle hzero
    obtain ⟨b, hb⟩ := Nat.exists_eq_succ_of_ne_zero hne
    rw [hb, Nat.pow_succ] at hlt
    rw [hb, Nat.succ_sub_one] at hle
    rw [if_neg hne, hb, Nat.succ_sub_one, Nat.mod_eq_sub_mod hle, Nat.mod_eq_of_lt (by omega)]
    omega

theorem putsBits_encodeP (t : Tree) {p : Nat} (hp : p < 2 ^ 13) : putsBits (t.encodeP p) =
    wordBits (t.len (positionBits p)) (t.code (positionBits p)) ++
      wordBits (positionBits p - 1) (p % 2 ^ (positionBits p - 1)) := by
  have hlt := positionBits_lt hp
  have hmask : ∀ c < 14, 1 < c → 0xffff >>> (17 - c) = 2 ^ (c - 1) - 1 := by decide
  rw [Tree.encodeP]
  by_cases hmore : 1 < positionBits p
  · rw [if_pos hmore, hmask _ hlt hmore, Nat.and_two_pow_sub_one_eq_mod]
    simp [putsBits]
  · have hnone : positionBits p - 1 = 0 := by omega
    rw [if_neg hmore, hnone]
    simp [putsBits]

theorem Tree.Codes.hasWord {t : Tree} (h : t.Codes n freq) {s : Nat} (hs : s < n)
    (hfreq : freq s ≠ 0) : HasWord n t.len s :=
  ⟨hs, (h.used s hs).mpr hfreq⟩

/-- The token is one that has been counted: a byte, or a match with a position in the window. -/
structure Counted (cfreq pfreq : Nat → Nat) (token : Nat × Nat) : Prop where
  lt : token.1 < Dec.nc
  char : cfreq token.1 ≠ 0
  byte : token.1 < 256 → token.2 = 0
  inWindow : token.2 < 2 ^ 13
  pos : 256 ≤ token.1 → pfreq (positionBits token.2) ≠ 0

/-- The trees of the compressor and the tables of the decompressor for the sets of a block. -/
structure BlockCodes (cfreq pfreq : Nat → Nat) (ctree ptree : Tree) (ct pt : Dec.Trees) : Prop where
  codes : ctree.Codes Dec.nc cfreq
  tabled : Dec.Tabled Dec.nc 12 ctree.len
  grown : ∃ paths, Dec.Grown Dec.nc 12 ctree.len Dec.nc paths ct
  pcodes : ptree.Codes Dec.np pfreq
  ptabled : Dec.Tabled Dec.np 8 ptree.len
  pgrown : ∃ paths, Dec.Grown Dec.np 8 ptree.len Dec.np paths pt

section Tokens

variable {cfreq pfreq : Nat → Nat} {ctree ptree : Tree} {ct pt : Dec.Trees} {src : Nat → Byte}
  {total : Nat} {rest : List Bool} {sd : Dec.ScratchData} {token : Nat × Nat}

theorem decodeToken_encodeToken (h : BlockCodes cfreq pfreq ctree ptree ct pt)
    (htoken : Counted cfreq pfreq token) (hc : Dec.CharTables ctree.len ct sd)
    (hp : Dec.PosTables ptree.len pt sd) (htotal : total < 2 ^ 32)
    (hblock : 1 ≤ sd.blockSize ∧ sd.blockSize < 2 ^ 16)
    (hahead : sd.Ahead src total (putsBits (encodeToken ctree ptree token) ++ rest)) :
    ∃ sd', Dec.decodeToken src sd = .ok (sd', token) ∧ Dec.SameCodes sd sd' ∧
      sd'.blockSize + 1 = sd.blockSize ∧ sd'.Ahead src total rest := by
  obtain ⟨c, p⟩ := token
  obtain ⟨paths, hgrown⟩ := h.grown
  obtain ⟨ppaths, hpgrown⟩ := h.pgrown
  have hword := h.codes.hasWord htoken.lt htoken.char
  have hcode : ctree.code c = word 16 Dec.nc ctree.len c := h.codes.code c htoken.lt htoken.char
  have hsplit : putsBits (encodeToken ctree ptree (c, p)) =
      wordBits (ctree.len c) (word 16 Dec.nc ctree.len c) ++
        putsBits (if c < 256 then [] else ptree.encodeP p) := by
    rw [← hcode]
    rfl
  rw [hsplit, List.append_assoc] at hahead
  obtain ⟨sd₁, hrun, hsame, hsize, hahead₁⟩ :=
    Dec.decodeC_eq hgrown h.tabled hword hc htotal hblock hahead
  by_cases hbyte : c < 256
  · obtain rfl : p = 0 := htoken.byte hbyte
    rw [if_pos hbyte] at hahead₁
    refine ⟨sd₁, ?_, hsame, hsize, hahead₁⟩
    rw [Dec.decodeToken, hrun]
    exact if_pos hbyte
  · have hbits := positionBits_lt htoken.inWindow
    have hused := htoken.pos (Nat.not_lt.mp hbyte)
    have hpword := h.pcodes.hasWord hbits hused
    have hpcode := h.pcodes.code _ hbits hused
    rw [if_neg hbyte, putsBits_encodeP ptree htoken.inWindow, hpcode, List.append_assoc] at hahead₁
    obtain ⟨sd₂, hrun₂, hsame₂, hsize₂, hahead₂⟩ := Dec.decodeP_eq hpgrown h.ptabled hpword
      (Nat.mod_lt _ (Nat.two_pow_pos _)) (hp.same hsame) htotal hahead₁
    rw [position_eq] at hrun₂
    refine ⟨sd₂, ?_, hsame.trans hsame₂, by omega, hahead₂⟩
    rw [Dec.decodeToken, hrun]
    show (if c < 256 then _ else (Dec.decodeP src sd₁ >>= fun p => .ok (p.1, c, p.2))) = _
    rw [if_neg hbyte, hrun₂]
    rfl

theorem decodeTokens_encodeTokens (h : BlockCodes cfreq pfreq ctree ptree ct pt)
    {tokens : List (Nat × Nat)} (htokens : ∀ token ∈ tokens, Counted cfreq pfreq token)
    (hc : Dec.CharTables ctree.len ct sd) (hp : Dec.PosTables ptree.len pt sd)
    (htotal : total < 2 ^ 32) (hblock : tokens.length ≤ sd.blockSize ∧ sd.blockSize < 2 ^ 16)
    (hahead : sd.Ahead src total (putsBits (tokens.flatMap (encodeToken ctree ptree)) ++ rest)) :
    Dec.decodeTokens src tokens.length sd = .ok tokens := by
  induction tokens generalizing sd with
  | nil => rfl
  | cons token tokens ih =>
    rw [List.length_cons] at hblock
    rw [List.flatMap_cons, putsBits, List.flatMap_append, List.append_assoc] at hahead
    obtain ⟨sd', hrun, hsame, hsize, hahead'⟩ := decodeToken_encodeToken h
      (htokens token List.mem_cons_self) hc hp htotal (by omega) hahead
    have hrest := ih (fun token' h' => htokens token' (List.mem_cons_of_mem token h'))
      (hc.same hsame) (hp.same hsame) (by omega) hahead'
    rw [List.length_cons, Dec.decodeTokens, hrun]
    show (Dec.decodeTokens src tokens.length sd' >>= fun tokens => .ok (token :: tokens)) = _
    rw [hrest]
    rfl

end Tokens

/-- The scratch data has these lengths, and the tables that have been made of them. -/
structure Loaded (ctree ptree : Tree) (ct pt : Dec.Trees) (sd : Dec.ScratchData) : Prop where
  left : sd.left = pt.left
  right : sd.right = pt.right
  cTable : sd.cTable = ct.table
  cLen : sd.cLen = ctree.len
  ptTable : sd.ptTable = pt.table
  ptLen : sd.ptLen = ptree.len

/-- What `SendBlock` puts for counted tokens is read back by the turns within a block. -/
def ReadsBack (cfreq pfreq : Nat → Nat) (ctree ptree : Tree) (ct pt : Dec.Trees) : Prop :=
  ∀ (src : Nat → Byte) (total : Nat) (sd : Dec.ScratchData) (tokens : List (Nat × Nat))
    (rest : List Bool), total < 2 ^ 32 → (∀ token ∈ tokens, Counted cfreq pfreq token) →
      Loaded ctree ptree ct pt sd → tokens.length ≤ sd.blockSize → sd.blockSize < 2 ^ 16 →
        sd.Ahead src total (putsBits (tokens.flatMap (encodeToken ctree ptree)) ++ rest) →
          Dec.decodeTokens src tokens.length sd = .ok tokens

/-- The decompressor makes the tables of the codes that `MakeTree` has made, and reads with them the
    tokens of a block. -/
theorem makeTree_readsBack {cfreq pfreq : Nat → Nat} (hc : 2 ≤ (usedSymbols Dec.nc cfreq).length)
    (hp : 2 ≤ (usedSymbols Dec.np pfreq).length) (unset : Nat) (len code : Nat → Nat)
    (trees : Dec.Trees) (ptTable : Nat → Nat) :
    ∃ ctree ptree ct pt, makeTree unset Dec.nc cfreq len code = some ctree ∧
      makeTree unset Dec.np pfreq len code = some ptree ∧
      Dec.makeTable Dec.nc ctree.len 12 trees = some (ct, true) ∧
      Dec.makeTable Dec.np ptree.len 8 ⟨ct.left, ct.right, ptTable⟩ = some (pt, true) ∧
      ReadsBack cfreq pfreq ctree ptree ct pt := by
  obtain ⟨ctree, hmake, hcodes⟩ := makeTree_codes (Nat.le_refl 510) hc unset len code
  obtain ⟨ptree, hpmake, hpcodes⟩ := makeTree_codes (n := Dec.np) (by decide) hp unset len code
  have htabled : Dec.Tabled Dec.nc 12 ctree.len :=
    ⟨hcodes.complete, Nat.le_refl _, by decide, by decide⟩
  have hptabled : Dec.Tabled Dec.np 8 ptree.len :=
    ⟨hpcodes.complete, by decide, by decide, by decide⟩
  obtain ⟨ct, paths, htable, hgrown, -⟩ := Dec.makeTable_grown htabled trees
  obtain ⟨pt, ppaths, hptable, hpgrown, hout⟩ :=
    Dec.makeTable_grown hptabled ⟨ct.left, ct.right, ptTable⟩
  refine ⟨ctree, ptree, ct, pt, hmake, hpmake, htable, hptable, ?_⟩
  intro src total sd tokens rest htotal htokens hsd hle hlt hahead
  -- the nodes of the position set are in front of those of the char&len set
  have hchar : Dec.CharTables ctree.len ct sd := by
    refine ⟨⟨fun v hv _ => ?_, fun v hv _ => ?_⟩, hsd.cTable, hsd.cLen⟩
    · rw [hsd.left]
      exact hout.left v (.inr (Nat.le_trans (by decide) hv))
    · rw [hsd.right]
      exact hout.right v (.inr (Nat.le_trans (by decide) hv))
  have hpos : Dec.PosTables ptree.len pt sd := by
    refine ⟨⟨fun v _ _ => ?_, fun v _ _ => ?_⟩, hsd.ptTable, hsd.ptLen⟩
    · rw [hsd.left]
    · rw [hsd.right]
  exact decodeTokens_encodeTokens
    ⟨hcodes, htabled, ⟨paths, hgrown⟩, hpcodes, hptabled, ⟨ppaths, hpgrown⟩⟩ htokens hchar hpos
    htotal ⟨hle, hlt⟩ hahead

theorem makeTree_readsBack_three :
    ∃ ctree ptree ct pt,
      makeTree 0 Dec.nc (fun s => 3 - s) (fun _ => 0) (fun _ => 0) = some ctree ∧
      makeTree 0 Dec.np (fun s => 3 - s) (fun _ => 0) (fun _ => 0) = some ptree ∧
      Dec.makeTable Dec.nc ctree.len 12 ⟨fun _ => 0, fun _ => 0, fun _ => 0⟩ = some (ct, true) ∧
      Dec.makeTable Dec.np ptree.len 8 ⟨ct.left, ct.right, fun _ => 0⟩ = some (pt, true) ∧
      ReadsBack (fun s => 3 - s) (fun s => 3 - s) ctree ptree ct pt :=
  makeTree_readsBack (by decide +kernel) (by decide +kernel) 0 (fun _ => 0) (fun _ => 0)
    ⟨fun _ => 0, fun _ => 0, fun _ => 0⟩ fun _ => 0

end EfiCore.Enc
