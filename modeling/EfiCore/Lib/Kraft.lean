import Mathlib.Algebra.BigOperators.Ring.Finset
import Mathlib.Algebra.Order.BigOperators.Group.Finset
import Mathlib.Algebra.Order.BigOperators.Group.List
import Mathlib.Algebra.Order.Ring.Nat
import Mathlib.Data.Finset.Card
import Mathlib.Data.List.Count
import Mathlib.Order.Interval.Finset.Nat

/-! # Code words

The lengths of the words of a binary prefix code, as a table of lengths gives them: 0 for a symbol
without a word.  A word takes a part of the code space, which has `2 ^ width` places; the code is
complete if its words take all of it.

A table of lengths gives the words too: in the order of their lengths, and of the symbols among
those of one length, each word takes the places behind those of the words before it.  A word is the
beginning that its places have in common.

The lengths may come from a binary tree, whose leaves are as deep as their words are long.  They
take all of the code space; where depths above a limit are cut off at it, they take too much, but
by less than there are words of that length.
-/

namespace EfiCore.Lib

variable {width k : Nat} {lens : List Nat}

/-- The part of the code space that a word of this length takes. -/
def places (width len : Nat) : Nat := if len = 0 then 0 else 2 ^ (width - len)

/-- The part of the code space that the words take. -/
def kraftSum (width : Nat) (lens : List Nat) : Nat := (lens.map (places width)).sum

/-- The part that the words of at most `k` bits take. -/
def kraftUpTo (width k : Nat) (lens : List Nat) : Nat :=
  kraftSum width (lens.filter fun len => len ≤ k)

/-- The lengths are those of a complete prefix code. -/
structure CompleteCode (width : Nat) (lens : List Nat) : Prop where
  le : ∀ len ∈ lens, len ≤ width
  kraft : kraftSum width lens = 2 ^ width

@[simp] theorem kraftSum_cons (len : Nat) (lens : List Nat) :
    kraftSum width (len :: lens) = places width len + kraftSum width lens := by
  simp [kraftSum]

@[simp] theorem kraftSum_nil : kraftSum width [] = 0 := rfl

theorem kraftUpTo_zero : kraftUpTo width 0 lens = 0 := by
  induction lens with
  | nil => rfl
  | cons len lens ih =>
    unfold kraftUpTo at ih ⊢
    by_cases hlen : len ≤ 0
    · rw [List.filter_cons_of_pos (by simpa using hlen), kraftSum_cons, ih, places,
        if_pos (Nat.le_zero.mp hlen)]
    · rw [List.filter_cons_of_neg (by simpa using hlen), ih]

/-- The words of one length more. -/
theorem kraftUpTo_succ : kraftUpTo width (k + 1) lens =
    kraftUpTo width k lens + lens.count (k + 1) * 2 ^ (width - (k + 1)) := by
  induction lens with
  | nil => simp [kraftUpTo]
  | cons len lens ih =>
    unfold kraftUpTo at ih ⊢
    rcases lt_trichotomy len (k + 1) with hlt | rfl | hgt
    · rw [List.filter_cons_of_pos (by simpa using hlt.le),
        List.filter_cons_of_pos (by simpa using Nat.le_of_lt_succ hlt), kraftSum_cons,
        kraftSum_cons, ih, List.count_cons_of_ne hlt.ne, Nat.add_assoc]
    · rw [List.filter_cons_of_pos (by simp), List.filter_cons_of_neg (by simp), kraftSum_cons, ih,
        List.count_cons_self, places, if_neg (Nat.succ_ne_zero k), Nat.succ_mul]
      omega
    · rw [List.filter_cons_of_neg (by simpa using hgt),
        List.filter_cons_of_neg (by simp; omega), ih, List.count_cons_of_ne hgt.ne']

/-- No word is longer than `k` bits. -/
theorem kraftUpTo_eq (h : ∀ len ∈ lens, len ≤ k) :
    kraftUpTo width k lens = kraftSum width lens := by
  rw [kraftUpTo, List.filter_eq_self.mpr fun len hlen => by simpa using h len hlen]

/-! ## Canonical codes -/

open Finset

variable {count : Nat} {len : Nat → Nat} {i j s r v : Nat}

/-- `j` has a word, and it comes before the one of `s`. -/
def Before (len : Nat → Nat) (j s : Nat) : Prop :=
  len j ≠ 0 ∧ (len j < len s ∨ len j = len s ∧ j < s)

instance (len : Nat → Nat) (j s : Nat) : Decidable (Before len j s) := by
  unfold Before
  infer_instance

/-- The first place of the word of `s`. -/
def firstPlace (width count : Nat) (len : Nat → Nat) (s : Nat) : Nat :=
  ∑ j ∈ range count with Before len j s, places width (len j)

/-- The word of `s`. -/
def word (width count : Nat) (len : Nat → Nat) (s : Nat) : Nat :=
  firstPlace width count len s >>> (width - len s)

/-- The symbol has a word. -/
structure HasWord (count : Nat) (len : Nat → Nat) (s : Nat) : Prop where
  lt : s < count
  ne : len s ≠ 0

@[simp] theorem places_zero (width : Nat) : places width 0 = 0 := rfl

theorem kraftUpTo_nil (width k : Nat) : kraftUpTo width k [] = 0 := rfl

theorem kraftUpTo_append (width k : Nat) (xs ys : List Nat) :
    kraftUpTo width k (xs ++ ys) = kraftUpTo width k xs + kraftUpTo width k ys := by
  simp [kraftUpTo, kraftSum, List.filter_append]

theorem kraftUpTo_singleton_of_le {k n : Nat} (h : n ≤ k) :
    kraftUpTo width k [n] = places width n := by
  simp [kraftUpTo, h]

theorem kraftUpTo_singleton_of_lt {k n : Nat} (h : k < n) : kraftUpTo width k [n] = 0 := by
  simp [kraftUpTo, Nat.not_le.mpr h]

theorem places_of_ne (h : len s ≠ 0) : places width (len s) = 2 ^ (width - len s) := if_neg h

/-! ## Order -/

theorem Before.trans (h : Before len i j) (h' : Before len j s) : Before len i s := by
  refine ⟨h.1, ?_⟩
  have := h.2
  have := h'.2
  omega

theorem before_irrefl (s : Nat) : ¬ Before len s s := by
  rintro ⟨-, h | h⟩ <;> omega

theorem before_or_before (hj : len j ≠ 0) (hs : len s ≠ 0) (hne : j ≠ s) :
    Before len j s ∨ Before len s j := by
  unfold Before
  omega

/-- The words do not share places. -/
theorem firstPlace_add_le (width : Nat) (hj : j < count) (h : Before len j s) :
    firstPlace width count len j + places width (len j) ≤ firstPlace width count len s := by
  have hout : j ∉ (range count).filter fun i => Before len i j := by simp [before_irrefl]
  rw [firstPlace, Nat.add_comm, ← sum_insert (f := fun i => places width (len i)) hout]
  refine sum_le_sum_of_subset fun i hi => ?_
  rcases mem_insert.mp hi with rfl | hi
  · exact mem_filter.mpr ⟨mem_range.mpr hj, h⟩
  · obtain ⟨hrange, hbefore⟩ := mem_filter.mp hi
    exact mem_filter.mpr ⟨hrange, hbefore.trans h⟩

theorem kraftSum_range (width count : Nat) (len : Nat → Nat) :
    kraftSum width ((List.range count).map len) = ∑ j ∈ range count, places width (len j) := by
  induction count with
  | zero => rfl
  | succ count ih =>
    rw [sum_range_succ, ← ih, kraftSum, kraftSum, List.range_succ, List.map_append, List.map_append,
      List.sum_append]
    simp

theorem firstPlace_le_kraftSum (width : Nat) (len : Nat → Nat) (hs : s < count) :
    firstPlace width count len s + places width (len s) ≤
      kraftSum width ((List.range count).map len) := by
  have hout : s ∉ (range count).filter fun i => Before len i s := by simp [before_irrefl]
  rw [kraftSum_range, firstPlace, Nat.add_comm,
    ← sum_insert (f := fun i => places width (len i)) hout]
  refine sum_le_sum_of_subset fun i hi => ?_
  rcases mem_insert.mp hi with rfl | hi
  · exact mem_range.mpr hs
  · exact (mem_filter.mp hi).1

/-! ## Places -/

/-- The place `v` is one of the word of `s`. -/
structure PlaceOf (width count : Nat) (len : Nat → Nat) (s v : Nat) : Prop where
  symbol : HasWord count len s
  le : firstPlace width count len s ≤ v
  lt : v < firstPlace width count len s + 2 ^ (width - len s)

theorem HasWord.placeOf (h : HasWord count len s) :
    PlaceOf width count len s (firstPlace width count len s) :=
  ⟨h, Nat.le_refl _, Nat.lt_add_of_pos_right (Nat.two_pow_pos _)⟩

theorem PlaceOf.unique (h : PlaceOf width count len s v) (h' : PlaceOf width count len r v) :
    s = r := by
  by_contra hne
  have := h.le
  have := h.lt
  have := h'.le
  have := h'.lt
  rcases before_or_before h.symbol.ne h'.symbol.ne hne with hbefore | hbefore
  · have := firstPlace_add_le width h.symbol.lt hbefore
    rw [places_of_ne h.symbol.ne] at this
    omega
  · have := firstPlace_add_le width h'.symbol.lt hbefore
    rw [places_of_ne h'.symbol.ne] at this
    omega

/-- The words of a complete code take all the places. -/
theorem exists_placeOf (h : CompleteCode width ((List.range count).map len)) (hv : v < 2 ^ width) :
    ∃ s, PlaceOf width count len s v := by
  classical
  -- the places of the words are disjoint, and as many as there are places
  let used := (range count).filter fun s => len s ≠ 0
  let taken s := Ico (firstPlace width count len s)
    (firstPlace width count len s + 2 ^ (width - len s))
  have hword : ∀ {s}, s ∈ used → HasWord count len s := fun hs =>
    ⟨mem_range.mp (mem_filter.mp hs).1, (mem_filter.mp hs).2⟩
  have hplace : ∀ {s v}, s ∈ used → v ∈ taken s → PlaceOf width count len s v := fun hs hv =>
    ⟨hword hs, (mem_Ico.mp hv).1, (mem_Ico.mp hv).2⟩
  have hdisjoint : (used : Set Nat).PairwiseDisjoint taken := by
    intro s hs r hr hne
    refine disjoint_left.mpr fun v hvs hvr => hne ?_
    exact (hplace hs hvs).unique (hplace hr hvr)
  have hcard : (used.biUnion taken).card = 2 ^ width := by
    have hunused : ∑ s ∈ range count with ¬ len s ≠ 0, places width (len s) = 0 := by
      refine sum_eq_zero fun s hs => ?_
      rw [places, if_pos (not_not.mp (mem_filter.mp hs).2)]
    have hsplit := sum_filter_add_sum_filter_not (range count) (fun s => len s ≠ 0)
      fun s => places width (len s)
    rw [card_biUnion hdisjoint, ← h.kraft, kraftSum_range, ← hsplit, hunused, Nat.add_zero]
    refine sum_congr rfl fun s hs => ?_
    rw [places_of_ne (mem_filter.mp hs).2, Nat.card_Ico, Nat.add_sub_cancel_left]
  have hsub : used.biUnion taken ⊆ range (2 ^ width) := by
    intro v hv
    obtain ⟨s, hs, hvs⟩ := mem_biUnion.mp hv
    have hle := firstPlace_le_kraftSum width len (hword hs).lt
    rw [h.kraft, places_of_ne (hword hs).ne] at hle
    exact mem_range.mpr ((hplace hs hvs).lt.trans_le hle)
  have hall : used.biUnion taken = range (2 ^ width) :=
    eq_of_subset_of_card_le hsub (by rw [hcard, card_range])
  have hin : v ∈ used.biUnion taken := by
    rw [hall]
    exact mem_range.mpr hv
  obtain ⟨s, hs, hvs⟩ := mem_biUnion.mp hin
  exact ⟨s, hplace hs hvs⟩

theorem kraftUpTo_range_succ (width k n : Nat) (len : Nat → Nat) :
    kraftUpTo width k ((List.range (n + 1)).map len) =
      kraftUpTo width k ((List.range n).map len) +
        if len n ≤ k then places width (len n) else 0 := by
  rw [List.range_succ, List.map_append, kraftUpTo_append, List.map_singleton]
  by_cases hk : len n ≤ k
  · rw [if_pos hk, kraftUpTo_singleton_of_le hk]
  · rw [if_neg hk, kraftUpTo_singleton_of_lt (Nat.not_le.mp hk)]

/-- The symbols before `s` that have words as long as its one. -/
def earlier (len : Nat → Nat) (s n : Nat) : Nat := ((List.range (min n s)).map len).count (len s)

theorem earlier_succ (len : Nat → Nat) (s n : Nat) :
    earlier len s (n + 1) = earlier len s n + if n < s ∧ len n = len s then 1 else 0 := by
  unfold earlier
  by_cases hns : n < s
  · rw [Nat.min_eq_left hns, Nat.min_eq_left hns.le, List.range_succ, List.map_append,
      List.count_append, List.map_singleton, List.count_singleton]
    by_cases hlen : len n = len s
    · simp [hns, hlen]
    · simp [hlen]
  · rw [Nat.min_eq_right (by omega), Nat.min_eq_right (by omega), if_neg fun h => hns h.1]
    rfl

/-- What a symbol adds in front of the word of `s`. -/
theorem places_before (hs : len s ≠ 0) (n : Nat) :
    (if Before len n s then places width (len n) else 0) =
      (if len n ≤ len s - 1 then places width (len n) else 0) +
        (if n < s ∧ len n = len s then 1 else 0) * 2 ^ (width - len s) := by
  by_cases hzero : len n = 0
  · have hb : ¬ Before len n s := fun hb => hb.1 hzero
    have hsame : ¬ (n < s ∧ len n = len s) := fun hsame => hs (hsame.2.symm.trans hzero)
    rw [if_neg hb, if_neg hsame, hzero, places_zero, ite_self, Nat.zero_mul]
  rcases Nat.lt_trichotomy (len n) (len s) with hlt | heq | hgt
  · have hb : Before len n s := ⟨hzero, .inl hlt⟩
    rw [if_pos hb, if_pos (by omega), if_neg fun hsame => hlt.ne hsame.2, Nat.zero_mul,
      Nat.add_zero]
  · have hb : Before len n s ↔ n < s := by
      unfold Before
      omega
    rw [if_neg (by omega : ¬ len n ≤ len s - 1), Nat.zero_add, places_of_ne hzero, heq]
    by_cases hns : n < s
    · rw [if_pos (hb.mpr hns), if_pos ⟨hns, rfl⟩, Nat.one_mul]
    · rw [if_neg (mt hb.mp hns), if_neg fun hsame => hns hsame.1, Nat.zero_mul]
  · have hb : ¬ Before len n s := fun hb => by
      have := hb.2
      omega
    rw [if_neg hb, if_neg (by omega : ¬ len n ≤ len s - 1), if_neg fun hsame => hgt.ne' hsame.2,
      Nat.zero_mul]

/-- The words before one are the shorter ones and, of those of its length, the ones of the symbols
    before. -/
theorem firstPlace_eq (width : Nat) (h : HasWord count len s) :
    firstPlace width count len s = kraftUpTo width (len s - 1) ((List.range count).map len) +
      ((List.range s).map len).count (len s) * 2 ^ (width - len s) := by
  have hsum : ∀ n, (∑ j ∈ range n, if Before len j s then places width (len j) else 0) =
      kraftUpTo width (len s - 1) ((List.range n).map len) +
        earlier len s n * 2 ^ (width - len s) := by
    intro n
    induction n with
    | zero => simp [kraftUpTo_nil, earlier]
    | succ n ih =>
      rw [sum_range_succ, ih, kraftUpTo_range_succ, earlier_succ, Nat.add_mul, places_before h.ne]
      ac_rfl
  have hs := hsum count
  rw [earlier, Nat.min_eq_right h.lt.le] at hs
  rw [firstPlace, sum_filter, hs]

/-! ## Beginnings -/

/-- The first place has zeros behind the word. -/
theorem dvd_firstPlace (width count : Nat) (len : Nat → Nat) (s : Nat) :
    2 ^ (width - len s) ∣ firstPlace width count len s := by
  refine Finset.dvd_sum fun j hj => ?_
  obtain ⟨hrange, hbefore⟩ := mem_filter.mp hj
  rw [places_of_ne hbefore.1]
  refine Nat.pow_dvd_pow 2 ?_
  have := hbefore.2
  omega

/-- The places of a word are those that begin with it. -/
theorem placeOf_iff (h : HasWord count len s) :
    PlaceOf width count len s v ↔ v >>> (width - len s) = word width count len s := by
  obtain ⟨w, hw⟩ := dvd_firstPlace width count len s
  have hpos := Nat.two_pow_pos (width - len s)
  rw [word, hw, Nat.shiftRight_eq_div_pow, Nat.shiftRight_eq_div_pow,
    Nat.mul_div_cancel_left w hpos, Nat.div_eq_iff hpos]
  constructor
  · rintro ⟨-, hfirst, hlast⟩
    rw [hw] at hfirst hlast
    rw [Nat.mul_comm w]
    omega
  · rintro ⟨hfirst, hlast⟩
    rw [Nat.mul_comm w] at hfirst hlast
    refine ⟨h, ?_, ?_⟩
    · rw [hw]
      omega
    · rw [hw]
      omega

/-- The words of a code that is not too large have room for their bits. -/
theorem word_lt (h : HasWord count len s) (hle : len s ≤ width)
    (hkraft : kraftSum width ((List.range count).map len) ≤ 2 ^ width) :
    word width count len s < 2 ^ len s := by
  have hroom := firstPlace_le_kraftSum width len h.lt
  rw [places_of_ne h.ne] at hroom
  have hpos := Nat.two_pow_pos (width - len s)
  rw [word, Nat.shiftRight_eq_div_pow, Nat.div_lt_iff_lt_mul hpos, ← Nat.pow_add,
    Nat.add_sub_cancel' hle]
  omega

/-- No word is the beginning of another one. -/
theorem word_free (hs : HasWord count len s) (hr : HasWord count len r) (hne : s ≠ r)
    (hlong : len s ≤ len r) (hle : len r ≤ width) :
    word width count len r >>> (len r - len s) ≠ word width count len s := by
  intro heq
  have hsum : width - len r + (len r - len s) = width - len s := by omega
  rw [word, ← Nat.shiftRight_add, hsum] at heq
  exact hne (((placeOf_iff hs).mpr heq).unique hr.placeOf)

/-- `q`, of `depth` bits, is the beginning of a longer word. -/
def Inner (width count : Nat) (len : Nat → Nat) (depth q : Nat) : Prop :=
  ∃ s, HasWord count len s ∧ depth < len s ∧
    firstPlace width count len s >>> (width - depth) = q

/-- The place in the middle of those that begin with the `depth` bits of `q`. -/
def middle (width depth q : Nat) : Nat := (2 * q + 1) * 2 ^ (width - depth - 1)

/-- No word is the beginning of another one. -/
theorem not_inner_word (h : HasWord count len s) :
    ¬ Inner width count len (len s) (word width count len s) := by
  rintro ⟨r, hr, hlong, hq⟩
  obtain rfl := ((placeOf_iff h).mpr hq).unique hr.placeOf
  exact absurd hlong (Nat.lt_irrefl _)

theorem middle_div {depth q k : Nat} (hdepth : depth < width) (hk : k ≤ depth) :
    middle width depth q >>> (width - k) = q >>> (depth - k) := by
  have hsplit : width - k = (width - depth - 1) + (1 + (depth - k)) := by omega
  have hmid : (2 * q + 1) / 2 = q := by omega
  rw [middle, hsplit, Nat.shiftRight_add, Nat.shiftRight_eq_div_pow _ (width - depth - 1),
    Nat.mul_div_cancel _ (Nat.two_pow_pos _), Nat.shiftRight_add, Nat.shiftRight_eq_div_pow _ 1,
    Nat.pow_one, hmid]

theorem middle_injective {depth depth' q q' : Nat} (hdepth : depth < width)
    (hdepth' : depth' < width) (h : middle width depth q = middle width depth' q') :
    depth = depth' ∧ q = q' := by
  have key : ∀ {a b x y : Nat}, (2 * x + 1) * 2 ^ a = (2 * y + 1) * 2 ^ b → ¬ a < b := by
    intro a b x y heq hlt
    obtain ⟨c, rfl⟩ := Nat.exists_eq_add_of_lt hlt
    rw [Nat.add_assoc, Nat.pow_add, Nat.mul_left_comm, Nat.mul_comm (2 * x + 1)] at heq
    have := Nat.eq_of_mul_eq_mul_left (Nat.two_pow_pos a) heq
    rw [Nat.pow_succ, ← Nat.mul_assoc] at this
    omega
  have hsame : width - depth - 1 = width - depth' - 1 :=
    Nat.le_antisymm (Nat.not_lt.mp (key h.symm)) (Nat.not_lt.mp (key h))
  rw [middle, middle, hsame] at h
  have := Nat.eq_of_mul_eq_mul_right (Nat.two_pow_pos _) h
  omega

theorem middle_lt {depth q : Nat} (hdepth : depth < width) (hq : q < 2 ^ depth) :
    middle width depth q < 2 ^ width := by
  have hsum : 2 ^ width = 2 ^ depth * (2 * 2 ^ (width - depth - 1)) := by
    rw [← Nat.pow_succ', ← Nat.pow_add]
    congr 1
    omega
  rw [middle, hsum, ← Nat.mul_assoc]
  exact Nat.mul_lt_mul_of_pos_right (by omega) (Nat.two_pow_pos _)

/-- The beginnings of words are within the code space. -/
theorem Inner.lt (h : CompleteCode width ((List.range count).map len)) {depth q : Nat}
    (hinner : Inner width count len depth q) : depth < width ∧ q < 2 ^ depth := by
  obtain ⟨s, hs, hlong, rfl⟩ := hinner
  have hle : len s ≤ width := h.le _ (List.mem_map.mpr ⟨s, List.mem_range.mpr hs.lt, rfl⟩)
  have hfirst := firstPlace_le_kraftSum width len hs.lt
  have hpos := Nat.two_pow_pos (width - len s)
  have hsum : depth + (width - depth) = width := by omega
  rw [h.kraft, places_of_ne hs.ne] at hfirst
  refine ⟨hlong.trans_le hle, ?_⟩
  rw [Nat.shiftRight_eq_div_pow, Nat.div_lt_iff_lt_mul (Nat.two_pow_pos _), ← Nat.pow_add, hsum]
  omega

/-- The middle behind the beginning of a longer word is the first place of a word. -/
theorem exists_firstPlace_middle (h : CompleteCode width ((List.range count).map len))
    {depth q : Nat} (hinner : Inner width count len depth q) :
    ∃ r, HasWord count len r ∧ firstPlace width count len r = middle width depth q := by
  obtain ⟨hdepth, hq'⟩ := hinner.lt h
  have hmiddle := middle_lt hdepth hq'
  obtain ⟨s, hs, hlong, hq⟩ := hinner
  obtain ⟨r, hr⟩ := exists_placeOf h hmiddle
  refine ⟨r, hr.symbol, ?_⟩
  have hplace := (placeOf_iff hr.symbol).mp hr
  by_cases hshort : len r ≤ depth
  · -- then the longer word begins with this one
    rw [middle_div hdepth hshort, ← hq, ← Nat.shiftRight_add] at hplace
    have hsum : width - depth + (depth - len r) = width - len r := by omega
    rw [hsum] at hplace
    obtain rfl := ((placeOf_iff hr.symbol).mpr hplace).unique hs.placeOf
    omega
  · -- both are multiples of the length of the word, and less than that apart
    obtain ⟨w, hw⟩ := dvd_firstPlace width count len r
    have hdvd : 2 ^ (width - len r) ∣ middle width depth q :=
      Dvd.dvd.mul_left (Nat.pow_dvd_pow 2 (by omega)) _
    obtain ⟨m, hm⟩ := hdvd
    have hge := hr.le
    have hlt := hr.lt
    rw [hw, hm] at hge hlt ⊢
    have hwm := Nat.le_of_mul_le_mul_left hge (Nat.two_pow_pos _)
    rw [← Nat.mul_succ] at hlt
    have hmw := Nat.lt_of_mul_lt_mul_left hlt
    rw [show w = m by omega]

/-- A complete code has fewer beginnings than symbols. -/
theorem length_lt_of_inner (h : CompleteCode width ((List.range count).map len))
    {paths : List (Nat × Nat)} (hnodup : paths.Nodup)
    (hinner : ∀ π ∈ paths, Inner width count len π.1 π.2) : paths.length < count := by
  classical
  have hdepth : ∀ π ∈ paths, π.1 < width := fun π hπ => ((hinner π hπ).lt h).1
  -- the middles are first places, and not the one of the word at the place 0
  obtain ⟨first, hfirst⟩ := exists_placeOf h (Nat.two_pow_pos width)
  have hzero : firstPlace width count len first = 0 := Nat.le_zero.mp hfirst.le
  let middles := (paths.map fun π => middle width π.1 π.2).toFinset
  have hsub : middles ⊆ ((range count).erase first).image (firstPlace width count len) := by
    intro m hm
    obtain ⟨π, hπ, rfl⟩ := List.mem_map.mp (List.mem_toFinset.mp hm)
    obtain ⟨r, hr, hmid⟩ := exists_firstPlace_middle h (hinner π hπ)
    refine mem_image.mpr ⟨r, mem_erase.mpr ⟨?_, mem_range.mpr hr.lt⟩, hmid⟩
    rintro rfl
    have : 0 < middle width π.1 π.2 := Nat.mul_pos (by omega) (Nat.two_pow_pos _)
    omega
  have hlen : middles.card = paths.length := by
    rw [List.toFinset_card_of_nodup, List.length_map]
    refine (List.nodup_map_iff_inj_on hnodup).mpr fun π hπ ρ hρ heq => ?_
    obtain ⟨hd, hq⟩ := middle_injective (hdepth π hπ) (hdepth ρ hρ) heq
    exact Prod.ext hd hq
  have hcard := (card_le_card hsub).trans card_image_le
  rw [hlen, card_erase_of_mem (mem_range.mpr hfirst.symbol.lt), card_range] at hcard
  have := hfirst.symbol.lt
  omega

/-! ## Parts of the code space -/

theorem kraftUpTo_mono {lens : List Nat} {k k' : Nat} (hk : k ≤ k') :
    kraftUpTo width k lens ≤ kraftUpTo width k' lens := by
  induction k', hk using Nat.le_induction with
  | base => exact Nat.le_refl _
  | succ k' _ ih =>
    rw [kraftUpTo_succ]
    exact ih.trans (Nat.le_add_right _ _)

theorem dvd_kraftUpTo (lens : List Nat) (width k : Nat) :
    2 ^ (width - k) ∣ kraftUpTo width k lens := by
  induction k with
  | zero => rw [kraftUpTo_zero]; exact Nat.dvd_zero _
  | succ k ih =>
    rw [kraftUpTo_succ]
    exact Nat.dvd_add ((Nat.pow_dvd_pow 2 (by omega)).trans ih) (Nat.dvd_mul_left _ _)

/-- The shorter words take the places in front. -/
theorem firstPlace_add_le_kraftUpTo {k : Nat} (h : HasWord count len s) (hk : len s ≤ k) :
    firstPlace width count len s + 2 ^ (width - len s) ≤
      kraftUpTo width k ((List.range count).map len) := by
  have hmore : ((List.range s).map len).count (len s) + 1 ≤
      ((List.range count).map len).count (len s) := by
    have hsub : (List.range (s + 1)).Sublist (List.range count) :=
      List.range_sublist.mpr (Nat.succ_le_of_lt h.lt)
    have hcount := (hsub.map len).count_le (len s)
    rwa [List.range_succ, List.map_append, List.count_append, List.map_singleton,
      List.count_singleton_self] at hcount
  obtain ⟨l, hl⟩ : ∃ l, len s = l + 1 := Nat.exists_eq_succ_of_ne_zero h.ne
  refine Nat.le_trans ?_ (kraftUpTo_mono hk)
  rw [firstPlace_eq width h]
  have hsplit : kraftUpTo width (l + 1) ((List.range count).map len) = _ := kraftUpTo_succ
  rw [← hl] at hsplit
  rw [hsplit, hl, Nat.add_sub_cancel, Nat.add_assoc, ← Nat.succ_mul]
  rw [hl] at hmore
  exact Nat.add_le_add_left (Nat.mul_le_mul_right _ hmore) _

/-! ## Trees -/

inductive CodeTree (α : Type) where
  | leaf (a : α)
  | node (l r : CodeTree α)

namespace CodeTree

variable {α : Type} {limit depth : Nat} {t : CodeTree α}

def leaves : CodeTree α → List α
  | leaf a => [a]
  | node l r => l.leaves ++ r.leaves

/-- The depths of the leaves, cut off at `limit`. -/
def lengths (limit : Nat) : CodeTree α → Nat → List Nat
  | leaf _, depth => [min depth limit]
  | node l r, depth => l.lengths limit (depth + 1) ++ r.lengths limit (depth + 1)

theorem length_lengths (limit : Nat) (t : CodeTree α) (depth : Nat) :
    (t.lengths limit depth).length = t.leaves.length := by
  induction t generalizing depth with
  | leaf a => rfl
  | node l r ihl ihr => simp [lengths, leaves, ihl, ihr]

theorem lengths_mem (hdepth : 1 ≤ depth) (hlimit : 1 ≤ limit) :
    ∀ len ∈ t.lengths limit depth, 1 ≤ len ∧ len ≤ limit := by
  induction t generalizing depth with
  | leaf a =>
    intro len hlen
    obtain rfl := List.mem_singleton.mp hlen
    omega
  | node l r ihl ihr =>
    intro len hlen
    rcases List.mem_append.mp hlen with hl | hr
    · exact ihl (by omega) len hl
    · exact ihr (by omega) len hr

/-- Behind the limit each leaf takes one place. -/
theorem lengths_behind (hdepth : limit ≤ depth) :
    t.lengths limit depth = List.replicate t.leaves.length limit := by
  induction t generalizing depth with
  | leaf a => simp [lengths, leaves, Nat.min_eq_right hdepth]
  | node l r ihl ihr =>
    rw [lengths, leaves, ihl (by omega), ihr (by omega), List.length_append,
      List.replicate_add]

theorem leaves_pos (t : CodeTree α) : 0 < t.leaves.length := by
  induction t with
  | leaf a => exact Nat.one_pos
  | node l r ihl ihr =>
    rw [leaves, List.length_append]
    omega

theorem kraftSum_append (width : Nat) (xs ys : List Nat) :
    kraftSum width (xs ++ ys) = kraftSum width xs + kraftSum width ys := by
  simp [kraftSum]

theorem kraftSum_replicate (n : Nat) (hlimit : 1 ≤ limit) :
    kraftSum limit (List.replicate n limit) = n := by
  have hne : limit ≠ 0 := by omega
  simp [kraftSum, places, hne]

/-- The places that the leaves take, and the ones that they take too many. -/
theorem kraftSum_lengths (hdepth : 1 ≤ depth) (hle : depth ≤ limit) :
    2 ^ (limit - depth) ≤ kraftSum limit (t.lengths limit depth) ∧
      (kraftSum limit (t.lengths limit depth) = 2 ^ (limit - depth) ∨
        kraftSum limit (t.lengths limit depth) <
          2 ^ (limit - depth) + (t.lengths limit depth).count limit) := by
  induction t generalizing depth with
  | leaf a =>
    have hne : depth ≠ 0 := by omega
    simp [lengths, Nat.min_eq_left hle, places, hne]
  | node l r ihl ihr =>
    by_cases hlt : depth < limit
    · obtain ⟨hleast, hl⟩ := ihl (Nat.le_add_left 1 depth) hlt
      obtain ⟨hleast', hr⟩ := ihr (Nat.le_add_left 1 depth) hlt
      have hhalf : 2 ^ (limit - depth) = 2 ^ (limit - (depth + 1)) + 2 ^ (limit - (depth + 1)) := by
        rw [← Nat.two_mul, ← Nat.pow_succ']
        congr 1
        omega
      rw [lengths, kraftSum_append, List.count_append, hhalf]
      omega
    · obtain rfl : depth = limit := Nat.le_antisymm hle (Nat.not_lt.mp hlt)
      have := leaves_pos (node l r)
      rw [lengths_behind (Nat.le_refl depth), kraftSum_replicate _ hdepth,
        List.count_replicate_self, Nat.sub_self]
      omega

theorem root_lengths_mem (l r : CodeTree α) (hlimit : 1 ≤ limit) :
    ∀ len ∈ (node l r).lengths limit 0, 1 ≤ len ∧ len ≤ limit := by
  intro len hlen
  rcases List.mem_append.mp hlen with hl | hr
  · exact lengths_mem (Nat.le_refl 1) hlimit len hl
  · exact lengths_mem (Nat.le_refl 1) hlimit len hr

/-- The lengths of a tree with two leaves at least. -/
theorem kraftSum_root (l r : CodeTree α) (hlimit : 1 ≤ limit) :
    2 ^ limit ≤ kraftSum limit ((node l r).lengths limit 0) ∧
      (kraftSum limit ((node l r).lengths limit 0) = 2 ^ limit ∨
        kraftSum limit ((node l r).lengths limit 0) <
          2 ^ limit + ((node l r).lengths limit 0).count limit) := by
  obtain ⟨hleast, hl⟩ := kraftSum_lengths (t := l) (Nat.le_refl 1) hlimit
  obtain ⟨hleast', hr⟩ := kraftSum_lengths (t := r) (Nat.le_refl 1) hlimit
  have hhalf : 2 ^ limit = 2 ^ (limit - 1) + 2 ^ (limit - 1) := by
    rw [← Nat.two_mul, ← Nat.pow_succ']
    congr 1
    omega
  rw [lengths, Nat.zero_add, kraftSum_append, List.count_append, hhalf]
  omega

end CodeTree

end EfiCore.Lib
