import EfiCore.Lib.Index
import Mathlib.Data.List.TakeWhile

/-! # Lists of disjoint spans

A list of records, each of which occupies the numbers from `first` to `last` and is told
apart by `key`.  `Spans` says that the list names each record once and that no two records
overlap; it says nothing about the order of the list.  The order is a second property,
`InOrder`, asked only of the records that pass a test: a list may keep records it has not
sorted in yet at its end.
-/

namespace EfiCore.Lib

universe u v w

variable {β : Type u} {K : Type v}

/-- No record is empty, none has the key of another, and no two overlap. -/
structure Spans (key : β → K) (first last : β → Nat) (l : List β) : Prop where
  distinct : (l.map key).Nodup
  nonempty : ∀ b ∈ l, first b ≤ last b
  apart : ∀ a ∈ l, ∀ b ∈ l, key a ≠ key b → last a < first b ∨ last b < first a

/-- `b` in place of the record that has its key. -/
def replace [DecidableEq K] (key : β → K) (l : List β) (b : β) : List β :=
  l.map fun x => if key x = key b then b else x

/-- The record that occupies `n`. -/
def occupant (first last : β → Nat) (l : List β) (n : Nat) : Option β :=
  l.find? fun b => first b ≤ n ∧ n ≤ last b

/-- `e` in front of the first record above it, among those that pass `p`. -/
def insertInOrder (p : β → Bool) (first : β → Nat) (l : List β) (e : β) : List β :=
  let below := fun x : β => !(p x && decide (first e < first x))
  l.takeWhile below ++ e :: l.dropWhile below

/-- The records that pass `p` are sorted. -/
def InOrder (p : β → Bool) (first : β → Nat) (l : List β) : Prop :=
  l.Pairwise fun a b => p a → p b → first a < first b

theorem mem_replace [DecidableEq K] {key : β → K} {l : List β} {b x : β} :
    x ∈ replace key l b ↔ (x ∈ l ∧ key x ≠ key b) ∨ (x = b ∧ ∃ y ∈ l, key y = key b) := by
  simp only [replace, List.mem_map]
  constructor
  · rintro ⟨y, hy, rfl⟩
    by_cases hk : key y = key b
    · rw [if_pos hk]
      exact .inr ⟨rfl, y, hy, hk⟩
    · rw [if_neg hk]
      exact .inl ⟨hy, hk⟩
  · rintro (⟨hx, hk⟩ | ⟨rfl, y, hy, hk⟩)
    · exact ⟨x, hx, if_neg hk⟩
    · exact ⟨y, hy, if_pos hk⟩

theorem mem_insertInOrder {p : β → Bool} {first : β → Nat} {l : List β} {e x : β} :
    x ∈ insertInOrder p first l e ↔ x = e ∨ x ∈ l := by
  have hsplit (f : β → Bool) : x ∈ l ↔ x ∈ l.takeWhile f ∨ x ∈ l.dropWhile f := by
    rw [← List.mem_append, List.takeWhile_append_dropWhile]
  simp only [insertInOrder, List.mem_append, List.mem_cons]
  rw [hsplit]
  tauto

/-- Writing one record and then taking it out is taking it out. -/
theorem filter_replace [DecidableEq K] (key : β → K) (l : List β) (b : β) :
    (replace key l b).filter (key · ≠ key b) = l.filter (key · ≠ key b) := by
  induction l with
  | nil => rfl
  | cons x l ih =>
    simp only [replace, List.map_cons] at ih ⊢
    by_cases hk : key x = key b <;> simp [hk] at ih ⊢ <;> exact ih

/-- Writing one record and taking out another commute. -/
theorem filter_replace_comm [DecidableEq K] (key : β → K) (l : List β) {b : β} {k : K}
    (hk : key b ≠ k) :
    (replace key l b).filter (key · ≠ k) = replace key (l.filter (key · ≠ k)) b := by
  induction l with
  | nil => rfl
  | cons x l ih =>
    simp only [replace, List.map_cons] at ih ⊢
    by_cases hx : key x = key b
    · have : key x ≠ k := hx ▸ hk
      simp [hx, hk] at ih ⊢
      exact ih
    · by_cases hxk : key x = k
      · simp [hxk, show ¬ k = key b from fun e => hk e.symm] at ih ⊢
        exact ih
      · simp [hx, hxk] at ih ⊢
        exact ih

namespace Spans

variable {key : β → K} {first last : β → Nat} {l : List β}

theorem nil : Spans key first last [] where
  distinct := List.nodup_nil
  nonempty := by simp
  apart := by simp

theorem eq_of_key (h : Spans key first last l) {a b : β} (ha : a ∈ l) (hb : b ∈ l)
    (hk : key a = key b) : a = b :=
  List.inj_on_of_nodup_map h.distinct ha hb hk

theorem eq_of_occupies (h : Spans key first last l) {a b : β} {n : Nat} (ha : a ∈ l)
    (hb : b ∈ l) (han : first a ≤ n ∧ n ≤ last a) (hbn : first b ≤ n ∧ n ≤ last b) : a = b := by
  by_contra hne
  have hk : key a ≠ key b := fun hk => hne (h.eq_of_key ha hb hk)
  have := h.apart a ha b hb hk
  omega

theorem occupant_eq_some_iff (h : Spans key first last l) {n : Nat} {b : β} :
    occupant first last l n = some b ↔ b ∈ l ∧ first b ≤ n ∧ n ≤ last b := by
  have unique : ∀ a ∈ l, ∀ c ∈ l, decide (first a ≤ n ∧ n ≤ last a) = true →
      decide (first c ≤ n ∧ n ≤ last c) = true → a = c := by
    intro a ha c hc han hcn
    exact h.eq_of_occupies ha hc (of_decide_eq_true han) (of_decide_eq_true hcn)
  rw [occupant, find?_eq_some_iff_of_unique unique, decide_eq_true_iff]

theorem filter (h : Spans key first last l) (p : β → Bool) : Spans key first last (l.filter p) where
  distinct := h.distinct.sublist ((List.filter_sublist (p := p)).map key)
  nonempty b hb := h.nonempty b (List.mem_of_mem_filter hb)
  apart a ha b hb := h.apart a (List.mem_of_mem_filter ha) b (List.mem_of_mem_filter hb)

/-- The order of the list does not matter. -/
theorem permute (h : Spans key first last l) {l' : List β} (hp : l'.Perm l) :
    Spans key first last l' where
  distinct := (hp.map key).nodup_iff.mpr h.distinct
  nonempty b hb := h.nonempty b (hp.mem_iff.mp hb)
  apart a ha b hb := h.apart a (hp.mem_iff.mp ha) b (hp.mem_iff.mp hb)

theorem cons (h : Spans key first last l) {b : β} (fresh : ∀ x ∈ l, key x ≠ key b)
    (hb : first b ≤ last b) (clear : ∀ x ∈ l, last x < first b ∨ last b < first x) :
    Spans key first last (b :: l) where
  distinct := by
    rw [List.map_cons, List.nodup_cons]
    refine ⟨?_, h.distinct⟩
    rw [List.mem_map]
    rintro ⟨x, hx, hk⟩
    exact fresh x hx hk
  nonempty := by
    intro x hx
    rcases List.mem_cons.mp hx with rfl | hx
    · exact hb
    · exact h.nonempty x hx
  apart := by
    intro x hx y hy hk
    rcases List.mem_cons.mp hx with rfl | hx' <;> rcases List.mem_cons.mp hy with rfl | hy'
    · exact absurd rfl hk
    · exact (clear y hy').symm
    · exact clear x hx'
    · exact h.apart x hx' y hy' hk

/-- One record may be moved or resized within the room the others leave. -/
theorem replace [DecidableEq K] (h : Spans key first last l) {b : β} (hb : first b ≤ last b)
    (clear : ∀ x ∈ l, key x ≠ key b → last x < first b ∨ last b < first x) :
    Spans key first last (replace key l b) where
  distinct := by
    have : (Lib.replace key l b).map key = l.map key := by
      rw [Lib.replace, List.map_map]
      apply List.map_congr_left
      intro x _
      by_cases hk : key x = key b <;> simp [hk]
    rw [this]
    exact h.distinct
  nonempty := by
    intro x hx
    rcases mem_replace.mp hx with ⟨hx, _⟩ | ⟨rfl, _⟩
    · exact h.nonempty x hx
    · exact hb
  apart := by
    intro x hx y hy hk
    rcases mem_replace.mp hx with ⟨hx', hxb⟩ | ⟨rfl, _⟩ <;>
      rcases mem_replace.mp hy with ⟨hy', hyb⟩ | ⟨rfl, _⟩
    · exact h.apart x hx' y hy' hk
    · exact clear x hx' hxb
    · exact (clear y hy' hyb).symm
    · exact absurd rfl hk

end Spans

theorem perm_insertInOrder (p : β → Bool) (first : β → Nat) (l : List β) (e : β) :
    (insertInOrder p first l e).Perm (e :: l) := by
  have h : (insertInOrder p first l e).Perm
      (e :: (l.takeWhile (fun x => !(p x && decide (first e < first x))) ++
        l.dropWhile fun x => !(p x && decide (first e < first x)))) := List.perm_middle
  rwa [List.takeWhile_append_dropWhile] at h

namespace InOrder

variable {p : β → Bool} {first last : β → Nat} {key : β → K} {l : List β}

theorem filter (h : InOrder p first l) (q : β → Bool) : InOrder p first (l.filter q) :=
  List.Pairwise.sublist List.filter_sublist h

/-- A record that fails the test may stand at the end. -/
theorem append (h : InOrder p first l) {b : β} (hb : p b = false) :
    InOrder p first (l ++ [b]) := by
  rw [InOrder, List.pairwise_append]
  refine ⟨h, List.pairwise_singleton _ _, ?_⟩
  intro x _ y hy _ hp
  rw [List.mem_singleton.mp hy, hb] at hp
  cases hp

/-- A record that is resized, and stays clear of the others, keeps its place: its old and its
    new extent share a number. -/
theorem replace [DecidableEq K] (h : InOrder p first l) (hs : Spans key first last l) {a b : β}
    (ha : a ∈ l) (hk : key a = key b) (hp : p b = p a) {n : Nat}
    (han : first a ≤ n ∧ n ≤ last a) (hbn : first b ≤ n ∧ n ≤ last b)
    (clear : ∀ x ∈ l, key x ≠ key b → last x < first b ∨ last b < first x) :
    InOrder p first (Lib.replace key l b) := by
  rw [InOrder, Lib.replace, List.pairwise_map]
  refine List.Pairwise.imp_of_mem ?_ (List.pairwise_iff_getElem.mpr ?_ : l.Pairwise fun x y =>
    (p x → p y → first x < first y) ∧ key x ≠ key y)
  · rintro x y hx hy ⟨hxy, hne⟩
    by_cases hxb : key x = key b
    · have hxa : x = a := hs.eq_of_key hx ha (hxb.trans hk.symm)
      have hyb : key y ≠ key b := fun e => hne (hxb.trans e.symm)
      rw [if_pos hxb, if_neg hyb]
      intro hpb hpy
      have := hxy (by rw [hxa, ← hp]; exact hpb) hpy
      have := hs.nonempty y hy
      have := clear y hy hyb
      have := hs.apart x hx y hy hne
      subst hxa
      omega
    · by_cases hyb : key y = key b
      · have hya : y = a := hs.eq_of_key hy ha (hyb.trans hk.symm)
        rw [if_neg hxb, if_pos hyb]
        intro hpx hpb
        have := hxy hpx (by rw [hya, ← hp]; exact hpb)
        have := hs.nonempty x hx
        have := clear x hx hxb
        have := hs.apart x hx y hy hne
        subst hya
        omega
      · rw [if_neg hxb, if_neg hyb]
        exact hxy
  · intro i j hi hj hij
    refine ⟨List.pairwise_iff_getElem.mp h i j hi hj hij, ?_⟩
    intro hkey
    have hd := List.pairwise_iff_getElem.mp hs.distinct i j (by simpa using hi)
      (by simpa using hj) hij
    simp only [List.getElem_map] at hd
    exact hd hkey

/-- `insertInOrder` sorts a new record in. -/
theorem insert (h : InOrder p first l) {e : β}
    (hne : ∀ x ∈ l, p x → first x ≠ first e) : InOrder p first (insertInOrder p first l e) := by
  have hsplit : l.Pairwise fun a b => p a → p b → first a < first b := h
  have happ := List.takeWhile_append_dropWhile
    (p := fun x => !(p x && decide (first e < first x))) (l := l)
  rw [← happ, List.pairwise_append] at hsplit
  obtain ⟨htake, hdrop, hcross⟩ := hsplit
  have hbelow : ∀ x ∈ l.takeWhile fun x => !(p x && decide (first e < first x)),
      p x → first x < first e := by
    intro x hx hpx
    have hb := List.mem_takeWhile_imp hx
    have hxl : x ∈ l := (List.takeWhile_prefix _).subset hx
    have := hne x hxl hpx
    simp [hpx] at hb
    omega
  have habove : ∀ y ∈ l.dropWhile fun x => !(p x && decide (first e < first x)),
      p y → first e < first y := by
    intro y hy hpy
    cases hd : l.dropWhile fun x => !(p x && decide (first e < first x)) with
    | nil => rw [hd] at hy; cases hy
    | cons z zs =>
      have hz := List.head?_dropWhile_not (fun x => !(p x && decide (first e < first x))) l
      rw [hd] at hz hy hdrop
      simp only [List.head?_cons] at hz
      simp at hz
      rcases List.mem_cons.mp hy with rfl | hy
      · exact hz.2
      · exact Nat.lt_trans hz.2 ((List.pairwise_cons.mp hdrop).1 y hy hz.1 hpy)
  rw [InOrder, insertInOrder, List.pairwise_append]
  refine ⟨htake, List.pairwise_cons.mpr ⟨fun y hy _ => habove y hy, hdrop⟩, ?_⟩
  intro x hx y hy hpx hpy
  rcases List.mem_cons.mp hy with rfl | hy
  · exact hbelow x hx hpx
  · exact hcross x hx y hy hpx hpy

end InOrder

end EfiCore.Lib
