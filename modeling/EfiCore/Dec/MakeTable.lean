import EfiCore.Dec.BadTables
import EfiCore.Dec.BitReader

/-! # The tables that `MakeTable` builds

A word of at most `tableBits` bits has its places in the table.  A longer one has a node for each
of its beginnings from `tableBits` bits on, and the pointer behind the last of them has its symbol.
-/

namespace EfiCore.Dec

open EfiCore.Lib

/-- The lengths are those of a complete code for the symbols below `n`, some of which are in the
    table. -/
structure Tabled (n tableBits : Nat) (len : Nat → Nat) : Prop where
  complete : CompleteCode 16 ((List.range n).map len)
  symbols : n ≤ nc
  bits : tableBits < 16
  few : n < 2 ^ (tableBits + 1)

/-- The beginning of a word, of that many bits. -/
abbrev Path := Nat × Nat

variable {n tableBits m : Nat} {len : Nat → Nat} {paths : List Path} {t : Trees} {π π' : Path}
  {p p' : Link} {s r v : Nat}

/-- The symbol has a word that is too long for the table, and it is below `m`. -/
structure Long (n tableBits : Nat) (len : Nat → Nat) (m s : Nat) : Prop where
  lt : s < m
  word : HasWord n len s
  long : tableBits < len s

/-- The path to the end of a word. -/
def wordPath (n : Nat) (len : Nat → Nat) (s : Nat) : Path := (len s, word 16 n len s)

/-! ## Pointers -/

/-- The pointer that is read at this path.  The nodes are made in the order of `paths`, and the
    first part of the table is for the short words. -/
def LinkAt (n tableBits : Nat) (len : Nat → Nat) (paths : List Path) : Link → Path → Prop
  | .table q, π => π = (tableBits, q) ∧ q < 2 ^ tableBits ∧
      kraftUpTo 16 tableBits ((List.range n).map len) ≤ q * 2 ^ (16 - tableBits)
  | .left v, π => ∃ ρ ∈ paths, tableBits ≤ ρ.1 ∧ v = n + paths.idxOf ρ ∧ π = (ρ.1 + 1, 2 * ρ.2)
  | .right v, π => ∃ ρ ∈ paths, tableBits ≤ ρ.1 ∧ v = n + paths.idxOf ρ ∧ π = (ρ.1 + 1, 2 * ρ.2 + 1)

/-- What the pointer at a path holds. -/
structure Holds (n tableBits : Nat) (len : Nat → Nat) (m : Nat) (paths : List Path) (π : Path)
    (v : Nat) : Prop where
  node : π ∈ paths → v = n + paths.idxOf π
  symbol : ∀ s, Long n tableBits len m s → wordPath n len s = π → v = s
  empty : π ∉ paths → (∀ s, Long n tableBits len m s → wordPath n len s ≠ π) → v = 0

theorem LinkAt.fst_table {q : Nat} (h : LinkAt n tableBits len paths (.table q) π) :
    π.1 = tableBits := by
  rw [h.1]

theorem LinkAt.lt_left (h : LinkAt n tableBits len paths (.left v) π) : tableBits < π.1 := by
  obtain ⟨ρ, -, hbits, -, rfl⟩ := h
  exact Nat.lt_succ_of_le hbits

theorem LinkAt.lt_right (h : LinkAt n tableBits len paths (.right v) π) : tableBits < π.1 := by
  obtain ⟨ρ, -, hbits, -, rfl⟩ := h
  exact Nat.lt_succ_of_le hbits

/-- A pointer is at one path only. -/
theorem LinkAt.path_eq (h : LinkAt n tableBits len paths p π)
    (h' : LinkAt n tableBits len paths p π') : π = π' := by
  cases p with
  | table q => exact h.1.trans h'.1.symm
  | left v =>
    obtain ⟨ρ, hρ, -, hv, rfl⟩ := h
    obtain ⟨ρ', hρ', -, hv', rfl⟩ := h'
    obtain rfl : ρ = ρ' := (List.idxOf_inj hρ).mp (by omega)
    rfl
  | right v =>
    obtain ⟨ρ, hρ, -, hv, rfl⟩ := h
    obtain ⟨ρ', hρ', -, hv', rfl⟩ := h'
    obtain rfl : ρ = ρ' := (List.idxOf_inj hρ).mp (by omega)
    rfl

/-- A path has one pointer only. -/
theorem LinkAt.link_eq (h : LinkAt n tableBits len paths p π)
    (h' : LinkAt n tableBits len paths p' π) : p = p' := by
  -- the pointers differ in the length of the path or in its last bit
  cases p <;> cases p'
  case table.table q q' => rw [(Prod.mk.inj (h.1.symm.trans h'.1)).2]
  case left.left v v' =>
    obtain ⟨ρ, -, -, rfl, rfl⟩ := h
    obtain ⟨ρ', -, -, rfl, heq⟩ := h'
    obtain rfl : ρ = ρ' := by
      simp only [Prod.mk.injEq] at heq
      exact Prod.ext (by omega) (by omega)
    rfl
  case right.right v v' =>
    obtain ⟨ρ, -, -, rfl, rfl⟩ := h
    obtain ⟨ρ', -, -, rfl, heq⟩ := h'
    obtain rfl : ρ = ρ' := by
      simp only [Prod.mk.injEq] at heq
      exact Prod.ext (by omega) (by omega)
    rfl
  case table.left q v => exact absurd h.fst_table h'.lt_left.ne'
  case table.right q v => exact absurd h.fst_table h'.lt_right.ne'
  case left.table v q => exact absurd h'.fst_table h.lt_left.ne'
  case right.table v q => exact absurd h'.fst_table h.lt_right.ne'
  case left.right v v' =>
    obtain ⟨ρ, -, -, -, rfl⟩ := h
    obtain ⟨ρ', -, -, -, heq⟩ := h'
    simp only [Prod.mk.injEq] at heq
    omega
  case right.left v v' =>
    obtain ⟨ρ, -, -, -, rfl⟩ := h
    obtain ⟨ρ', -, -, -, heq⟩ := h'
    simp only [Prod.mk.injEq] at heq
    omega

/-- A pointer behind the table is in a node. -/
theorem LinkAt.parent {d q : Nat} (h : LinkAt n tableBits len paths p (d + 1, q))
    (hbits : tableBits ≤ d) : (d, q / 2) ∈ paths := by
  cases p with
  | table q' => exact absurd h.fst_table (Nat.lt_succ_of_le hbits).ne'
  | left v =>
    obtain ⟨ρ, hρ, -, -, heq⟩ := h
    simp only [Prod.mk.injEq] at heq
    obtain rfl : ρ = (d, q / 2) := Prod.ext (by simp; omega) (by simp; omega)
    exact hρ
  | right v =>
    obtain ⟨ρ, hρ, -, -, heq⟩ := h
    simp only [Prod.mk.injEq] at heq
    obtain rfl : ρ = (d, q / 2) := Prod.ext (by simp; omega) (by simp; omega)
    exact hρ

theorem LinkAt.append (h : LinkAt n tableBits len paths p π) (more : List Path) :
    LinkAt n tableBits len (paths ++ more) p π := by
  cases p with
  | table q => exact h
  | left v =>
    obtain ⟨ρ, hρ, hbits, rfl, rfl⟩ := h
    exact ⟨ρ, List.mem_append_left _ hρ, hbits, by rw [List.idxOf_append_of_mem hρ], rfl⟩
  | right v =>
    obtain ⟨ρ, hρ, hbits, rfl, rfl⟩ := h
    exact ⟨ρ, List.mem_append_left _ hρ, hbits, by rw [List.idxOf_append_of_mem hρ], rfl⟩

@[simp] theorem Trees.get_set_self (t : Trees) (v : Nat) (p : Link) : (t.set v p).get p = v := by
  cases p <;> simp [Trees.set, Trees.get]

theorem Trees.get_set_of_ne (t : Trees) (v : Nat) (h : p' ≠ p) : (t.set v p).get p' = t.get p' := by
  cases p <;> cases p' <;> simp_all [Trees.set, Trees.get]

/-- Only the nodes from `n` to `2 * n` may differ. -/
structure SameOutside (n : Nat) (t t' : Trees) : Prop where
  left : ∀ v, v < n ∨ 2 * n ≤ v → t'.left v = t.left v
  right : ∀ v, v < n ∨ 2 * n ≤ v → t'.right v = t.right v

theorem SameOutside.refl (n : Nat) (t : Trees) : SameOutside n t t :=
  ⟨fun _ _ => rfl, fun _ _ => rfl⟩

theorem SameOutside.trans {t' t'' : Trees} (h : SameOutside n t t') (h' : SameOutside n t' t'') :
    SameOutside n t t'' :=
  ⟨fun v hv => (h'.left v hv).trans (h.left v hv), fun v hv => (h'.right v hv).trans (h.right v hv)⟩

theorem sameOutside_set_left (t : Trees) (v : Nat) {a : Nat} (ha : n ≤ a) (ha' : a < 2 * n) :
    SameOutside n t (t.set v (.left a)) := by
  refine ⟨fun w hw => ?_, fun w _ => rfl⟩
  have hne : w ≠ a := by omega
  simp [Trees.set, hne]

theorem sameOutside_set_right (t : Trees) (v : Nat) {a : Nat} (ha : n ≤ a) (ha' : a < 2 * n) :
    SameOutside n t (t.set v (.right a)) := by
  refine ⟨fun w _ => rfl, fun w hw => ?_⟩
  have hne : w ≠ a := by omega
  simp [Trees.set, hne]

theorem LinkAt.sameOutside (h : LinkAt n tableBits len paths p π) (hroom : paths.length ≤ n)
    (t : Trees) (v : Nat) : SameOutside n t (t.set v p) := by
  cases p with
  | table q => exact ⟨fun _ _ => rfl, fun _ _ => rfl⟩
  | left w =>
    obtain ⟨ρ, hρ, -, rfl, -⟩ := h
    have := List.idxOf_lt_length_of_mem hρ
    exact sameOutside_set_left t v (by omega) (by omega)
  | right w =>
    obtain ⟨ρ, hρ, -, rfl, -⟩ := h
    have := List.idxOf_lt_length_of_mem hρ
    exact sameOutside_set_right t v (by omega) (by omega)

/-! ## Words -/

theorem wordPath_inj (hs : HasWord n len s) (hr : HasWord n len r) (hle : len r ≤ 16)
    (h : wordPath n len s = wordPath n len r) : s = r := by
  by_contra hne
  have hlen : len s = len r := congrArg Prod.fst h
  have hword : word 16 n len s = word 16 n len r := congrArg Prod.snd h
  refine word_free hs hr hne hlen.le hle ?_
  rw [hlen, Nat.sub_self, Nat.shiftRight_zero, hword]

/-- A beginning of a longer word is not a word. -/
theorem wordPath_ne_of_inner (hs : HasWord n len s) (h : Inner 16 n len π.1 π.2) :
    wordPath n len s ≠ π := by
  rintro rfl
  exact not_inner_word hs h

/-- The entries of the table for a word are its places. -/
theorem table_placeOf_iff (hs : HasWord n len s) (hbits : tableBits ≤ 16)
    (hshort : len s ≤ tableBits) {q : Nat} : q >>> (tableBits - len s) = word 16 n len s ↔
      PlaceOf 16 n len s (q * 2 ^ (16 - tableBits)) := by
  have hsplit : 16 - len s = (16 - tableBits) + (tableBits - len s) := by omega
  rw [placeOf_iff hs, hsplit, Nat.shiftRight_add, Nat.shiftRight_eq_div_pow _ (16 - tableBits),
    Nat.mul_div_cancel _ (Nat.two_pow_pos _)]

/-- Short words are in front of the long ones. -/
theorem lt_kraftUpTo_of_short (hs : HasWord n len s) (hbits : tableBits ≤ 16)
    (hshort : len s ≤ tableBits) {q : Nat} (hq : q >>> (tableBits - len s) = word 16 n len s) :
    q * 2 ^ (16 - tableBits) < kraftUpTo 16 tableBits ((List.range n).map len) :=
  ((table_placeOf_iff hs hbits hshort).mp hq).lt.trans_le (firstPlace_add_le_kraftUpTo hs hshort)

theorem ne_table_of_short (hp : LinkAt n tableBits len paths p π) (hs : HasWord n len s)
    (hbits : tableBits ≤ 16) (hshort : len s ≤ tableBits) {q : Nat}
    (hq : q >>> (tableBits - len s) = word 16 n len s) : Link.table q ≠ p := by
  rintro rfl
  exact absurd hp.2.2 (Nat.not_le.mpr (lt_kraftUpTo_of_short hs hbits hshort hq))

/-- The trees have what the symbols below `m` need. -/
structure Grown (n tableBits : Nat) (len : Nat → Nat) (m : Nat) (paths : List Path) (t : Trees) :
    Prop where
  nodup : paths.Nodup
  inner : ∀ π ∈ paths, Inner 16 n len π.1 π.2
  parent : ∀ d q, (d + 1, q) ∈ paths → tableBits ≤ d → (d, q / 2) ∈ paths
  made : ∀ s, Long n tableBits len m s → (len s - 1, word 16 n len s / 2) ∈ paths
  link : ∀ p π, LinkAt n tableBits len paths p π → Holds n tableBits len m paths π (t.get p)
  short : ∀ s < m, HasWord n len s → len s ≤ tableBits → ∀ q,
    q >>> (tableBits - len s) = word 16 n len s → t.table q = s

/-! ## Steps -/

/-- A symbol without a pointer of its own. -/
theorem Holds.succ (h : Holds n tableBits len m paths π v)
    (hm : Long n tableBits len (m + 1) m → wordPath n len m ≠ π) :
    Holds n tableBits len (m + 1) paths π v := by
  have hold : ∀ s, Long n tableBits len (m + 1) s → wordPath n len s = π →
      Long n tableBits len m s := by
    intro s hs hπ
    have hne : s ≠ m := by
      rintro rfl
      exact hm hs hπ
    exact ⟨Nat.lt_of_le_of_ne (Nat.le_of_lt_succ hs.lt) hne, hs.word, hs.long⟩
  refine ⟨h.node, fun s hs hπ => h.symbol s (hold s hs hπ) hπ, fun hout hnone => ?_⟩
  exact h.empty hout fun s hs => hnone s ⟨Nat.lt_succ_of_lt hs.lt, hs.word, hs.long⟩

theorem idxOf_append_self (hnew : π ∉ paths) : (paths ++ [π]).idxOf π = paths.length := by
  simp [List.idxOf_append_of_notMem hnew]

/-- The path of a pointer has its beginnings among the nodes. -/
theorem Grown.parent_append (h : Grown n tableBits len m paths t)
    (hp : LinkAt n tableBits len paths p π) {d q : Nat} (hmem : (d + 1, q) ∈ paths ++ [π])
    (hbits : tableBits ≤ d) : (d, q / 2) ∈ paths := by
  rcases List.mem_append.mp hmem with hmem | hmem
  · exact h.parent d q hmem hbits
  · obtain rfl := List.mem_singleton.mp hmem
    exact hp.parent hbits

/-- Nothing is behind a path without a node. -/
theorem Grown.child_empty (h : Grown n tableBits len m paths t)
    (hp : LinkAt n tableBits len paths p π) (hbits : tableBits ≤ π.1) (hnew : π ∉ paths) {b : Nat}
    (hb : b < 2) : Holds n tableBits len m (paths ++ [π]) (π.1 + 1, 2 * π.2 + b) 0 := by
  have hhalf : (2 * π.2 + b) / 2 = π.2 := by omega
  refine ⟨fun hmem => ?_, fun s hs hπ => ?_, fun _ _ => rfl⟩
  · have hparent := h.parent_append hp hmem hbits
    rw [hhalf] at hparent
    exact absurd hparent hnew
  · have hmade := h.made s hs
    have hlen : len s = π.1 + 1 := congrArg Prod.fst hπ
    have hword : word 16 n len s = 2 * π.2 + b := congrArg Prod.snd hπ
    rw [hlen, hword, hhalf, Nat.add_sub_cancel] at hmade
    exact absurd hmade hnew

/-- The other pointers hold what they did. -/
theorem Grown.holds_append (h : Grown n tableBits len m paths t)
    (hp : LinkAt n tableBits len paths p π) (hp' : LinkAt n tableBits len paths p' π')
    (hne : p' ≠ p) : Holds n tableBits len m (paths ++ [π]) π' (t.get p') := by
  have hpath : π' ≠ π := by
    rintro rfl
    exact hne (hp'.link_eq hp)
  have hold := h.link p' π' hp'
  have hmem : π' ∈ paths ++ [π] → π' ∈ paths := fun hmem =>
    (List.mem_append.mp hmem).resolve_right fun hsing => hpath (List.mem_singleton.mp hsing)
  refine ⟨fun hin => ?_, hold.symbol, fun hout => hold.empty fun hin => hout ?_⟩
  · rw [List.idxOf_append_of_mem (hmem hin)]
    exact hold.node (hmem hin)
  · exact List.mem_append_left _ hin

/-- A pointer that is empty gets a new node. -/
theorem Grown.node (h : Grown n tableBits len m paths t) (h16 : tableBits ≤ 16)
    (hp : LinkAt n tableBits len paths p π)
    (hinner : Inner 16 n len π.1 π.2) (hbits : tableBits ≤ π.1) (hnew : π ∉ paths) :
    Grown n tableBits len m (paths ++ [π])
      (((t.set 0 (.right (n + paths.length))).set 0 (.left (n + paths.length))).set
        (n + paths.length) p) := by
  have hidx := idxOf_append_self hnew
  have hold : ∀ ρ ∈ paths, paths.idxOf ρ < paths.length := fun ρ hρ =>
    List.idxOf_lt_length_of_mem hρ
  refine ⟨?_, ?_, fun d q hmem hle => List.mem_append_left _ (h.parent_append hp hmem hle),
    fun s hs => List.mem_append_left _ (h.made s hs), fun p' π' hp' => ?_, ?_⟩
  · rw [List.nodup_append]
    refine ⟨h.nodup, List.nodup_singleton π, fun a ha b hb => ?_⟩
    obtain rfl := List.mem_singleton.mp hb
    rintro rfl
    exact hnew ha
  · intro ρ hρ
    rcases List.mem_append.mp hρ with hρ | hρ
    · exact h.inner ρ hρ
    · obtain rfl := List.mem_singleton.mp hρ
      exact hinner
  · by_cases hpp : p' = p
    · obtain rfl : π' = π := by
        rw [hpp] at hp'
        exact hp'.path_eq (hp.append _)
      rw [hpp, Trees.get_set_self]
      refine ⟨fun _ => by rw [hidx], fun s hs hπ => ?_, fun hout => ?_⟩
      · exact absurd hπ (wordPath_ne_of_inner hs.word hinner)
      · exact absurd (List.mem_append_right _ (List.mem_singleton_self _)) hout
    · rw [Trees.get_set_of_ne _ _ hpp]
      cases p' with
      | table q =>
        rw [Trees.get_set_of_ne _ _ (by simp), Trees.get_set_of_ne _ _ (by simp)]
        exact h.holds_append hp hp' hpp
      | left v =>
        obtain ⟨ρ, hρ, hρbits, hv, rfl⟩ := hp'
        by_cases hin : ρ ∈ paths
        · rw [List.idxOf_append_of_mem hin] at hv
          have := hold ρ hin
          rw [Trees.get_set_of_ne _ _ (by simp; omega), Trees.get_set_of_ne _ _ (by simp)]
          exact h.holds_append hp ⟨ρ, hin, hρbits, hv, rfl⟩ hpp
        · obtain rfl := List.mem_singleton.mp ((List.mem_append.mp hρ).resolve_left hin)
          rw [hidx] at hv
          rw [hv, Trees.get_set_self]
          exact h.child_empty hp hbits hnew (b := 0) (by omega)
      | right v =>
        obtain ⟨ρ, hρ, hρbits, hv, rfl⟩ := hp'
        by_cases hin : ρ ∈ paths
        · rw [List.idxOf_append_of_mem hin] at hv
          have := hold ρ hin
          rw [Trees.get_set_of_ne _ _ (by simp), Trees.get_set_of_ne _ _ (by simp; omega)]
          exact h.holds_append hp ⟨ρ, hin, hρbits, hv, rfl⟩ hpp
        · obtain rfl := List.mem_singleton.mp ((List.mem_append.mp hρ).resolve_left hin)
          rw [hidx] at hv
          rw [hv, Trees.get_set_of_ne _ _ (by simp), Trees.get_set_self]
          exact h.child_empty hp hbits hnew (b := 1) (by omega)
  · intro s hs hword hle q hq
    show ((((t.set 0 _).set 0 _).set _ p).get (.table q)) = s
    rw [Trees.get_set_of_ne _ _ (ne_table_of_short hp hword h16 hle hq),
      Trees.get_set_of_ne _ _ (by simp), Trees.get_set_of_ne _ _ (by simp)]
    exact h.short s hs hword hle q hq

/-- The pointer at the end of a long word gets its symbol. -/
theorem Grown.longWord (h : Grown n tableBits len m paths t) (h16 : tableBits ≤ 16)
    (hm : HasWord n len m) (hle : len m ≤ 16) (hlong : tableBits < len m)
    (hp : LinkAt n tableBits len paths p (wordPath n len m))
    (hlast : (len m - 1, word 16 n len m / 2) ∈ paths) :
    Grown n tableBits len (m + 1) paths (t.set m p) := by
  refine ⟨h.nodup, h.inner, h.parent, fun s hs => ?_, fun p' π' hp' => ?_, ?_⟩
  · by_cases hsm : s = m
    · rw [hsm]
      exact hlast
    · exact h.made s ⟨Nat.lt_of_le_of_ne (Nat.le_of_lt_succ hs.lt) hsm, hs.word, hs.long⟩
  · by_cases hpp : p' = p
    · obtain rfl : π' = wordPath n len m := by
        rw [hpp] at hp'
        exact hp'.path_eq hp
      rw [hpp, Trees.get_set_self]
      refine ⟨fun hin => ?_, fun s hs hπ => ?_, fun _ hnone => ?_⟩
      · exact absurd rfl (wordPath_ne_of_inner hm (h.inner _ hin))
      · exact (wordPath_inj hs.word hm hle hπ).symm
      · exact absurd rfl (hnone m ⟨Nat.lt_succ_self m, hm, hlong⟩)
    · rw [Trees.get_set_of_ne _ _ hpp]
      refine (h.link p' π' hp').succ fun _ hπ => hpp ?_
      rw [← hπ] at hp'
      exact hp'.link_eq hp
  · intro s hs hword hshort q hq
    have hne : s ≠ m := by
      rintro rfl
      omega
    show (t.set m p).get (.table q) = s
    rw [Trees.get_set_of_ne _ _ (ne_table_of_short hp hword h16 hshort hq)]
    exact h.short s (Nat.lt_of_le_of_ne (Nat.le_of_lt_succ hs) hne) hword hshort q hq

/-- The places of a short word get its symbol. -/
theorem Grown.shortWord (h : Grown n tableBits len m paths t) (h16 : tableBits ≤ 16)
    (hm : HasWord n len m) (hshort : len m ≤ tableBits) {table : Nat → Nat}
    (hin : ∀ q, q >>> (tableBits - len m) = word 16 n len m → table q = m)
    (hout : ∀ q, q >>> (tableBits - len m) ≠ word 16 n len m → table q = t.table q) :
    Grown n tableBits len (m + 1) paths { t with table := table } := by
  refine ⟨h.nodup, h.inner, h.parent, fun s hs => ?_, fun p' π' hp' => ?_, ?_⟩
  · have hne : s ≠ m := by
      rintro rfl
      have := hs.long
      omega
    exact h.made s ⟨Nat.lt_of_le_of_ne (Nat.le_of_lt_succ hs.lt) hne, hs.word, hs.long⟩
  · have hsame : ({ t with table := table } : Trees).get p' = t.get p' := by
      cases p' with
      | table q =>
        refine hout q fun hq => ?_
        exact ne_table_of_short hp' hm h16 hshort hq rfl
      | left v => rfl
      | right v => rfl
    rw [hsame]
    exact (h.link p' π' hp').succ fun hs => absurd hs.long (Nat.not_lt.mpr hshort)
  · intro s hs hword hle q hq
    by_cases hsm : s = m
    · subst hsm
      exact hin q hq
    · show table q = s
      rw [hout q fun hqm => hsm ?_]
      · exact h.short s (Nat.lt_of_le_of_ne (Nat.le_of_lt_succ hs) hsm) hword hle q hq
      · have hplace := (table_placeOf_iff hword h16 hle).mp hq
        exact hplace.unique ((table_placeOf_iff hm h16 hshort).mp hqm)

/-- A symbol without a word changes nothing. -/
theorem Grown.noWord (h : Grown n tableBits len m paths t) (hm : ¬ HasWord n len m) :
    Grown n tableBits len (m + 1) paths t := by
  have hlt : ∀ {s}, s < m + 1 → HasWord n len s → s < m := by
    intro s hs hword
    have hne : s ≠ m := by
      rintro rfl
      exact hm hword
    omega
  refine ⟨h.nodup, h.inner, h.parent, fun s hs => h.made s ⟨hlt hs.lt hs.word, hs.word, hs.long⟩,
    fun p' π' hp' => (h.link p' π' hp').succ fun hs => absurd hs.word hm, ?_⟩
  intro s hs hword
  exact h.short s (hlt hs hword) hword

/-! ## Branches -/

/-- The next bit of a place. -/
theorem shiftRight_eq_bit (x e : Nat) :
    x >>> e = 2 * (x >>> (e + 1)) + if x.testBit e then 1 else 0 := by
  have hbit := Nat.testBit_eq_decide_div_mod_eq (x := x) (i := e)
  rw [Nat.shiftRight_succ, Nat.shiftRight_eq_div_pow, hbit]
  by_cases h : x / 2 ^ e % 2 = 1
  · simp [h]
    omega
  · simp [h]
    omega

/-- Room for the nodes. -/
theorem Grown.length_lt (h : Grown n tableBits len m paths t)
    (htabled : Tabled n tableBits len) : paths.length < n :=
  length_lt_of_inner htabled.complete h.nodup h.inner

/-- The pointers in a node. -/
theorem linkAt_child (n : Nat) (len : Nat → Nat) {d q : Nat} (hin : (d, q) ∈ paths)
    (hbits : tableBits ≤ d) (b : Bool) :
    LinkAt n tableBits len paths
      (if b = true then .right (n + paths.idxOf (d, q)) else .left (n + paths.idxOf (d, q)))
      (d + 1, 2 * q + if b = true then 1 else 0) := by
  cases b with
  | false => exact ⟨(d, q), hin, hbits, rfl, rfl⟩
  | true => exact ⟨(d, q), hin, hbits, rfl, rfl⟩

/-- What a turn of the loop makes of an empty pointer. -/
def Assign.extend (st : Assign) (p : Link) : Assign :=
  if st.trees.get p = 0 then
    { st with
      avail := st.avail + 1
      trees := ((st.trees.set 0 (.right st.avail)).set 0 (.left st.avail)).set st.avail p }
  else st

theorem Grown.extend {st : Assign} (h : Grown n tableBits len m paths st.trees)
    (htabled : Tabled n tableBits len) (havail : st.avail = n + paths.length)
    (hp : LinkAt n tableBits len paths p π) (hinner : Inner 16 n len π.1 π.2)
    (hbits : tableBits ≤ π.1) :
    ∃ paths', Grown n tableBits len m paths' (st.extend p).trees ∧
      (st.extend p).avail = n + paths'.length ∧ (st.extend p).start = st.start ∧
      π ∈ paths' ∧ LinkAt n tableBits len paths' p π ∧
      SameOutside n st.trees (st.extend p).trees ∧
      ¬ (st.trees.get p = 0 ∧ nodes ≤ st.avail) := by
  have hholds := h.link p π hp
  have hsymbols := htabled.symbols
  have hpos : 0 < n := by
    obtain ⟨w, hw, -⟩ := hinner
    exact Nat.zero_lt_of_lt hw.lt
  by_cases hin : π ∈ paths
  · have hne : ¬ st.trees.get p = 0 := by
      rw [hholds.node hin]
      omega
    rw [Assign.extend, if_neg hne]
    exact ⟨paths, h, havail, rfl, hin, hp, .refl n _, fun hfull => hne hfull.1⟩
  · have hzero : st.trees.get p = 0 := hholds.empty hin fun s hs =>
      wordPath_ne_of_inner hs.word hinner
    have hgrown := h.node (by have := htabled.bits; omega) hp hinner hbits hin
    have hroom := hgrown.length_lt htabled
    rw [List.length_append, List.length_singleton] at hroom
    rw [Assign.extend, if_pos hzero, havail]
    refine ⟨paths ++ [π], hgrown, ?_, rfl, List.mem_append_right _ (List.mem_singleton_self π),
      hp.append _, ?_, ?_⟩
    · rw [List.length_append, List.length_singleton, Nat.add_assoc]
    · exact ((sameOutside_set_right _ _ (by omega) (by omega)).trans
        (sameOutside_set_left _ _ (by omega) (by omega))).trans (hp.sameOutside (by omega) _ _)
    · simp only [nodes, nc] at hsymbols ⊢
      omega

/-- The loop makes the nodes that a long word needs, and ends at the word's pointer. -/
theorem growBranch_grown (htabled : Tabled n tableBits len) (hm : HasWord n len m) {i k d : Nat}
    {st : Assign} (h : Grown n tableBits len m paths st.trees)
    (havail : st.avail = n + paths.length) (hd : d + i = len m) (hbits : tableBits ≤ d)
    (hk : ∀ j < i, k.testBit (15 - tableBits - j) = (firstPlace 16 n len m).testBit (15 - d - j))
    (hp : LinkAt n tableBits len paths p (d, firstPlace 16 n len m >>> (16 - d))) :
    ∃ st' p' paths', growBranch tableBits i k p st = some (st', p') ∧ st'.start = st.start ∧
      Grown n tableBits len m paths' st'.trees ∧ st'.avail = n + paths'.length ∧
      LinkAt n tableBits len paths' p' (wordPath n len m) ∧
      SameOutside n st.trees st'.trees := by
  have hle : len m ≤ 16 :=
    htabled.complete.le _ (List.mem_map.mpr ⟨m, List.mem_range.mpr hm.lt, rfl⟩)
  induction i generalizing k p d st paths with
  | zero =>
    obtain rfl : d = len m := hd
    exact ⟨st, p, paths, rfl, rfl, h, havail, hp, .refl n _⟩
  | succ i ih =>
    have hinner : Inner 16 n len d (firstPlace 16 n len m >>> (16 - d)) :=
      ⟨m, hm, by omega, rfl⟩
    -- the node of this beginning, from now on or from an earlier word
    obtain ⟨paths', h', havail', hstart, hin, hp', hout, hroom⟩ :=
      h.extend htabled havail hp hinner hbits
    have hnode := (h'.link p _ hp').node hin
    have hindex := List.idxOf_lt_length_of_mem hin
    have hlength := h'.length_lt htabled
    have hfits : ¬ nodes ≤ (st.extend p).trees.get p := by
      have := htabled.symbols
      simp only [nodes, nc] at this ⊢
      omega
    -- the next pointer is the one of the beginning that is longer by a bit
    have hnext := linkAt_child n len hin hbits (k.testBit (15 - tableBits))
    have hbit := hk 0 (Nat.succ_pos i)
    rw [Nat.sub_zero, Nat.sub_zero] at hbit
    have hplace := shiftRight_eq_bit (firstPlace 16 n len m) (15 - d)
    have hshift : 15 - d + 1 = 16 - d := by omega
    have hshift' : 15 - d = 16 - (d + 1) := by omega
    rw [hshift, ← hbit] at hplace
    rw [← hplace, hshift', ← hnode] at hnext
    have hk' : ∀ j < i, ((k <<< 1) % 2 ^ 16).testBit (15 - tableBits - j) =
        (firstPlace 16 n len m).testBit (15 - (d + 1) - j) := by
      intro j hj
      have hbelow : 15 - tableBits - j = 15 - tableBits - (j + 1) + 1 := by omega
      have hsame : 15 - (d + 1) - j = 15 - d - (j + 1) := by omega
      rw [hsame, ← hk (j + 1) (by omega), Nat.testBit_mod_two_pow, hbelow, Nat.testBit_shiftLeft]
      simp
      omega
    obtain ⟨st', p', paths'', hrun, hstart', hgrown, havail'', hlink, hout'⟩ :=
      ih h' havail' (by omega) (by omega) hk' hnext
    refine ⟨st', p', paths'', ?_, hstart'.trans hstart, hgrown, havail'', hlink, hout.trans hout'⟩
    rw [growBranch, if_neg hroom]
    dsimp only
    rw [← Assign.extend, if_neg hfits]
    exact hrun

/-! ## Symbols -/

/-- The first place of the next word of `l` bits. -/
def startOf (n : Nat) (len : Nat → Nat) (m l : Nat) : Nat :=
  kraftUpTo 16 (l - 1) ((List.range n).map len) +
    ((List.range m).map len).count l * 2 ^ (16 - l)

/-- The bits of a place that `start` does not have. -/
def startShift (tableBits l : Nat) : Nat := if l ≤ tableBits then 16 - tableBits else 0

/-- What the loop over the symbols keeps. -/
structure Assigned (n tableBits : Nat) (len : Nat → Nat) (m : Nat) (paths : List Path)
    (st : Assign) : Prop where
  grown : Grown n tableBits len m paths st.trees
  avail : st.avail = n + paths.length
  start : ∀ s, m ≤ s → HasWord n len s →
    st.start (len s) = startOf n len m (len s) >>> startShift tableBits (len s)

theorem startOf_self (hm : HasWord n len m) : startOf n len m (len m) = firstPlace 16 n len m :=
  (firstPlace_eq 16 hm).symm

theorem startOf_succ (n : Nat) (len : Nat → Nat) (m l : Nat) :
    startOf n len (m + 1) l = startOf n len m l + if len m = l then 2 ^ (16 - l) else 0 := by
  rw [startOf, startOf, List.range_succ, List.map_append, List.count_append, List.map_singleton,
    List.count_singleton]
  by_cases hl : len m = l
  · simp [hl, Nat.add_mul, Nat.add_assoc]
  · have hne : (len m == l) = false := beq_false_of_ne hl
    simp [hl, hne]

/-- The words in front of one do not go behind its first place. -/
theorem startOf_le (hs : HasWord n len s) (hms : m ≤ s) :
    startOf n len m (len s) ≤ firstPlace 16 n len s := by
  have hsub : (List.range m).Sublist (List.range s) := List.range_sublist.mpr hms
  rw [firstPlace_eq 16 hs, startOf]
  exact Nat.add_le_add_left (Nat.mul_le_mul_right _ ((hsub.map len).count_le (len s))) _

theorem firstPlace_add_le_two_pow (htabled : Tabled n tableBits len) (hs : HasWord n len s) :
    firstPlace 16 n len s + 2 ^ (16 - len s) ≤ 2 ^ 16 := by
  have hroom := firstPlace_le_kraftSum 16 len hs.lt
  rwa [htabled.complete.kraft, places_of_ne hs.ne] at hroom

theorem len_le (htabled : Tabled n tableBits len) (hs : HasWord n len s) : len s ≤ 16 :=
  htabled.complete.le _ (List.mem_map.mpr ⟨s, List.mem_range.mpr hs.lt, rfl⟩)

/-- The first place is that of the word, with zeros behind it. -/
theorem firstPlace_eq_word (n : Nat) (len : Nat → Nat) (s : Nat) :
    firstPlace 16 n len s = word 16 n len s * 2 ^ (16 - len s) := by
  rw [word, Nat.shiftRight_eq_div_pow, Nat.div_mul_cancel (dvd_firstPlace 16 n len s)]

/-- `weight` is the size of the word, with the bits that `start` has. -/
theorem shift_add_weight {l x : Nat} (h16 : tableBits ≤ 16) (hl : l ≤ 16) :
    x >>> startShift tableBits l + weight tableBits l =
      (x + 2 ^ (16 - l)) >>> startShift tableBits l := by
  rw [startShift, weight]
  by_cases hshort : l ≤ tableBits
  · have hsplit : 2 ^ (16 - l) = 2 ^ (tableBits - l) * 2 ^ (16 - tableBits) := by
      rw [← Nat.pow_add]
      congr 1
      omega
    rw [if_pos hshort, if_pos hshort, hsplit, Nat.shiftRight_eq_div_pow, Nat.shiftRight_eq_div_pow,
      Nat.add_mul_div_right _ _ (Nat.two_pow_pos _), Nat.shiftLeft_eq, Nat.one_mul]
  · rw [if_neg hshort, if_neg hshort, Nat.shiftRight_zero, Nat.shiftRight_zero, Nat.shiftLeft_eq,
      Nat.one_mul]

/-- `Start` behind a symbol. -/
theorem Assigned.next {st : Assign} (h : Assigned n tableBits len m paths st)
    (htabled : Tabled n tableBits len) (hs : HasWord n len s) (hms : m + 1 ≤ s) :
    Function.update st.start (len m) ((st.start (len m) + weight tableBits (len m)) % 2 ^ 16)
        (len s) =
      startOf n len (m + 1) (len s) >>> startShift tableBits (len s) := by
  rw [startOf_succ]
  by_cases hlen : len m = len s
  · have hplace := startOf_le hs hms
    have hroom := firstPlace_add_le_two_pow htabled hs
    have hpos := Nat.two_pow_pos (16 - len s)
    rw [startOf_succ, if_pos hlen] at hplace
    rw [hlen, Function.update_self, if_pos rfl, h.start s (by omega) hs,
      shift_add_weight htabled.bits.le (len_le htabled hs)]
    refine Nat.mod_eq_of_lt (Nat.lt_of_le_of_lt (Nat.shiftRight_le _ _) ?_)
    omega
  · rw [Function.update_of_ne (Ne.symm hlen), if_neg hlen, Nat.add_zero, h.start s (by omega) hs]

/-- A turn for a symbol whose word is in the table. -/
theorem Assigned.short {st : Assign} (h : Assigned n tableBits len m paths st)
    (htabled : Tabled n tableBits len) (hm : HasWord n len m) (hshort : len m ≤ tableBits) :
    ∃ st', assignCode tableBits (len m) m st = some st' ∧
      Assigned n tableBits len (m + 1) paths st' ∧ SameOutside n st.trees st'.trees := by
  have h16 := htabled.bits.le
  -- `start` has the first entry, and `weight` is the number of entries
  have hstart : st.start (len m) = word 16 n len m * 2 ^ (tableBits - len m) := by
    have hsplit : 2 ^ (16 - len m) = 2 ^ (tableBits - len m) * 2 ^ (16 - tableBits) := by
      rw [← Nat.pow_add]
      congr 1
      omega
    rw [h.start m (Nat.le_refl m) hm, startOf_self hm, startShift, if_pos hshort,
      firstPlace_eq_word, hsplit, ← Nat.mul_assoc, Nat.shiftRight_eq_div_pow,
      Nat.mul_div_cancel _ (Nat.two_pow_pos _)]
  have hweight : weight tableBits (len m) = 2 ^ (tableBits - len m) := by
    rw [weight, if_pos hshort, Nat.shiftLeft_eq, Nat.one_mul]
  have hend : (word 16 n len m + 1) * 2 ^ (tableBits - len m) ≤ 2 ^ tableBits := by
    have hword := word_lt hm (len_le htabled hm) htabled.complete.kraft.le
    have hsplit : 2 ^ tableBits = 2 ^ len m * 2 ^ (tableBits - len m) := by
      rw [← Nat.pow_add]
      congr 1
      omega
    rw [hsplit]
    exact Nat.mul_le_mul_right _ hword
  have hsmall : 2 ^ tableBits < 2 ^ 16 := Nat.pow_lt_pow_right (by decide) htabled.bits
  have hnext : (st.start (len m) + weight tableBits (len m)) % 2 ^ 16 =
      (word 16 n len m + 1) * 2 ^ (tableBits - len m) := by
    rw [hstart, hweight, ← Nat.succ_mul, Nat.mod_eq_of_lt (hend.trans_lt hsmall)]
  have hplaces : ∀ q, q >>> (tableBits - len m) = word 16 n len m ↔
      st.start (len m) ≤ q ∧ q < (word 16 n len m + 1) * 2 ^ (tableBits - len m) := by
    intro q
    rw [Nat.shiftRight_eq_div_pow, Nat.div_eq_iff (Nat.two_pow_pos _), hstart, Nat.add_mul]
    have := Nat.two_pow_pos (tableBits - len m)
    omega
  have hnone : ¬ (st.start (len m) < (word 16 n len m + 1) * 2 ^ (tableBits - len m) ∧
      1 <<< tableBits < (word 16 n len m + 1) * 2 ^ (tableBits - len m)) := by
    rw [Nat.shiftLeft_eq, Nat.one_mul]
    omega
  refine ⟨⟨Function.update st.start (len m) ((word 16 n len m + 1) * 2 ^ (tableBits - len m)),
    st.avail, { st.trees with
      table := fill st.trees.table (st.start (len m))
        ((word 16 n len m + 1) * 2 ^ (tableBits - len m)) m }⟩, ?_,
    ⟨?_, h.avail, fun s hms hs => ?_⟩, ⟨fun _ _ => rfl, fun _ _ => rfl⟩⟩
  · rw [assignCode]
    dsimp only
    rw [if_pos hshort, hnext, if_neg hnone]
  · refine h.grown.shortWord h16 hm hshort (fun q hq => ?_) fun q hq => ?_
    · exact if_pos ((hplaces q).mp hq)
    · exact if_neg fun hin => hq ((hplaces q).mpr hin)
  · have hnext' := h.next htabled hs hms
    rwa [hnext] at hnext'

/-- The entry of the table that a long word begins with. -/
theorem linkAt_table (htabled : Tabled n tableBits len) (hs : HasWord n len s)
    (hlong : tableBits < len s) (paths : List Path) :
    LinkAt n tableBits len paths (.table (firstPlace 16 n len s >>> (16 - tableBits)))
      (tableBits, firstPlace 16 n len s >>> (16 - tableBits)) := by
  have hpos := Nat.two_pow_pos (16 - tableBits)
  have hlt : firstPlace 16 n len s < 2 ^ 16 := by
    have := firstPlace_add_le_two_pow htabled hs
    have := Nat.two_pow_pos (16 - len s)
    omega
  have hfront : kraftUpTo 16 tableBits ((List.range n).map len) ≤ firstPlace 16 n len s := by
    rw [firstPlace_eq 16 hs]
    exact (kraftUpTo_mono (by omega)).trans (Nat.le_add_right _ _)
  refine ⟨rfl, ?_, ?_⟩
  · have hsplit : 2 ^ 16 = 2 ^ tableBits * 2 ^ (16 - tableBits) := by
      rw [← Nat.pow_add, Nat.add_sub_cancel' htabled.bits.le]
    rw [Nat.shiftRight_eq_div_pow, Nat.div_lt_iff_lt_mul hpos, ← hsplit]
    exact hlt
  · obtain ⟨c, hc⟩ := dvd_kraftUpTo ((List.range n).map len) 16 tableBits
    rw [hc, Nat.mul_comm] at hfront ⊢
    rw [Nat.shiftRight_eq_div_pow]
    exact Nat.mul_le_mul_right _ ((Nat.le_div_iff_mul_le hpos).mpr hfront)

/-- A turn for a symbol whose word is too long for the table. -/
theorem Assigned.long {st : Assign} (h : Assigned n tableBits len m paths st)
    (htabled : Tabled n tableBits len) (hm : HasWord n len m) (hlong : tableBits < len m) :
    ∃ st' paths', assignCode tableBits (len m) m st = some st' ∧
      Assigned n tableBits len (m + 1) paths' st' ∧ SameOutside n st.trees st'.trees := by
  have hle := len_le htabled hm
  have hstart : st.start (len m) = firstPlace 16 n len m := by
    rw [h.start m (Nat.le_refl m) hm, startOf_self hm, startShift, if_neg (Nat.not_le.mpr hlong),
      Nat.shiftRight_zero]
  obtain ⟨st', p', paths', hrun, hsame, hgrown, havail, hp', hout⟩ := growBranch_grown htabled hm
    h.grown h.avail (k := firstPlace 16 n len m) (Nat.add_sub_cancel' hlong.le)
    (Nat.le_refl tableBits) (fun j _ => rfl) (linkAt_table htabled hm hlong paths)
  have hlast : (len m - 1, word 16 n len m / 2) ∈ paths' := by
    obtain ⟨l, hl⟩ : ∃ l, len m = l + 1 := Nat.exists_eq_succ_of_ne_zero hm.ne
    have hparent := hp'
    rw [wordPath, hl] at hparent
    rw [hl, Nat.add_sub_cancel]
    exact hparent.parent (by omega)
  refine ⟨⟨Function.update st.start (len m)
      ((st.start (len m) + weight tableBits (len m)) % 2 ^ 16),
    st'.avail, st'.trees.set m p'⟩, paths', ?_,
    ⟨?_, havail, fun s hms hs => h.next htabled hs hms⟩,
    hout.trans (hp'.sameOutside (hgrown.length_lt htabled).le _ _)⟩
  · rw [assignCode]
    dsimp only
    rw [if_neg (Nat.not_le.mpr hlong)]
    rw [hstart, hrun]
    rfl
  · exact hgrown.longWord htabled.bits.le hm hle hlong hp' hlast

/-- The loop over the symbols. -/
theorem assignCodes_assigned (htabled : Tabled n tableBits len) {k : Nat} {st : Assign}
    (h : Assigned n tableBits len m paths st) (hk : m + k = n) :
    ∃ st' paths', assignCodes len tableBits (List.range' m k) st = some st' ∧
      Assigned n tableBits len n paths' st' ∧ SameOutside n st.trees st'.trees := by
  induction k generalizing m paths st with
  | zero =>
    obtain rfl : m = n := hk
    exact ⟨st, paths, rfl, h, .refl m _⟩
  | succ k ih =>
    rw [List.range'_succ, assignCodes]
    by_cases hzero : len m = 0
    · rw [if_pos hzero]
      have hnone : ¬ HasWord n len m := fun hm => hm.ne hzero
      refine ih ⟨h.grown.noWord hnone, h.avail, fun s hms hs => ?_⟩ (by omega)
      rw [h.start s (by omega) hs, startOf_succ, if_neg fun hlen => hs.ne (hlen.symm.trans hzero),
        Nat.add_zero]
    · rw [if_neg hzero]
      have hm : HasWord n len m := ⟨by omega, hzero⟩
      by_cases hshort : len m ≤ tableBits
      · obtain ⟨st', hrun, h', hout⟩ := h.short htabled hm hshort
        obtain ⟨st'', paths'', hrest, h'', hout'⟩ := ih h' (by omega)
        rw [hrun, Option.bind_some]
        exact ⟨st'', paths'', hrest, h'', hout.trans hout'⟩
      · obtain ⟨st', paths', hrun, h', hout⟩ := h.long htabled hm (Nat.not_le.mp hshort)
        obtain ⟨st'', paths'', hrest, h'', hout'⟩ := ih h' (by omega)
        rw [hrun, Option.bind_some]
        exact ⟨st'', paths'', hrest, h'', hout.trans hout'⟩

/-! ## MakeTable -/

/-- Some word is in the table: there are not enough symbols for longer ones. -/
theorem Tabled.kraftUpTo_pos (htabled : Tabled n tableBits len) :
    0 < kraftUpTo 16 tableBits ((List.range n).map len) := by
  by_contra hnone
  have hlong : ∀ x ∈ ((List.range n).map len).map (places 16), x ≤ 2 ^ (15 - tableBits) := by
    intro x hx
    obtain ⟨l, hl, rfl⟩ := List.mem_map.mp hx
    obtain ⟨s, hs, rfl⟩ := List.mem_map.mp hl
    by_cases hzero : len s = 0
    · rw [hzero, places_zero]
      exact Nat.zero_le _
    · have hword : HasWord n len s := ⟨List.mem_range.mp hs, hzero⟩
      have hbits : tableBits < len s := by
        by_contra hshort
        have : _ ≤ kraftUpTo 16 _ _ := firstPlace_add_le_kraftUpTo hword (Nat.not_lt.mp hshort)
        have := Nat.two_pow_pos (16 - len s)
        omega
      rw [places_of_ne hzero]
      exact Nat.pow_le_pow_right (by decide) (by omega)
  -- then even all the symbols are too few for the code space
  have hsum := List.sum_le_card_nsmul _ _ hlong
  rw [List.length_map, List.length_map, List.length_range] at hsum
  have hall : 2 ^ 16 ≤ n * 2 ^ (15 - tableBits) := by
    rw [← htabled.complete.kraft]
    exact hsum
  have hsplit : 2 ^ 16 = 2 ^ (tableBits + 1) * 2 ^ (15 - tableBits) := by
    rw [← Nat.pow_add]
    congr 1
    have := htabled.bits
    omega
  rw [hsplit] at hall
  exact absurd htabled.few (Nat.not_lt.mpr (Nat.le_of_mul_le_mul_right hall (Nat.two_pow_pos _)))

/-- Before the loop the pointers of the long words are empty. -/
theorem assigned_nil (table : Nat → Nat) (t : Trees)
    (hempty : ∀ q < 2 ^ tableBits,
      kraftUpTo 16 tableBits ((List.range n).map len) ≤ q * 2 ^ (16 - tableBits) → table q = 0)
    {start : Nat → Nat} (hstart : ∀ s, HasWord n len s → start (len s) =
      kraftUpTo 16 (len s - 1) ((List.range n).map len) >>> startShift tableBits (len s)) :
    Assigned n tableBits len 0 [] ⟨start, n, { t with table := table }⟩ := by
  refine ⟨⟨List.nodup_nil, by simp, by simp, fun s hs => absurd hs.lt (Nat.not_lt_zero s),
    fun p π hp => ?_, fun s hs => absurd hs (Nat.not_lt_zero s)⟩, rfl, fun s _ hs => ?_⟩
  · cases p with
    | table q =>
      have hzero : table q = 0 := hempty q hp.2.1 hp.2.2
      exact ⟨by simp, fun s hs => absurd hs.lt (Nat.not_lt_zero s), fun _ _ => hzero⟩
    | left v =>
      obtain ⟨ρ, hρ, -⟩ := hp
      simp at hρ
    | right v =>
      obtain ⟨ρ, hρ, -⟩ := hp
      simp at hρ
  · show start (len s) = _
    rw [hstart s hs, startOf]
    simp

/-- `Start` at first. -/
theorem codeStart_eq (htabled : Tabled n tableBits len) (hs : HasWord n len s) :
    codeStart (fun l => ((List.range n).map len).count l) (len s) =
      kraftUpTo 16 (len s - 1) ((List.range n).map len) := by
  obtain ⟨l, hl⟩ : ∃ l, len s = l + 1 := Nat.exists_eq_succ_of_ne_zero hs.ne
  have hroom := firstPlace_add_le_two_pow htabled hs
  have hpos := Nat.two_pow_pos (16 - len s)
  have hfirst := firstPlace_eq 16 hs
  have hfits : kraftUpTo 16 (len s - 1) ((List.range n).map len) < 2 ^ 16 := by omega
  rw [hl, Nat.add_sub_cancel] at hfits ⊢
  rw [codeStart_succ, Nat.mod_eq_of_lt hfits]

/-- The entries of the table behind the short words are 0. -/
theorem table_cleared (htabled : Tabled n tableBits len) (table : Nat → Nat) {i q : Nat}
    (hi : i = codeStart (fun l => ((List.range n).map len).count l) (tableBits + 1) >>>
      (16 - tableBits)) (hq : q < 2 ^ tableBits)
    (hlong : kraftUpTo 16 tableBits ((List.range n).map len) ≤ q * 2 ^ (16 - tableBits)) :
    (if i ≠ 0 then fill table i (1 <<< tableBits) 0 else table) q = 0 := by
  have hpos := Nat.two_pow_pos (16 - tableBits)
  have hsplit : 2 ^ 16 = 2 ^ tableBits * 2 ^ (16 - tableBits) := by
    rw [← Nat.pow_add, Nat.add_sub_cancel' htabled.bits.le]
  have hlt : kraftUpTo 16 tableBits ((List.range n).map len) < 2 ^ 16 := by
    rw [hsplit]
    exact hlong.trans_lt (Nat.mul_lt_mul_of_pos_right hq hpos)
  rw [codeStart_succ, Nat.mod_eq_of_lt hlt, Nat.shiftRight_eq_div_pow] at hi
  -- the table is not filled if there are no short words
  have hne : i ≠ 0 := by
    obtain ⟨c, hc⟩ := dvd_kraftUpTo ((List.range n).map len) 16 tableBits
    have hsome := htabled.kraftUpTo_pos
    rw [hi, hc, Nat.mul_div_cancel_left _ hpos]
    rintro rfl
    omega
  have hle : i ≤ q := by
    rw [hi]
    exact Nat.div_le_of_le_mul (by rwa [Nat.mul_comm])
  rw [if_pos hne]
  refine if_pos ⟨hle, ?_⟩
  rwa [Nat.shiftLeft_eq, Nat.one_mul]

/-- `MakeTable` builds the tables of a complete code. -/
theorem makeTable_grown (htabled : Tabled n tableBits len) (t : Trees) :
    ∃ t' paths, makeTable n len tableBits t = some (t', true) ∧
      Grown n tableBits len n paths t' ∧ SameOutside n t t' := by
  have hall : ∀ l ∈ (List.range n).map len, l ≤ 16 := htabled.complete.le
  have hshort : ¬ (((List.range n).map len).any fun l => 16 < l) = true := by
    simpa using hall
  have hsum : codeStart (fun l => ((List.range n).map len).count l) 17 = 0 := by
    rw [codeStart_succ, kraftUpTo_eq hall, htabled.complete.kraft, Nat.mod_self]
  generalize hstart : codeStart (fun l => ((List.range n).map len).count l) = start at hsum
  generalize hi : start (tableBits + 1) >>> (16 - tableBits) = i
  let shifted := fun i => if i ≤ tableBits then start i >>> (16 - tableBits) else start i
  have hshifted : ∀ s, HasWord n len s → shifted (len s) =
      kraftUpTo 16 (len s - 1) ((List.range n).map len) >>> startShift tableBits (len s) := by
    intro s hs
    show (if len s ≤ tableBits then start (len s) >>> (16 - tableBits) else start (len s)) = _
    rw [← hstart, codeStart_eq htabled hs, startShift]
    by_cases hle : len s ≤ tableBits
    · rw [if_pos hle, if_pos hle]
    · rw [if_neg hle, if_neg hle, Nat.shiftRight_zero]
  have hcleared := fun q => table_cleared htabled t.table (i := i) (q := q) (by rw [hstart, hi])
  obtain ⟨st, paths, hrun, hdone, hout⟩ := assignCodes_assigned htabled
    (assigned_nil _ t hcleared hshifted) (Nat.zero_add n)
  refine ⟨st.trees, paths, ?_, hdone.grown, ⟨hout.left, hout.right⟩⟩
  rw [← List.range_eq_range'] at hrun
  rw [makeTable]
  dsimp only
  rw [if_neg hshort, hstart, if_neg (not_not.mpr hsum), hi, hrun]
  rfl

/-! ## Look-up -/

/-- The beginnings of a long word have nodes. -/
theorem Grown.mem_beginning (h : Grown n tableBits len m paths t) (hs : Long n tableBits len m s)
    {d : Nat} (hbits : tableBits ≤ d) (hd : d < len s) :
    (d, word 16 n len s >>> (len s - d)) ∈ paths := by
  -- from the last beginning up
  obtain ⟨k, hk⟩ : ∃ k, len s = d + 1 + k := Nat.exists_eq_add_of_le hd
  induction k generalizing d with
  | zero =>
    have hmade := h.made s hs
    rwa [hk, Nat.add_zero, Nat.add_sub_cancel, ← Nat.pow_one 2, ← Nat.shiftRight_eq_div_pow,
      show 1 = d + 1 - d by omega, ← show len s = d + 1 by omega] at hmade
  | succ k ih =>
    have hchild := ih (d := d + 1) (by omega) (by omega) (by omega)
    have hparent := h.parent d _ hchild hbits
    have hone : len s - d = len s - (d + 1) + 1 := by omega
    rwa [hone, Nat.shiftRight_succ]

variable {sd : ScratchData}

/-- The registers begin with the word of the symbol. -/
structure Ready (n : Nat) (len : Nat → Nat) (s : Nat) (sd : ScratchData) : Prop where
  symbol : HasWord n len s
  head : sd.bitBuf >>> (16 - len s) = word 16 n len s

theorem Ready.beginning_eq (h : Ready n len s sd) (hle : len s ≤ 16) {d : Nat} (hd : d ≤ len s) :
    sd.bitBuf >>> (16 - d) = word 16 n len s >>> (len s - d) := by
  have hsplit : 16 - d = 16 - len s + (len s - d) := by omega
  rw [hsplit, Nat.shiftRight_add, h.head]

theorem and_shiftLeft_ne_zero (x e : Nat) : x &&& 1 <<< e ≠ 0 ↔ x.testBit e = true := by
  rw [Nat.shiftLeft_eq, Nat.one_mul]
  constructor
  · intro h
    by_contra hbit
    refine h (Nat.eq_of_testBit_eq fun i => ?_)
    by_cases hi : e = i
    · simp_all
    · simp [Nat.testBit_and, hi]
  · intro hbit h
    have hand := Nat.testBit_and x (2 ^ e) e
    rw [h] at hand
    simp [hbit] at hand

/-- The nodes are the ones of the scratch data, which has those of other tables beside them. -/
structure TreesOf (n : Nat) (t : Trees) (sd : ScratchData) : Prop where
  left : ∀ v, n ≤ v → v < 2 * n → sd.left v = t.left v
  right : ∀ v, n ≤ v → v < 2 * n → sd.right v = t.right v

/-- What a turn of the walk reads. -/
theorem Grown.child (h : Grown n tableBits len n paths t) (htabled : Tabled n tableBits len)
    (hsd : TreesOf n t sd) {d : Nat} (hbits : tableBits ≤ d) (hd : d < 16)
    (hin : (d, sd.bitBuf >>> (16 - d)) ∈ paths) {v : Nat}
    (hv : v = n + paths.idxOf (d, sd.bitBuf >>> (16 - d))) :
    Holds n tableBits len n paths (d + 1, sd.bitBuf >>> (16 - (d + 1)))
      (if sd.bitBuf &&& 1 <<< (15 - d) ≠ 0 then sd.right v else sd.left v) := by
  have hindex := List.idxOf_lt_length_of_mem hin
  have hlength := h.length_lt htabled
  have hlink := linkAt_child n len hin hbits (sd.bitBuf.testBit (15 - d))
  have hplace := shiftRight_eq_bit sd.bitBuf (15 - d)
  have hshift : 15 - d + 1 = 16 - d := by omega
  have hshift' : 15 - d = 16 - (d + 1) := by omega
  rw [hshift] at hplace
  rw [← hplace, ← hv] at hlink
  rw [← hshift']
  have hholds := h.link _ _ hlink
  cases hbit : sd.bitBuf.testBit (15 - d) with
  | false =>
    have hzero : ¬ (sd.bitBuf &&& 1 <<< (15 - d) ≠ 0) := by
      rw [and_shiftLeft_ne_zero, hbit]
      decide
    rw [if_neg hzero, hsd.left v (by omega) (by omega)]
    rw [hbit] at hholds
    exact hholds
  | true =>
    rw [if_pos ((and_shiftLeft_ne_zero _ _).mpr hbit), hsd.right v (by omega) (by omega)]
    rw [hbit] at hholds
    exact hholds

/-- The nodes are within `mLeft` and `mRight`. -/
theorem Grown.node_lt (h : Grown n tableBits len m paths t) (htabled : Tabled n tableBits len)
    (hin : π ∈ paths) : ¬ nodes ≤ n + paths.idxOf π := by
  have hindex := List.idxOf_lt_length_of_mem hin
  have hlength := h.length_lt htabled
  have hsymbols := htabled.symbols
  simp only [nodes, nc] at hsymbols ⊢
  omega

/-- The walk goes through the nodes of the word to its symbol. -/
theorem walk_eq (h : Grown n tableBits len n paths t) (htabled : Tabled n tableBits len)
    (hready : Ready n len s sd) (hlong : tableBits < len s) (hsd : TreesOf n t sd) {fuel d i : Nat}
    (hbits : tableBits ≤ d) (hd : d + i + 1 = len s) (hfuel : i < fuel) :
    walk sd n fuel (1 <<< (15 - d)) (n + paths.idxOf (d, sd.bitBuf >>> (16 - d))) = .ok s := by
  have hle := len_le htabled hready.symbol
  have hs : Long n tableBits len n s := ⟨hready.symbol.lt, hready.symbol, hlong⟩
  have hmem : ∀ d, tableBits ≤ d → d < len s → (d, sd.bitBuf >>> (16 - d)) ∈ paths := by
    intro d hd hlt
    rw [hready.beginning_eq hle hlt.le]
    exact h.mem_beginning hs hd hlt
  induction i generalizing d fuel with
  | zero =>
    obtain ⟨fuel, rfl⟩ : ∃ f, fuel = f + 1 := ⟨fuel - 1, by omega⟩
    have hin := hmem d hbits (by omega)
    have hchild := h.child htabled hsd hbits (by omega) hin rfl
    -- the pointer behind the last beginning has the symbol
    have hend : wordPath n len s = (d + 1, sd.bitBuf >>> (16 - (d + 1))) := by
      have hlen : len s = d + 1 := hd.symm
      rw [wordPath, ← hready.head, hlen]
    rw [walk, if_neg (h.node_lt htabled hin)]
    dsimp only
    rw [hchild.symbol s hs hend, if_neg (Nat.not_le.mpr hready.symbol.lt)]
  | succ i ih =>
    obtain ⟨fuel, rfl⟩ : ∃ f, fuel = f + 1 := ⟨fuel - 1, by omega⟩
    have hin := hmem d hbits (by omega)
    have hchild := h.child htabled hsd hbits (by omega) hin rfl
    have hnode := hchild.node (hmem (d + 1) (by omega) (by omega))
    have hmask : (1 <<< (15 - d)) >>> 1 = 1 <<< (15 - (d + 1)) := by
      have hsplit : 15 - d = 15 - (d + 1) + 1 := by omega
      rw [hsplit, Nat.shiftLeft_succ_inside, Nat.shiftRight_one]
      simp [Nat.shiftLeft_eq]
    rw [walk, if_neg (h.node_lt htabled hin)]
    dsimp only
    rw [hnode, if_pos (Nat.le_add_right _ _), hmask]
    exact ih (by omega) (by omega) (by omega)

/-- The symbol of a word is found. -/
theorem lookUp_eq (h : Grown n tableBits len n paths t) (htabled : Tabled n tableBits len)
    (hready : Ready n len s sd) (hsd : TreesOf n t sd) :
    lookUp sd t.table tableBits n = .ok s := by
  have hle := len_le htabled hready.symbol
  rw [lookUp]
  by_cases hshort : len s ≤ tableBits
  · have hentry : t.table (sd.bitBuf >>> (16 - tableBits)) = s := by
      refine h.short s hready.symbol.lt hready.symbol hshort _ ?_
      have hsplit : 16 - tableBits + (tableBits - len s) = 16 - len s := by
        have := htabled.bits
        omega
      rw [← Nat.shiftRight_add, hsplit, hready.head]
    rw [hentry, if_neg (Nat.not_le.mpr hready.symbol.lt)]
  · have hlong := Nat.not_le.mp hshort
    have hs : Long n tableBits len n s := ⟨hready.symbol.lt, hready.symbol, hlong⟩
    have hbegin := hready.beginning_eq hle hlong.le
    have hin : (tableBits, sd.bitBuf >>> (16 - tableBits)) ∈ paths := by
      rw [hbegin]
      exact h.mem_beginning hs (Nat.le_refl _) hlong
    have hfirst : firstPlace 16 n len s >>> (16 - tableBits) =
        sd.bitBuf >>> (16 - tableBits) := by
      have hsplit : 16 - tableBits = 16 - len s + (len s - tableBits) := by omega
      rw [hbegin, hsplit, Nat.shiftRight_add, word]
    -- the entry has a node, and the walk starts there
    have hlink := linkAt_table htabled hready.symbol hlong paths
    rw [hfirst] at hlink
    have hentry : t.table (sd.bitBuf >>> (16 - tableBits)) = _ := (h.link _ _ hlink).node hin
    obtain ⟨i, hi⟩ : ∃ i, len s = tableBits + 1 + i := Nat.exists_eq_add_of_le hlong
    rw [hentry, if_pos (Nat.le_add_right _ _)]
    exact walk_eq h htabled hready hlong hsd (i := i) (Nat.le_refl _) (by omega) (by omega)

/-! ## Tokens -/

/-- What a turn of `Decode` reads: a symbol and, for the symbol of a match, a position. -/
def decodeToken (src : Nat → Byte) (sd : ScratchData) : Except Stuck (ScratchData × Nat × Nat) := do
  let r ← decodeC src sd
  if r.2 < 256 then .ok (r.1, r.2, 0)
  else
    let p ← decodeP src r.1
    .ok (p.1, r.2, p.2)

/-- What the turns within a block read, one after the other. -/
def decodeTokens (src : Nat → Byte) : Nat → ScratchData → Except Stuck (List (Nat × Nat))
  | 0, _ => .ok []
  | k + 1, sd => do
    let r ← decodeToken src sd
    let tokens ← decodeTokens src k r.1
    .ok (r.2 :: tokens)

/-- The tables of the char&len set. -/
structure CharTables (len : Nat → Nat) (t : Trees) (sd : ScratchData) : Prop where
  trees : TreesOf nc t sd
  table : sd.cTable = t.table
  len : sd.cLen = len

/-- The tables of the position set. -/
structure PosTables (len : Nat → Nat) (t : Trees) (sd : ScratchData) : Prop where
  trees : TreesOf np t sd
  table : sd.ptTable = t.table
  len : sd.ptLen = len

/-- The lengths, the tables and the nodes are not changed. -/
structure SameCodes (sd sd' : ScratchData) : Prop where
  left : sd'.left = sd.left
  right : sd'.right = sd.right
  cTable : sd'.cTable = sd.cTable
  cLen : sd'.cLen = sd.cLen
  ptTable : sd'.ptTable = sd.ptTable
  ptLen : sd'.ptLen = sd.ptLen

variable {src : Nat → Byte} {total : Nat} {rest : List Bool} {sd' sd'' : ScratchData}

theorem SameCodes.trans (h : SameCodes sd sd') (h' : SameCodes sd' sd'') : SameCodes sd sd'' :=
  ⟨h'.left.trans h.left, h'.right.trans h.right, h'.cTable.trans h.cTable, h'.cLen.trans h.cLen,
    h'.ptTable.trans h.ptTable, h'.ptLen.trans h.ptLen⟩

theorem sameCodes_fillBuf (src : Nat → Byte) (sd : ScratchData) (k : Nat) :
    SameCodes sd (fillBuf src sd k) := by
  rw [fillBuf_registers]
  exact ⟨rfl, rfl, rfl, rfl, rfl, rfl⟩

theorem TreesOf.same (h : TreesOf n t sd) (hsame : SameCodes sd sd') : TreesOf n t sd' := by
  refine ⟨fun v hv hlt => ?_, fun v hv hlt => ?_⟩
  · rw [hsame.left, h.left v hv hlt]
  · rw [hsame.right, h.right v hv hlt]

theorem CharTables.same (h : CharTables len t sd) (hsame : SameCodes sd sd') :
    CharTables len t sd' :=
  ⟨h.trees.same hsame, hsame.cTable.trans h.table, hsame.cLen.trans h.len⟩

theorem PosTables.same (h : PosTables len t sd) (hsame : SameCodes sd sd') :
    PosTables len t sd' :=
  ⟨h.trees.same hsame, hsame.ptTable.trans h.table, hsame.ptLen.trans h.len⟩

/-- The bits of a symbol's word are read as the symbol. -/
theorem decodeC_eq {c : Nat} (h : Grown nc 12 len nc paths t) (htabled : Tabled nc 12 len)
    (hc : HasWord nc len c) (hsd : CharTables len t sd) (htotal : total < 2 ^ 32)
    (hblock : 1 ≤ sd.blockSize ∧ sd.blockSize < 2 ^ 16)
    (hahead : sd.Ahead src total (wordBits (len c) (word 16 nc len c) ++ rest)) :
    ∃ sd', decodeC src sd = .ok (sd', c) ∧ SameCodes sd sd' ∧
      sd'.blockSize + 1 = sd.blockSize ∧ sd'.Ahead src total rest := by
  have hle := len_le htabled hc
  have hword := word_lt hc hle htabled.complete.kraft.le
  let sd₁ : ScratchData := { sd with blockSize := (sd.blockSize + 2 ^ 16 - 1) % 2 ^ 16 }
  have hahead₁ : sd₁.Ahead src total (wordBits (len c) (word 16 nc len c) ++ rest) :=
    hahead.congr rfl
  have hready : Ready nc len c sd₁ := ⟨hc, hahead₁.peek hle hword⟩
  have hlook : lookUp sd₁ sd₁.cTable 12 nc = .ok c := by
    rw [show sd₁.cTable = t.table from hsd.table]
    exact lookUp_eq h htabled hready ⟨hsd.trees.left, hsd.trees.right⟩
  have hrun : decodeC src sd = .ok (fillBuf src sd₁ (len c), c) := by
    rw [decodeC, if_neg (by omega), decodeSymbol]
    show (lookUp sd₁ sd₁.cTable 12 nc >>= fun j => .ok (fillBuf src sd₁ (sd₁.cLen j), j)) = _
    rw [hlook, show sd₁.cLen = len from hsd.len]
    rfl
  have hsame : SameCodes sd sd₁ := ⟨rfl, rfl, rfl, rfl, rfl, rfl⟩
  refine ⟨_, hrun, hsame.trans (sameCodes_fillBuf src sd₁ _), ?_,
    hahead₁.fillBuf (length_wordBits _ _) hle htotal⟩
  rw [fillBuf_registers]
  show (sd.blockSize + 2 ^ 16 - 1) % 2 ^ 16 + 1 = sd.blockSize
  omega

/-- The word of a number of bits and the bits behind the first one are read as a position. -/
theorem decodeP_eq {c x : Nat} (h : Grown np 8 len np paths t) (htabled : Tabled np 8 len)
    (hc : HasWord np len c) (hx : x < 2 ^ (c - 1)) (hsd : PosTables len t sd)
    (htotal : total < 2 ^ 32)
    (hahead : sd.Ahead src total
      (wordBits (len c) (word 16 np len c) ++ (wordBits (c - 1) x ++ rest))) :
    ∃ sd', decodeP src sd = .ok (sd', if c = 0 then 0 else 2 ^ (c - 1) + x) ∧ SameCodes sd sd' ∧
      sd'.blockSize = sd.blockSize ∧ sd'.Ahead src total rest := by
  have hle := len_le htabled hc
  have hword := word_lt hc hle htabled.complete.kraft.le
  have hready : Ready np len c sd := ⟨hc, hahead.peek hle hword⟩
  have hlook : lookUp sd sd.ptTable 8 np = .ok c := by
    rw [hsd.table]
    exact lookUp_eq h htabled hready hsd.trees
  have hahead₁ := hahead.fillBuf (length_wordBits _ _) hle htotal
  have hsame₁ := sameCodes_fillBuf src sd (len c)
  have hblock : ∀ (sd : ScratchData) k, (fillBuf src sd k).blockSize = sd.blockSize := by
    intro sd k
    rw [fillBuf_registers]
    rfl
  have hnp : c < 14 := hc.lt
  have hfew : c - 1 ≤ 16 := by omega
  obtain ⟨hget, hahead₂⟩ := hahead₁.getBits hfew hx htotal
  have hrun : decodeP src sd = if c ≠ 0 then
      .ok (fillBuf src (fillBuf src sd (len c)) (c - 1), (1 <<< (c - 1) + x) % 2 ^ 16)
      else .ok (fillBuf src sd (len c), c) := by
    rw [decodeP, hlook, hsd.len]
    show (if c ≠ 0 then _ else _) = _
    rw [hget]
  -- the position 0 has no bits behind its word
  by_cases hzero : c = 0
  · subst hzero
    obtain rfl : x = 0 := by simpa using hx
    exact ⟨_, hrun, hsame₁, hblock _ _, by simpa using hahead₁⟩
  · have hpow : 2 ^ (c - 1) ≤ 2 ^ 13 := Nat.pow_le_pow_right (by decide) (by omega)
    have hmod : (1 <<< (c - 1) + x) % 2 ^ 16 = 2 ^ (c - 1) + x := by
      rw [Nat.shiftLeft_eq, Nat.one_mul, Nat.mod_eq_of_lt (by omega)]
    rw [if_pos hzero, hmod] at hrun
    rw [if_neg hzero]
    exact ⟨_, hrun, hsame₁.trans (sameCodes_fillBuf src _ _),
      (hblock _ _).trans (hblock _ _), hahead₂⟩

end EfiCore.Dec
