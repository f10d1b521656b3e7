import EfiCore.Mem.PageAllocation

/-! # Failed page calls

`ConvertPages` converts a range descriptor by descriptor, and looks at the next descriptor only
when it gets there.  What a failed `AllocatePages`, `FreePages` or `SetCodeSection` leaves behind
depends on where it stopped: at the first descriptor nothing has happened yet, later on the
descriptors before have been converted.
-/

namespace EfiCore.Mem

open EfiCore.Lib MemState

/-- A call of a service that converts pages. -/
inductive PageCall (A : Arch) where
  | allocatePages (type : AllocateType) (memoryType : MemoryType) (noPages : Uintn A)
      (memory : BitVec 64)
  | freePages (memory : BitVec 64) (noPages : Uintn A)
  | setCodeSection (base : BitVec 64) (noPages : Uintn A) (memoryType : MemoryType)

/-- The arguments of a call of `ConvertPages`. -/
structure Conversion where
  loadConvert : Bool
  start : Nat
  noPages : Nat
  newType : MemoryType

/-- `End` of the range. -/
def Conversion.last (k : Conversion) : Nat :=
  (k.start + k.noPages * 4096 % 2 ^ 64 + (2 ^ 64 - 1)) % 2 ^ 64

/-- An address of the range. -/
def Conversion.Range (k : Conversion) (a : Nat) : Prop := k.start ≤ a ∧ a ≤ k.last

namespace PageCall

variable {A : Arch}

def exec (fuel : Nat) (s : MemState A) : PageCall A → Except Fault (Status × MemState A)
  | allocatePages type memoryType noPages memory =>
    (fun r => (r.1.1, r.2)) <$> s.allocatePages fuel type memoryType noPages memory
  | freePages memory noPages => s.freePages fuel memory noPages
  | setCodeSection base noPages memoryType => s.setCodeSection fuel base noPages memoryType

/-- What a call asks of `ConvertPages`, where its own checks let it get there. -/
def conversion (s : MemState A) : PageCall A → Option Conversion
  | allocatePages type memoryType noPages memory =>
    let alignment := pageAllocationAlignment A memoryType
    let n := roundPages A memoryType noPages
    let limit := if type = .allocateMaxAddress then memory.toNat else maxAddress A
    let start :=
      if type = .allocateAddress then memory.toNat
      else s.findFreePages limit n memoryType alignment
    if type = .maxAllocateType ∨ s.efiAtRuntime ∨
        (type = .allocateAddress ∧ memory.toNat % alignment ≠ 0) ∨
        (type ≠ .allocateAddress ∧ start = 0) then none
    else some ⟨false, start, n, memoryType⟩
  | freePages memory noPages =>
    match s.findEntry memory.toNat with
    | none => none
    | some e =>
      if s.efiAtRuntime ∨ memory.toNat % pageAllocationAlignment A e.type ≠ 0 ∨
          roundPages A e.type noPages = 0 ∨
          (e.last - e.start + 1) % 2 ^ 64 / 4096 < roundPages A e.type noPages then none
      else some ⟨false, memory.toNat, roundPages A e.type noPages, .conventionalMemory⟩
  | setCodeSection base noPages memoryType => some ⟨true, base.toNat, noPages.toNat, memoryType⟩

end PageCall

namespace MemState

variable {A : Arch} {convert : Convert A} {s : MemState A}

/-- A call either leaves the state alone or does what its conversion does. -/
theorem pageCall_cases (fuel : Nat) (c : PageCall A) : Ensures (c.exec fuel s) fun r =>
    r.2 = s ∨ ∃ k, c.conversion s = some k ∧
      convertPages fuel k.loadConvert k.start k.noPages k.newType s = .ok r := by
  cases c with
  | allocatePages type memoryType noPages memory =>
    refine Ensures.map ?_
    rw [MemState.allocatePages]
    refine Ensures.ite (fun _ => .pure (.inl rfl)) fun hmax => ?_
    refine Ensures.ite (fun _ => .pure (.inl rfl)) fun hrun => ?_
    refine Ensures.ite (fun _ => .pure (.inl rfl)) fun halign => ?_
    refine Ensures.ite (fun _ => .pure (.inl rfl)) fun hfound => ?_
    refine (Ensures.self _).bind fun r hr => .pure (.inr ⟨⟨false, _, _, _⟩, ?_, hr⟩)
    exact if_neg (not_or.mpr ⟨hmax, not_or.mpr ⟨hrun, not_or.mpr ⟨halign, hfound⟩⟩⟩)
  | freePages memory noPages =>
    refine Ensures.ite (fun _ => .ok (.inl rfl)) fun hrun => ?_
    split
    · exact .ok (.inl rfl)
    · rename_i e hfind
      refine Ensures.ite (fun _ => .ok (.inl rfl)) fun halign => ?_
      refine Ensures.ite (fun _ => .ok (.inl rfl)) fun hsize => ?_
      refine (Ensures.self _).mono fun r hr => .inr ⟨⟨false, _, _, _⟩, ?_, hr⟩
      rw [PageCall.conversion, hfind]
      exact if_neg (not_or.mpr ⟨hrun, not_or.mpr ⟨halign, hsize⟩⟩)
  | setCodeSection base noPages memoryType =>
    exact (Ensures.self _).mono fun r hr => .inr ⟨⟨true, _, _, _⟩, rfl, hr⟩

/-! ## Where the loop stops -/

/-- A turn gives up before it changes anything, or goes on behind the piece it converted. -/
theorem convertRange_next (convert : Convert A) (fuel : Nat) (lc : Bool) (start last : Nat)
    (t : MemoryType) (s : MemState A) :
    Ensures (s.convertRange convert fuel lc start last t) fun r => (r.1 = none ∧ r.2 = s ∧
        ∀ e, s.findEntry start = some e → incompatible lc t e.type = true) ∨
      ∃ e, s.findEntry start = some e ∧ incompatible lc t e.type = false ∧
        r.1 = some ((min e.last last + 1) % 2 ^ 64) := by
  rw [convertRange]
  split
  · rename_i hfind
    refine .pure (.inl ⟨rfl, rfl, fun e he => ?_⟩)
    rw [hfind] at he
    cases he
  · rename_i e hfind
    refine Ensures.ite (fun hinc => .pure (.inl ⟨rfl, rfl, fun e' he' => ?_⟩)) fun hinc => ?_
    · cases he'.symm.trans hfind
      exact hinc
    · have hmin : (if e.last < last then e.last else last) = min e.last last := by
        split <;> omega
      refine Ensures.bind (Ensures.self _) fun r _ => Ensures.bind (Ensures.self _) fun s1 _ => ?_
      refine Ensures.bind (Ensures.self _) fun s2 _ => Ensures.bind (Ensures.self _) fun s3 _ => ?_
      exact .pure (.inr ⟨e, hfind, Bool.eq_false_iff.mpr hinc, by rw [hmin]⟩)

/-- The loop succeeds when an invariant of its turns makes the next piece convertible. -/
theorem convertLoop_succeeds {fuel : Nat} {lc : Bool} {last : Nat} {t : MemoryType}
    {I : Nat → MemState A → Prop}
    (find : ∀ start s, I start s → start < last →
      ∃ e, s.findEntry start = some e ∧ incompatible lc t e.type = false)
    (turn : ∀ start s next s', I start s → start < last →
      s.convertRange convert fuel lc start last t = .ok (some next, s') → I next s')
    (turns : Nat) {start : Nat} {s : MemState A} (h : I start s) :
    Ensures (s.convertLoop convert fuel lc last t turns start) fun r => r.1 = .success := by
  induction turns generalizing start s with
  | zero =>
    rw [convertLoop]
    exact Ensures.ite (fun _ => .error) fun _ => .pure rfl
  | succ turns ih =>
    rw [convertLoop]
    refine Ensures.ite (fun hlt => ?_) fun _ => .pure rfl
    refine ((Ensures.self _).and (convertRange_next convert fuel lc start last t s)).bind
      fun r hr => ?_
    obtain ⟨hexec, hr⟩ := hr
    obtain ⟨o, s1⟩ := r
    obtain ⟨e, hfind, hinc⟩ := find start s h hlt
    rcases hr with ⟨_, _, hbad⟩ | ⟨_, _, _, hnext⟩
    · rw [hbad e hfind] at hinc
      cases hinc
    · dsimp only at hnext
      subst hnext
      exact ih (turn start s _ s1 h hlt hexec)

/-- A range inside the descriptor found at its start is converted in one turn, or not at all. -/
theorem convertLoop_single (hs : s.Sound) (fuel : Nat) (lc : Bool) {start last : Nat}
    (t : MemoryType) (hlt : last + 1 < 2 ^ 64 ∨ start = 0) (hle : last < 2 ^ 64)
    (hone : ∀ e, s.findEntry start = some e → incompatible lc t e.type = false → last ≤ e.last)
    (turns : Nat) :
    Ensures (s.convertLoop convert fuel lc last t turns start) fun r =>
      r.1.isError = true → r.2 = s := by
  cases turns with
  | zero =>
    rw [convertLoop]
    exact Ensures.ite (fun _ => .error) fun _ => .pure fun _ => rfl
  | succ turns =>
    rw [convertLoop]
    refine Ensures.ite (fun hstart => ?_) fun _ => .pure fun _ => rfl
    refine (convertRange_next convert fuel lc start last t s).bind fun r hr => ?_
    obtain ⟨o, s1⟩ := r
    rcases hr with ⟨hnone, hsame, -⟩ | ⟨e, hfind, hinc, hnext⟩
    · cases hnone
      exact .pure fun _ => hsame
    · dsimp only at hnext
      obtain ⟨he, hes, hel⟩ := findEntry_spec hfind
      have hcov := hone e hfind hinc
      have hend : last + 1 < 2 ^ 64 := by
        by_contra hwrap
        -- one descriptor would cover both ends of the address space
        have h0 : s.view 0 = some e.label := view_of_mem hs.map.spans he (by omega)
        have h1 : s.view (2 ^ 64 - 1) = some e.label := view_of_mem hs.map.spans he (by omega)
        exact hs.ends e.attr (by rw [View.attrs, h0]; rfl) (by rw [View.attrs, h1]; rfl)
      subst hnext
      dsimp only
      rw [Nat.min_eq_right hcov, convertLoop_done _ _ _ _ _ _ (by omega)]
      exact .ok fun h => by cases h

/-- A range that the map covers can be converted for the loader. -/
theorem convertLoop_covered (hk : convert.Keeps) (fuel : Nat) {start last : Nat} (t : MemoryType)
    (hs : s.Sound) (hstart : start % 4096 = 0) (hlast : (last + 1) % 4096 = 0)
    (hlt : last + 1 < 2 ^ 64 ∨ start = 0) (hle : last < 2 ^ 64)
    (hcov : ∀ a, start ≤ a → a ≤ last → s.view a ≠ none) (turns : Nat) :
    Ensures (s.convertLoop convert fuel true last t turns start) fun r => r.1 = .success := by
  have covered : ∀ {x : Nat} {r : MemState A}, r.view x ≠ none ↔ r.view.attrs x ≠ none := by
    intro x r
    rw [View.attrs, Ne, Ne, Option.map_eq_none_iff]
  refine convertLoop_succeeds (I := fun x r => (x % 4096 = 0 ∧ start ≤ x) ∧ r.Sound ∧
    ∀ a, start ≤ a → a ≤ last → r.view a ≠ none) ?_ ?_ turns ⟨⟨hstart, le_refl _⟩, hs, hcov⟩
  · rintro x r ⟨⟨hx, hxs⟩, hr, hrcov⟩ hxl
    obtain ⟨l, hl⟩ := Option.ne_none_iff_exists'.mp (hrcov x hxs (by omega))
    obtain ⟨e, hfind, -⟩ := findEntry_of_view hr hx hl
    exact ⟨e, hfind, rfl⟩
  · rintro x r next r' ⟨⟨hx, hxs⟩, hr, hrcov⟩ hxl hexec
    obtain ⟨hkept, hnext⟩ := convertRange_keeps hk fuel true t hx hlast hle hxl hr _ hexec
    refine ⟨⟨hnext next rfl, ?_⟩, hkept.sound, fun a h1 h2 => ?_⟩
    · rcases convertRange_next convert fuel true x last t r _ hexec with ⟨h, _⟩ | ⟨e, hfind, _, h⟩
      · cases h
      · cases h
        have hel := (findEntry_spec hfind).2
        have hpe := (hr.map.pages e (findEntry_spec hfind).1).lt
        omega
    · rw [covered, hkept.attrs, ← covered]
      exact hrcov a h1 h2

/-- Pages held by callers can be given back. -/
theorem convertLoop_held (hk : convert.Keeps) (hc : convert.Moves) (fuel : Nat) {start last : Nat}
    (hs : s.Sound) (hp : s.PoolSound) (hstart : start % 4096 = 0) (hlast : (last + 1) % 4096 = 0)
    (hlt : last + 1 < 2 ^ 64) (hheld : ∀ a, start ≤ a → a ≤ last → s.Held a) (turns : Nat) :
    Ensures (s.convertLoop convert fuel false last .conventionalMemory turns start)
      fun r => r.1 = .success := by
  refine convertLoop_succeeds (I := fun x r => x % 4096 = 0 ∧ r.Sound ∧ r.PoolSound ∧
    ∀ a, x ≤ a → a ≤ last → r.Held a) ?_ ?_ turns ⟨hstart, hs, hp, hheld⟩
  · rintro x r ⟨hx, hr, -, hrheld⟩ hxl
    obtain ⟨⟨t, attr, hv, ht⟩, -⟩ := hrheld x (le_refl _) (by omega)
    obtain ⟨e, hfind, hlabel⟩ := findEntry_of_view hr hx hv
    have htype : e.type = t := congrArg Prod.fst hlabel
    refine ⟨e, hfind, (incompatible_false_iff _ _).mpr ?_⟩
    rw [htype]
    exact iff_of_false (not_not.mpr rfl) ht
  · rintro x r next r' ⟨hx, hr, hrp, hrheld⟩ hxl hexec
    have hturn := convertRange_turns hk hc fuel false .conventionalMemory hx hlast (by omega) hxl
      hr hrp (fun e _ _ a h1 _ h2 => (hrheld a h1 h2).2) _ hexec
    rcases hturn with ⟨h, _⟩ | ⟨e, rangeEnd, hfind, -, hre, h, hturned⟩
    · cases h
    · cases h
      have hpe := hr.map.pages e (findEntry_spec hfind).1
      have hpe1 := hpe.last_aligned
      have hpe2 := hpe.lt
      have hel := (findEntry_spec hfind).2
      have hmod : (rangeEnd + 1) % 2 ^ 64 = rangeEnd + 1 := Nat.mod_eq_of_lt (by omega)
      rw [hmod]
      refine ⟨by omega, hturned.traffic.sound, hturned.traffic.pool, fun a h1 h2 => ?_⟩
      exact hturned.traffic.held (by omega) (hrheld a (by omega) h2)

end MemState

/-! ## Failed calls -/

section Runs

variable {A : Arch}

/-- Once a range can be converted at its start, so can the rest of it: it lies in the descriptor
    found there, or it is covered and the loader asks, or callers hold all of it and the pool is
    intact. -/
def Foreseen (s : MemState A) (k : Conversion) : Prop :=
  (∀ e, s.findEntry k.start = some e → incompatible k.loadConvert k.newType e.type = false →
    k.last ≤ e.last) ∨
  (k.loadConvert = true ∧ ∀ a, k.Range a → s.view a ≠ none) ∨
  (k.loadConvert = false ∧ k.newType = .conventionalMemory ∧ k.last + 1 < 2 ^ 64 ∧
    s.PoolSound ∧ ∀ a, k.Range a → s.Held a)

/-- The conversion that a call comes to, if it does, is foreseen. -/
def ForeseenCall (s : MemState A) (c : PageCall A) : Prop :=
  ∀ k, c.conversion s = some k → Foreseen s k

/-- Whatever was called before, a page call that meets `ok` and returns an error leaves every
    address of the map with its type. -/
def FailsCleanly (A : Arch) (ok : MemState A → PageCall A → Prop) : Prop :=
  ∀ s, (machine A).Reach (fun s a => SuppliesNew s a ∧ SuppliesOneEnd s a) s →
    ∀ fuel c status s', ok s c → c.exec fuel s = .ok (status, s') → status.isError = true →
      ∀ a, s'.typeAt a = s.typeAt a

theorem convertPages_foreseen (fuel : Nat) {s : MemState A} (hs : s.Sound) {k : Conversion}
    (h : Foreseen s k) :
    Ensures (convertPages fuel k.loadConvert k.start k.noPages k.newType s) fun r =>
      r.1.isError = true → r.2 = s := by
  cases fuel with
  | zero => exact .error
  | succ fuel =>
    have hk := convertPages_keeps (A := A) fuel
    have hc := convertPages_moves (A := A) fuel
    have succeeds : ∀ r : Status × MemState A, r.1 = .success → r.1.isError = true → r.2 = s := by
      rintro ⟨status, s'⟩ rfl herr
      cases herr
    obtain ⟨lc, start, n, t⟩ := k
    change Ensures (s.convertBody (convertPages fuel) (fuel + 1) lc start n t) _
    refine Ensures.ite (fun _ => .ok fun _ => rfl) fun hvalid => ?_
    have hstart : start % 4096 = 0 := by
      by_contra hne
      exact hvalid (.inr (.inl hne))
    have hnowrap : ¬ (start + n * 4096 % 2 ^ 64) % 2 ^ 64 < start :=
      fun hlow => hvalid (.inr (.inr hlow))
    set last := (start + n * 4096 % 2 ^ 64 + (2 ^ 64 - 1)) % 2 ^ 64 with hlast
    have hend : last + 1 < 2 ^ 64 ∨ start = 0 := by omega
    have halign : (last + 1) % 4096 = 0 := by omega
    have hle : last < 2 ^ 64 := by omega
    rcases h with hone | ⟨hlc, hcov⟩ | ⟨hlc, ht, hlt, hp, hheld⟩
    · exact convertLoop_single hs (fuel + 1) lc t hend hle hone (fuel + 1)
    · dsimp only at hlc
      subst hlc
      exact (convertLoop_covered hk (fuel + 1) t hs hstart halign hend hle
        (fun a h1 h2 => hcov a ⟨h1, h2⟩) (fuel + 1)).mono succeeds
    · dsimp only at hlc ht
      subst hlc ht
      exact (convertLoop_held hk hc (fuel + 1) hs hp hstart halign hlt
        (fun a h1 h2 => hheld a ⟨h1, h2⟩) (fuel + 1)).mono succeeds

/-- A failed call whose conversion was foreseen leaves the whole state alone. -/
theorem pageCall_foreseen (fuel : Nat) {s : MemState A} (hs : s.Sound) {c : PageCall A}
    (h : ForeseenCall s c) : Ensures (c.exec fuel s) fun r => r.1.isError = true → r.2 = s := by
  refine (pageCall_cases fuel c).mono fun r hr herr => ?_
  rcases hr with hsame | ⟨k, hk, hexec⟩
  · exact hsame
  · exact convertPages_foreseen fuel hs (h k hk) r hexec herr

theorem settled_of_reach {s : MemState A}
    (h : (machine A).Reach (fun s a => SuppliesNew s a ∧ SuppliesOneEnd s a) s) : Settled s := by
  apply h.rule
  · rintro s rfl
    exact initializeMemoryMap_settled
  · rintro s a s' hs hok ⟨fuel, hstep⟩
    by_cases hadd : ∃ t b n attr, a = .fwAddMemoryDescriptor t b n attr
    · obtain ⟨t, b, n, attr, rfl⟩ := hadd
      exact (fwAddMemoryDescriptor_adds fuel hs hok.1 hok.2 s' hstep).1
    · exact hs.keep (exec_keeps fuel s a (fun t b n attr he => hadd ⟨t, b, n, attr, he⟩) s' hstep
        hs.sound)

theorem failsCleanly_of_foreseen (A : Arch) : FailsCleanly A ForeseenCall := by
  intro s hreach fuel c status s' hok hexec herr a
  have hsame : s' = s :=
    pageCall_foreseen fuel (settled_of_reach hreach).sound hok (status, s') hexec herr
  rw [hsame]

/-- The four pages are allocated once more: the call fails, and every address has its type. -/
theorem supplyTake_failed : ∃ s s' : MemState .efi64,
    (PageCall.allocatePages .allocateAddress .loaderData 4 0x108000).exec 8 s =
      .ok (.notFound, s') ∧ s.typeAt 0x108000 = some .loaderData ∧
      ∀ a, s'.typeAt a = s.typeAt a := by
  have hrun : supplyTake (fun s =>
    match (PageCall.allocatePages .allocateAddress .loaderData 4 0x108000).exec 8 s with
    | .ok (status, _) => decide (status = .notFound ∧ s.typeAt 0x108000 = some .loaderData ∧
        (s.findEntry 0x108000).all (fun e => incompatible false .loaderData e.type) = true)
    | .error _ => false) = true := by decide +kernel
  obtain ⟨s, s', hsupply, htake, hnext⟩ := supplyTake_states hrun
  split at hnext
  · rename_i status s'' hcall
    obtain ⟨rfl, htype, hused⟩ := of_decide_eq_true hnext
    refine ⟨s', s'', hcall, htype, failsCleanly_of_foreseen .efi64 s' ?_ 8 _ .notFound s'' ?_
      hcall rfl⟩
    · have htakes : SuppliesNew s take ∧ SuppliesOneEnd s take := ⟨trivial, trivial⟩
      exact .next (.next (.start rfl) ⟨supply_new, supply_oneEnd⟩ ⟨8, hsupply⟩) htakes ⟨8, htake⟩
    · intro k hk
      have hconversion : k = ⟨false, 0x108000, roundPages .efi64 .loaderData 4, .loaderData⟩ := by
        obtain ⟨-, hk⟩ := Option.ite_none_left_eq_some.mp hk
        exact (Option.some.inj hk).symm
      subst hconversion
      refine .inl fun e he hfree => ?_
      have hall := Option.all_eq_true _ _ |>.mp hused e he
      rw [hfree] at hall
      cases hall
  · cases hnext

/-! ## A count checked against the whole descriptor -/

/-- Four pages of loader data in free memory, freed from the third of them on: two are, then the
    call fails. -/
theorem fourPages_freed :
    (match (Action.fwAddMemoryDescriptor (A := .efi64) .conventionalMemory 0x100000 64 0).exec 8
        (initializeMemoryMap .efi64) with
      | .ok s => match (Action.allocatePages .allocateAddress .loaderData 4 0x108000).exec 8 s with
        | .ok s => match (PageCall.freePages 0x10A000 4).exec 8 s with
          | .ok (status, s') => decide (status = .notFound ∧
              s.typeAt 0x10A000 = some .loaderData ∧
              s'.typeAt 0x10A000 = some .conventionalMemory)
          | _ => false
        | _ => false
      | _ => false) = true := by
  decide +kernel

theorem not_failsCleanly : ¬ FailsCleanly .efi64 fun _ _ => True := by
  intro h
  have hrun := fourPages_freed
  split at hrun
  · rename_i s1 hexec1
    split at hrun
    · rename_i s hexec
      split at hrun
      · rename_i status s' hcall
        obtain ⟨rfl, hbefore, hafter⟩ := of_decide_eq_true hrun
        have hends : SuppliesOneEnd (initializeMemoryMap .efi64)
            (.fwAddMemoryDescriptor .conventionalMemory 0x100000 64 0) := by
          intro attr h0
          simp [View.attrs, View.put, MemState.view, initializeMemoryMap, view, occupant] at h0
        have hnew : SuppliesNew s1 (.allocatePages .allocateAddress .loaderData 4 0x108000) :=
          trivial
        have hreach : (machine .efi64).Reach (fun s a => SuppliesNew s a ∧ SuppliesOneEnd s a) s :=
          .next (.next (.start rfl) ⟨suppliesNew_sound (by decide), hends⟩ ⟨8, hexec1⟩)
            (And.intro hnew hnew) ⟨8, hexec⟩
        have hsame := h s hreach 8 _ _ _ trivial hcall rfl 0x10A000
        rw [hbefore, hafter] at hsame
        cases hsame
      · cases hrun
    · cases hrun
  · cases hrun

end Runs

end EfiCore.Mem
