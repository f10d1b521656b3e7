import EfiCore.Var.Lookup

/-! # The search for free space

One turn of the loop in `RtVarFindFreeSpace` collects the garbage of one bank, or adds a bank to
the store.  `Round` is what such a turn can do to a state that is in order.
-/

namespace EfiCore.Var

open EfiCore.Lib

namespace State

variable {P : Platform} {g : Regime} {s s' s1 s2 : State} {pend : List BankAddr} {t : StoreType}
  {b : BankAddr}

/-- A state in order between two operations, on devices whose further banks are clean too. -/
structure Good (P : Platform) (g : Regime) (s : State) : Prop extends s.Ready P g where
  fresh : ∀ b, s.noBanks b.device ≤ b.bankNo → Clean P.arch g (s.flash b)

theorem Good.of_frame (h : s.Good P g) (hready : s'.Ready P g) (hframe : Frame s s') :
    s'.Good P g where
  toReady := hready
  fresh b hb := by
    rw [hframe.noBanks] at hb
    rw [hframe.flash b hb]
    exact h.fresh b hb

theorem Asked.good (h : Asked s s1) (hs : s.Good P g) : s1.Good P g where
  toReady := h.ready hs.toReady
  fresh b hb := by
    rw [h.flash]
    exact hs.fresh b ((h.noBanks b.device).trans hb)

/-- A bank that is known but on no list. -/
structure Unlisted (s : State) (b : BankAddr) : Prop where
  out : ¬ s.InService [] b
  known : b.bankNo < s.noBanks b.device

theorem Good.addBank (h : s.Good P g) (t : StoreType) (hb : s.Unlisted b)
    (hclean : Clean P.arch g (s.flash b)) :
    Ensures (s.varStoreAddBank P t b) fun r => r.2.Good P g ∧
      ((r.1.isError = true ∧ r.2 = s.answered) ∨
        (r.1.isError = false ∧ Added P g t b s r.2)) := by
  refine (h.toReady.addBank t hb.out hb.known hclean).mono fun r hr => ⟨⟨hr.1, ?_⟩, hr.2⟩
  obtain ⟨-, hsame⟩ | ⟨-, hadded⟩ := hr.2
  · rw [hsame]
    exact h.fresh
  · intro b' hb'
    rw [hadded.noBanks] at hb'
    have hne : b' ≠ b := by
      rintro rfl
      exact absurd hb.known (Nat.not_lt.mpr hb')
    rw [hadded.flash b' hne]
    exact h.fresh b' hb'

/-- The store got the bank `b`, which its device did not have before. -/
structure Grown (P : Platform) (g : Regime) (t : StoreType) (b : BankAddr) (s s' : State) :
    Prop where
  asked : ∃ s1, Asked s s1 ∧ b.bankNo < s1.noBanks b.device ∧ Added P g t b s1 s'
  next : s.noBanks b.device ≤ b.bankNo
  device : ∃ b' ∈ (s.store t).active, b'.device = b.device

theorem Good.growStore (h : s.Good P g) (t : StoreType) (banks : List BankAddr)
    (hbanks : ∀ b ∈ banks, b ∈ (s.store t).active) :
    Ensures (s.growStore P t banks) fun r => r.2.Good P g ∧
      ((r.1 = false ∧ Asked s r.2) ∨ (r.1 = true ∧ ∃ b, Grown P g t b s r.2)) := by
  induction banks generalizing s with
  | nil => exact Ensures.ok ⟨h, .inl ⟨rfl, .refl s⟩⟩
  | cons b banks ih =>
    have hrest : ∀ b ∈ banks, b ∈ (s.store t).active :=
      fun b' hb' => hbanks b' (List.mem_cons_of_mem b hb')
    rw [State.growStore]
    refine Ensures.ite (fun _ => ?_) fun _ => ih h hrest
    dsimp only
    have hasked : Asked s (s.deviceSizeStore P b.device (s.noBanks b.device + 1)) :=
      .sizeStore P s (Nat.le_succ _)
    generalize s.deviceSizeStore P b.device (s.noBanks b.device + 1) = s1 at hasked
    refine Ensures.ite (fun hnoBanks => ?_) fun _ => ?_
    · have hunlisted : s1.Unlisted ⟨b.device, s.noBanks b.device⟩ := by
        refine ⟨fun hin => ?_, ?_⟩
        · -- the banks in service are known already
          rw [InService, hasked.store] at hin
          exact absurd (h.sound.numbered _ hin) (Nat.lt_irrefl _)
        · change s.noBanks b.device < s1.noBanks b.device
          omega
      have hclean : Clean P.arch g (s1.flash ⟨b.device, s.noBanks b.device⟩) := by
        rw [hasked.flash]
        exact h.fresh _ (Nat.le_refl _)
      rw [Nat.add_sub_cancel]
      refine Ensures.bind ((hasked.good h).addBank t hunlisted hclean) fun r hr => ?_
      refine Ensures.pure ⟨hr.1, ?_⟩
      obtain ⟨herror, hsame⟩ | ⟨hok, hadded⟩ := hr.2
      · rw [herror, hsame]
        exact .inl ⟨rfl, hasked.trans (.answered s1)⟩
      · rw [hok]
        exact .inr ⟨rfl, _, ⟨s1, hasked, hunlisted.known, hadded⟩, Nat.le_refl _, b,
          hbanks b List.mem_cons_self, rfl⟩
    · refine (ih (hasked.good h) (hasked.store ▸ hrest)).mono fun r hr => ⟨hr.1, ?_⟩
      obtain ⟨hfalse, hasked'⟩ | ⟨htrue, b', hgrown⟩ := hr.2
      · exact .inl ⟨hfalse, hasked.trans hasked'⟩
      · obtain ⟨s2, hasked2, hknown, hadded⟩ := hgrown.asked
        obtain ⟨b'', hb'', hdevice⟩ := hgrown.device
        rw [hasked.store] at hb''
        exact .inr ⟨htrue, b', ⟨s2, hasked.trans hasked2, hknown, hadded⟩,
          (hasked.noBanks b'.device).trans hgrown.next, b'', hb'', hdevice⟩

/-! ## Turns of the loop -/

/-- What a collection of the bank `b` of the store `t` does. -/
inductive Collects (t : StoreType) (b : BankAddr) (s s' : State) : Prop
  /-- Its records were moved to the transaction bank. -/
  | moved {new : BankAddr} (hrequired : (s.store t).tBankRequired = true)
      (htBank : (s.store t).tBank = some new) (h : Collected b new s s')
  /-- There is no transaction bank, and nothing is done. -/
  | idle (hrequired : (s.store t).tBankRequired = true) (htBank : (s.store t).tBank = none)
      (h : s' = s)
  /-- Its records were copied within the bank. -/
  | inPlace (hrequired : (s.store t).tBankRequired = false) (h : Repeated b s s')

theorem Good.collectBank (h : s.Good P g) (hg : g.named) (hb : b ∈ (s.store t).active) :
    ∃ s', s.rtVarGarbageCollectBank P b = .ok s' ∧ s'.Good P g ∧ Collects t b s s' := by
  obtain rfl := h.sound.active t b hb
  cases hrequired : (s.store (s.bank b).varStore).tBankRequired with
  | true =>
    cases htBank : (s.store (s.bank b).varStore).tBank with
    | none => exact ⟨s, h.collect_none hrequired htBank, h, .idle hrequired htBank rfl⟩
    | some new =>
      obtain ⟨s', hs', hready, hcollected⟩ := h.toReady.collectBank hg hb hrequired htBank
      exact ⟨s', hs', h.of_frame hready hcollected.frame, .moved hrequired htBank hcollected⟩
  | false =>
    obtain ⟨s', hs', hready, hrepeated⟩ := h.toReady.collectInPlace hg hb hrequired
    exact ⟨s', hs', h.of_frame hready hrepeated.frame, .inPlace hrequired hrepeated⟩

/-- What one turn of `RtVarGarbageCollect` does that reports space. -/
inductive Round (P : Platform) (g : Regime) (t : StoreType) (s s' : State) : Prop
  | collected {b : BankAddr} (hb : b ∈ (s.store t).active) (hc : s.collectable b = true)
      (h : Collects t b s s')
  /-- Another bank was added. -/
  | grown {b : BankAddr} (hnone : ∀ b' ∈ (s.store t).active, s.collectable b' = false)
      (h : Grown P g t b s s')

theorem Good.garbageCollect (h : s.Good P g) (hg : g.named) (t : StoreType) :
    Ensures (s.rtVarGarbageCollect P t) fun r => r.2.Good P g ∧
      ((r.1 = false ∧ Asked s r.2) ∨ (r.1 = true ∧ Round P g t s r.2)) := by
  rw [rtVarGarbageCollect]
  cases hfind : (s.store t).active.find? s.collectable with
  | none =>
    refine (h.growStore t _ fun _ hb => hb).mono fun r hr => ⟨hr.1, hr.2.imp id ?_⟩
    rintro ⟨htrue, b, hgrown⟩
    refine ⟨htrue, .grown (fun b' hb' => ?_) hgrown⟩
    exact Bool.not_eq_true _ ▸ List.find?_eq_none.mp hfind b' hb'
  | some b =>
    have hb := List.mem_of_find?_eq_some hfind
    obtain ⟨s', hs', hgood, hcollects⟩ := h.collectBank hg hb
    dsimp only
    rw [hs']
    exact Ensures.ok ⟨hgood, .inr ⟨rfl, .collected hb (List.find?_some hfind) hcollects⟩⟩

/-- A run of the loop: turns that made space available, and calls for more banks that did not. -/
inductive Rounds (P : Platform) (g : Regime) (t : StoreType) : State → State → Prop
  | asked {s s' : State} (h : Asked s s') : Rounds P g t s s'
  | round {s s1 s' : State} (h : Round P g t s s1) (hgood : s1.Good P g)
      (hrest : Rounds P g t s1 s') : Rounds P g t s s'

theorem Good.findFreeSpace (h : s.Good P g) (hg : g.named) (t : StoreType) (size fuel : Nat) :
    Ensures (s.rtVarFindFreeSpace P t size fuel) fun r => r.2.Good P g ∧ Rounds P g t s r.2 ∧
      (r.1.2 = false → Asked s r.2) ∧
      ∀ b, r.1.1 = some b → b ∈ (r.2.store t).active ∧ r.2.hasSpace P size b = true := by
  induction fuel generalizing s with
  | zero => exact Ensures.error
  | succ fuel ih =>
    rw [rtVarFindFreeSpace]
    cases hfind : (s.store t).active.find? (s.hasSpace P size) with
    | some b =>
      refine Ensures.ok ⟨h, .asked (.refl s), fun _ => .refl s, ?_⟩
      rintro b ⟨⟩
      exact ⟨List.mem_of_find?_eq_some hfind, List.find?_some hfind⟩
    | none =>
      refine Ensures.bind (h.garbageCollect hg t) fun r hr => ?_
      obtain ⟨hgood, ⟨hfalse, hasked⟩ | ⟨htrue, hround⟩⟩ := hr
      · dsimp only
        rw [hfalse, if_neg Bool.false_ne_true]
        exact Ensures.pure ⟨hgood, .asked hasked, fun _ => hasked, nofun⟩
      · dsimp only
        rw [htrue, if_pos rfl]
        refine Ensures.bind (ih hgood) fun r' hr' => ?_
        obtain ⟨hgood', hrounds, -, hspace⟩ := hr'
        exact Ensures.pure ⟨hgood', .round hround hgood hrounds, nofun, hspace⟩

end State

end EfiCore.Var
