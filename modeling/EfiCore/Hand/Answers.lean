import EfiCore.Hand.Refinement

/-! # What the queries answer

In a database that shows a catalogue, `HandleProtocol`, `ProtocolsPerHandle` and `LocateHandle`
answer from the catalogue.  A search by protocol skips the handles that carry the number of the
current request; the numbers are of type `UINTN`, so none of them is an old one as long as
fewer than `2 ^ w` searches were made.
-/

namespace EfiCore.Hand

open EfiCore.Lib

variable {A : Arch}

namespace Database

variable {db : Database A} {c : Catalogue}

/-! ## The links, spelled out -/

/-- How records and lists point to each other between two calls. -/
structure CrossLinked (db : Database A) : Prop where
  onHandle : ∀ p prot, db.interfaces p = some prot →
    ∃ handle, db.handles prot.handle = some handle ∧ handle.protocols.count p = 1
  onEntry : ∀ p prot, db.interfaces p = some prot →
    ∃ entry, db.entries prot.protocol = some entry ∧ entry.protocols.count p = 1
  ofHandle : ∀ h handle p, db.handles h = some handle → p ∈ handle.protocols →
    ∃ prot, db.interfaces p = some prot ∧ prot.handle = h
  ofEntry : ∀ e entry p, db.entries e = some entry → p ∈ entry.protocols →
    ∃ prot, db.interfaces p = some prot ∧ prot.protocol = e
  oncePerHandle : ∀ h g p q i j, db.Holds p h g i → db.Holds q h g j → p = q
  entryList : db.protocolDatabase.Nodup ∧
    ∀ e, e ∈ db.protocolDatabase ↔ ∃ entry, db.entries e = some entry
  oneEntry : ∀ e e' r r', db.entries e = some r → db.entries e' = some r' →
    r.protocolID = r'.protocolID → e = e'
  handleList : db.handleList.Nodup ∧
    ∀ h, h ∈ db.handleList ↔ ∃ p prot, db.interfaces p = some prot ∧ prot.handle = h
  openCount : ∀ p prot, db.interfaces p = some prot →
    prot.openListCount.toNat = prot.openList.length

theorem Shows.crossLinked (h : db.Shows c) : db.CrossLinked where
  onHandle := by
    intro p prot hp
    obtain ⟨handle, ha⟩ := h.wellFormed.handle_of_interface hp
    exact ⟨handle, ha, h.wellFormed.byHandle.count hp (by rw [handleLists, ha]; rfl)⟩
  onEntry := by
    intro p prot hp
    obtain ⟨entry, he⟩ := h.wellFormed.entry_of_interface hp
    exact ⟨entry, he, h.wellFormed.byProtocol.count hp (by rw [entryLists, he]; rfl)⟩
  ofHandle := fun _ _ p ha hp => (h.wellFormed.mem_protocols ha p).mp hp
  ofEntry := fun _ _ p he hp => (h.wellFormed.mem_byProtocol he p).mp hp
  oncePerHandle := fun _ _ _ _ _ _ hp hq => (h.wellFormed.holds_unique hp hq).1
  entryList := ⟨h.wellFormed.allEntries.nodup () _ rfl, h.wellFormed.named.mem_protocolDatabase⟩
  oneEntry := h.wellFormed.ids
  handleList := by
    refine ⟨h.wellFormed.allHandles.nodup () _ rfl, fun a => ?_⟩
    rw [h.wellFormed.mem_handleList, h.wellFormed.live_iff]
    constructor
    · rintro ⟨p, _, _, prot, _, hp, ha, _⟩
      exact ⟨p, prot, hp, ha⟩
    · rintro ⟨p, prot, hp, ha⟩
      obtain ⟨entry, he⟩ := h.wellFormed.entry_of_interface hp
      exact ⟨p, entry.protocolID, prot.interface, prot, entry, hp, ha, rfl, he, rfl⟩
  openCount := by
    intro p prot hp
    obtain ⟨hlist, hcount⟩ := h.idle p prot hp
    rw [hlist, hcount]
    rfl

/-! ## ProtocolsPerHandle -/

theorem Shows.protocolsPerHandle (h : db.Shows c) {a : Addr} (ha : c.Live a) :
    ∃ gs, db.protocolsPerHandle a true true true = .ok gs ∧ gs.Nodup ∧
      ∀ g, g ∈ gs ↔ c.Carries a g := by
  obtain ⟨handle, hh⟩ := (h.live a).mp ha
  have h0 : a ≠ 0 := by
    rintro rfl
    rw [h.wellFormed.null] at hh
    cases hh
  have hne := h.wellFormed.inUse a handle hh
  refine ⟨handle.protocols.filterMap fun p =>
    (db.interfaces p).bind fun prot => (db.entries prot.protocol).map (·.protocolID), ?_, ?_, ?_⟩
  · unfold Database.protocolsPerHandle
    rw [hh]
    dsimp only
    rw [if_neg (by simp [h0, hne]), if_pos rfl]
  · have hnodup : handle.protocols.Nodup :=
      h.wellFormed.byHandle.nodup a _ (by rw [handleLists, hh]; rfl)
    rw [List.Nodup, List.pairwise_filterMap]
    refine hnodup.imp_of_mem ?_
    rintro p q hp hq hpq g hg _ hg' rfl
    obtain ⟨prot, hprot, hpa⟩ := (h.wellFormed.mem_protocols hh p).mp hp
    obtain ⟨prot', hprot', hqa⟩ := (h.wellFormed.mem_protocols hh q).mp hq
    rw [hprot, Option.bind_some] at hg
    rw [hprot', Option.bind_some] at hg'
    obtain ⟨entry, he, hid⟩ := Option.map_eq_some_iff.mp hg
    obtain ⟨entry', he', hid'⟩ := Option.map_eq_some_iff.mp hg'
    exact hpq (h.wellFormed.holds_unique ⟨prot, entry, hprot, hpa, rfl, he, hid⟩
      ⟨prot', entry', hprot', hqa, rfl, he', hid'⟩).1
  · intro g
    rw [h.carries, List.mem_filterMap]
    constructor
    · rintro ⟨p, hp, hbind⟩
      obtain ⟨prot, hprot, hmap⟩ := Option.bind_eq_some_iff.mp hbind
      obtain ⟨entry, he, hg⟩ := Option.map_eq_some_iff.mp hmap
      obtain ⟨prot', hprot', hpa⟩ := (h.wellFormed.mem_protocols hh p).mp hp
      rw [hprot] at hprot'
      cases hprot'
      exact ⟨p, prot.interface, prot, entry, hprot, hpa, rfl, he, hg⟩
    · rintro ⟨p, i, prot, entry, hprot, hpa, _, he, hg⟩
      refine ⟨p, (h.wellFormed.mem_protocols hh p).mpr ⟨prot, hprot, hpa⟩, ?_⟩
      rw [hprot, Option.bind_some, he, Option.map_some, hg]

theorem Shows.protocolsPerHandle_dead (h : db.Shows c) {a : Addr} (ha : ¬ c.Live a)
    (buffer count memory : Bool) :
    db.protocolsPerHandle a buffer count memory = .error .invalidParameter := by
  unfold Database.protocolsPerHandle
  cases hh : db.handles a with
  | none => rfl
  | some handle => exact absurd ((h.live a).mpr ⟨handle, hh⟩) ha

/-! ## LocateHandle -/

/-- A search that finds `handles` returns them as far as the buffer goes. -/
structure Located (r : Database A × Status × Nat × List Addr) (handles : List Addr)
    (bufferSize : Nat) : Prop where
  notFound : handles = [] → r.2.1 = .notFound ∧ r.2.2.2 = []
  success : handles ≠ [] → handles.length * A.pointerSize ≤ bufferSize →
    r.2 = (.success, handles.length * A.pointerSize, handles)
  tooSmall : handles ≠ [] → bufferSize < handles.length * A.pointerSize →
    r.2 = (.bufferTooSmall, handles.length * A.pointerSize,
      handles.take (bufferSize / A.pointerSize))

theorem pointerSize_pos (A : Arch) : 0 < A.pointerSize := by cases A <;> decide

theorem located_of_search {searchType : SearchType} {protocol : Option Guid}
    {searchKey : Option Addr} {db' : Database A} {handles : List Addr}
    (hs : db.locateSearch searchType protocol searchKey = .ok (db', handles)) (bufferSize : Nat) :
    Located (db.locateHandle searchType protocol searchKey bufferSize) handles bufferSize := by
  have hpos := pointerSize_pos A
  have hr : (db.locateHandle searchType protocol searchKey bufferSize).2 =
      (if handles.length * A.pointerSize = 0 then .notFound
        else if bufferSize < handles.length * A.pointerSize then .bufferTooSmall
        else .success,
        handles.length * A.pointerSize, handles.take (bufferSize / A.pointerSize)) := by
    unfold Database.locateHandle
    rw [hs]
    dsimp only
    split <;> rfl
  have hne : handles ≠ [] → handles.length * A.pointerSize ≠ 0 := by
    intro hne
    exact Nat.mul_ne_zero (fun h0 => hne (List.length_eq_zero_iff.mp h0)) hpos.ne'
  constructor
  · rintro rfl
    rw [hr, if_pos (by simp)]
    exact ⟨rfl, List.take_nil⟩
  · intro h hle
    rw [hr, if_neg (hne h), if_neg (not_lt.mpr hle),
      List.take_of_length_le ((Nat.le_div_iff_mul_le hpos).mpr hle)]
  · intro h hlt
    rw [hr, if_neg (hne h), if_pos hlt]

theorem located_of_notFound {searchType : SearchType} {protocol : Option Guid}
    {searchKey : Option Addr}
    (hs : db.locateSearch searchType protocol searchKey = .error .notFound) (bufferSize : Nat) :
    Located (db.locateHandle searchType protocol searchKey bufferSize) [] bufferSize := by
  unfold Database.locateHandle
  rw [hs]
  exact ⟨fun _ => ⟨rfl, rfl⟩, fun h => absurd rfl h, fun h => absurd rfl h⟩

/-- A walk over interfaces of different handles, none of them stamped, returns them all. -/
theorem locateByProtocol_eq (ps : List Addr)
    (hmem : ∀ p ∈ ps, ∃ prot handle, db.interfaces p = some prot ∧
      db.handles prot.handle = some handle ∧
      handle.locateRequest ≠ db.efiLocateHandleRequest)
    (hnodup : ((db.listing ps).map (·.1)).Nodup) :
    (db.locateByProtocol ps).2 = (db.listing ps).map (·.1) := by
  induction ps generalizing db with
  | nil => rfl
  | cons p ps ih =>
    obtain ⟨prot, handle, hp, ha, hreq⟩ := hmem p List.mem_cons_self
    have hlisting : db.listing (p :: ps) = (prot.handle, prot.interface) :: db.listing ps := by
      rw [listing, List.filterMap_cons, hp]
      rfl
    rw [hlisting, List.map_cons, List.nodup_cons] at hnodup
    have hstamp : (db.stamp prot.handle).listing ps = db.listing ps := rfl
    rw [locateByProtocol_cons, hp]
    dsimp only
    rw [ha]
    dsimp only
    rw [if_neg hreq, hlisting, List.map_cons, ih ?_ (by rw [hstamp]; exact hnodup.2), hstamp]
    -- the handles to come are others, so the stamp does not touch them
    intro q hq
    obtain ⟨prot', handle', hq', ha', hreq'⟩ := hmem q (List.mem_cons_of_mem _ hq)
    have hother : prot'.handle ≠ prot.handle := by
      intro heq
      refine hnodup.1 (List.mem_map.mpr ⟨(prot'.handle, prot'.interface), ?_, heq⟩)
      exact List.mem_filterMap.mpr ⟨q, hq, by rw [hq']; rfl⟩
    refine ⟨prot', handle', hq', ?_, hreq'⟩
    show Function.update db.handles prot.handle _ prot'.handle = some handle'
    rw [Function.update_of_ne hother, ha']

/-- The handles' stamps are old. -/
def Unstamped (db : Database A) : Prop :=
  ∀ h handle, db.handles h = some handle → handle.locateRequest ≠ db.efiLocateHandleRequest + 1

theorem Lists.locate_byProtocol (h : db.Lists c) (hstamps : db.Unstamped) (g : Guid)
    (searchKey : Option Addr) (bufferSize : Nat) :
    Located (db.locateHandle .byProtocol (some g) searchKey bufferSize)
      ((c.installed g).map (·.1)) bufferSize := by
  have hl := h.wellFormed.toLinked
  have honce := c.once g
  rw [← h.same] at honce ⊢
  cases hfind : db.findProtocolEntry g with
  | none =>
    rw [installations_of_none hfind]
    refine located_of_notFound ?_ bufferSize
    unfold Database.locateSearch
    simp only [hfind, Option.bind_none]
  | some e =>
    obtain ⟨entry, he, rfl⟩ := (hl.findProtocolEntry g e).mp hfind
    rw [hl.installations_of_entry he] at honce ⊢
    have hsearch : db.locateSearch .byProtocol (some entry.protocolID) searchKey =
        .ok (db.newRequest.locateByProtocol entry.protocols) := by
      unfold Database.locateSearch
      simp only [hfind, Option.bind_some, he]
    have heq : (db.newRequest.locateByProtocol entry.protocols).2 =
        (db.listing entry.protocols).map (·.1) := by
      refine locateByProtocol_eq entry.protocols ?_ honce
      intro p hp
      obtain ⟨prot, hprot, _⟩ := (hl.mem_byProtocol he p).mp hp
      obtain ⟨handle, ha⟩ := hl.handle_of_interface hprot
      exact ⟨prot, handle, hprot, ha, hstamps _ handle ha⟩
    rw [← heq]
    exact located_of_search hsearch bufferSize

theorem Shows.locate_byProtocol (h : db.Shows c) (hstamps : db.Unstamped) (g : Guid)
    (searchKey : Option Addr) (bufferSize : Nat) :
    Located (db.locateHandle .byProtocol (some g) searchKey bufferSize)
      ((c.installed g).map (·.1)) bufferSize :=
  h.lists.locate_byProtocol hstamps g searchKey bufferSize

theorem Shows.locate_allHandles (h : db.Shows c) :
    ∃ hs : List Addr, hs.Nodup ∧ (∀ a, a ∈ hs ↔ c.Live a) ∧
      ∀ protocol searchKey bufferSize,
        Located (db.locateHandle .allHandles protocol searchKey bufferSize) hs bufferSize := by
  refine ⟨db.handleList, h.wellFormed.allHandles.nodup () _ rfl, fun a => ?_, ?_⟩
  · rw [h.wellFormed.mem_handleList, h.live]
  · intro protocol searchKey bufferSize
    exact located_of_search rfl bufferSize

/-! ## Request numbers -/

/-- The request numbers in use go up to `n`. -/
def RequestsUpTo (db : Database A) (n : Nat) : Prop :=
  db.efiLocateHandleRequest.toNat ≤ n ∧
    ∀ h handle, db.handles h = some handle →
      handle.locateRequest.toNat ≤ db.efiLocateHandleRequest.toNat

/-- The stamps of `db'` are those of `db`, or fresh. -/
def Stamps (db db' : Database A) : Prop :=
  db'.efiLocateHandleRequest = db.efiLocateHandleRequest ∧
    ∀ h handle', db'.handles h = some handle' → handle'.locateRequest = 0 ∨
      ∃ handle, db.handles h = some handle ∧ handle'.locateRequest = handle.locateRequest

theorem RequestsUpTo.unstamped {n : Nat} (h : db.RequestsUpTo n) (hn : n + 1 < 2 ^ A.bits) :
    db.Unstamped := by
  intro a handle ha heq
  have hle := h.2 a handle ha
  have hcount := h.1
  have hone : (1 : Uintn A).toNat = 1 := by cases A <;> rfl
  rw [heq, BitVec.toNat_add, hone, Nat.mod_eq_of_lt (by omega)] at hle
  omega

theorem RequestsUpTo.stamps {n : Nat} {db' : Database A} (h : db.RequestsUpTo n)
    (hs : db.Stamps db') : db'.RequestsUpTo n := by
  refine ⟨by rw [hs.1]; exact h.1, fun a handle' ha => ?_⟩
  obtain hzero | ⟨handle, hh, heq⟩ := hs.2 a handle' ha
  · rw [hzero]
    exact Nat.zero_le _
  · rw [heq, hs.1]
    exact h.2 a handle hh

theorem Stamps.refl (db : Database A) : db.Stamps db :=
  ⟨rfl, fun _ handle ha => .inr ⟨handle, ha, rfl⟩⟩

theorem Stamps.trans {db' db'' : Database A} (h : db.Stamps db') (h' : db'.Stamps db'') :
    db.Stamps db'' := by
  refine ⟨h'.1.trans h.1, fun a handle ha => ?_⟩
  obtain hzero | ⟨handle', hh', heq'⟩ := h'.2 a handle ha
  · exact .inl hzero
  · obtain hzero | ⟨handle'', hh'', heq''⟩ := h.2 a handle' hh'
    · exact .inl (heq'.trans hzero)
    · exact .inr ⟨handle'', hh'', heq'.trans heq''⟩

theorem Stamps.congr {db' : Database A} (hh : db'.handles = db.handles)
    (hr : db'.efiLocateHandleRequest = db.efiLocateHandleRequest) : db.Stamps db' :=
  ⟨hr, fun _ handle ha => .inr ⟨handle, by rw [← hh]; exact ha, rfl⟩⟩

/-- Writing one handle keeps the stamps if the write does. -/
theorem Stamps.update {db' : Database A} {a : Addr} {x : Option (IHandle A)}
    (hh : db'.handles = Function.update db.handles a x)
    (hr : db'.efiLocateHandleRequest = db.efiLocateHandleRequest)
    (hx : ∀ handle', x = some handle' → handle'.locateRequest = 0 ∨
      ∃ handle, db.handles a = some handle ∧ handle'.locateRequest = handle.locateRequest) :
    db.Stamps db' := by
  refine ⟨hr, fun b handle' hb => ?_⟩
  rw [hh] at hb
  by_cases hba : b = a
  · subst hba
    rw [Function.update_self] at hb
    exact hx handle' hb
  · rw [Function.update_of_ne hba] at hb
    exact .inr ⟨handle', hb, rfl⟩

theorem Stamps.modifyHandle (db : Database A) (a : Addr) {f : IHandle A → IHandle A}
    (hf : ∀ handle, (f handle).locateRequest = handle.locateRequest) :
    db.Stamps (db.modifyHandle a f) := by
  refine Stamps.update rfl rfl fun handle' hx => .inr ?_
  obtain ⟨handle, hh, rfl⟩ := Option.map_eq_some_iff.mp hx
  exact ⟨handle, hh, hf handle⟩

theorem Stamps.newHandle (db : Database A) (a : Addr) : db.Stamps (db.newHandle a) := by
  refine Stamps.update rfl rfl fun handle' hx => .inl ?_
  cases hx
  rfl

theorem Stamps.notifyProtocolEntry (db : Database A) (e : Addr) :
    db.Stamps (db.notifyProtocolEntry e) := by
  obtain ⟨_, heq⟩ := notifyProtocolEntry_eq db e
  rw [heq]
  exact Stamps.congr rfl rfl

theorem Stamps.linkInterface (db : Database A) (p a e : Addr) (i : Nat) :
    db.Stamps (db.linkInterface p a e i) := by
  refine Stamps.update (a := a) rfl rfl fun handle' hx => .inr ?_
  obtain ⟨handle, hh, rfl⟩ := Option.map_eq_some_iff.mp hx
  exact ⟨handle, hh, rfl⟩

theorem Stamps.installLocked (db : Database A) (pool : InstallPool) (a : Addr) (g : Guid)
    (status : Status) (i : Nat) : db.Stamps (db.installLocked pool a g status i).1 := by
  have hfe : db.Stamps (db.findOrCreateEntry g pool.entry).1 := by
    unfold Database.findOrCreateEntry
    split <;> exact Stamps.congr rfl rfl
  unfold Database.installLocked
  split
  · rename_i db₁ heq
    rwa [heq] at hfe
  · rename_i db₁ e heq
    rw [heq] at hfe
    split
    · exact hfe
    · split
      · split
        · exact hfe
        · exact ((hfe.trans (.newHandle _ _)).trans (.linkInterface _ _ _ _ _)).trans
            (.notifyProtocolEntry _ _)
      · split
        · exact hfe
        · exact (hfe.trans (.linkInterface _ _ _ _ _)).trans (.notifyProtocolEntry _ _)

theorem Stamps.touchHandle (db : Database A) (a : Addr) : db.Stamps (db.touchHandle a) :=
  (Stamps.congr rfl rfl).trans (.modifyHandle _ a fun _ => rfl)

theorem Stamps.freeHandleIfEmpty (db : Database A) (a : Addr) :
    db.Stamps (db.freeHandleIfEmpty a) := by
  unfold Database.freeHandleIfEmpty
  split
  · split
    · exact Stamps.update rfl rfl (by rintro _ ⟨⟩)
    · exact .refl _
  · exact .refl _

theorem Stamps.removeInterfaceFromProtocol (db : Database A) (a : Addr) (g : Guid) (i : Nat) :
    db.Stamps (db.removeInterfaceFromProtocol a g i).1 := by
  unfold Database.removeInterfaceFromProtocol
  split
  · split
    · unfold removeByProtocol
      split
      · exact Stamps.congr rfl rfl
      · exact .refl _
    · exact .refl _
  · exact .refl _

theorem Stamps.uninstallUnused (db : Database A) (a : Addr) (g : Guid) (i : Nat) :
    db.Stamps (db.uninstallUnused a g i).1 := by
  have hr := Stamps.removeInterfaceFromProtocol db a g i
  unfold Database.uninstallUnused
  split
  · rename_i db₁ p heq
    rw [heq] at hr
    have hfree : db₁.Stamps ((db₁.touchHandle a).freeInterface a p) :=
      (Stamps.touchHandle db₁ a).trans ((Stamps.congr rfl rfl).trans (.modifyHandle _ a fun _ => rfl))
    exact (hr.trans hfree).trans (.freeHandleIfEmpty _ _)
  · rename_i db₁ heq
    rw [heq] at hr
    exact (hr.trans (.touchHandle _ _)).trans (.freeHandleIfEmpty _ _)

theorem Stamps.reinstallUnused (db : Database A) (a : Addr) (g : Guid) (old new : Nat) :
    db.Stamps (db.reinstallUnused (Drivers.idle A) a g old new).1 := by
  have hr := Stamps.removeInterfaceFromProtocol db a g old
  unfold Database.reinstallUnused
  split
  · rename_i db₁ p heq
    rw [heq] at hr
    have ht := hr.trans (Stamps.touchHandle db₁ a)
    dsimp only
    split
    · exact (ht.trans (Stamps.congr rfl rfl)).trans (.notifyProtocolEntry _ _)
    · exact ht
  · rename_i db₁ heq
    rw [heq] at hr
    exact hr.trans (.touchHandle _ _)

theorem Shows.stamps_install (h : db.Shows c) (pool : InstallPool) (userHandle : Option Addr)
    (protocol : Option Guid) (interfaceType : InterfaceType) (i : Nat) :
    db.Stamps (db.installProtocolInterface pool userHandle protocol interfaceType i).1 := by
  unfold installProtocolInterface
  cases userHandle with
  | none => exact .refl _
  | some a =>
    cases protocol with
    | none => exact .refl _
    | some g =>
      dsimp only
      split
      · exact .refl _
      · split
        · exact .installLocked ..
        · by_cases hlive : c.Live a
          · by_cases hc : c.Carries a g
            · obtain ⟨⟨_, j⟩, hm, rfl⟩ := List.mem_map.mp hc
              rw [h.handleProtocol_carries hm]
              exact .refl _
            · rw [h.handleProtocol_unsupported hlive hc]
              exact .installLocked ..
          · rw [h.handleProtocol_dead hlive]
            exact .installLocked ..

theorem Shows.stamps_uninstall (h : db.Shows c) {fuel : Nat} {a : Addr} {protocol : Option Guid}
    {i : Nat} {db' : Database A} {status : Status}
    (hrun : db.uninstallProtocolInterface (Drivers.idle A) (fuel + 1) a protocol i =
      some (db', status)) : db.Stamps db' := by
  unfold uninstallProtocolInterface at hrun
  split at hrun
  · cases hrun
    exact .refl _
  · rename_i g
    split at hrun
    · cases hfind : db.findProtocolInterface a g i with
      | none =>
        rw [hfind] at hrun
        cases hrun
        exact .refl _
      | some p =>
        obtain ⟨prot, _, hp, _⟩ := (h.wellFormed.findProtocolInterface a g i p).mp hfind
        rw [hfind] at hrun
        dsimp only at hrun
        rw [h.disconnect hp] at hrun
        have heq := Option.some.inj hrun
        rw [← show (db.uninstallUnused a g i).1 = db' by rw [heq]]
        exact .uninstallUnused ..
    · cases hrun
      exact .refl _

theorem Shows.stamps_reinstall (h : db.Shows c) {fuel : Nat} {a : Addr} {protocol : Option Guid}
    {old new : Nat} {db' : Database A} {status : Status}
    (hrun : db.reinstallProtocolInterface (Drivers.idle A) (fuel + 1) a protocol old new =
      some (db', status)) : db.Stamps db' := by
  unfold reinstallProtocolInterface at hrun
  split at hrun
  · rename_i g _
    cases hfind : db.findProtocolInterface a g old with
    | none =>
      rw [hfind] at hrun
      cases hrun
      exact .refl _
    | some p =>
      obtain ⟨prot, _, hp, _⟩ := (h.wellFormed.findProtocolInterface a g old p).mp hfind
      rw [hfind] at hrun
      dsimp only at hrun
      rw [h.disconnect hp] at hrun
      have heq := Option.some.inj hrun
      rw [← show (db.reinstallUnused (Drivers.idle A) a g old new).1 = db' by rw [heq]]
      exact .reinstallUnused ..
  · cases hrun
    exact .refl _

theorem RequestsUpTo.newRequest {n : Nat} (h : db.RequestsUpTo n) (hn : n + 1 < 2 ^ A.bits) :
    db.newRequest.RequestsUpTo (n + 1) := by
  have hone : (1 : Uintn A).toNat = 1 := by cases A <;> rfl
  have hcount := h.1
  have hnext : db.newRequest.efiLocateHandleRequest.toNat =
      db.efiLocateHandleRequest.toNat + 1 := by
    show (db.efiLocateHandleRequest + 1).toNat = _
    rw [BitVec.toNat_add, hone, Nat.mod_eq_of_lt (by omega)]
  refine ⟨by omega, fun a handle ha => ?_⟩
  have hle := h.2 a handle ha
  omega

theorem RequestsUpTo.stamp {n : Nat} (h : db.RequestsUpTo n) (a : Addr) :
    (db.stamp a).RequestsUpTo n := by
  refine ⟨h.1, fun b handle hb => ?_⟩
  replace hb : Function.update db.handles a _ b = some handle := hb
  by_cases hba : b = a
  · subst hba
    rw [Function.update_self] at hb
    obtain ⟨old, _, rfl⟩ := Option.map_eq_some_iff.mp hb
    exact le_refl _
  · rw [Function.update_of_ne hba] at hb
    exact h.2 b handle hb

theorem RequestsUpTo.locateByProtocol {n : Nat} (h : db.RequestsUpTo n) (ps : List Addr) :
    (db.locateByProtocol ps).1.RequestsUpTo n := by
  induction ps generalizing db with
  | nil => exact h
  | cons p ps ih =>
    rw [locateByProtocol_cons]
    split
    · exact ih h
    · split
      · exact ih h
      · split
        · exact ih h
        · exact ih (h.stamp _)

theorem RequestsUpTo.locateHandle {n : Nat} (h : db.RequestsUpTo n) (hn : n + 1 < 2 ^ A.bits)
    (searchType : SearchType) (protocol : Option Guid) (searchKey : Option Addr)
    (bufferSize : Nat) :
    (db.locateHandle searchType protocol searchKey bufferSize).1.RequestsUpTo (n + 1) := by
  have hmono : db.RequestsUpTo (n + 1) := ⟨h.1.trans (Nat.le_succ n), h.2⟩
  have hsearch : ∀ db' handles, db.locateSearch searchType protocol searchKey = .ok (db', handles) →
      db'.RequestsUpTo (n + 1) := by
    intro db' handles hs
    unfold Database.locateSearch at hs
    split at hs
    · cases hs
      exact h.newRequest hn
    · cases hs
      exact h.newRequest hn
    · cases hs
    · split at hs
      · rename_i entry _
        have heq := Except.ok.inj hs
        rw [← show (db.newRequest.locateByProtocol entry.protocols).1 = db' by rw [heq]]
        exact (h.newRequest hn).locateByProtocol _
      · cases hs
    · cases hs
    · cases hs
  unfold Database.locateHandle
  split
  · exact hmono
  · rename_i db' handles hs
    have h' := hsearch db' handles hs
    dsimp only
    split
    · refine h'.stamps ?_
      unfold Database.advanceNotify
      split
      · exact .refl _
      · split
        · exact .refl _
        · exact .congr rfl rfl
    · exact h'

end Database

/-- Searches made so far, after one more call. -/
def Action.requests (a : Action) : Nat := if a.isLocate then 1 else 0

theorem Step.requestsUpTo {db db' : Database A} {a : Action} {c : Catalogue} (h : db.Shows c)
    (hs : Step db a db') {n : Nat} (hr : db.RequestsUpTo n)
    (hn : n + a.requests < 2 ^ A.bits) : db'.RequestsUpTo (n + a.requests) := by
  cases hs with
  | @install _ pool userHandle protocol interfaceType interface status handle _ heq =>
    have hst := h.stamps_install pool userHandle protocol interfaceType interface
    rw [heq] at hst
    exact hr.stamps hst
  | uninstall heq => exact hr.stamps (h.stamps_uninstall heq)
  | reinstall heq => exact hr.stamps (h.stamps_reinstall heq)
  | @locate _ searchType protocol searchKey bufferSize status resultSize buffer heq =>
    have hl := hr.locateHandle hn searchType protocol searchKey bufferSize
    rw [heq] at hl
    exact hl

/-- A run from a database that shows a catalogue makes at most as many requests as searches. -/
theorem requestsUpTo_of_path {ok : Database A → Action → Prop} {db db' : Database A}
    {as : List Action} (hp : (services A).Path ok db as db') {c : Catalogue} (h : db.Shows c)
    {n : Nat} (hr : db.RequestsUpTo n) (hn : n + as.countP Action.isLocate < 2 ^ A.bits) :
    db'.RequestsUpTo (n + as.countP Action.isLocate) := by
  induction hp generalizing c n with
  | nil => exact hr
  | @cons s a s' as t _ hstep _ ih =>
    have hcount : n + (a :: as).countP Action.isLocate =
        (n + a.requests) + as.countP Action.isLocate := by
      rw [List.countP_cons, Action.requests]
      omega
    rw [hcount] at hn ⊢
    obtain ⟨c', _, hshows⟩ := Step.simulates h hstep
    exact ih hshows (Step.requestsUpTo h hstep hr (by omega)) hn

/-! ## The database and the catalogue -/

/-- The queries answer what the catalogue says, and the mutators return. -/
structure Database.Answers (db : Database A) (c : Catalogue) : Prop where
  handleProtocol : ∀ h g i, (h, i) ∈ c.installed g →
    db.handleProtocol h (some g) true = (db, .success, some i)
  unsupported : ∀ h g, c.Live h → ¬ c.Carries h g →
    db.handleProtocol h (some g) true = (db, .unsupported, none)
  dead : ∀ h g interface, ¬ c.Live h →
    db.handleProtocol h g interface = (db, .invalidParameter, none)
  protocolsPerHandle : ∀ h, c.Live h →
    ∃ gs, db.protocolsPerHandle h true true true = .ok gs ∧ gs.Nodup ∧
      ∀ g, g ∈ gs ↔ c.Carries h g
  protocolsDead : ∀ h buffer count memory, ¬ c.Live h →
    db.protocolsPerHandle h buffer count memory = .error .invalidParameter
  allHandles : ∃ hs : List Addr, hs.Nodup ∧ (∀ h, h ∈ hs ↔ c.Live h) ∧
    ∀ protocol searchKey bufferSize,
      Database.Located (db.locateHandle .allHandles protocol searchKey bufferSize) hs bufferSize
  uninstallReturns : ∀ h protocol interface,
    (db.uninstallProtocolInterface (Drivers.idle A) 1 h protocol interface).isSome
  reinstallReturns : ∀ h protocol old new,
    (db.reinstallProtocolInterface (Drivers.idle A) 1 h protocol old new).isSome

theorem Database.Shows.answers {db : Database A} {c : Catalogue} (h : db.Shows c) :
    db.Answers c where
  handleProtocol := fun _ _ _ hm => h.handleProtocol_carries hm
  unsupported := fun _ _ hlive hc => h.handleProtocol_unsupported hlive hc
  dead := fun _ g interface hlive => h.handleProtocol_dead hlive g interface
  protocolsPerHandle := fun _ hlive => h.protocolsPerHandle hlive
  protocolsDead := fun _ buffer count memory hlive =>
    h.protocolsPerHandle_dead hlive buffer count memory
  allHandles := h.locate_allHandles
  uninstallReturns := by
    intro a protocol interface
    obtain ⟨_, _, heq, _⟩ := h.uninstall 0 a protocol interface
    rw [heq]
    rfl
  reinstallReturns := by
    intro a protocol old new
    obtain ⟨_, _, heq, _⟩ := h.reinstall 0 a protocol old new
    rw [heq]
    rfl

/-- Every run of the services is a run of the catalogue; between calls the links agree and the
    queries answer what the catalogue says, a search by protocol in order of installation. -/
theorem services_refine_catalogue (A : Arch) (as : List Action) (db : Database A)
    (hrun : (services A).Path Machine.anyStep (Database.initializeHandle A) as db) :
    ∃ c, catalogue.Path Machine.anyStep Catalogue.empty as c ∧ db.CrossLinked ∧ db.Answers c ∧
      (as.countP Action.isLocate + 1 < 2 ^ A.bits → ∀ g searchKey bufferSize,
        Database.Located (db.locateHandle .byProtocol (some g) searchKey bufferSize)
          ((c.installed g).map (·.1)) bufferSize) := by
  obtain ⟨c, hpath, hshows⟩ := hrun.simulate (R := fun db c => db.Shows c) (N := catalogue)
    (fun _ _ _ _ h _ hs => Step.simulates h hs) Database.Shows.initial
  refine ⟨c, hpath, hshows.crossLinked, hshows.answers, fun hn => ?_⟩
  have hstart : (Database.initializeHandle A).RequestsUpTo 0 := ⟨le_refl _, by rintro _ _ ⟨⟩⟩
  have hreq := requestsUpTo_of_path hrun Database.Shows.initial hstart (by omega)
  exact hshows.locate_byProtocol (hreq.unstamped (by omega))

/-- A run of two installations on one new handle. -/
def twoInstalls : List Action :=
  [.install ⟨some 1, some 2, some 3⟩ (some 0) (some 7) .native 70 .success (some 3),
    .install ⟨some 4, some 5, none⟩ (some 3) (some 8) .native 80 .success (some 3)]

theorem twoInstalls_refines :
    ∃ db, (services .efi32).Path Machine.anyStep (Database.initializeHandle .efi32) twoInstalls db ∧
      ∃ c, catalogue.Path Machine.anyStep Catalogue.empty twoInstalls c ∧ db.CrossLinked ∧
        db.Answers c ∧
        (twoInstalls.countP Action.isLocate + 1 < 2 ^ Arch.efi32.bits →
          ∀ g searchKey bufferSize,
            Database.Located (db.locateHandle .byProtocol (some g) searchKey bufferSize)
              ((c.installed g).map (·.1)) bufferSize) := by
  obtain ⟨db, hrun⟩ : ∃ db, (services .efi32).Path Machine.anyStep
      (Database.initializeHandle .efi32) twoInstalls db := by
    refine ⟨_, .cons trivial (Step.install ?_ rfl) (.cons trivial (Step.install ?_ rfl) .nil)⟩
    · refine ⟨?_, ?_, ?_, ?_, ?_, ?_⟩
      · rintro _ ⟨⟩
        exact ⟨by decide, rfl, rfl, rfl, rfl⟩
      · rintro _ ⟨⟩
        exact ⟨by decide, rfl, rfl, rfl, rfl⟩
      · rintro _ ⟨⟩
        exact ⟨by decide, rfl, rfl, rfl, rfl⟩
      · rintro _ _ ⟨⟩ ⟨⟩
        decide
      · rintro _ _ ⟨⟩ ⟨⟩
        decide
      · rintro _ _ ⟨⟩ ⟨⟩
        decide
    · refine ⟨?_, ?_, ?_, ?_, ?_, ?_⟩
      · rintro _ ⟨⟩
        exact ⟨by decide, rfl, rfl, rfl, rfl⟩
      · rintro _ ⟨⟩
        exact ⟨by decide, rfl, rfl, rfl, rfl⟩
      · rintro _ ⟨⟩
      · rintro _ _ ⟨⟩ ⟨⟩
        decide
      · rintro _ _ _ ⟨⟩
      · rintro _ _ _ ⟨⟩
  exact ⟨db, hrun, services_refine_catalogue .efi32 twoInstalls db hrun⟩

end EfiCore.Hand
