import EfiCore.Hand.Catalogue
import EfiCore.Hand.Services

/-! # What a database lists

The installations of a database in which protocols may be open, and what the parts of the
services do to them.  No driver is called in these parts.
-/

namespace EfiCore.Hand

open EfiCore.Lib

variable {A : Arch}

namespace Database

variable {db : Database A} {c : Catalogue}

/-- The database says what the catalogue says, whatever is open. -/
structure Lists (db : Database A) (c : Catalogue) : Prop where
  wellFormed : db.WellFormed
  same : ∀ g, db.installations g = c.installed g

/-- A handle carries a protocol once. -/
theorem Linked.installations_once (h : db.Linked) (g : Guid) :
    ((db.installations g).map (·.1)).Nodup := by
  cases hfind : db.findProtocolEntry g with
  | none =>
    rw [installations_of_none hfind]
    exact List.nodup_nil
  | some e =>
    obtain ⟨entry, he, rfl⟩ := (h.findProtocolEntry g e).mp hfind
    have hnodup : entry.protocols.Nodup := h.byProtocol.nodup e _ (by rw [entryLists, he]; rfl)
    have hmap : (db.listing entry.protocols).map (·.1) =
        entry.protocols.filterMap fun p => (db.interfaces p).map (·.handle) := by
      rw [listing, List.map_filterMap]
      congr 1
      funext p
      cases db.interfaces p <;> rfl
    rw [h.installations_of_entry he, hmap, List.Nodup, List.pairwise_filterMap]
    refine hnodup.imp_of_mem fun hp hq hne a ha b hb heq => hne ?_
    obtain ⟨prot, hprot, hpe⟩ := (h.mem_byProtocol he _).mp hp
    obtain ⟨prot', hprot', hqe⟩ := (h.mem_byProtocol he _).mp hq
    rw [hprot] at ha
    rw [hprot'] at hb
    cases ha
    cases hb
    exact h.once _ _ prot prot' hprot hprot' heq (hpe.trans hqe.symm)

/-- What a well-formed database lists. -/
def WellFormed.catalogue (h : db.WellFormed) : Catalogue :=
  ⟨db.installations, h.toLinked.installations_once⟩

theorem WellFormed.lists (h : db.WellFormed) : db.Lists h.catalogue := ⟨h, fun _ => rfl⟩

/-! ## Handles -/

theorem WellFormed.live_iff (h : db.WellFormed) (a : Addr) :
    (∃ handle, db.handles a = some handle) ↔ ∃ p g i, db.Holds p a g i := by
  constructor
  · rintro ⟨handle, ha⟩
    obtain ⟨p, hp⟩ := List.exists_mem_of_ne_nil _ (h.inUse a handle ha)
    obtain ⟨prot, hprot, hpa⟩ := (h.mem_protocols ha p).mp hp
    obtain ⟨entry, he⟩ := h.entry_of_interface hprot
    exact ⟨p, entry.protocolID, prot.interface, prot, entry, hprot, hpa, rfl, he, rfl⟩
  · rintro ⟨p, g, i, prot, entry, hprot, rfl, _⟩
    exact h.handle_of_interface hprot

theorem Linked.validateHandle (h : db.Linked) (a : Addr) :
    db.validateHandle a = if (db.handles a).isNone then .invalidParameter else .success := by
  unfold Database.validateHandle
  by_cases h0 : a = 0
  · subst h0
    rw [if_pos rfl, h.null]
    rfl
  · rw [if_neg h0]

namespace Lists

theorem mem (h : db.Lists c) (a : Addr) (g : Guid) (i : Nat) :
    (a, i) ∈ c.installed g ↔ ∃ p, db.Holds p a g i := by
  rw [← h.same, h.wellFormed.mem_installations]

theorem carries (h : db.Lists c) (a : Addr) (g : Guid) :
    c.Carries a g ↔ ∃ p i, db.Holds p a g i := by
  unfold Catalogue.Carries
  rw [List.mem_map]
  constructor
  · rintro ⟨⟨a', i⟩, hm, rfl⟩
    obtain ⟨p, hp⟩ := (h.mem a' g i).mp hm
    exact ⟨p, i, hp⟩
  · rintro ⟨p, i, hp⟩
    exact ⟨(a, i), (h.mem a g i).mpr ⟨p, hp⟩, rfl⟩

theorem live (h : db.Lists c) (a : Addr) :
    c.Live a ↔ ∃ handle, db.handles a = some handle := by
  rw [h.wellFormed.live_iff]
  constructor
  · rintro ⟨g, hg⟩
    obtain ⟨p, i, hp⟩ := (h.carries a g).mp hg
    exact ⟨p, g, i, hp⟩
  · rintro ⟨p, g, i, hp⟩
    exact ⟨g, (h.carries a g).mpr ⟨p, i, hp⟩⟩

theorem validateHandle_live (h : db.Lists c) {a : Addr} (ha : c.Live a) :
    db.validateHandle a = .success := by
  obtain ⟨handle, hh⟩ := (h.live a).mp ha
  rw [h.wellFormed.validateHandle, hh]
  rfl

theorem validateHandle_dead (h : db.Lists c) {a : Addr} (ha : ¬ c.Live a) :
    db.validateHandle a = .invalidParameter := by
  rw [h.wellFormed.validateHandle]
  cases hh : db.handles a with
  | none => rfl
  | some handle => exact absurd ((h.live a).mpr ⟨handle, hh⟩) ha

/-- Two databases that agree on the links list the same. -/
theorem congr {db' : Database A} (h : db.Lists c) (hi : db'.interfaces = db.interfaces)
    (hh : db'.handles = db.handles) (he : db'.entries = db.entries)
    (hl : db'.handleList = db.handleList) (hd : db'.protocolDatabase = db.protocolDatabase) :
    db'.Lists c :=
  ⟨h.wellFormed.congr hi hh he hl hd, fun g => by
    rw [← h.same]
    exact congrFun (installations_congr hi he hd) g⟩

end Lists

/-- The triples (handle, protocol, interface). -/
def triples (db : Database A) : Set (Addr × Guid × Nat) := {t | ∃ p, db.Holds p t.1 t.2.1 t.2.2}

theorem Lists.triples (h : db.Lists c) :
    db.triples = c.triples :=
  Set.ext fun t => (h.mem t.1 t.2.1 t.2.2).symm

/-! ## HandleProtocol -/

theorem checkAttributes_handleProtocol (db : Database A) (a : OpenArgs)
    (ha : a.attributes = openByHandleProtocol) : db.checkAttributes a = .success := by
  unfold checkAttributes
  rw [ha]
  rfl

theorem Lists.openCheck_live (h : db.Lists c) {a : Addr} (ha : c.Live a) (g : Guid) :
    db.openCheck ⟨a, some g, true, 0, 0, openByHandleProtocol⟩ = .ok g := by
  unfold openCheck
  dsimp only
  rw [if_neg (by simp), h.validateHandle_live ha, checkAttributes_handleProtocol _ _ rfl]
  rfl

/-- The walk of `HandleProtocol` over an open list counts up an entry at most. -/
theorem scanOpenList_handleProtocol (a : OpenArgs) (ha : a.attributes = openByHandleProtocol)
    (byDriver exclusive : Bool) (os : List OpenData) :
    (∃ byDriver' exclusive', scanOpenList a byDriver exclusive os = .free byDriver' exclusive') ∨
      ∃ os', scanOpenList a byDriver exclusive os = .reopened os' ∧ os'.length = os.length := by
  induction os generalizing byDriver exclusive with
  | nil => exact .inl ⟨_, _, rfl⟩
  | cons o os ih =>
    have hcons : ∀ byDriver exclusive,
        (∃ byDriver' exclusive', (scanOpenList a byDriver exclusive os).cons o =
          .free byDriver' exclusive') ∨
        ∃ os', (scanOpenList a byDriver exclusive os).cons o = .reopened os' ∧
          os'.length = os.length + 1 := by
      intro byDriver exclusive
      obtain ⟨b, x, hscan⟩ | ⟨os', hscan, hlength⟩ := ih byDriver exclusive
      · rw [hscan]
        exact .inl ⟨b, x, rfl⟩
      · rw [hscan]
        exact .inr ⟨o :: os', rfl, by rw [List.length_cons, hlength]⟩
    have hdriver : (o.byDriver && o.exactMatch a) = false := by
      cases hmatch : o.exactMatch a with
      | false => exact Bool.and_false _
      | true =>
        have hattr : o.attributes = openByHandleProtocol := by
          simp only [OpenData.exactMatch, decide_eq_true_eq] at hmatch
          rw [hmatch.2.1, ha]
        rw [OpenData.byDriver, hattr]
        rfl
    rw [scanOpenList, hdriver, if_neg Bool.false_ne_true]
    split
    · exact hcons _ _
    · split
      · exact .inr ⟨_, rfl, rfl⟩
      · exact hcons _ _

/-- The database with another open list of an interface. -/
def withOpenList (db : Database A) (p : Addr) (openList : List OpenData) : Database A :=
  db.modifyInterface p fun prot => { prot with openList }

theorem withOpenList_self {p : Addr} {prot : ProtocolInterface A}
    (hp : db.interfaces p = some prot) : db.withOpenList p prot.openList = db := by
  unfold withOpenList Database.modifyInterface
  rw [hp, Option.map_some, Function.update_eq_self_iff.mpr hp.symm]

/-- Rewriting the entries of an open list moves no interface. -/
theorem WellFormed.withOpenList (h : db.WellFormed) {p : Addr} {prot : ProtocolInterface A}
    (hp : db.interfaces p = some prot) {openList : List OpenData}
    (hlength : openList.length = prot.openList.length) : (db.withOpenList p openList).WellFormed := by
  have heq : db.withOpenList p openList = db.modifyInterface p fun r =>
      if r.openList.length = openList.length then { r with openList } else r := by
    unfold Database.withOpenList Database.modifyInterface
    rw [hp, Option.map_some, Option.map_some, if_pos hlength.symm]
  refine ⟨?_, h.inUse⟩
  rw [heq]
  apply h.toLinked.modifyInterface
  · intro r
    split <;> rfl
  · intro r
    split <;> rfl
  · intro r hr
    split
    · rename_i heq
      rw [hr, heq]
    · exact hr

/-- Nor does any writing to it that keeps its handle and its value. -/
theorem modifyInterface_installations (db : Database A) (p : Addr)
    {f : ProtocolInterface A → ProtocolInterface A} (hh : ∀ r, (f r).handle = r.handle)
    (hi : ∀ r, (f r).interface = r.interface) :
    (db.modifyInterface p f).installations = db.installations := by
  have hlisting : ∀ ps, (db.modifyInterface p f).listing ps = db.listing ps := by
    intro ps
    apply List.filterMap_congr
    intro q _
    unfold Database.modifyInterface
    dsimp only
    by_cases hq : q = p
    · subst hq
      rw [Function.update_self, Option.map_map]
      simp only [Function.comp_def, hh, hi]
    · rw [Function.update_of_ne hq]
  funext g
  unfold installations
  rw [show (db.modifyInterface p f).findProtocolEntry g = db.findProtocolEntry g from rfl,
    show (db.modifyInterface p f).entries = db.entries from rfl]
  cases (db.findProtocolEntry g).bind db.entries with
  | none => rfl
  | some entry => exact hlisting entry.protocols

theorem Lists.withOpenList (h : db.Lists c) {p : Addr} {prot : ProtocolInterface A}
    (hp : db.interfaces p = some prot) {openList : List OpenData}
    (hlength : openList.length = prot.openList.length) : (db.withOpenList p openList).Lists c :=
  ⟨h.wellFormed.withOpenList hp hlength, fun g => by
    unfold Database.withOpenList
    rw [modifyInterface_installations, h.same]
    all_goals exact fun _ => rfl⟩

/-- `HandleProtocol` on a handle that carries the protocol. -/
theorem Lists.handleProtocol_holds (h : db.Lists c) {p a : Addr} {g : Guid} {i : Nat}
    {prot : ProtocolInterface A} (hholds : db.Holds p a g i) (hprot : db.interfaces p = some prot) :
    ∃ openList, openList.length = prot.openList.length ∧
      db.handleProtocol a (some g) true = (db.withOpenList p openList, .success, some i) := by
  have hlive : c.Live a := ⟨g, (h.carries a g).mpr ⟨p, i, hholds⟩⟩
  obtain ⟨prot', entry, hprot', _, rfl, _, _⟩ := id hholds
  rw [hprot] at hprot'
  cases hprot'
  unfold handleProtocol openProtocol
  rw [h.openCheck_live hlive]
  dsimp only
  rw [(h.wellFormed.getProtocolEntry a g p).mpr ⟨_, hholds⟩]
  dsimp only
  rw [hprot]
  dsimp only
  obtain ⟨b, x, hscan⟩ | ⟨os, hscan, hlength⟩ :=
    scanOpenList_handleProtocol ⟨a, some g, true, 0, 0, openByHandleProtocol⟩ rfl false false
      prot.openList
  · refine ⟨prot.openList, rfl, ?_⟩
    rw [hscan, withOpenList_self hprot]
    rfl
  · refine ⟨os, hlength, ?_⟩
    rw [hscan]
    rfl

theorem Lists.handleProtocol_unsupported (h : db.Lists c) {a : Addr} {g : Guid}
    (ha : c.Live a) (hg : ¬ c.Carries a g) :
    db.handleProtocol a (some g) true = (db, .unsupported, none) := by
  have hnone : db.getProtocolEntry a g = none := by
    cases hget : db.getProtocolEntry a g with
    | none => rfl
    | some p =>
      obtain ⟨i, hp⟩ := (h.wellFormed.getProtocolEntry a g p).mp hget
      exact absurd ((h.carries a g).mpr ⟨p, i, hp⟩) hg
  unfold handleProtocol openProtocol
  rw [h.openCheck_live ha]
  dsimp only
  rw [hnone]

theorem Lists.handleProtocol_dead (h : db.Lists c) {a : Addr} (ha : ¬ c.Live a)
    (g : Option Guid) (interface : Bool) :
    db.handleProtocol a g interface = (db, .invalidParameter, none) := by
  have hcheck : db.openCheck ⟨a, g, interface, 0, 0, openByHandleProtocol⟩ =
      .error .invalidParameter := by
    unfold openCheck
    cases g with
    | none => rfl
    | some g =>
      dsimp only
      split
      · rfl
      · rw [h.validateHandle_dead ha]
        rfl
  unfold handleProtocol openProtocol
  rw [hcheck]

/-! ## Installing -/

theorem notifyProtocolEntry_installations (db : Database A) (e : Addr) :
    (db.notifyProtocolEntry e).installations = db.installations := by
  obtain ⟨signalled, heq⟩ := notifyProtocolEntry_eq db e
  rw [heq]
  exact installations_congr rfl rfl rfl

theorem notifyProtocolEntry_interfaces (db : Database A) (e : Addr) :
    (db.notifyProtocolEntry e).interfaces = db.interfaces := by
  obtain ⟨signalled, heq⟩ := notifyProtocolEntry_eq db e
  rw [heq]

theorem notifyProtocolEntry_handleList (db : Database A) (e : Addr) :
    (db.notifyProtocolEntry e).handleList = db.handleList := by
  obtain ⟨signalled, heq⟩ := notifyProtocolEntry_eq db e
  rw [heq]

theorem newHandle_installations (db : Database A) (a : Addr) :
    (db.newHandle a).installations = db.installations :=
  installations_congr rfl rfl rfl

/-- `FindProtocolEntry (Protocol, TRUE)` changes nothing that a catalogue shows. -/
theorem Lists.findOrCreateEntry (h : db.Lists c) (g : Guid) {memory : Option Addr}
    (hfresh : ∀ a, memory = some a → db.Fresh a) :
    (db.findOrCreateEntry g memory).1.Lists c ∧
      (db.findOrCreateEntry g memory).1.handles = db.handles ∧
      (db.findOrCreateEntry g memory).1.interfaces = db.interfaces ∧
      (db.findOrCreateEntry g memory).1.handleList = db.handleList ∧
      ∀ e, (db.findOrCreateEntry g memory).2 = some e →
        ∃ entry, (db.findOrCreateEntry g memory).1.entries e = some entry ∧
          entry.protocolID = g := by
  unfold Database.findOrCreateEntry
  cases hfind : db.findProtocolEntry g with
  | some e =>
    refine ⟨h, rfl, rfl, rfl, ?_⟩
    rintro _ ⟨⟩
    exact (h.wellFormed.findProtocolEntry g e).mp hfind
  | none =>
    cases memory with
    | none => exact ⟨h, rfl, rfl, rfl, by rintro _ ⟨⟩⟩
    | some e =>
      have he := (hfresh e rfl).entries
      have hl := h.wellFormed.toLinked.createProtocolEntry hfind he
      have hself : (db.createProtocolEntry g e).entries e = some ⟨g, [], []⟩ :=
        Function.update_self ..
      refine ⟨⟨⟨hl, h.wellFormed.inUse⟩, ?_⟩, rfl, rfl, rfl, ?_⟩
      · intro g'
        rw [← h.same]
        by_cases hg : g' = g
        · subst hg
          rw [installations_of_none hfind]
          exact hl.installations_of_entry hself
        · cases hfind' : db.findProtocolEntry g' with
          | none =>
            rw [installations_of_none hfind']
            apply installations_of_none
            cases hnew : (db.createProtocolEntry g e).findProtocolEntry g' with
            | none => rfl
            | some x =>
              obtain ⟨r, hr, rfl⟩ := (hl.findProtocolEntry g' x).mp hnew
              by_cases hx : x = e
              · subst hx
                rw [hself] at hr
                cases hr
                exact absurd rfl hg
              · replace hr : Function.update db.entries e _ x = some r := hr
                rw [Function.update_of_ne hx] at hr
                exact absurd rfl (h.wellFormed.named.findProtocolEntry_none hfind' hr)
          | some x =>
            obtain ⟨r, hr, rfl⟩ := (h.wellFormed.findProtocolEntry g' x).mp hfind'
            have hx : x ≠ e := by
              rintro rfl
              rw [he] at hr
              cases hr
            rw [h.wellFormed.installations_of_entry hr]
            refine hl.installations_of_entry (e := x) ?_
            show Function.update db.entries e _ x = some r
            rw [Function.update_of_ne hx, hr]
      · rintro _ ⟨⟩
        exact ⟨_, hself, rfl⟩

/-- Linking a new interface adds it to the catalogue.  The handle it goes to may be new. -/
theorem Linked.lists_linkInterface (h : db.Linked)
    (hsame : ∀ g, db.installations g = c.installed g) {p a e : Addr} {i : Nat}
    {handle : IHandle A} {entry : ProtocolEntry} (hp : db.interfaces p = none)
    (ha : db.handles a = some handle) (he : db.entries e = some entry)
    (hothers : ∀ x handle, x ≠ a → db.handles x = some handle → handle.protocols ≠ [])
    (hnew : ¬ c.Carries a entry.protocolID) :
    ((db.linkInterface p a e i).notifyProtocolEntry e).Lists (c.add entry.protocolID a i hnew) := by
  have hnone : ∀ q prot, db.interfaces q = some prot →
      ¬ (prot.handle = a ∧ prot.protocol = e) := by
    rintro q prot hq ⟨rfl, rfl⟩
    have hm := (h.mem_installations entry.protocolID prot.handle prot.interface).mpr
      ⟨q, prot, entry, hq, rfl, rfl, he, rfl⟩
    rw [hsame] at hm
    exact hnew (List.mem_map_of_mem hm)
  have hl := h.linkInterface (i := i) hp ha he hnone
  have hi : (db.linkInterface p a e i).interfaces =
      Function.update db.interfaces p (some ⟨a, e, i, [], 0⟩) := rfl
  have hn : (db.linkInterface p a e i).entries = Function.update db.entries e
      (some { entry with protocols := entry.protocols ++ [p] }) := by
    simp only [Database.linkInterface, Database.modifyHandle, modifyEntry, he, Option.map_some]
  have hh : (db.linkInterface p a e i).handles = Function.update db.handles a
      (some { handle with protocols := p :: handle.protocols }) := by
    simp only [Database.linkInterface, Database.modifyHandle, modifyEntry, ha, Option.map_some]
  have hwf : (db.linkInterface p a e i).WellFormed := by
    refine ⟨hl, fun x handle' hx => ?_⟩
    rw [hh] at hx
    by_cases hxa : x = a
    · subst hxa
      rw [Function.update_self] at hx
      cases hx
      exact List.cons_ne_nil _ _
    · rw [Function.update_of_ne hxa] at hx
      exact hothers x handle' hxa hx
  refine ⟨hwf.notifyProtocolEntry e, ?_⟩
  intro g
  rw [notifyProtocolEntry_installations, h.installations_update hl he hn rfl]
  · show Function.update db.installations entry.protocolID _ g =
      Function.update c.installed entry.protocolID _ g
    have hlist : (db.linkInterface p a e i).listing (entry.protocols ++ [p]) =
        c.installed entry.protocolID ++ [(a, i)] := by
      rw [← hsame, h.installations_of_entry he, listing, List.filterMap_append]
      congr 1
      · apply List.filterMap_congr
        intro q hq
        rw [hi, Function.update_of_ne]
        rintro rfl
        obtain ⟨prot, hprot, _⟩ := (h.mem_byProtocol he q).mp hq
        rw [hp] at hprot
        cases hprot
      · rw [List.filterMap_cons, hi, Function.update_self]
        rfl
    rw [hlist, show db.installations = c.installed from funext hsame]
  · intro q prot hq _
    rw [hi, Function.update_of_ne]
    rintro rfl
    rw [hp] at hq
    cases hq

/-! ## What is left alone -/

/-- The interface `q` is none that was not there before, and as many use it. -/
structure KeepsInterface (db db' : Database A) (q : Addr) : Prop where
  openList : (db'.openListOf q).length = (db.openListOf q).length
  holds : ∀ a g i, db'.Holds q a g i → db.Holds q a g i

theorem KeepsInterface.refl (db : Database A) (q : Addr) : KeepsInterface db db q :=
  ⟨rfl, fun _ _ _ h => h⟩

theorem KeepsInterface.trans {db' db'' : Database A} {q : Addr} (h : KeepsInterface db db' q)
    (h' : KeepsInterface db' db'' q) : KeepsInterface db db'' q :=
  ⟨h'.openList.trans h.openList, fun a g i hq => h.holds a g i (h'.holds a g i hq)⟩

/-- An edit that keeps the record of an interface and the identifiers of the entries. -/
theorem Linked.keepsInterface {db' : Database A} (h : db.Linked) {q : Addr}
    (hi : db'.interfaces q = db.interfaces q)
    (hids : ∀ e entry entry', db.entries e = some entry → db'.entries e = some entry' →
      entry'.protocolID = entry.protocolID) : KeepsInterface db db' q := by
  constructor
  · unfold openListOf
    rw [hi]
  · rintro a g i ⟨prot, entry', hprot, rfl, rfl, he', rfl⟩
    rw [hi] at hprot
    obtain ⟨entry, he⟩ := h.entry_of_interface hprot
    exact ⟨prot, entry, hprot, rfl, rfl, he, (hids _ entry entry' he he').symm⟩

/-- Nothing that a catalogue shows is different. -/
structure SameContents (db db' : Database A) : Prop where
  lists : ∀ c, db.Lists c → db'.Lists c
  handleList : db'.handleList = db.handleList
  interfaces : ∀ q, KeepsInterface db db' q

theorem SameContents.refl (db : Database A) : SameContents db db :=
  ⟨fun _ h => h, rfl, KeepsInterface.refl db⟩

theorem SameContents.trans {db' db'' : Database A} (h : SameContents db db')
    (h' : SameContents db' db'') : SameContents db db'' :=
  ⟨fun c hc => h'.lists c (h.lists c hc), h'.handleList.trans h.handleList,
    fun q => (h.interfaces q).trans (h'.interfaces q)⟩

theorem SameContents.withOpenList {p : Addr} {prot : ProtocolInterface A}
    (hp : db.interfaces p = some prot) {openList : List OpenData}
    (hlength : openList.length = prot.openList.length) :
    SameContents db (db.withOpenList p openList) := by
  have hi : ∀ q, (db.withOpenList p openList).interfaces q =
      if q = p then some { prot with openList } else db.interfaces q := by
    intro q
    unfold Database.withOpenList Database.modifyInterface
    dsimp only
    by_cases hq : q = p
    · subst hq
      rw [Function.update_self, if_pos rfl, hp, Option.map_some]
    · rw [Function.update_of_ne hq, if_neg hq]
  refine ⟨fun c hc => hc.withOpenList hp hlength, rfl, fun q => ⟨?_, ?_⟩⟩
  · unfold openListOf
    rw [hi]
    by_cases hq : q = p
    · subst hq
      rw [if_pos rfl, hp]
      exact hlength
    · rw [if_neg hq]
  · rintro a g i ⟨prot', entry, hprot', rfl, rfl, he, rfl⟩
    rw [hi] at hprot'
    by_cases hq : q = p
    · subst hq
      rw [if_pos rfl] at hprot'
      cases hprot'
      exact ⟨prot, entry, hp, rfl, rfl, he, rfl⟩
    · rw [if_neg hq] at hprot'
      exact ⟨prot', entry, hprot', rfl, rfl, he, rfl⟩

theorem handleProtocol_same (h : db.Lists c) (a : Addr) (g : Guid) :
    SameContents db (db.handleProtocol a (some g) true).1 := by
  by_cases hc : c.Carries a g
  · obtain ⟨p, i, hholds⟩ := (h.carries a g).mp hc
    obtain ⟨prot, entry, hprot, -⟩ := id hholds
    obtain ⟨openList, hlength, heq⟩ := h.handleProtocol_holds hholds hprot
    rw [heq]
    exact .withOpenList hprot hlength
  · by_cases hlive : c.Live a
    · rw [h.handleProtocol_unsupported hlive hc]
      exact .refl db
    · rw [h.handleProtocol_dead hlive]
      exact .refl db

/-- The interface that `HandleProtocol` returns, if it is not `NULL`. -/
def interfaceOf (db : Database A) (a : Addr) (g : Guid) : Database A × Option Nat :=
  match db.handleProtocol a (some g) true with
  | (db, .success, some i) => (db, if i = 0 then none else some i)
  | (db, _, _) => (db, none)

theorem Lists.interfaceOf (h : db.Lists c) (a : Addr) (g : Guid) :
    SameContents db (db.interfaceOf a g).1 ∧
      ∀ i, (db.interfaceOf a g).2 = some i ↔ i ≠ 0 ∧ (a, i) ∈ c.installed g := by
  have hsame := handleProtocol_same h a g
  by_cases hc : c.Carries a g
  · obtain ⟨p, i, hholds⟩ := (h.carries a g).mp hc
    obtain ⟨prot, entry, hprot, -⟩ := id hholds
    obtain ⟨openList, -, heq⟩ := h.handleProtocol_holds hholds hprot
    have hmem := (h.mem a g i).mpr ⟨p, hholds⟩
    have hunique : ∀ j, (a, j) ∈ c.installed g → j = i := by
      intro j hj
      have hpair := List.inj_on_of_nodup_map (c.once g) hj hmem rfl
      exact (Prod.mk.inj hpair).2
    rw [heq] at hsame
    rw [Database.interfaceOf, heq]
    refine ⟨hsame, fun j => ?_⟩
    by_cases h0 : i = 0
    · simp only [h0, if_pos]
      refine iff_of_false (by rintro ⟨⟩) ?_
      rintro ⟨hj, hj'⟩
      exact hj ((hunique j hj').trans h0)
    · simp only [if_neg h0, Option.some.injEq]
      constructor
      · rintro rfl
        exact ⟨h0, hmem⟩
      · exact fun hj => (hunique j hj.2).symm
  · have hnone : ∀ status, status ≠ .success →
        db.handleProtocol a (some g) true = (db, status, none) →
        SameContents db (db.interfaceOf a g).1 ∧
          ∀ i, (db.interfaceOf a g).2 = some i ↔ i ≠ 0 ∧ (a, i) ∈ c.installed g := by
      intro status hstatus heq
      rw [Database.interfaceOf, heq]
      refine ⟨?_, fun i => iff_of_false ?_ fun hi => hc (List.mem_map_of_mem hi.2)⟩
      · cases status <;> exact .refl db
      · cases status <;> rintro ⟨⟩
    by_cases hlive : c.Live a
    · exact hnone _ (by rintro ⟨⟩) (h.handleProtocol_unsupported hlive hc)
    · exact hnone _ (by rintro ⟨⟩) (h.handleProtocol_dead hlive _ true)

/-! ## InstallProtocolInterface -/

/-- How `InstallProtocolInterface` leaves the database, with its status and `*UserHandle`. -/
inductive Installed (db : Database A) (c : Catalogue) (pool : InstallPool) (a : Addr) (g : Guid)
    (i : Nat) : Database A → Status → Option Addr → Prop
  | refused {db' : Database A} {status : Status} (hstatus : status ≠ .success)
      (hrefuses : c.Refuses pool (some a) (some g) .native) (hsame : SameContents db db') :
      Installed db c pool a g i db' status (some a)
  /-- The handle is `x`, the new interface `p`. -/
  | installed {db' : Database A} {x p : Addr} (hnew : ¬ c.Carries x g)
      (hhandle : (a = 0 ∧ pool.handle = some x ∧ x ≠ 0 ∧ ¬ c.Live x ∧
          db'.handleList = db.handleList ++ [x]) ∨
        (a = x ∧ x ≠ 0 ∧ c.Live x ∧ db'.handleList = db.handleList))
      (hlists : db'.Lists (c.add g x i hnew)) (hp : db.interfaces p = none)
      (hunused : db'.openListOf p = []) (hrest : ∀ q, q ≠ p → KeepsInterface db db' q) :
      Installed db c pool a g i db' .success (some x)

theorem Linked.keepsInterface_linkInterface (h : db.Linked) (db' : Database A)
    {p a e : Addr} {i : Nat} (hi : db'.interfaces = db.interfaces)
    (hids : ∀ e entry entry', db.entries e = some entry → db'.entries e = some entry' →
      entry'.protocolID = entry.protocolID) {q : Addr} (hq : q ≠ p) :
    KeepsInterface db ((db'.linkInterface p a e i).notifyProtocolEntry e) q := by
  obtain ⟨signalled, heq⟩ := notifyProtocolEntry_eq (db'.linkInterface p a e i) e
  rw [heq]
  refine h.keepsInterface ?_ fun e' entry entry' he he' => ?_
  · show Function.update db'.interfaces p _ q = db.interfaces q
    rw [Function.update_of_ne hq, hi]
  · replace he' : Function.update db'.entries e _ e' = some entry' := he'
    by_cases hee : e' = e
    · subst hee
      rw [Function.update_self] at he'
      obtain ⟨old, hold, rfl⟩ := Option.map_eq_some_iff.mp he'
      exact hids e' entry old he hold
    · rw [Function.update_of_ne hee] at he'
      exact hids e' entry entry' he he'

theorem linkInterface_unused (db : Database A) (p a e : Addr) (i : Nat) :
    ((db.linkInterface p a e i).notifyProtocolEntry e).openListOf p = [] := by
  unfold openListOf
  rw [notifyProtocolEntry_interfaces]
  have hinterface : (db.linkInterface p a e i).interfaces p = some ⟨a, e, i, [], 0⟩ :=
    Function.update_self ..
  rw [hinterface]

/-- `InstallProtocolInterface` under the lock, on a handle that does not carry the protocol. -/
theorem Lists.installLocked (h : db.Lists c) {pool : InstallPool} (hfresh : pool.Fresh db)
    {a : Addr} {g : Guid} {status : Status} {i : Nat} (hstatus : status ≠ .success)
    (hnew : ¬ c.Carries a g) :
    Installed db c pool a g i (db.installLocked pool a g status i).1
      (db.installLocked pool a g status i).2.1 (db.installLocked pool a g status i).2.2 := by
  obtain ⟨hlists, hhandles, hinterfaces, hlist, hentry⟩ := h.findOrCreateEntry g hfresh.entry
  have hids : ∀ e entry entry', db.entries e = some entry →
      (db.findOrCreateEntry g pool.entry).1.entries e = some entry' →
      entry'.protocolID = entry.protocolID := by
    intro e entry entry' he he'
    unfold Database.findOrCreateEntry at he'
    cases hfind : db.findProtocolEntry g with
    | some x =>
      rw [hfind] at he'
      rw [he] at he'
      cases he'
      rfl
    | none =>
      rw [hfind] at he'
      cases hx : pool.entry with
      | none =>
        rw [hx] at he'
        rw [he] at he'
        cases he'
        rfl
      | some x =>
        rw [hx] at he'
        replace he' : Function.update db.entries x _ e = some entry' := he'
        rw [Function.update_of_ne, he] at he'
        · cases he'
          rfl
        · rintro rfl
          rw [(hfresh.entry e hx).entries] at he
          cases he
  have hsame : SameContents db (db.findOrCreateEntry g pool.entry).1 := by
    refine ⟨fun c' hc' => (hc'.findOrCreateEntry g hfresh.entry).1, hlist, fun q => ?_⟩
    exact h.wellFormed.toLinked.keepsInterface (congrFun hinterfaces q) hids
  unfold Database.installLocked
  cases hfe : db.findOrCreateEntry g pool.entry with
  | mk db₁ found =>
    rw [hfe] at hlists hhandles hinterfaces hentry hids hsame hlist
    cases found with
    | none =>
      refine .refused hstatus (.noMemory (.inl ?_)) hsame
      unfold Database.findOrCreateEntry at hfe
      split at hfe <;> simp_all
    | some e =>
      obtain ⟨entry, he, hg⟩ := hentry e rfl
      subst hg
      dsimp only at hlists hhandles hinterfaces he hids hsame hlist ⊢
      cases hp : pool.interface with
      | none => exact .refused hstatus (.noMemory (.inr (.inl hp))) hsame
      | some p =>
        have hpn : db.interfaces p = none := (hfresh.interface p hp).interfaces
        have hpf : db₁.interfaces p = none := by rw [hinterfaces, hpn]
        by_cases h0 : a = 0
        · subst h0
          dsimp only
          rw [if_pos rfl]
          cases hx : pool.handle with
          | none => exact .refused hstatus (.noMemory (.inr (.inr hx))) hsame
          | some x =>
            have hxf := hfresh.handle x hx
            have hxh : db₁.handles x = none := by rw [hhandles]; exact hxf.handles
            have hdead : ¬ c.Live x := by
              rw [hlists.live, hxh]
              rintro ⟨_, ⟨⟩⟩
            have hcarry : ¬ c.Carries x entry.protocolID := fun hc => hdead ⟨_, hc⟩
            have hrest : ∀ q, q ≠ p → KeepsInterface db
                (((db₁.newHandle x).linkInterface p x e i).notifyProtocolEntry e) q := fun q hq =>
              h.wellFormed.toLinked.keepsInterface_linkInterface (db₁.newHandle x) hinterfaces
                hids hq
            refine .installed hcarry (.inl ⟨rfl, hx, hxf.ne_null, hdead, ?_⟩) ?_ hpn
              (linkInterface_unused _ p x e i) hrest
            · rw [notifyProtocolEntry_handleList, ← hlist]
              rfl
            · refine (hlists.wellFormed.newHandle hxh hxf.ne_null).lists_linkInterface ?_ hpf
                (Function.update_self ..) he ?_ hcarry
              · intro g
                rw [← hlists.same, newHandle_installations]
              · intro y handle hy hhandle
                replace hhandle : Function.update db₁.handles x _ y = some handle := hhandle
                rw [Function.update_of_ne hy] at hhandle
                exact hlists.wellFormed.inUse y handle hhandle
        · dsimp only
          rw [if_neg h0]
          cases ha : db₁.handles a with
          | none =>
            refine .refused (by rintro ⟨⟩) (.dead a rfl h0 ?_) hsame
            rw [hlists.live, ha]
            rintro ⟨_, ⟨⟩⟩
          | some handle =>
            have hlive : c.Live a := (hlists.live a).mpr ⟨handle, ha⟩
            rw [if_neg (by simp)]
            refine .installed hnew (.inr ⟨rfl, h0, hlive, ?_⟩) ?_ hpn
              (linkInterface_unused _ p a e i) fun q hq =>
                h.wellFormed.toLinked.keepsInterface_linkInterface db₁ hinterfaces hids hq
            · rw [notifyProtocolEntry_handleList, ← hlist]
              rfl
            · exact hlists.wellFormed.lists_linkInterface hlists.same hpf ha he
                (fun y handle _ hy => hlists.wellFormed.inUse y handle hy) hnew

theorem Lists.not_carries_null (h : db.Lists c) (g : Guid) : ¬ c.Carries 0 g := by
  intro hc
  obtain ⟨handle, hh⟩ := (h.live 0).mp ⟨g, hc⟩
  rw [h.wellFormed.null] at hh
  cases hh

/-- `InstallProtocolInterface` of a native interface. -/
theorem Lists.installProtocolInterface (h : db.Lists c) {pool : InstallPool}
    (hfresh : pool.Fresh db) (a : Addr) (g : Guid) (i : Nat) :
    Installed db c pool a g i
      (db.installProtocolInterface pool (some a) (some g) .native i).1
      (db.installProtocolInterface pool (some a) (some g) .native i).2.1
      (db.installProtocolInterface pool (some a) (some g) .native i).2.2 := by
  unfold Database.installProtocolInterface
  dsimp only
  rw [if_neg (by decide)]
  by_cases h0 : a = 0
  · subst h0
    rw [if_pos rfl]
    exact h.installLocked hfresh (by decide) (h.not_carries_null g)
  · rw [if_neg h0]
    by_cases hlive : c.Live a
    · by_cases hc : c.Carries a g
      · have hsame := handleProtocol_same h a g
        obtain ⟨p, j, hholds⟩ := (h.carries a g).mp hc
        obtain ⟨prot, entry, hprot, -⟩ := id hholds
        obtain ⟨openList, -, heq⟩ := h.handleProtocol_holds hholds hprot
        rw [heq] at hsame ⊢
        exact .refused (by rintro ⟨⟩) (.carried a g rfl rfl hc) hsame
      · rw [h.handleProtocol_unsupported hlive hc]
        exact h.installLocked hfresh (by decide) hc
    · rw [h.handleProtocol_dead hlive]
      exact h.installLocked hfresh (by decide) fun hc => hlive ⟨g, hc⟩

/-- Whatever it answers, `InstallProtocolInterface` leaves a catalogue. -/
theorem Installed.lists {db' : Database A} {pool : InstallPool} {a : Addr} {g : Guid} {i : Nat}
    {status : Status} {x : Option Addr} (hinstalled : Installed db c pool a g i db' status x)
    (h : db.Lists c) : ∃ c', db'.Lists c' := by
  cases hinstalled with
  | refused _ _ hsame => exact ⟨c, hsame.lists c h⟩
  | installed _ _ hlists => exact ⟨_, hlists⟩

/-! ## UninstallProtocolInterface -/

/-- Removing one element of a list of interfaces removes its handle from the listing. -/
theorem listing_erase {db' : Database A} {l : List Addr} {p a : Addr} (hnodup : l.Nodup)
    (hmem : ∀ q ∈ l, ∃ prot, db.interfaces q = some prot ∧ (prot.handle = a ↔ q = p))
    (hsame : ∀ q ∈ l, q ≠ p → db'.interfaces q = db.interfaces q) :
    db'.listing (l.erase p) = (db.listing l).filter (·.1 ≠ a) := by
  rw [hnodup.erase_eq_filter]
  unfold listing
  clear hnodup
  induction l with
  | nil => rfl
  | cons q l ih =>
    have ih' := ih (fun x hx => hmem x (List.mem_cons_of_mem _ hx))
      (fun x hx => hsame x (List.mem_cons_of_mem _ hx))
    obtain ⟨prot, hprot, hiff⟩ := hmem q List.mem_cons_self
    by_cases hq : q = p
    · have ha : prot.handle = a := hiff.mpr hq
      rw [List.filter_cons_of_neg (by simp [hq]), ih', List.filterMap_cons, hprot]
      simp [ha]
    · have ha : prot.handle ≠ a := fun ha => hq (hiff.mp ha)
      rw [List.filter_cons_of_pos (by simp [hq]), List.filterMap_cons, List.filterMap_cons,
        hsame q List.mem_cons_self hq, hprot, ih']
      simp [ha]

/-- The other interfaces of an entry are on other handles. -/
theorem Linked.handle_eq_iff (h : db.Linked) {p : Addr} {prot : ProtocolInterface A}
    {entry : ProtocolEntry} (hp : db.interfaces p = some prot)
    (he : db.entries prot.protocol = some entry) :
    ∀ q ∈ entry.protocols,
      ∃ prot', db.interfaces q = some prot' ∧ (prot'.handle = prot.handle ↔ q = p) := by
  intro q hq
  obtain ⟨prot', hq', hproto⟩ := (h.mem_byProtocol he q).mp hq
  refine ⟨prot', hq', fun hh => h.once q p prot' prot hq' hp hh hproto, ?_⟩
  rintro rfl
  rw [hp] at hq'
  cases hq'
  rfl

theorem freeHandleIfEmpty_interfaces (db : Database A) (a : Addr) :
    (db.freeHandleIfEmpty a).interfaces = db.interfaces := by
  unfold Database.freeHandleIfEmpty
  split
  · split <;> rfl
  · rfl

theorem freeHandleIfEmpty_entries (db : Database A) (a : Addr) :
    (db.freeHandleIfEmpty a).entries = db.entries := by
  unfold Database.freeHandleIfEmpty
  split
  · split <;> rfl
  · rfl

theorem freeHandleIfEmpty_installations (db : Database A) (a : Addr) :
    (db.freeHandleIfEmpty a).installations = db.installations := by
  unfold Database.freeHandleIfEmpty
  split
  · split
    · exact installations_congr rfl rfl rfl
    · rfl
  · rfl

/-- The handle goes with its last interface. -/
theorem freeHandleIfEmpty_handleList (db : Database A) (a : Addr) :
    (db.freeHandleIfEmpty a).handleList =
      if (db.handles a).isSome ∧ ((db.freeHandleIfEmpty a).handles a).isNone
      then db.handleList.erase a else db.handleList := by
  unfold Database.freeHandleIfEmpty
  cases ha : db.handles a with
  | none => simp
  | some handle =>
    dsimp only
    split
    · rw [if_pos]
      refine ⟨rfl, ?_⟩
      dsimp only
      rw [Function.update_self]
      rfl
    · rw [if_neg]
      rw [ha]
      simp

/-- `UninstallProtocolInterface`, once no driver uses the interface. -/
theorem Lists.uninstallUnused (h : db.Lists c) {p a : Addr} {g : Guid} {i : Nat}
    (hholds : db.Holds p a g i) :
    (db.uninstallUnused a g i).2 = .success ∧
      (db.uninstallUnused a g i).1.Lists (c.remove g a) ∧
      ((c.remove g a).Live a → (db.uninstallUnused a g i).1.handleList = db.handleList) ∧
      (¬ (c.remove g a).Live a →
        (db.uninstallUnused a g i).1.handleList = db.handleList.erase a) ∧
      (db.uninstallUnused a g i).1.interfaces p = none ∧
      ∀ q, q ≠ p → KeepsInterface db (db.uninstallUnused a g i).1 q := by
  obtain ⟨prot, entry, hp, rfl, rfl, he, rfl⟩ := id hholds
  obtain ⟨handle, ha⟩ := h.wellFormed.handle_of_interface hp
  have heq : db.uninstallUnused prot.handle entry.protocolID prot.interface =
      ((db.unlinked prot.handle p prot.protocol).freeHandleIfEmpty prot.handle, .success) := by
    unfold Database.uninstallUnused
    rw [h.wellFormed.removeInterfaceFromProtocol hholds hp]
    rfl
  rw [heq]
  have hl := h.wellFormed.toLinked.unlinked hp ha he
  have hi := @unlinked_interfaces _ _ p prot.handle _ _ he
  have hlists : ((db.unlinked prot.handle p prot.protocol).freeHandleIfEmpty prot.handle).Lists
      (c.remove entry.protocolID prot.handle) := by
    refine ⟨?_, ?_⟩
    · refine hl.freeHandleIfEmpty _ fun x handle' hx hhandle => ?_
      rw [unlinked_handles ha he, Function.update_of_ne hx] at hhandle
      exact h.wellFormed.inUse x handle' hhandle
    · intro g
      rw [freeHandleIfEmpty_installations,
        h.wellFormed.installations_update hl he (unlinked_entries he) rfl]
      · show Function.update db.installations entry.protocolID _ g =
          Function.update c.installed entry.protocolID _ g
        rw [listing_erase (h.wellFormed.byProtocol.nodup _ _ (by rw [entryLists, he]; rfl))
          (h.wellFormed.handle_eq_iff hp he), ← h.wellFormed.installations_of_entry he, h.same,
          show db.installations = c.installed from funext h.same]
        intro q _ hq
        rw [hi, Function.update_of_ne hq]
      · intro q r hq hr
        rw [hi, Function.update_of_ne]
        rintro rfl
        rw [hp] at hq
        cases hq
        exact hr rfl
  have hsome : ((db.unlinked prot.handle p prot.protocol).handles prot.handle).isSome := by
    rw [unlinked_handles ha he, Function.update_self]
    rfl
  refine ⟨rfl, hlists, fun hlive => ?_, fun hdead => ?_, ?_, fun q hq => ?_⟩
  · obtain ⟨handle', hh'⟩ := (hlists.live _).mp hlive
    rw [freeHandleIfEmpty_handleList, unlinked_handleList he, if_neg]
    rw [hh']
    simp
  · rw [freeHandleIfEmpty_handleList, unlinked_handleList he, if_pos]
    refine ⟨hsome, ?_⟩
    cases hh' : ((db.unlinked prot.handle p prot.protocol).freeHandleIfEmpty
        prot.handle).handles prot.handle with
    | none => rfl
    | some handle' => exact absurd ((hlists.live _).mpr ⟨handle', hh'⟩) hdead
  · rw [freeHandleIfEmpty_interfaces, hi, Function.update_self]
  · refine h.wellFormed.toLinked.keepsInterface ?_ fun e entry' entry'' he' he'' => ?_
    · rw [freeHandleIfEmpty_interfaces, hi, Function.update_of_ne hq]
    · rw [freeHandleIfEmpty_entries, unlinked_entries he] at he''
      by_cases hee : e = prot.protocol
      · subst hee
        rw [Function.update_self] at he''
        cases he''
        rw [he] at he'
        cases he'
        rfl
      · rw [Function.update_of_ne hee, he'] at he''
        cases he''
        rfl

theorem Lists.not_holds (h : db.Lists c) {a : Addr} {g : Guid} {i : Nat}
    (hnone : db.findProtocolInterface a g i = none) : (a, i) ∉ c.installed g := by
  intro hm
  obtain ⟨p, hp⟩ := (h.mem a g i).mp hm
  rw [(h.wellFormed.findProtocolInterface a g i p).mpr hp] at hnone
  cases hnone

/-- The count goes down with the entries that are taken out. -/
theorem closePassive_counted (r : ProtocolInterface A)
    (hr : r.openListCount = BitVec.ofNat _ r.openList.length) :
    r.openListCount - BitVec.ofNat _
        (r.openList.length - (r.openList.filter fun o => ¬ o.passive).length) =
      BitVec.ofNat _ (r.openList.filter fun o => ¬ o.passive).length := by
  generalize hkeep : (r.openList.filter fun o => ¬ o.passive) = keep
  have hle : keep.length ≤ r.openList.length := hkeep ▸ List.length_filter_le _ _
  have hsplit : r.openList.length = keep.length + (r.openList.length - keep.length) := by omega
  calc r.openListCount - BitVec.ofNat _ (r.openList.length - keep.length)
    _ = BitVec.ofNat _ (keep.length + (r.openList.length - keep.length)) -
        BitVec.ofNat _ (r.openList.length - keep.length) := by rw [← hsplit, hr]
    _ = BitVec.ofNat _ keep.length := by rw [BitVec.ofNat_add, BitVec.add_sub_cancel]

theorem Lists.closePassive (h : db.Lists c) (p : Addr) : (db.closePassive p).Lists c := by
  refine ⟨⟨h.wellFormed.toLinked.modifyInterface p (fun _ => rfl) (fun _ => rfl)
    closePassive_counted, h.wellFormed.inUse⟩, fun g => ?_⟩
  unfold Database.closePassive
  rw [modifyInterface_installations, h.same]
  all_goals exact fun _ => rfl

/-- Nothing has to be disconnected from an interface that nothing uses. -/
theorem Linked.disconnect_unused (h : db.Linked) {p : Addr} {prot : ProtocolInterface A}
    (hp : db.interfaces p = some prot) (hunused : prot.openList = []) (D : Drivers A)
    (fuel : Nat) (a : Addr) :
    db.disconnectControllersUsingProtocolInterface D (fuel + 1) a p = some (db, .success) := by
  have hcount := h.counted p prot hp
  rw [hunused] at hcount
  have hpassive : db.closePassive p = db := by
    have hi : Function.update db.interfaces p ((db.interfaces p).map fun prot =>
        { prot with
          openList := prot.openList.filter fun o => ¬ o.passive
          openListCount := prot.openListCount - BitVec.ofNat _
            (prot.openList.length - (prot.openList.filter fun o => ¬ o.passive).length) }) =
        db.interfaces := by
      rw [Function.update_eq_self_iff, hp, Option.map_some]
      obtain ⟨ph, pp, pi, pl, pc⟩ := prot
      subst hunused hcount
      simp
    unfold closePassive Database.modifyInterface
    rw [hi]
  unfold disconnectControllersUsingProtocolInterface disconnectDrivers openListOf
  rw [hp]
  dsimp only
  rw [hunused, List.find?_nil]
  dsimp only
  rw [hpassive, hp]
  dsimp only
  rw [hcount, if_neg (by simp)]

/-! ## LocateHandle -/

/-- An edit that writes no interface and no entry. -/
theorem SameContents.of_eq {db' : Database A} (hi : db'.interfaces = db.interfaces)
    (he : db'.entries = db.entries) (hl : db'.handleList = db.handleList)
    (hd : db'.protocolDatabase = db.protocolDatabase)
    (hwf : db.WellFormed → db'.WellFormed) : SameContents db db' := by
  refine ⟨fun c hc => ⟨hwf hc.wellFormed, fun g => ?_⟩, hl, fun q => ⟨?_, ?_⟩⟩
  · rw [← hc.same]
    exact congrFun (installations_congr hi he hd) g
  · unfold openListOf
    rw [hi]
  · rintro a g i ⟨prot, entry, hprot, hface⟩
    rw [hi] at hprot
    rw [he] at hface
    exact ⟨prot, entry, hprot, hface⟩

theorem SameContents.newRequest (db : Database A) : SameContents db db.newRequest :=
  .of_eq rfl rfl rfl rfl fun h => h.congr rfl rfl rfl rfl rfl

theorem SameContents.advanceNotify (db : Database A) (n : Addr) :
    SameContents db (db.advanceNotify n) := by
  unfold Database.advanceNotify
  split
  · exact .refl db
  · split
    · exact .refl db
    · exact .of_eq rfl rfl rfl rfl fun h => h.congr rfl rfl rfl rfl rfl

/-- Stamping a handle with the current request. -/
def stamp (db : Database A) (a : Addr) : Database A :=
  db.modifyHandle a fun handle => { handle with locateRequest := db.efiLocateHandleRequest }

theorem SameContents.stamp (db : Database A) (a : Addr) : SameContents db (db.stamp a) :=
  .of_eq rfl rfl rfl rfl fun h => h.modifyHandle a fun _ => rfl

theorem locateByProtocol_cons (db : Database A) (p : Addr) (ps : List Addr) :
    db.locateByProtocol (p :: ps) = match db.interfaces p with
      | none => db.locateByProtocol ps
      | some prot =>
        match db.handles prot.handle with
        | none => db.locateByProtocol ps
        | some handle =>
          if handle.locateRequest = db.efiLocateHandleRequest then db.locateByProtocol ps
          else (((db.stamp prot.handle).locateByProtocol ps).1,
            prot.handle :: ((db.stamp prot.handle).locateByProtocol ps).2) := by
  rw [Database.locateByProtocol]
  rfl

theorem SameContents.locateByProtocol (db : Database A) (ps : List Addr) :
    SameContents db (db.locateByProtocol ps).1 := by
  induction ps generalizing db with
  | nil => exact .refl db
  | cons p ps ih =>
    rw [locateByProtocol_cons]
    split
    · exact ih db
    · split
      · exact ih db
      · split
        · exact ih db
        · exact (SameContents.stamp db _).trans (ih _)

theorem SameContents.locateSearch {searchType : SearchType} {protocol : Option Guid}
    {searchKey : Option Addr} {db' : Database A} {handles : List Addr}
    (hs : db.locateSearch searchType protocol searchKey = .ok (db', handles)) :
    SameContents db db' := by
  unfold Database.locateSearch at hs
  split at hs
  · cases hs
    exact .newRequest db
  · cases hs
    exact .newRequest db
  · cases hs
  · split at hs
    · rename_i entry _
      have heq := Except.ok.inj hs
      rw [← show (db.newRequest.locateByProtocol entry.protocols).1 = db' by rw [heq]]
      exact (SameContents.newRequest db).trans (.locateByProtocol _ _)
    · cases hs
  · cases hs
  · cases hs

theorem SameContents.locateHandle (db : Database A) (searchType : SearchType)
    (protocol : Option Guid) (searchKey : Option Addr) (bufferSize : Nat) :
    SameContents db (db.locateHandle searchType protocol searchKey bufferSize).1 := by
  unfold Database.locateHandle
  split
  · exact .refl db
  · rename_i db' handles hs
    have h' := SameContents.locateSearch hs
    dsimp only
    split
    · exact h'.trans (.advanceNotify db' _)
    · exact h'

end Database

end EfiCore.Hand
