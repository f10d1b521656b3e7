import EfiCore.Hand.Services
import EfiCore.Lib.Index

/-! # A database whose links agree

`Linked` is what every edit keeps: the handles' lists and the protocols' lists index the
interfaces, the two global lists enumerate handles and protocols, no identifier has two
entries and no handle carries a protocol twice.  `WellFormed` adds that every handle carries
something, which fails inside `InstallProtocolInterface` and `UninstallProtocolInterface`.
-/

namespace EfiCore.Hand

open EfiCore.Lib

variable {A : Arch}

namespace Database

def handleLists (db : Database A) (h : Addr) : Option (List Addr) :=
  (db.handles h).map (·.protocols)

def entryLists (db : Database A) (e : Addr) : Option (List Addr) :=
  (db.entries e).map (·.protocols)

structure Linked (db : Database A) : Prop where
  byHandle : Indexed db.interfaces (·.handle) db.handleLists
  byProtocol : Indexed db.interfaces (·.protocol) db.entryLists
  allHandles : Indexed db.handles (fun _ => ()) (fun _ => some db.handleList)
  allEntries : Indexed db.entries (fun _ => ()) (fun _ => some db.protocolDatabase)
  ids : ∀ e e' r r', db.entries e = some r → db.entries e' = some r' →
    r.protocolID = r'.protocolID → e = e'
  once : ∀ p q a b, db.interfaces p = some a → db.interfaces q = some b →
    a.handle = b.handle → a.protocol = b.protocol → p = q
  counted : ∀ p prot, db.interfaces p = some prot →
    prot.openListCount = BitVec.ofNat _ prot.openList.length
  null : db.handles 0 = none

/-- Of the links, what finding the entry of an identifier needs. -/
structure Named (db : Database A) : Prop where
  allEntries : Indexed db.entries (fun _ => ()) (fun _ => some db.protocolDatabase)
  ids : ∀ e e' r r', db.entries e = some r → db.entries e' = some r' →
    r.protocolID = r'.protocolID → e = e'

theorem Linked.named {db : Database A} (h : db.Linked) : db.Named := ⟨h.allEntries, h.ids⟩

structure WellFormed (db : Database A) : Prop extends Linked db where
  inUse : ∀ h handle, db.handles h = some handle → handle.protocols ≠ []

/-- The interface `p` installs `interface` on the handle `h` for the protocol `g`. -/
def Holds (db : Database A) (p h : Addr) (g : Guid) (interface : Nat) : Prop :=
  ∃ prot entry, db.interfaces p = some prot ∧ prot.handle = h ∧ prot.interface = interface ∧
    db.entries prot.protocol = some entry ∧ entry.protocolID = g

/-! ## What the searches find -/

section Find

variable {db : Database A}

theorem Linked.mem_handleList (h : db.Linked) (a : Addr) :
    a ∈ db.handleList ↔ ∃ handle, db.handles a = some handle := by
  simp [h.allHandles.mem () _ rfl a]

theorem Named.mem_protocolDatabase (h : db.Named) (e : Addr) :
    e ∈ db.protocolDatabase ↔ ∃ entry, db.entries e = some entry := by
  simp [h.allEntries.mem () _ rfl e]

theorem Linked.mem_protocols (h : db.Linked) {a : Addr} {handle : IHandle A}
    (ha : db.handles a = some handle) (p : Addr) :
    p ∈ handle.protocols ↔ ∃ prot, db.interfaces p = some prot ∧ prot.handle = a :=
  h.byHandle.mem a _ (by rw [handleLists, ha, Option.map_some]) p

theorem Linked.mem_byProtocol (h : db.Linked) {e : Addr} {entry : ProtocolEntry}
    (he : db.entries e = some entry) (p : Addr) :
    p ∈ entry.protocols ↔ ∃ prot, db.interfaces p = some prot ∧ prot.protocol = e :=
  h.byProtocol.mem e _ (by rw [entryLists, he, Option.map_some]) p

theorem Linked.entry_of_interface (h : db.Linked) {p : Addr} {prot : ProtocolInterface A}
    (hp : db.interfaces p = some prot) : ∃ entry, db.entries prot.protocol = some entry := by
  obtain ⟨l, hl⟩ := h.byProtocol.total p prot hp
  obtain ⟨entry, he, _⟩ := Option.map_eq_some_iff.mp hl
  exact ⟨entry, he⟩

theorem Linked.handle_of_interface (h : db.Linked) {p : Addr} {prot : ProtocolInterface A}
    (hp : db.interfaces p = some prot) : ∃ handle, db.handles prot.handle = some handle := by
  obtain ⟨l, hl⟩ := h.byHandle.total p prot hp
  obtain ⟨handle, ha, _⟩ := Option.map_eq_some_iff.mp hl
  exact ⟨handle, ha⟩

theorem Named.findProtocolEntry (h : db.Named) (g : Guid) (e : Addr) :
    db.findProtocolEntry g = some e ↔
      ∃ entry, db.entries e = some entry ∧ entry.protocolID = g := by
  have test : ∀ e, ((db.entries e).any fun item => item.protocolID = g) = true ↔
      ∃ entry, db.entries e = some entry ∧ entry.protocolID = g := by
    intro e
    cases db.entries e <;> simp
  unfold Database.findProtocolEntry
  rw [find?_eq_some_iff_of_unique, test, h.mem_protocolDatabase]
  · constructor
    · exact fun hm => hm.2
    · rintro ⟨entry, he, hg⟩
      exact ⟨⟨entry, he⟩, entry, he, hg⟩
  · intro a _ b _ ha hb
    obtain ⟨r, hr, hrg⟩ := (test a).mp ha
    obtain ⟨r', hr', hrg'⟩ := (test b).mp hb
    exact h.ids a b r r' hr hr' (hrg.trans hrg'.symm)

theorem Named.findProtocolEntry_none (h : db.Named) {g : Guid}
    (hnone : db.findProtocolEntry g = none) {e : Addr} {entry : ProtocolEntry}
    (he : db.entries e = some entry) : entry.protocolID ≠ g := by
  intro hg
  have := (h.findProtocolEntry g e).mpr ⟨entry, he, hg⟩
  rw [hnone] at this
  cases this

theorem Linked.findProtocolEntry (h : db.Linked) (g : Guid) (e : Addr) :
    db.findProtocolEntry g = some e ↔
      ∃ entry, db.entries e = some entry ∧ entry.protocolID = g :=
  h.named.findProtocolEntry g e

theorem Linked.holds_unique (h : db.Linked) {p q a : Addr} {g : Guid} {i j : Nat}
    (hp : db.Holds p a g i) (hq : db.Holds q a g j) : p = q ∧ i = j := by
  obtain ⟨prot, entry, hprot, ha, rfl, he, hg⟩ := hp
  obtain ⟨prot', entry', hprot', ha', rfl, he', hg'⟩ := hq
  have hee := h.ids _ _ _ _ he he' (hg.trans hg'.symm)
  have hpq := h.once p q prot prot' hprot hprot' (ha.trans ha'.symm) hee
  subst hpq
  rw [hprot] at hprot'
  cases hprot'
  exact ⟨rfl, rfl⟩

theorem Linked.findProtocolInterface (h : db.Linked) (a : Addr) (g : Guid) (i : Nat) (p : Addr) :
    db.findProtocolInterface a g i = some p ↔ db.Holds p a g i := by
  constructor
  · intro hf
    unfold Database.findProtocolInterface at hf
    split at hf
    · rename_i e handle he ha
      obtain ⟨entry, hentry, hg⟩ := (h.findProtocolEntry g e).mp he
      obtain ⟨prot, hp, hpa⟩ := (h.mem_protocols ha p).mp (List.mem_of_find?_eq_some hf)
      have hmatch := List.find?_some hf
      rw [hp] at hmatch
      simp only [Option.any_some, decide_eq_true_eq] at hmatch
      exact ⟨prot, entry, hp, hpa, hmatch.1, by rw [hmatch.2]; exact hentry, hg⟩
    · cases hf
  · rintro ⟨prot, entry, hp, rfl, rfl, he, hg⟩
    obtain ⟨handle, ha⟩ := h.handle_of_interface hp
    have hfind := (h.findProtocolEntry g prot.protocol).mpr ⟨entry, he, hg⟩
    unfold Database.findProtocolInterface
    rw [hfind, ha]
    dsimp only
    rw [find?_eq_some_iff_of_unique]
    · exact ⟨(h.mem_protocols ha p).mpr ⟨prot, hp, rfl⟩, by simp [hp]⟩
    · intro x hx y hy hmx hmy
      obtain ⟨a, hxa, hah⟩ := (h.mem_protocols ha x).mp hx
      obtain ⟨b, hyb, hbh⟩ := (h.mem_protocols ha y).mp hy
      simp only [hxa, hyb, Option.any_some, decide_eq_true_eq] at hmx hmy
      exact h.once x y a b hxa hyb (hah.trans hbh.symm) (hmx.2.trans hmy.2.symm)

theorem Linked.getProtocolEntry (h : db.Linked) (a : Addr) (g : Guid) (p : Addr) :
    db.getProtocolEntry a g = some p ↔ ∃ i, db.Holds p a g i := by
  have test : ∀ q prot, db.interfaces q = some prot →
      (((db.interfaces q).any fun prot => (db.entries prot.protocol).any (·.protocolID = g)) = true
        ↔ ∃ entry, db.entries prot.protocol = some entry ∧ entry.protocolID = g) := by
    intro q prot hq
    rw [hq, Option.any_some]
    cases db.entries prot.protocol <;> simp
  constructor
  · intro hf
    unfold Database.getProtocolEntry at hf
    split at hf
    · rename_i handle ha
      obtain ⟨prot, hp, hpa⟩ := (h.mem_protocols ha p).mp (List.mem_of_find?_eq_some hf)
      have hmatch := List.find?_some hf
      obtain ⟨entry, he, hg⟩ := (test p prot hp).mp hmatch
      exact ⟨prot.interface, prot, entry, hp, hpa, rfl, he, hg⟩
    · cases hf
  · rintro ⟨i, hholds⟩
    obtain ⟨prot, entry, hp, rfl, rfl, he, hg⟩ := id hholds
    obtain ⟨handle, ha⟩ := h.handle_of_interface hp
    unfold Database.getProtocolEntry
    rw [ha]
    dsimp only
    rw [find?_eq_some_iff_of_unique]
    · exact ⟨(h.mem_protocols ha p).mpr ⟨prot, hp, rfl⟩, (test p prot hp).mpr ⟨entry, he, hg⟩⟩
    · intro x hx y hy hmx hmy
      obtain ⟨a, hxa, hah⟩ := (h.mem_protocols ha x).mp hx
      obtain ⟨b, hyb, hbh⟩ := (h.mem_protocols ha y).mp hy
      obtain ⟨r, hr, hrg⟩ := (test x a hxa).mp hmx
      obtain ⟨r', hr', hrg'⟩ := (test y b hyb).mp hmy
      exact (h.holds_unique ⟨a, r, hxa, hah, rfl, hr, hrg⟩ ⟨b, r', hyb, hbh, rfl, hr', hrg'⟩).1

end Find

/-! ## What the edits keep -/

/-- The fields that `Linked` speaks of; the others may change freely. -/
theorem Linked.congr {db db' : Database A} (h : db.Linked) (hi : db'.interfaces = db.interfaces)
    (hh : db'.handles = db.handles) (he : db'.entries = db.entries)
    (hl : db'.handleList = db.handleList) (hd : db'.protocolDatabase = db.protocolDatabase) :
    db'.Linked := by
  have hhl : db'.handleLists = db.handleLists := by funext x; rw [handleLists, handleLists, hh]
  have hel : db'.entryLists = db.entryLists := by funext x; rw [entryLists, entryLists, he]
  constructor
  · rw [hi, hhl]; exact h.byHandle
  · rw [hi, hel]; exact h.byProtocol
  · rw [hh, hl]; exact h.allHandles
  · rw [he, hd]; exact h.allEntries
  · rw [he]; exact h.ids
  · rw [hi]; exact h.once
  · rw [hi]; exact h.counted
  · rw [hh]; exact h.null

theorem WellFormed.congr {db db' : Database A} (h : db.WellFormed)
    (hi : db'.interfaces = db.interfaces) (hh : db'.handles = db.handles)
    (he : db'.entries = db.entries) (hl : db'.handleList = db.handleList)
    (hd : db'.protocolDatabase = db.protocolDatabase) : db'.WellFormed :=
  ⟨h.toLinked.congr hi hh he hl hd, by rw [hh]; exact h.inUse⟩

theorem WellFormed.initial : (initializeHandle A).WellFormed where
  byHandle := Indexed.empty _
  byProtocol := Indexed.empty _
  allHandles := ⟨by rintro _ _ ⟨⟩; exact List.nodup_nil, by rintro _ _ ⟨⟩; simp [initializeHandle],
    by rintro _ _ ⟨⟩⟩
  allEntries := ⟨by rintro _ _ ⟨⟩; exact List.nodup_nil, by rintro _ _ ⟨⟩; simp [initializeHandle],
    by rintro _ _ ⟨⟩⟩
  ids := by rintro _ _ _ _ ⟨⟩
  once := by rintro _ _ _ _ ⟨⟩
  counted := by rintro _ _ ⟨⟩
  null := rfl
  inUse := by rintro _ _ ⟨⟩

/-! ### New records -/

section Edits

variable {db : Database A}

theorem handleLists_update (db : Database A) (h : Addr) (x : Option (IHandle A)) :
    (fun a => (Function.update db.handles h x a).map (·.protocols)) =
      Function.update db.handleLists h (x.map (·.protocols)) :=
  map_update ..

theorem entryLists_update (db : Database A) (e : Addr) (x : Option ProtocolEntry) :
    (fun a => (Function.update db.entries e x a).map (·.protocols)) =
      Function.update db.entryLists e (x.map (·.protocols)) :=
  map_update ..

theorem Named.createProtocolEntry (h : db.Named) {g : Guid} {e : Addr}
    (hnone : db.findProtocolEntry g = none) (he : db.entries e = none) :
    (db.createProtocolEntry g e).Named where
  allEntries := h.allEntries.enumerate_insert he (List.perm_append_singleton _ _)
  ids := by
    intro a b r r' ha hb hid
    have new : ∀ x y, Function.update db.entries e (some ⟨g, [], []⟩) x = some y →
        (x = e ∧ y.protocolID = g) ∨ db.entries x = some y := by
      intro x y hx
      by_cases hxe : x = e
      · subst hxe
        rw [Function.update_self] at hx
        cases hx
        exact .inl ⟨rfl, rfl⟩
      · rw [Function.update_of_ne hxe] at hx
        exact .inr hx
    obtain ⟨hae, hag⟩ | ha' := new a r ha
    · obtain ⟨hbe, _⟩ | hb' := new b r' hb
      · rw [hae, hbe]
      · exact absurd (hid.symm.trans hag) (h.findProtocolEntry_none hnone hb')
    · obtain ⟨_, hbg⟩ | hb' := new b r' hb
      · exact absurd (hid.trans hbg) (h.findProtocolEntry_none hnone ha')
      · exact h.ids a b r r' ha' hb' hid

theorem Linked.createProtocolEntry (h : db.Linked) {g : Guid} {e : Addr}
    (hnone : db.findProtocolEntry g = none) (he : db.entries e = none) :
    (db.createProtocolEntry g e).Linked where
  byHandle := h.byHandle
  byProtocol := by
    have hl : (db.createProtocolEntry g e).entryLists = Function.update db.entryLists e (some []) :=
      entryLists_update db e (some ⟨g, [], []⟩)
    rw [hl]
    exact h.byProtocol.addKey (by rw [entryLists, he]; rfl)
  allHandles := h.allHandles
  allEntries := (h.named.createProtocolEntry hnone he).allEntries
  ids := (h.named.createProtocolEntry hnone he).ids
  once := h.once
  counted := h.counted
  null := h.null

theorem Linked.newHandle (h : db.Linked) {a : Addr} (ha : db.handles a = none) (h0 : a ≠ 0) :
    (db.newHandle a).Linked where
  byHandle := by
    have hl : (db.newHandle a).handleLists = Function.update db.handleLists a (some []) :=
      handleLists_update db a (some ⟨[], 0, db.handleDatabaseKey + 1⟩)
    rw [hl]
    exact h.byHandle.addKey (by rw [handleLists, ha]; rfl)
  byProtocol := h.byProtocol
  allHandles := h.allHandles.enumerate_insert ha (List.perm_append_singleton _ _)
  allEntries := h.allEntries
  ids := h.ids
  once := h.once
  counted := h.counted
  null := by
    show Function.update db.handles a _ 0 = none
    rw [Function.update_of_ne (Ne.symm h0)]
    exact h.null

/-- Rewriting an entry keeps the identifiers apart. -/
theorem Named.ids_update (h : db.Named) {e : Addr} {entry entry' : ProtocolEntry}
    (he : db.entries e = some entry) (hid : entry'.protocolID = entry.protocolID) :
    ∀ x y r r', Function.update db.entries e (some entry') x = some r →
      Function.update db.entries e (some entry') y = some r' →
      r.protocolID = r'.protocolID → x = y := by
  have id : ∀ x r, Function.update db.entries e (some entry') x = some r →
      ∃ r', db.entries x = some r' ∧ r.protocolID = r'.protocolID := by
    intro x r hx
    by_cases hxe : x = e
    · subst hxe
      rw [Function.update_self] at hx
      cases hx
      exact ⟨entry, he, hid⟩
    · rw [Function.update_of_ne hxe] at hx
      exact ⟨r, hx, rfl⟩
  intro x y r r' hx hy hid
  obtain ⟨s, hs, hsr⟩ := id x r hx
  obtain ⟨s', hs', hsr'⟩ := id y r' hy
  exact h.ids x y s s' hs hs' (by rw [← hsr, ← hsr', hid])

theorem Linked.null_update (h : db.Linked) {a : Addr} {handle : IHandle A}
    (ha : db.handles a = some handle) (x : Option (IHandle A)) :
    Function.update db.handles a x 0 = none := by
  rw [Function.update_of_ne]
  · exact h.null
  · rintro rfl
    rw [h.null] at ha
    cases ha

/-- Writing to a handle without changing its list. -/
theorem Linked.modifyHandle (h : db.Linked) (a : Addr) {f : IHandle A → IHandle A}
    (hf : ∀ handle, (f handle).protocols = handle.protocols) : (db.modifyHandle a f).Linked := by
  cases ha : db.handles a with
  | none =>
    refine h.congr rfl ?_ rfl rfl rfl
    show Function.update db.handles a ((db.handles a).map f) = _
    rw [ha, Option.map_none, ← ha, Function.update_eq_self]
  | some handle =>
    have hh : (db.modifyHandle a f).handles = Function.update db.handles a (some (f handle)) := by
      rw [Database.modifyHandle, ha, Option.map_some]
    have hl : (db.modifyHandle a f).handleLists = db.handleLists := by
      show (fun x => ((db.modifyHandle a f).handles x).map _) = _
      rw [hh, handleLists_update, Option.map_some, hf, Function.update_eq_self_iff, handleLists, ha,
        Option.map_some]
    constructor
    · rw [hl]; exact h.byHandle
    · exact h.byProtocol
    · rw [hh]; exact h.allHandles.set ha rfl
    · exact h.allEntries
    · exact h.ids
    · exact h.once
    · exact h.counted
    · rw [hh]
      exact h.null_update ha _

theorem WellFormed.modifyHandle (h : db.WellFormed) (a : Addr) {f : IHandle A → IHandle A}
    (hf : ∀ handle, (f handle).protocols = handle.protocols) :
    (db.modifyHandle a f).WellFormed := by
  refine ⟨h.toLinked.modifyHandle a hf, ?_⟩
  intro x handle hx
  by_cases hxa : x = a
  · subst hxa
    replace hx : Function.update db.handles x ((db.handles x).map f) x = some handle := hx
    rw [Function.update_self] at hx
    obtain ⟨old, hold, rfl⟩ := Option.map_eq_some_iff.mp hx
    rw [hf]
    exact h.inUse x old hold
  · replace hx : Function.update db.handles a ((db.handles a).map f) x = some handle := hx
    rw [Function.update_of_ne hxa] at hx
    exact h.inUse x handle hx

/-- Writing to an interface without moving it. -/
theorem Linked.modifyInterface (h : db.Linked) (p : Addr)
    {f : ProtocolInterface A → ProtocolInterface A} (hh : ∀ r, (f r).handle = r.handle)
    (hp : ∀ r, (f r).protocol = r.protocol)
    (hc : ∀ r, r.openListCount = BitVec.ofNat _ r.openList.length →
      (f r).openListCount = BitVec.ofNat _ (f r).openList.length) :
    (db.modifyInterface p f).Linked := by
  cases hprot : db.interfaces p with
  | none =>
    refine h.congr ?_ rfl rfl rfl rfl
    show Function.update db.interfaces p ((db.interfaces p).map f) = _
    rw [hprot, Option.map_none, ← hprot, Function.update_eq_self]
  | some prot =>
    have hi : (db.modifyInterface p f).interfaces =
        Function.update db.interfaces p (some (f prot)) := by
      rw [Database.modifyInterface, hprot, Option.map_some]
    have old : ∀ q r, Function.update db.interfaces p (some (f prot)) q = some r →
        ∃ r', db.interfaces q = some r' ∧ r.handle = r'.handle ∧ r.protocol = r'.protocol ∧
          (r'.openListCount = BitVec.ofNat _ r'.openList.length →
            r.openListCount = BitVec.ofNat _ r.openList.length) := by
      intro q r hq
      by_cases hqp : q = p
      · subst hqp
        rw [Function.update_self] at hq
        cases hq
        exact ⟨prot, hprot, hh prot, hp prot, hc prot⟩
      · rw [Function.update_of_ne hqp] at hq
        exact ⟨r, hq, rfl, rfl, id⟩
    constructor
    · rw [hi]; exact h.byHandle.set hprot (hh prot)
    · rw [hi]; exact h.byProtocol.set hprot (hp prot)
    · exact h.allHandles
    · exact h.allEntries
    · exact h.ids
    · intro q q' a b ha hb hab hab'
      rw [hi] at ha hb
      obtain ⟨a', ha', hah, hap, _⟩ := old q a ha
      obtain ⟨b', hb', hbh, hbp, _⟩ := old q' b hb
      exact h.once q q' a' b' ha' hb' (by rw [← hah, ← hbh, hab]) (by rw [← hap, ← hbp, hab'])
    · intro q r hq
      rw [hi] at hq
      obtain ⟨r', hr', _, _, hcount⟩ := old q r hq
      exact hcount (h.counted q r' hr')
    · exact h.null

theorem notifyProtocolEntry_eq (db : Database A) (e : Addr) :
    ∃ signalled, db.notifyProtocolEntry e = { db with signalled } := by
  unfold notifyProtocolEntry
  split
  · exact ⟨_, rfl⟩
  · exact ⟨_, rfl⟩

theorem WellFormed.notifyProtocolEntry (h : db.WellFormed) (e : Addr) :
    (db.notifyProtocolEntry e).WellFormed := by
  obtain ⟨_, heq⟩ := notifyProtocolEntry_eq db e
  rw [heq]
  exact h.congr rfl rfl rfl rfl rfl

/-! ### Installing -/

/-- A new interface on a handle that does not carry the protocol. -/
theorem Linked.linkInterface (h : db.Linked) {p a e : Addr} {i : Nat} {handle : IHandle A}
    {entry : ProtocolEntry} (hp : db.interfaces p = none) (ha : db.handles a = some handle)
    (he : db.entries e = some entry)
    (hnew : ∀ q prot, db.interfaces q = some prot → ¬ (prot.handle = a ∧ prot.protocol = e)) :
    (db.linkInterface p a e i).Linked := by
  have hh : (db.linkInterface p a e i).handles = Function.update db.handles a
      (some { handle with protocols := p :: handle.protocols }) := by
    simp only [Database.linkInterface, Database.modifyHandle, Database.modifyEntry, ha,
      Option.map_some]
  have hn : (db.linkInterface p a e i).entries = Function.update db.entries e
      (some { entry with protocols := entry.protocols ++ [p] }) := by
    simp only [Database.linkInterface, Database.modifyHandle, Database.modifyEntry, he,
      Option.map_some]
  have hhl : (db.linkInterface p a e i).handleLists =
      Function.update db.handleLists a (some (p :: handle.protocols)) := by
    show (fun x => ((db.linkInterface p a e i).handles x).map _) = _
    rw [hh, handleLists_update, Option.map_some]
  have hel : (db.linkInterface p a e i).entryLists =
      Function.update db.entryLists e (some (entry.protocols ++ [p])) := by
    show (fun x => ((db.linkInterface p a e i).entries x).map _) = _
    rw [hn, entryLists_update, Option.map_some]
  have hla : db.handleLists a = some handle.protocols := by rw [handleLists, ha, Option.map_some]
  have hle : db.entryLists e = some entry.protocols := by rw [entryLists, he, Option.map_some]
  have old : ∀ q r, Function.update db.interfaces p (some ⟨a, e, i, [], 0⟩) q = some r →
      (q = p ∧ r = ⟨a, e, i, [], 0⟩) ∨ db.interfaces q = some r := by
    intro q r hq
    by_cases hqp : q = p
    · subst hqp
      rw [Function.update_self] at hq
      cases hq
      exact .inl ⟨rfl, rfl⟩
    · rw [Function.update_of_ne hqp] at hq
      exact .inr hq
  constructor
  · rw [hhl]
    exact h.byHandle.insert (v := ⟨a, e, i, [], 0⟩) hp hla (List.Perm.refl _)
  · rw [hel]
    exact h.byProtocol.insert (v := ⟨a, e, i, [], 0⟩) hp hle (List.perm_append_singleton _ _)
  · rw [hh]
    exact h.allHandles.set ha rfl
  · rw [hn]
    exact h.allEntries.set he rfl
  · rw [hn]
    exact h.named.ids_update he rfl
  · intro q q' r r' hr hr' hhandle hprotocol
    obtain ⟨hqp, hreq⟩ | hr := old q r hr
    · obtain ⟨hqp', _⟩ | hr' := old q' r' hr'
      · rw [hqp, hqp']
      · subst hreq
        exact absurd ⟨hhandle.symm, hprotocol.symm⟩ (hnew q' r' hr')
    · obtain ⟨_, hreq'⟩ | hr' := old q' r' hr'
      · subst hreq'
        exact absurd ⟨hhandle, hprotocol⟩ (hnew q r hr)
      · exact h.once q q' r r' hr hr' hhandle hprotocol
  · intro q r hr
    obtain ⟨_, hreq⟩ | hr := old q r hr
    · subst hreq
      rfl
    · exact h.counted q r hr
  · rw [hh, Function.update_of_ne]
    · exact h.null
    · rintro rfl
      rw [h.null] at ha
      cases ha

/-! ### Removing and moving an interface -/

theorem Linked.removeInterfaceFromProtocol (h : db.Linked) {p a : Addr} {g : Guid} {i : Nat}
    {prot : ProtocolInterface A} (hholds : db.Holds p a g i) (hp : db.interfaces p = some prot) :
    db.removeInterfaceFromProtocol a g i = (db.removeByProtocol prot.protocol p, some p) := by
  unfold Database.removeInterfaceFromProtocol
  rw [(h.findProtocolInterface a g i p).mpr hholds]
  dsimp only
  rw [hp]

/-- What `UninstallProtocolInterface` has done when it looks whether the handle is empty. -/
def unlinked (db : Database A) (a p e : Addr) : Database A :=
  ((db.removeByProtocol e p).touchHandle a).freeInterface a p

section Unlinked

variable {p a e : Addr} {prot : ProtocolInterface A} {handle : IHandle A} {entry : ProtocolEntry}

theorem unlinked_interfaces (he : db.entries e = some entry) :
    (db.unlinked a p e).interfaces = Function.update db.interfaces p none := by
  simp only [unlinked, freeInterface, touchHandle, Database.modifyHandle, removeByProtocol, he]

theorem unlinked_entries (he : db.entries e = some entry) :
    (db.unlinked a p e).entries =
      Function.update db.entries e (some { entry with protocols := entry.protocols.erase p }) := by
  simp only [unlinked, freeInterface, touchHandle, Database.modifyHandle, removeByProtocol, he]

theorem unlinked_handles (ha : db.handles a = some handle) (he : db.entries e = some entry) :
    (db.unlinked a p e).handles = Function.update db.handles a
      (some { handle with
        protocols := handle.protocols.erase p
        key := db.handleDatabaseKey + 1 }) := by
  simp only [unlinked, freeInterface, touchHandle, Database.modifyHandle, removeByProtocol, he, ha,
    Function.update_self, Option.map_some, Function.update_idem]

theorem unlinked_handleList (he : db.entries e = some entry) :
    (db.unlinked a p e).handleList = db.handleList := by
  simp only [unlinked, freeInterface, touchHandle, Database.modifyHandle, removeByProtocol, he]

theorem unlinked_protocolDatabase (he : db.entries e = some entry) :
    (db.unlinked a p e).protocolDatabase = db.protocolDatabase := by
  simp only [unlinked, freeInterface, touchHandle, Database.modifyHandle, removeByProtocol, he]

theorem Linked.unlinked (h : db.Linked) (hp : db.interfaces p = some prot)
    (ha : db.handles prot.handle = some handle) (he : db.entries prot.protocol = some entry) :
    (db.unlinked prot.handle p prot.protocol).Linked := by
  have hi := @unlinked_interfaces _ _ p prot.handle _ _ he
  have hh := @unlinked_handles _ _ p _ _ _ _ ha he
  have hn := @unlinked_entries _ _ p prot.handle _ _ he
  have hhl : (db.unlinked prot.handle p prot.protocol).handleLists =
      Function.update db.handleLists prot.handle (some (handle.protocols.erase p)) := by
    show (fun x => ((db.unlinked prot.handle p prot.protocol).handles x).map _) = _
    rw [hh, handleLists_update, Option.map_some]
  have hel : (db.unlinked prot.handle p prot.protocol).entryLists =
      Function.update db.entryLists prot.protocol (some (entry.protocols.erase p)) := by
    show (fun x => ((db.unlinked prot.handle p prot.protocol).entries x).map _) = _
    rw [hn, entryLists_update, Option.map_some]
  have old : ∀ q r, Function.update db.interfaces p none q = some r → db.interfaces q = some r := by
    intro q r hq
    by_cases hqp : q = p
    · subst hqp
      rw [Function.update_self] at hq
      cases hq
    · rwa [Function.update_of_ne hqp] at hq
  constructor
  · rw [hi, hhl]
    exact h.byHandle.erase hp (by rw [handleLists, ha, Option.map_some])
  · rw [hi, hel]
    exact h.byProtocol.erase hp (by rw [entryLists, he, Option.map_some])
  · rw [hh, unlinked_handleList he]
    exact h.allHandles.set ha rfl
  · rw [hn, unlinked_protocolDatabase he]
    exact h.allEntries.set he rfl
  · rw [hn]
    exact h.named.ids_update he rfl
  · rw [hi]
    intro q q' r r' hr hr'
    exact h.once q q' r r' (old q r hr) (old q' r' hr')
  · rw [hi]
    intro q r hr
    exact h.counted q r (old q r hr)
  · rw [hh]
    exact h.null_update ha _

end Unlinked

/-- Freeing the handle that may have lost its last interface. -/
theorem Linked.freeHandleIfEmpty (h : db.Linked) (a : Addr)
    (hothers : ∀ x handle, x ≠ a → db.handles x = some handle → handle.protocols ≠ []) :
    (db.freeHandleIfEmpty a).WellFormed := by
  unfold Database.freeHandleIfEmpty
  cases ha : db.handles a with
  | none =>
    refine ⟨h, fun x handle hx => hothers x handle ?_ hx⟩
    rintro rfl
    rw [ha] at hx
    cases hx
  | some handle =>
    dsimp only
    split
    · rename_i hempty
      have hl : (fun x => (Function.update db.handles a none x).map (·.protocols)) =
          Function.update db.handleLists a none := handleLists_update db a none
      refine ⟨⟨?_, h.byProtocol, h.allHandles.enumerate_erase ha, h.allEntries, h.ids, h.once,
        h.counted, h.null_update ha none⟩, ?_⟩
      · show Indexed db.interfaces _ (fun x => (Function.update db.handles a none x).map (·.protocols))
        rw [hl]
        exact h.byHandle.dropKey (by rw [handleLists, ha, Option.map_some, hempty])
      · intro x handle' hx
        by_cases hxa : x = a
        · subst hxa
          replace hx : Function.update db.handles x none x = some handle' := hx
          rw [Function.update_self] at hx
          cases hx
        · replace hx : Function.update db.handles a none x = some handle' := hx
          rw [Function.update_of_ne hxa] at hx
          exact hothers x handle' hxa hx
    · rename_i hne
      refine ⟨h, fun x handle' hx => ?_⟩
      by_cases hxa : x = a
      · subst hxa
        rw [ha] at hx
        cases hx
        exact hne
      · exact hothers x handle' hxa hx

/-- What `ReinstallProtocolInterface` has done when it connects the drivers. -/
def moved (db : Database A) (a p e : Addr) (new : Nat) : Database A :=
  ((db.removeByProtocol e p).touchHandle a).reinsertInterface p e new

section Moved

variable {p a e : Addr} {new : Nat} {prot : ProtocolInterface A} {handle : IHandle A}
  {entry : ProtocolEntry}

theorem moved_interfaces (hp : db.interfaces p = some prot) (he : db.entries e = some entry) :
    (db.moved a p e new).interfaces =
      Function.update db.interfaces p (some { prot with interface := new }) := by
  simp only [moved, reinsertInterface, touchHandle, Database.modifyHandle, modifyEntry,
    Database.modifyInterface, removeByProtocol, he, hp, Option.map_some]

theorem moved_entries (he : db.entries e = some entry) :
    (db.moved a p e new).entries = Function.update db.entries e
      (some { entry with protocols := entry.protocols.erase p ++ [p] }) := by
  simp only [moved, reinsertInterface, touchHandle, Database.modifyHandle, modifyEntry,
    Database.modifyInterface, removeByProtocol, he, Function.update_self, Option.map_some,
    Function.update_idem]

theorem moved_handles (ha : db.handles a = some handle) (he : db.entries e = some entry) :
    (db.moved a p e new).handles = Function.update db.handles a
      (some { handle with key := db.handleDatabaseKey + 1 }) := by
  simp only [moved, reinsertInterface, touchHandle, Database.modifyHandle, modifyEntry,
    Database.modifyInterface, removeByProtocol, he, ha, Option.map_some]

theorem moved_handleList (he : db.entries e = some entry) :
    (db.moved a p e new).handleList = db.handleList := by
  simp only [moved, reinsertInterface, touchHandle, Database.modifyHandle, modifyEntry,
    Database.modifyInterface, removeByProtocol, he]

theorem moved_protocolDatabase (he : db.entries e = some entry) :
    (db.moved a p e new).protocolDatabase = db.protocolDatabase := by
  simp only [moved, reinsertInterface, touchHandle, Database.modifyHandle, modifyEntry,
    Database.modifyInterface, removeByProtocol, he]

theorem WellFormed.moved (h : db.WellFormed) (new : Nat) (hp : db.interfaces p = some prot)
    (ha : db.handles prot.handle = some handle) (he : db.entries prot.protocol = some entry) :
    (db.moved prot.handle p prot.protocol new).WellFormed := by
  have hi := @moved_interfaces _ _ p prot.handle _ new _ _ hp he
  have hh := @moved_handles _ _ p _ _ new _ _ ha he
  have hn := @moved_entries _ _ p prot.handle _ new _ he
  have hhl : (db.moved prot.handle p prot.protocol new).handleLists = db.handleLists := by
    show (fun x => ((db.moved prot.handle p prot.protocol new).handles x).map _) = _
    rw [hh, handleLists_update, Option.map_some, Function.update_eq_self_iff, handleLists, ha,
      Option.map_some]
  have hel : (db.moved prot.handle p prot.protocol new).entryLists =
      Function.update db.entryLists prot.protocol (some (entry.protocols.erase p ++ [p])) := by
    show (fun x => ((db.moved prot.handle p prot.protocol new).entries x).map _) = _
    rw [hn, entryLists_update, Option.map_some]
  have hperm : (entry.protocols.erase p ++ [p]).Perm entry.protocols :=
    (List.perm_append_singleton _ _).trans
      (List.perm_cons_erase ((h.mem_byProtocol he p).mpr ⟨prot, hp, rfl⟩)).symm
  have old : ∀ q r, Function.update db.interfaces p (some { prot with interface := new }) q =
      some r → ∃ r', db.interfaces q = some r' ∧ r.handle = r'.handle ∧ r.protocol = r'.protocol ∧
        r.openListCount = r'.openListCount ∧ r.openList = r'.openList := by
    intro q r hq
    by_cases hqp : q = p
    · subst hqp
      rw [Function.update_self] at hq
      cases hq
      exact ⟨prot, hp, rfl, rfl, rfl, rfl⟩
    · rw [Function.update_of_ne hqp] at hq
      exact ⟨r, hq, rfl, rfl, rfl, rfl⟩
  refine ⟨?_, ?_⟩
  · constructor
    · rw [hi, hhl]
      exact h.byHandle.set hp rfl
    · have hset : Indexed (Function.update db.interfaces p (some { prot with interface := new }))
          (·.protocol) db.entryLists := h.byProtocol.set hp rfl
      rw [hi, hel]
      exact hset.permute (by rw [entryLists, he, Option.map_some]) hperm
    · rw [hh, moved_handleList he]
      exact h.allHandles.set ha rfl
    · rw [hn, moved_protocolDatabase he]
      exact h.allEntries.set he rfl
    · rw [hn]
      exact h.named.ids_update he rfl
    · rw [hi]
      intro q q' r r' hr hr' hhandle hprotocol
      obtain ⟨s, hs, hsh, hsp, _⟩ := old q r hr
      obtain ⟨s', hs', hsh', hsp', _⟩ := old q' r' hr'
      exact h.once q q' s s' hs hs' (by rw [← hsh, ← hsh', hhandle])
        (by rw [← hsp, ← hsp', hprotocol])
    · rw [hi]
      intro q r hr
      obtain ⟨s, hs, _, _, hcount, hlist⟩ := old q r hr
      rw [hcount, hlist]
      exact h.counted q s hs
    · rw [hh]
      exact h.null_update ha _
  · rw [hh]
    intro x handle' hx
    by_cases hxa : x = prot.handle
    · subst hxa
      rw [Function.update_self] at hx
      cases hx
      exact h.inUse _ handle ha
    · rw [Function.update_of_ne hxa] at hx
      exact h.inUse x handle' hx

end Moved

end Edits

end Database

end EfiCore.Hand
