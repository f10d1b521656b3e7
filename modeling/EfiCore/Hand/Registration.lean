import EfiCore.Hand.Ledger
import EfiCore.Lib.Cursor

/-! # A registration is told of every installation once

`Tracks` relates the database to the ledger of what happened to it: a protocol's list holds the
live installations in their order, and behind the position of a registration stands what is due
to it.  One lemma an edit, then one a section, and `Machine.Path.simulate` carries them to runs.
-/

namespace EfiCore.Hand

open EfiCore.Lib

variable {A : Arch}

/-! ## The relation -/

/-- The fields of a `PROTOCOL_INTERFACE` that a locate call shows, and the list it is on. -/
def ProtocolInterface.face (prot : ProtocolInterface A) : Addr × Addr × Nat :=
  (prot.handle, prot.protocol, prot.interface)

/-- `Position` of every registration is the head of the protocol's list or on it. -/
def Database.Positioned (db : Database A) : Prop :=
  ∀ n notify, db.notifies n = some notify → ∃ entry, db.entries notify.protocol = some entry ∧
    ∀ p, notify.position = some p → p ∈ entry.protocols

def Database.notifyLists (db : Database A) (e : Addr) : Option (List Addr) :=
  (db.entries e).map (·.notify)

structure Tracks (db : Database A) (l : Ledger) : Prop where
  ordered : l.Ordered
  named : db.Named
  byProtocol : Indexed db.interfaces (·.protocol) db.entryLists
  byNotify : Indexed db.notifies (·.protocol) db.notifyLists
  unlisted : ∀ g, (∀ e entry, db.entries e = some entry → entry.protocolID ≠ g) → l.live g = []
  listed : ∀ e entry, db.entries e = some entry →
    (l.live entry.protocolID).map (·.record) = entry.protocols
  current : ∀ e entry, db.entries e = some entry → ∀ i ∈ l.live entry.protocolID,
    (db.interfaces i.record).map (·.face) = some (i.handle, e, i.interface)
  unregistered : ∀ n, db.notifies n = none → l.registered n = none
  placed : ∀ n notify, db.notifies n = some notify → ∀ entry,
    db.entries notify.protocol = some entry → l.registered n = some entry.protocolID ∧
      Cursor entry.protocols notify.position ((l.due n).map (·.record))

/-! ## What it says about one list -/

section Lists

variable {db : Database A} {l : Ledger} {e : Addr} {entry : ProtocolEntry}

theorem Tracks.nodup (h : Tracks db l) (he : db.entries e = some entry) :
    entry.protocols.Nodup :=
  h.byProtocol.nodup e _ (by rw [Database.entryLists, he, Option.map_some])

theorem Tracks.live_nodup (h : Tracks db l) (he : db.entries e = some entry) :
    ((l.live entry.protocolID).map (·.record)).Nodup := by
  rw [h.listed e entry he]
  exact h.nodup he

theorem Tracks.mem_protocols (h : Tracks db l) (he : db.entries e = some entry) (p : Addr) :
    p ∈ entry.protocols ↔ ∃ prot, db.interfaces p = some prot ∧ prot.protocol = e :=
  h.byProtocol.mem e _ (by rw [Database.entryLists, he, Option.map_some]) p

theorem Tracks.entry_of_interface (h : Tracks db l) {p : Addr} {prot : ProtocolInterface A}
    (hp : db.interfaces p = some prot) : ∃ entry, db.entries prot.protocol = some entry := by
  obtain ⟨ps, hps⟩ := h.byProtocol.total p prot hp
  obtain ⟨entry, he, _⟩ := Option.map_eq_some_iff.mp hps
  exact ⟨entry, he⟩

theorem Tracks.entry_of_notify (h : Tracks db l) {n : Addr} {notify : ProtocolNotify}
    (hn : db.notifies n = some notify) : ∃ entry, db.entries notify.protocol = some entry := by
  obtain ⟨ns, hns⟩ := h.byNotify.total n notify hn
  obtain ⟨entry, he, _⟩ := Option.map_eq_some_iff.mp hns
  exact ⟨entry, he⟩

theorem Tracks.positioned (h : Tracks db l) : db.Positioned := by
  intro n notify hn
  obtain ⟨entry, he⟩ := h.entry_of_notify hn
  refine ⟨entry, he, ?_⟩
  intro p hp
  have hcursor := (h.placed n notify hn entry he).2
  rw [hp] at hcursor
  exact hcursor.mem

/-- The live installation that stands for an interface. -/
theorem Tracks.live_of_interface (h : Tracks db l) {p : Addr} {prot : ProtocolInterface A}
    (hp : db.interfaces p = some prot) (he : db.entries prot.protocol = some entry) :
    ∃ i ∈ l.live entry.protocolID, i.record = p ∧ i.handle = prot.handle := by
  have hm := (h.mem_protocols he p).mpr ⟨prot, hp, rfl⟩
  rw [← h.listed _ entry he] at hm
  obtain ⟨i, hi, rfl⟩ := List.mem_map.mp hm
  have hface := h.current _ entry he i hi
  rw [hp] at hface
  simp only [Option.map_some, Option.some.injEq, ProtocolInterface.face, Prod.mk.injEq] at hface
  exact ⟨i, hi, rfl, hface.1.symm⟩

theorem map_record_filter {is : List Installation} (hnodup : (is.map (·.record)).Nodup) (p : Addr) :
    (is.filter (·.record ≠ p)).map (·.record) = (is.map (·.record)).erase p := by
  rw [hnodup.erase_eq_filter, List.filter_map]
  congr 1
  apply List.filter_congr
  intro i _
  by_cases hp : i.record = p <;> simp [hp]

/-- `Position->Flink` of a cursor is the first of what follows it. -/
theorem flink_eq_head? {ps rest : List Addr} {pos : Option Addr} (h : Cursor ps pos rest)
    (hnodup : ps.Nodup) : flink ps pos = rest.head? := by
  cases pos with
  | none => cases h; rfl
  | some p => exact h.next hnodup

end Lists

/-! ## Edits that no registration sees -/

structure SameListing (db db' : Database A) : Prop where
  entries : db'.entries = db.entries
  notifies : db'.notifies = db.notifies
  protocolDatabase : db'.protocolDatabase = db.protocolDatabase
  faces : ∀ p, (db'.interfaces p).map (·.face) = (db.interfaces p).map (·.face)

theorem SameListing.refl (db : Database A) : SameListing db db := ⟨rfl, rfl, rfl, fun _ => rfl⟩

theorem SameListing.trans {db db' db'' : Database A} (h : SameListing db db')
    (h' : SameListing db' db'') : SameListing db db'' :=
  ⟨h'.entries.trans h.entries, h'.notifies.trans h.notifies,
    h'.protocolDatabase.trans h.protocolDatabase, fun p => (h'.faces p).trans (h.faces p)⟩

/-- Edits of handles, counters and events. -/
theorem SameListing.of_eq {db db' : Database A} (hi : db'.interfaces = db.interfaces)
    (he : db'.entries = db.entries) (hn : db'.notifies = db.notifies)
    (hd : db'.protocolDatabase = db.protocolDatabase) : SameListing db db' :=
  ⟨he, hn, hd, fun p => by rw [hi]⟩

theorem SameListing.modifyInterface (db : Database A) (p : Addr)
    {f : ProtocolInterface A → ProtocolInterface A} (hf : ∀ prot, (f prot).face = prot.face) :
    SameListing db (db.modifyInterface p f) := by
  refine ⟨rfl, rfl, rfl, ?_⟩
  intro q
  unfold Database.modifyInterface
  by_cases hq : q = p
  · subst hq
    simp only [Function.update_self, Option.map_map]
    congr 1
    funext prot
    exact hf prot
  · simp only [Function.update_of_ne hq]

theorem Tracks.congr {db db' : Database A} {l : Ledger} (h : Tracks db l)
    (hs : SameListing db db') : Tracks db' l := by
  have hel : db'.entryLists = db.entryLists := by
    funext e
    rw [Database.entryLists, Database.entryLists, hs.entries]
  have hnl : db'.notifyLists = db.notifyLists := by
    funext e
    rw [Database.notifyLists, Database.notifyLists, hs.entries]
  have hkey : ∀ p, (db'.interfaces p).map (·.protocol) = (db.interfaces p).map (·.protocol) := by
    intro p
    have := congrArg (Option.map fun f => f.2.1) (hs.faces p)
    simpa only [Option.map_map, Function.comp_def, ProtocolInterface.face] using this
  constructor
  · exact h.ordered
  · exact ⟨by rw [hs.entries, hs.protocolDatabase]; exact h.named.allEntries,
      by rw [hs.entries]; exact h.named.ids⟩
  · rw [hel]
    exact h.byProtocol.rekey hkey
  · rw [hs.notifies, hnl]
    exact h.byNotify
  · rw [hs.entries]
    exact h.unlisted
  · rw [hs.entries]
    exact h.listed
  · intro e entry he i hi
    rw [hs.entries] at he
    rw [hs.faces]
    exact h.current e entry he i hi
  · rw [hs.notifies]
    exact h.unregistered
  · rw [hs.notifies, hs.entries]
    exact h.placed

/-! ## A new entry -/

section Edits

variable {db : Database A} {l : Ledger}

theorem notifyLists_update (db : Database A) (e : Addr) (x : Option ProtocolEntry) :
    (fun a => (Function.update db.entries e x a).map (·.notify)) =
      Function.update db.notifyLists e (x.map (·.notify)) :=
  map_update ..

theorem Tracks.createProtocolEntry (h : Tracks db l) {g : Guid} {e : Addr}
    (hnone : db.findProtocolEntry g = none) (he : db.entries e = none) :
    Tracks (db.createProtocolEntry g e) l := by
  have hlive : l.live g = [] :=
    h.unlisted g fun x entry hx => h.named.findProtocolEntry_none hnone hx
  have hother : ∀ x entry, db.entries x = some entry → x ≠ e := by
    rintro x entry hx rfl
    rw [he] at hx
    cases hx
  have hold : ∀ x entry, (db.createProtocolEntry g e).entries x = some entry →
      (x = e ∧ entry = ⟨g, [], []⟩) ∨ db.entries x = some entry := by
    intro x entry hx
    by_cases hxe : x = e
    · subst hxe
      simp only [Database.createProtocolEntry, Function.update_self, Option.some.injEq] at hx
      exact .inl ⟨rfl, hx.symm⟩
    · simp only [Database.createProtocolEntry, Function.update_of_ne hxe] at hx
      exact .inr hx
  have hkeep : ∀ x entry, db.entries x = some entry →
      (db.createProtocolEntry g e).entries x = some entry := by
    intro x entry hx
    simpa only [Database.createProtocolEntry, Function.update_of_ne (hother x entry hx)] using hx
  constructor
  · exact h.ordered
  · exact h.named.createProtocolEntry hnone he
  · have hl : (db.createProtocolEntry g e).entryLists = Function.update db.entryLists e (some []) :=
      Database.entryLists_update db e (some ⟨g, [], []⟩)
    rw [hl]
    exact h.byProtocol.addKey (by rw [Database.entryLists, he]; rfl)
  · have hl : (db.createProtocolEntry g e).notifyLists =
        Function.update db.notifyLists e (some []) := notifyLists_update db e (some ⟨g, [], []⟩)
    rw [hl]
    exact h.byNotify.addKey (by rw [Database.notifyLists, he]; rfl)
  · exact fun g' hg' => h.unlisted g' fun x entry hx => hg' x entry (hkeep x entry hx)
  · intro x entry hx
    obtain ⟨rfl, rfl⟩ | hx := hold x entry hx
    · rw [hlive]
      rfl
    · exact h.listed x entry hx
  · intro x entry hx i hi
    obtain ⟨rfl, rfl⟩ | hx := hold x entry hx
    · rw [hlive] at hi
      cases hi
    · exact h.current x entry hx i hi
  · exact h.unregistered
  · intro n notify hn entry hx
    obtain ⟨entry', hentry⟩ := h.entry_of_notify hn
    obtain ⟨heq, _⟩ | hx := hold _ entry hx
    · exact absurd heq (hother _ entry' hentry)
    · exact h.placed n notify hn entry hx

theorem Tracks.findOrCreateEntry (h : Tracks db l) (g : Guid) {memory : Option Addr}
    (hfresh : ∀ a, memory = some a → db.Fresh a) :
    Tracks (db.findOrCreateEntry g memory).1 l ∧
      (db.findOrCreateEntry g memory).1.interfaces = db.interfaces ∧
      (db.findOrCreateEntry g memory).1.notifies = db.notifies ∧
      ∀ e, (db.findOrCreateEntry g memory).2 = some e →
        ∃ entry, (db.findOrCreateEntry g memory).1.entries e = some entry ∧
          entry.protocolID = g := by
  unfold Database.findOrCreateEntry
  cases hfind : db.findProtocolEntry g with
  | some e =>
    refine ⟨h, rfl, rfl, ?_⟩
    rintro _ ⟨⟩
    exact (h.named.findProtocolEntry g e).mp hfind
  | none =>
    cases memory with
    | none => exact ⟨h, rfl, rfl, by rintro _ ⟨⟩⟩
    | some e =>
      refine ⟨h.createProtocolEntry hfind (hfresh e rfl).entries, rfl, rfl, ?_⟩
      rintro _ ⟨⟩
      exact ⟨⟨g, [], []⟩, Function.update_self .., rfl⟩

/-! ## An interface enters a protocol's list -/

/-- The interface `prot` at `p`, at the tail of its protocol's list. -/
def enlisted (db : Database A) (p e : Addr) (prot : ProtocolInterface A) (entry : ProtocolEntry) :
    Database A :=
  { db with
    interfaces := Function.update db.interfaces p (some prot)
    entries := Function.update db.entries e
      (some { entry with protocols := entry.protocols ++ [p] }) }

variable {e p : Addr} {prot : ProtocolInterface A} {entry : ProtocolEntry}

/-- The entries after one of them was rewritten. -/
theorem update_entries {f : ProtocolEntry} {x : Addr} {r : ProtocolEntry}
    (hx : Function.update db.entries e (some f) x = some r) :
    (x = e ∧ r = f) ∨ (x ≠ e ∧ db.entries x = some r) := by
  by_cases hxe : x = e
  · subst hxe
    rw [Function.update_self] at hx
    cases hx
    exact .inl ⟨rfl, rfl⟩
  · rw [Function.update_of_ne hxe] at hx
    exact .inr ⟨hxe, hx⟩

theorem Tracks.id_ne (h : Tracks db l) (he : db.entries e = some entry) {x : Addr}
    {r : ProtocolEntry} (hx : db.entries x = some r) (hne : x ≠ e) :
    r.protocolID ≠ entry.protocolID :=
  fun hid => hne (h.named.ids x e r entry hx he hid)

theorem Tracks.named_update (h : Tracks db l) (he : db.entries e = some entry)
    {entry' : ProtocolEntry} (hid : entry'.protocolID = entry.protocolID) :
    ({ db with entries := Function.update db.entries e (some entry') } : Database A).Named :=
  ⟨h.named.allEntries.set he rfl, h.named.ids_update he hid⟩

/-- Rewriting an entry without changing its identifier leaves no protocol unlisted. -/
theorem update_entries_id (he : db.entries e = some entry) {entry' : ProtocolEntry}
    (hid : entry'.protocolID = entry.protocolID) {g : Guid}
    (hg : ∀ x r, Function.update db.entries e (some entry') x = some r → r.protocolID ≠ g) :
    ∀ x r, db.entries x = some r → r.protocolID ≠ g := by
  intro x r hx
  by_cases hxe : x = e
  · subst hxe
    rw [he] at hx
    cases hx
    rw [← hid]
    exact hg x entry' (Function.update_self ..)
  · exact hg x r (by rw [Function.update_of_ne hxe]; exact hx)

theorem Tracks.enlist (h : Tracks db l) (prot : ProtocolInterface A)
    (hp : db.interfaces p = none)
    (he : db.entries e = some entry) (hprot : prot.protocol = e) :
    Tracks (enlisted db p e prot entry)
      (l.install entry.protocolID p prot.handle prot.interface) := by
  have hle : db.entryLists e = some entry.protocols := by
    rw [Database.entryLists, he, Option.map_some]
  have hln : db.notifyLists e = some entry.notify := by
    rw [Database.notifyLists, he, Option.map_some]
  have hid : ({ entry with protocols := entry.protocols ++ [p] } : ProtocolEntry).protocolID =
    entry.protocolID := rfl
  constructor
  · exact h.ordered.install ..
  · exact ⟨(h.named_update he hid).allEntries, (h.named_update he hid).ids⟩
  · have hl : (enlisted db p e prot entry).entryLists =
        Function.update db.entryLists e (some (entry.protocols ++ [p])) :=
      Database.entryLists_update ..
    rw [hl]
    subst hprot
    exact h.byProtocol.insert hp hle (List.perm_append_singleton _ _)
  · have hl : (enlisted db p e prot entry).notifyLists =
        Function.update db.notifyLists e (some entry.notify) := notifyLists_update ..
    rw [hl, ← hln, Function.update_eq_self]
    exact h.byNotify
  · intro g hg
    have hold := update_entries_id he hid hg
    rw [Ledger.live_install h.ordered, if_neg (hold e entry he).symm]
    exact h.unlisted g hold
  · intro x r hx
    rw [Ledger.live_install h.ordered]
    obtain ⟨rfl, rfl⟩ | ⟨hne, hx⟩ := update_entries hx
    · rw [if_pos rfl, List.map_append, h.listed x entry he]
      rfl
    · rw [if_neg (h.id_ne he hx hne)]
      exact h.listed x r hx
  · intro x r hx i hi
    rw [Ledger.live_install h.ordered] at hi
    -- an installation that was there before is not at `p`
    have hold : ∀ y s, db.entries y = some s → i ∈ l.live s.protocolID →
        ((enlisted db p e prot entry).interfaces i.record).map (·.face) =
          some (i.handle, y, i.interface) := by
      intro y s hy hi
      have hface := h.current y s hy i hi
      have hne : i.record ≠ p := by
        rintro heq
        rw [heq, hp] at hface
        cases hface
      simpa only [enlisted, Function.update_of_ne hne] using hface
    obtain ⟨rfl, rfl⟩ | ⟨hne, hx⟩ := update_entries hx
    · rw [if_pos rfl] at hi
      obtain hi | hi := List.mem_append.mp hi
      · exact hold x entry he hi
      · rw [List.mem_singleton.mp hi]
        simp [enlisted, ProtocolInterface.face, hprot]
    · rw [if_neg (h.id_ne he hx hne)] at hi
      exact hold x r hx hi
  · exact h.unregistered
  · intro n notify hn r hx
    rw [Ledger.due_install h.ordered]
    obtain ⟨heq, rfl⟩ | ⟨hne, hx⟩ := update_entries hx
    · obtain ⟨hreg, hcursor⟩ := h.placed n notify hn entry (by rw [heq]; exact he)
      refine ⟨hreg, ?_⟩
      rw [if_pos hreg, List.map_append]
      exact hcursor.append p
    · obtain ⟨hreg, hcursor⟩ := h.placed n notify hn r hx
      refine ⟨hreg, ?_⟩
      rw [if_neg]
      · exact hcursor
      · rw [hreg]
        exact fun heq => h.id_ne he hx hne (Option.some.inj heq)

/-! ## An interface leaves a protocol's list -/

/-- The interface at `p` is off its protocol's list and gone. -/
def withdrawn (db : Database A) (p e : Addr) : Database A :=
  { db.removeByProtocol e p with interfaces := Function.update db.interfaces p none }

theorem removeByProtocol_entries (he : db.entries e = some entry) (p : Addr) :
    (db.removeByProtocol e p).entries = Function.update db.entries e
      (some { entry with protocols := entry.protocols.erase p }) := by
  rw [Database.removeByProtocol, he]

theorem removeByProtocol_protocolDatabase (db : Database A) (e p : Addr) :
    (db.removeByProtocol e p).protocolDatabase = db.protocolDatabase := by
  unfold Database.removeByProtocol
  split <;> rfl

/-- A registration for the protocol is backed up, another stays. -/
theorem Tracks.removeByProtocol_notifies (h : Tracks db l) (he : db.entries e = some entry)
    (p n : Addr) : (db.removeByProtocol e p).notifies n = (db.notifies n).map fun notify =>
      if notify.protocol = e then Database.backUp entry.protocols p notify else notify := by
  have hmem := h.byNotify.mem e entry.notify (by rw [Database.notifyLists, he, Option.map_some]) n
  rw [Database.removeByProtocol, he]
  dsimp only
  cases hn : db.notifies n with
  | none => simp
  | some notify =>
    rw [hn] at hmem
    by_cases hprot : notify.protocol = e
    · rw [if_pos (hmem.mpr ⟨notify, rfl, hprot⟩), Option.map_some, Option.map_some, if_pos hprot]
    · rw [if_neg, Option.map_some, if_neg hprot]
      rintro hm
      obtain ⟨_, ⟨⟩, heq⟩ := hmem.mp hm
      exact hprot heq

theorem backUp_protocol (ps : List Addr) (p : Addr) (notify : ProtocolNotify) :
    (Database.backUp ps p notify).protocol = notify.protocol := by
  unfold Database.backUp
  split <;> rfl

theorem backUp_position (ps : List Addr) (p : Addr) (notify : ProtocolNotify) :
    (Database.backUp ps p notify).position =
      if notify.position = some p then (ps.takeWhile (· ≠ p)).getLast? else notify.position := by
  unfold Database.backUp
  split <;> rfl

theorem Tracks.withdraw (h : Tracks db l) (hp : db.interfaces p = some prot)
    (he : db.entries prot.protocol = some entry) :
    Tracks (withdrawn db p prot.protocol) (l.uninstall entry.protocolID p) := by
  have hle : db.entryLists prot.protocol = some entry.protocols := by
    rw [Database.entryLists, he, Option.map_some]
  have hln : db.notifyLists prot.protocol = some entry.notify := by
    rw [Database.notifyLists, he, Option.map_some]
  have hentries : (withdrawn db p prot.protocol).entries = _ := removeByProtocol_entries he p
  have hnotifies := h.removeByProtocol_notifies he p
  have hid : ({ entry with protocols := entry.protocols.erase p } : ProtocolEntry).protocolID =
    entry.protocolID := rfl
  constructor
  · exact h.ordered.uninstall ..
  · have hnamed := h.named_update he hid
    exact ⟨by rw [hentries]; exact removeByProtocol_protocolDatabase db _ p ▸ hnamed.allEntries,
      by rw [hentries]; exact hnamed.ids⟩
  · have hl : (withdrawn db p prot.protocol).entryLists =
        Function.update db.entryLists prot.protocol (some (entry.protocols.erase p)) := by
      have := Database.entryLists_update db prot.protocol
        (some { entry with protocols := entry.protocols.erase p })
      rw [← hentries] at this
      exact this
    rw [hl]
    exact h.byProtocol.erase hp hle
  · have hl : (withdrawn db p prot.protocol).notifyLists = db.notifyLists := by
      have := notifyLists_update db prot.protocol
        (some { entry with protocols := entry.protocols.erase p })
      rw [← hentries, Option.map_some, ← hln, Function.update_eq_self] at this
      exact this
    rw [hl]
    apply h.byNotify.rekey
    intro n
    show ((db.removeByProtocol prot.protocol p).notifies n).map _ = _
    rw [hnotifies, Option.map_map]
    congr 1
    funext notify
    dsimp only [Function.comp_apply]
    split
    · exact backUp_protocol ..
    · rfl
  · intro g hg
    rw [hentries] at hg
    have hold := update_entries_id he hid hg
    rw [Ledger.live_uninstall h.ordered, if_neg (hold _ entry he).symm]
    exact h.unlisted g hold
  · intro x r hx
    rw [hentries] at hx
    rw [Ledger.live_uninstall h.ordered]
    obtain ⟨rfl, rfl⟩ | ⟨hne, hx⟩ := update_entries hx
    · rw [if_pos rfl, map_record_filter (h.live_nodup he), h.listed _ entry he]
    · rw [if_neg (h.id_ne he hx hne)]
      exact h.listed x r hx
  · intro x r hx i hi
    rw [hentries] at hx
    rw [Ledger.live_uninstall h.ordered] at hi
    have hkeep : ∀ y s, db.entries y = some s → i ∈ l.live s.protocolID → i.record ≠ p →
        ((withdrawn db p prot.protocol).interfaces i.record).map (·.face) =
          some (i.handle, y, i.interface) := by
      intro y s hy hi hne
      simpa only [withdrawn, Function.update_of_ne hne] using h.current y s hy i hi
    obtain ⟨rfl, rfl⟩ | ⟨hne, hx⟩ := update_entries hx
    · rw [if_pos rfl] at hi
      obtain ⟨hi, hrecord⟩ := List.mem_filter.mp hi
      exact hkeep _ entry he hi (by simpa using hrecord)
    · rw [if_neg (h.id_ne he hx hne)] at hi
      refine hkeep x r hx hi ?_
      -- `p` is on the list of another protocol
      intro heq
      have hface := h.current x r hx i hi
      rw [heq, hp] at hface
      simp only [Option.map_some, Option.some.injEq, ProtocolInterface.face, Prod.mk.injEq] at hface
      exact hne hface.2.1.symm
  · intro n hn
    have hn' : (db.removeByProtocol prot.protocol p).notifies n = none := hn
    rw [hnotifies, Option.map_eq_none_iff] at hn'
    exact h.unregistered n hn'
  · intro n notify' hn' r hx
    rw [hentries] at hx
    have hn : (db.removeByProtocol prot.protocol p).notifies n = some notify' := hn'
    rw [hnotifies, Option.map_eq_some_iff] at hn
    obtain ⟨notify, hn, rfl⟩ := hn
    rw [Ledger.due_uninstall h.ordered]
    by_cases hprot : notify.protocol = prot.protocol
    · rw [if_pos hprot, backUp_protocol, hprot, Function.update_self] at hx
      cases hx
      obtain ⟨hreg, hcursor⟩ := h.placed n notify hn entry (by rw [hprot]; exact he)
      refine ⟨hreg, ?_⟩
      have hdue : ((l.due n).map (·.record)).Nodup := by
        rw [Ledger.due, hreg]
        exact ((List.filter_sublist).map _).nodup (h.live_nodup he)
      rw [if_pos hreg, if_pos hprot, backUp_position, map_record_filter hdue]
      exact hcursor.erase (h.nodup he) p
    · rw [if_neg hprot, Function.update_of_ne hprot] at hx
      obtain ⟨hreg, hcursor⟩ := h.placed n notify hn r hx
      refine ⟨hreg, ?_⟩
      rw [if_neg hprot, if_neg]
      · exact hcursor
      · rw [hreg]
        exact fun heq => h.id_ne he hx hprot (Option.some.inj heq)

/-! ## Registrations -/

theorem Tracks.addNotify (h : Tracks db l) {n : Addr} (event : Nat) (hn : db.notifies n = none)
    (he : db.entries e = some entry) :
    Tracks (db.addNotify n e event) (l.register entry.protocolID n) := by
  have hid : ({ entry with notify := entry.notify ++ [n] } : ProtocolEntry).protocolID =
    entry.protocolID := rfl
  have hentries : (db.addNotify n e event).entries = Function.update db.entries e
      (some { entry with notify := entry.notify ++ [n] }) := by
    simp only [Database.addNotify, Database.modifyEntry, he, Option.map_some]
  have hle : db.entryLists e = some entry.protocols := by
    rw [Database.entryLists, he, Option.map_some]
  have hln : db.notifyLists e = some entry.notify := by
    rw [Database.notifyLists, he, Option.map_some]
  have hlive : (l.register entry.protocolID n).live = l.live := rfl
  have hold : ∀ x r, (db.addNotify n e event).entries x = some r → ∃ r', db.entries x = some r' ∧
      r'.protocolID = r.protocolID ∧ r'.protocols = r.protocols := by
    intro x r hx
    rw [hentries] at hx
    obtain ⟨rfl, rfl⟩ | ⟨_, hx⟩ := update_entries hx
    · exact ⟨entry, he, rfl, rfl⟩
    · exact ⟨r, hx, rfl, rfl⟩
  constructor
  · exact h.ordered.register ..
  · exact ⟨by rw [hentries]; exact (h.named_update he hid).allEntries,
      by rw [hentries]; exact (h.named_update he hid).ids⟩
  · have hl : (db.addNotify n e event).entryLists = db.entryLists := by
      have := Database.entryLists_update db e (some { entry with notify := entry.notify ++ [n] })
      rw [← hentries, Option.map_some, ← hle, Function.update_eq_self] at this
      exact this
    rw [hl]
    exact h.byProtocol
  · have hl : (db.addNotify n e event).notifyLists =
        Function.update db.notifyLists e (some (entry.notify ++ [n])) := by
      have := notifyLists_update db e (some { entry with notify := entry.notify ++ [n] })
      rw [← hentries] at this
      exact this
    rw [hl]
    exact h.byNotify.insert (v := ⟨e, event, none⟩) hn hln (List.perm_append_singleton _ _)
  · intro g hg
    rw [hentries] at hg
    rw [hlive]
    exact h.unlisted g (update_entries_id he hid hg)
  · intro x r hx
    obtain ⟨r', hx', hid', hps⟩ := hold x r hx
    rw [hlive, ← hid', ← hps]
    exact h.listed x r' hx'
  · intro x r hx i hi
    obtain ⟨r', hx', hid', _⟩ := hold x r hx
    rw [hlive, ← hid'] at hi
    exact h.current x r' hx' i hi
  · intro m hm
    have hne : m ≠ n := by
      rintro rfl
      simp [Database.addNotify, Database.modifyEntry] at hm
    simp only [Database.addNotify, Database.modifyEntry, Function.update_of_ne hne] at hm
    simpa only [Ledger.register, Function.update_of_ne hne] using h.unregistered m hm
  · intro m notify hm r hx
    obtain ⟨r', hx', hid', hps⟩ := hold _ r hx
    rw [Ledger.due_register, ← hid', ← hps]
    by_cases hmn : m = n
    · subst hmn
      simp only [Database.addNotify, Database.modifyEntry, Function.update_self,
        Option.some.injEq] at hm
      subst hm
      rw [he] at hx'
      cases hx'
      refine ⟨Function.update_self .., ?_⟩
      rw [if_pos rfl, h.listed e entry he]
      exact .head _
    · simp only [Database.addNotify, Database.modifyEntry, Function.update_of_ne hmn] at hm
      rw [if_neg hmn]
      simpa only [Ledger.register, Function.update_of_ne hmn] using h.placed m notify hm r' hx'

/-- What follows the position of a registration is the first installation due to it. -/
theorem Tracks.flink_eq (h : Tracks db l) {n : Addr} {notify : ProtocolNotify}
    (hn : db.notifies n = some notify) (he : db.entries notify.protocol = some entry) :
    flink entry.protocols notify.position = (l.due n).head?.map (·.record) := by
  rw [flink_eq_head? (h.placed n notify hn entry he).2 (h.nodup he), List.head?_map]

theorem Tracks.nextByRegisterNotify (h : Tracks db l) (n : Addr) :
    (db.nextByRegisterNotify n).map (fun prot => (prot.handle, prot.interface)) =
      (l.due n).head?.map fun i => (i.handle, i.interface) := by
  unfold Database.nextByRegisterNotify
  cases hn : db.notifies n with
  | none =>
    have hdue : l.due n = [] := by rw [Ledger.due, h.unregistered n hn]
    rw [hdue]
    rfl
  | some notify =>
    obtain ⟨entry, he⟩ := h.entry_of_notify hn
    have hreg := (h.placed n notify hn entry he).1
    dsimp only
    rw [he, Option.bind_some, h.flink_eq hn he]
    cases hdue : l.due n with
    | nil => rfl
    | cons i rest =>
      obtain ⟨g, hg, hlive, _⟩ := Ledger.mem_due.mp (show i ∈ l.due n by simp [hdue])
      rw [hreg] at hg
      cases hg
      have hface := congrArg (Option.map fun f => (f.1, f.2.2)) (h.current _ entry he i hlive)
      simpa only [Option.map_map, Function.comp_def, ProtocolInterface.face, List.head?_cons,
        Option.map_some, Option.bind_some] using hface

theorem Tracks.advanceNotify (h : Tracks db l) {n : Addr} (hdue : l.due n ≠ []) :
    Tracks (db.advanceNotify n) (l.giveNext n) := by
  obtain ⟨i, rest, hdue⟩ := List.exists_cons_of_ne_nil hdue
  cases hn : db.notifies n with
  | none =>
    rw [Ledger.due, h.unregistered n hn] at hdue
    cases hdue
  | some notify =>
    obtain ⟨entry, he⟩ := h.entry_of_notify hn
    have hflink := h.flink_eq hn he
    rw [hdue, List.head?_cons, Option.map_some] at hflink
    have heq : db.advanceNotify n = { db with
        notifies := Function.update db.notifies n
          (some { notify with position := some i.record }) } := by
      simp only [Database.advanceNotify, hn, he, hflink]
    have hlive : (l.giveNext n).live = l.live := rfl
    rw [heq]
    refine ⟨h.ordered.giveNext n, ⟨h.named.allEntries, h.named.ids⟩, h.byProtocol, ?_, ?_, ?_, ?_,
      ?_, ?_⟩
    · exact h.byNotify.set hn rfl
    · rw [hlive]
      exact h.unlisted
    · rw [hlive]
      exact h.listed
    · rw [hlive]
      exact h.current
    · intro m hm
      refine h.unregistered m ?_
      have hne : m ≠ n := by
        rintro rfl
        simp at hm
      simpa only [Function.update_of_ne hne] using hm
    · intro m notify' hm r hx
      rw [Ledger.due_giveNext h.ordered]
      by_cases hmn : m = n
      · subst hmn
        simp only [Function.update_self, Option.some.injEq] at hm
        subst hm
        have hentry : r = entry := Option.some.inj (hx.symm.trans he)
        subst hentry
        obtain ⟨hreg, hcursor⟩ := h.placed m notify hn r he
        refine ⟨hreg, ?_⟩
        rw [hdue, List.map_cons] at hcursor
        rw [if_pos rfl, hdue, List.tail_cons]
        exact hcursor.advance
      · simp only [Function.update_of_ne hmn] at hm
        rw [if_neg hmn]
        exact h.placed m notify' hm r hx

end Edits

theorem Tracks.initial : Tracks (Database.initializeHandle A) Ledger.empty where
  ordered := Ledger.Ordered.empty
  named := Database.WellFormed.initial.toLinked.named
  byProtocol := Database.WellFormed.initial.byProtocol
  byNotify := Indexed.empty _
  unlisted := fun _ _ => rfl
  listed := by rintro _ _ ⟨⟩
  current := by rintro _ _ ⟨⟩
  unregistered := fun _ _ => rfl
  placed := by rintro _ _ ⟨⟩

end EfiCore.Hand
