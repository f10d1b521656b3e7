import EfiCore.Hand.WellFormed
import EfiCore.Lib.Run

/-! # What the handle database is for

A `Catalogue` says, protocol by protocol, which handles carry it with which interface, in the
order of (re)installation.  The services on the database refine the obvious operations on it:
installing adds at the end, uninstalling removes, reinstalling moves to the end; and the
queries answer what the catalogue says.

In these runs connecting and disconnecting drivers do nothing, so nothing is ever opened.
-/

namespace EfiCore.Hand

open EfiCore.Lib

/-! ## The catalogue -/

/-- For each protocol the handles that carry it, each once, with their interfaces. -/
structure Catalogue where
  installed : Guid → List (Addr × Nat)
  once : ∀ g, ((installed g).map (·.1)).Nodup

namespace Catalogue

def empty : Catalogue := ⟨fun _ => [], fun _ => List.nodup_nil⟩

def Carries (c : Catalogue) (h : Addr) (g : Guid) : Prop := h ∈ (c.installed g).map (·.1)

/-- A handle exists as long as it carries some protocol. -/
def Live (c : Catalogue) (h : Addr) : Prop := ∃ g, c.Carries h g

/-- The triples (handle, protocol, interface). -/
def triples (c : Catalogue) : Set (Addr × Guid × Nat) := {t | (t.1, t.2.2) ∈ c.installed t.2.1}

def add (c : Catalogue) (g : Guid) (h : Addr) (interface : Nat) (hnew : ¬ c.Carries h g) :
    Catalogue where
  installed := Function.update c.installed g (c.installed g ++ [(h, interface)])
  once := by
    intro g'
    by_cases hg : g' = g
    · subst hg
      rw [Function.update_self, List.map_append, List.nodup_append]
      refine ⟨c.once g', List.nodup_singleton _, ?_⟩
      rintro a ha b hb rfl
      have hah : a = h := by simpa using hb
      exact hnew (by rwa [hah] at ha)
    · rw [Function.update_of_ne hg]
      exact c.once g'

def remove (c : Catalogue) (g : Guid) (h : Addr) : Catalogue where
  installed := Function.update c.installed g ((c.installed g).filter (·.1 ≠ h))
  once := by
    intro g'
    by_cases hg : g' = g
    · subst hg
      rw [Function.update_self]
      exact (List.filter_sublist.map _).nodup (c.once g')
    · rw [Function.update_of_ne hg]
      exact c.once g'

theorem not_carries_remove (c : Catalogue) (g : Guid) (h : Addr) :
    ¬ (c.remove g h).Carries h g := by
  simp [Carries, remove]

/-- Reinstalling moves the handle to the end. -/
def replace (c : Catalogue) (g : Guid) (h : Addr) (interface : Nat) : Catalogue :=
  (c.remove g h).add g h interface (c.not_carries_remove g h)

theorem replace_installed (c : Catalogue) (g : Guid) (h : Addr) (interface : Nat) :
    (c.replace g h interface).installed =
      Function.update c.installed g ((c.installed g).filter (·.1 ≠ h) ++ [(h, interface)]) := by
  simp [replace, add, remove]

end Catalogue

/-! ## The runs -/

/-- A call of one of the services with what it returned. -/
inductive Action where
  | install (pool : InstallPool) (userHandle : Option Addr) (protocol : Option Guid)
      (interfaceType : InterfaceType) (interface : Nat) (status : Status) (handle : Option Addr)
  | uninstall (h : Addr) (protocol : Option Guid) (interface : Nat) (status : Status)
  | reinstall (h : Addr) (protocol : Option Guid) (old new : Nat) (status : Status)
  | locate (searchType : SearchType) (protocol : Option Guid) (searchKey : Option Addr)
      (bufferSize : Nat) (status : Status) (resultSize : Nat) (buffer : List Addr)
  deriving DecidableEq, Repr

def Action.isLocate : Action → Bool
  | .locate .. => true
  | _ => false

/-- Why an installation may fail: its arguments, the handle, or memory. -/
inductive Catalogue.Refuses (c : Catalogue) (pool : InstallPool) (userHandle : Option Addr)
    (protocol : Option Guid) (interfaceType : InterfaceType) : Prop where
  | noHandle : userHandle = none → Refuses c pool userHandle protocol interfaceType
  | noProtocol : protocol = none → Refuses c pool userHandle protocol interfaceType
  | notNative : interfaceType ≠ .native → Refuses c pool userHandle protocol interfaceType
  | dead (h : Addr) : userHandle = some h → h ≠ 0 → ¬ c.Live h →
      Refuses c pool userHandle protocol interfaceType
  | carried (h : Addr) (g : Guid) : userHandle = some h → protocol = some g → c.Carries h g →
      Refuses c pool userHandle protocol interfaceType
  | noMemory : pool.entry = none ∨ pool.interface = none ∨ pool.handle = none →
      Refuses c pool userHandle protocol interfaceType

/-- What a failing uninstall or reinstall answers. -/
inductive Catalogue.Unknown (c : Catalogue) (h : Addr) (protocol : Option Guid) (interface : Nat) :
    Status → Prop where
  | invalid : protocol = none ∨ ¬ c.Live h → Unknown c h protocol interface .invalidParameter
  | notFound (g : Guid) : protocol = some g → c.Live h → (h, interface) ∉ c.installed g →
      Unknown c h protocol interface .notFound

/-- The services on the catalogue. -/
inductive Catalogue.Step : Catalogue → Action → Catalogue → Prop
  | installNew {c pool g interface h} (hnew : ¬ c.Carries h g) : pool.handle = some h → h ≠ 0 →
      ¬ c.Live h →
      Step c (.install pool (some 0) (some g) .native interface .success (some h))
        (c.add g h interface hnew)
  | install {c pool g interface h} (hnew : ¬ c.Carries h g) : h ≠ 0 → c.Live h →
      Step c (.install pool (some h) (some g) .native interface .success (some h))
        (c.add g h interface hnew)
  | installFails {c pool userHandle protocol interfaceType interface status} :
      status ≠ .success → c.Refuses pool userHandle protocol interfaceType →
      Step c (.install pool userHandle protocol interfaceType interface status userHandle) c
  | uninstall {c h g interface} : (h, interface) ∈ c.installed g →
      Step c (.uninstall h (some g) interface .success) (c.remove g h)
  | uninstallFails {c h protocol interface status} : c.Unknown h protocol interface status →
      Step c (.uninstall h protocol interface status) c
  | reinstall {c h g old new} : (h, old) ∈ c.installed g →
      Step c (.reinstall h (some g) old new .success) (c.replace g h new)
  | reinstallFails {c h protocol old new status} : c.Unknown h protocol old status →
      Step c (.reinstall h protocol old new status) c
  | locate {c searchType protocol searchKey bufferSize status resultSize buffer} :
      Step c (.locate searchType protocol searchKey bufferSize status resultSize buffer) c

def catalogue : Machine Catalogue Action := ⟨(· = Catalogue.empty), Catalogue.Step⟩

/-- The allocations of one call: unused blocks, each given out once. -/
structure InstallPool.Fresh {A : Arch} (pool : InstallPool) (db : Database A) : Prop where
  entry : ∀ a, pool.entry = some a → db.Fresh a
  interface : ∀ a, pool.interface = some a → db.Fresh a
  handle : ∀ a, pool.handle = some a → db.Fresh a
  apart : ∀ a b, pool.entry = some a → pool.interface = some b → a ≠ b
  apart' : ∀ a b, pool.entry = some a → pool.handle = some b → a ≠ b
  apart'' : ∀ a b, pool.interface = some a → pool.handle = some b → a ≠ b

namespace InstallPool.Fresh

variable {A : Arch} {db : Database A}

/-- No memory. -/
theorem empty (db : Database A) : InstallPool.Fresh ⟨none, none, none⟩ db := by
  constructor
  all_goals rintro _
  all_goals simp

theorem distinct {e p h : Addr} (he : db.Fresh e) (hp : db.Fresh p) (hh : db.Fresh h)
    (hep : e ≠ p) (heh : e ≠ h) (hph : p ≠ h) :
    InstallPool.Fresh ⟨some e, some p, some h⟩ db := by
  constructor
  · rintro _ ⟨⟩
    exact he
  · rintro _ ⟨⟩
    exact hp
  · rintro _ ⟨⟩
    exact hh
  · rintro _ _ ⟨⟩ ⟨⟩
    exact hep
  · rintro _ _ ⟨⟩ ⟨⟩
    exact heh
  · rintro _ _ ⟨⟩ ⟨⟩
    exact hph

end InstallPool.Fresh

theorem firstPool_fresh (A : Arch) :
    InstallPool.Fresh ⟨some 1, some 2, some 3⟩ (Database.initializeHandle A) := by
  have hfresh : ∀ a : Addr, a ≠ 0 → (Database.initializeHandle A).Fresh a :=
    fun a ha => ⟨ha, rfl, rfl, rfl, rfl⟩
  exact .distinct (hfresh 1 (by decide)) (hfresh 2 (by decide)) (hfresh 3 (by decide))
    (by decide) (by decide) (by decide)

/-- Three blocks, if they are free. -/
def takeFree (e p h : Addr) (db : Database A) : InstallPool :=
  let free := fun a => (db.handles a).isNone && (db.entries a).isNone &&
    (db.interfaces a).isNone && (db.notifies a).isNone
  if free e ∧ free p ∧ free h then ⟨some e, some p, some h⟩ else ⟨none, none, none⟩

theorem takeFree_fresh {e p h : Addr} (he : e ≠ 0) (hp : p ≠ 0) (hh : h ≠ 0) (hep : e ≠ p)
    (heh : e ≠ h) (hph : p ≠ h) (db : Database A) : (takeFree e p h db).Fresh db := by
  have hfresh : ∀ a : Addr, a ≠ 0 → ((db.handles a).isNone && (db.entries a).isNone &&
      (db.interfaces a).isNone && (db.notifies a).isNone) = true → db.Fresh a := by
    intro a ha hfree
    simp only [Bool.and_eq_true, Option.isNone_iff_eq_none] at hfree
    exact ⟨ha, hfree.1.1.1, hfree.1.1.2, hfree.1.2, hfree.2⟩
  unfold takeFree
  dsimp only
  split
  · rename_i hfree
    obtain ⟨h1, h2, h3⟩ := hfree
    exact .distinct (hfresh e he h1) (hfresh p hp h2) (hfresh h hh h3) hep heh hph
  · exact .empty db

/-- The services on the database, when connecting and disconnecting do nothing.  `fuel + 1` bounds
    the rounds of the disconnect loops. -/
inductive Step {A : Arch} : Database A → Action → Database A → Prop
  | install {db db' pool userHandle protocol interfaceType interface status handle} :
      pool.Fresh db →
      db.installProtocolInterface pool userHandle protocol interfaceType interface =
        (db', status, handle) →
      Step db (.install pool userHandle protocol interfaceType interface status handle) db'
  | uninstall {db db' fuel h protocol interface status} :
      db.uninstallProtocolInterface (Drivers.idle A) (fuel + 1) h protocol interface =
        some (db', status) →
      Step db (.uninstall h protocol interface status) db'
  | reinstall {db db' fuel h protocol old new status} :
      db.reinstallProtocolInterface (Drivers.idle A) (fuel + 1) h protocol old new =
        some (db', status) →
      Step db (.reinstall h protocol old new status) db'
  | locate {db db' searchType protocol searchKey bufferSize status resultSize buffer} :
      db.locateHandle searchType protocol searchKey bufferSize =
        (db', status, resultSize, buffer) →
      Step db (.locate searchType protocol searchKey bufferSize status resultSize buffer) db'

def services (A : Arch) : Machine (Database A) Action :=
  ⟨(· = Database.initializeHandle A), Step⟩

/-! ## The abstraction -/

namespace Database

variable {A : Arch}

/-- The handles and interfaces on a list of interfaces. -/
def listing (db : Database A) (ps : List Addr) : List (Addr × Nat) :=
  ps.filterMap fun p => (db.interfaces p).map fun prot => (prot.handle, prot.interface)

/-- What the database says about a protocol. -/
def installations (db : Database A) (g : Guid) : List (Addr × Nat) :=
  match (db.findProtocolEntry g).bind db.entries with
  | some entry => db.listing entry.protocols
  | none => []

/-- Nothing is open. -/
def Idle (db : Database A) : Prop :=
  ∀ p prot, db.interfaces p = some prot → prot.openList = [] ∧ prot.openListCount = 0

/-- The database says what the catalogue says. -/
structure Shows (db : Database A) (c : Catalogue) : Prop where
  wellFormed : db.WellFormed
  idle : db.Idle
  same : ∀ g, db.installations g = c.installed g

section Installations

variable {db : Database A}

theorem installations_congr {db' : Database A} (hi : db'.interfaces = db.interfaces)
    (he : db'.entries = db.entries) (hd : db'.protocolDatabase = db.protocolDatabase) :
    db'.installations = db.installations := by
  funext g
  simp only [installations, findProtocolEntry, listing, hi, he, hd]

theorem Linked.installations_of_entry (h : db.Linked) {e : Addr} {entry : ProtocolEntry}
    (he : db.entries e = some entry) :
    db.installations entry.protocolID = db.listing entry.protocols := by
  unfold installations
  rw [(h.findProtocolEntry _ e).mpr ⟨entry, he, rfl⟩, Option.bind_some, he]

theorem installations_of_none {g : Guid} (hnone : db.findProtocolEntry g = none) :
    db.installations g = [] := by
  unfold installations
  rw [hnone, Option.bind_none]

theorem Linked.mem_installations (h : db.Linked) (g : Guid) (a : Addr) (i : Nat) :
    (a, i) ∈ db.installations g ↔ ∃ p, db.Holds p a g i := by
  cases hfind : db.findProtocolEntry g with
  | none =>
    rw [installations_of_none hfind]
    refine iff_of_false List.not_mem_nil ?_
    rintro ⟨p, prot, entry, _, _, _, he, hg⟩
    exact h.named.findProtocolEntry_none hfind he hg
  | some e =>
    obtain ⟨entry, he, rfl⟩ := (h.findProtocolEntry g e).mp hfind
    rw [h.installations_of_entry he, listing, List.mem_filterMap]
    constructor
    · rintro ⟨p, hp, hmap⟩
      obtain ⟨prot, hprot, hpair⟩ := Option.map_eq_some_iff.mp hmap
      obtain ⟨prot', hprot', rfl⟩ := (h.mem_byProtocol he p).mp hp
      rw [hprot] at hprot'
      cases hprot'
      cases hpair
      exact ⟨p, prot, entry, hprot, rfl, rfl, he, rfl⟩
    · rintro ⟨p, prot, entry', hprot, rfl, rfl, he', hg⟩
      have hee := h.ids _ _ _ _ he' he hg
      exact ⟨p, (h.mem_byProtocol he p).mpr ⟨prot, hprot, hee⟩, by rw [hprot]; rfl⟩

/-- An edit of one entry and its interfaces changes the installations of its protocol only. -/
theorem Linked.installations_update {db' : Database A} (h : db.Linked) (h' : db'.Linked)
    {e : Addr} {entry entry' : ProtocolEntry} (he : db.entries e = some entry)
    (hentries : db'.entries = Function.update db.entries e (some entry'))
    (hid : entry'.protocolID = entry.protocolID)
    (hothers : ∀ q prot, db.interfaces q = some prot → prot.protocol ≠ e →
      db'.interfaces q = db.interfaces q) :
    db'.installations =
      Function.update db.installations entry.protocolID (db'.listing entry'.protocols) := by
  funext g
  by_cases hg : g = entry.protocolID
  · subst hg
    rw [Function.update_self, ← hid]
    exact h'.installations_of_entry (by rw [hentries, Function.update_self])
  · rw [Function.update_of_ne hg]
    cases hfind : db.findProtocolEntry g with
    | none =>
      rw [installations_of_none hfind]
      apply installations_of_none
      cases hfind' : db'.findProtocolEntry g with
      | none => rfl
      | some x =>
        obtain ⟨r, hr, hrg⟩ := (h'.findProtocolEntry g x).mp hfind'
        rw [hentries] at hr
        by_cases hx : x = e
        · subst hx
          rw [Function.update_self] at hr
          cases hr
          exact absurd (hrg.symm.trans hid) hg
        · rw [Function.update_of_ne hx] at hr
          exact absurd hrg (h.named.findProtocolEntry_none hfind hr)
    | some x =>
      obtain ⟨r, hr, rfl⟩ := (h.findProtocolEntry g x).mp hfind
      have hx : x ≠ e := by
        rintro rfl
        rw [he] at hr
        cases hr
        exact hg rfl
      rw [h.installations_of_entry hr,
        h'.installations_of_entry (e := x) (by rw [hentries, Function.update_of_ne hx]; exact hr)]
      apply List.filterMap_congr
      intro q hq
      obtain ⟨prot, hprot, hpx⟩ := (h.mem_byProtocol hr q).mp hq
      rw [hothers q prot hprot (by rw [hpx]; exact hx)]

end Installations

end Database

end EfiCore.Hand
