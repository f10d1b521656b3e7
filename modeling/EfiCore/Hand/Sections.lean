import EfiCore.Hand.Exclusive
import EfiCore.Hand.Registration

/-! # Runs of sections

What each section does to the ledger, and from it what a run of sections in any order does.
-/

namespace EfiCore.Hand

open EfiCore.Lib

variable {A : Arch}

/-! ## Sections that no registration sees -/

section Quiet

variable {db db' : Database A}

theorem SameListing.touchHandle (db : Database A) (h : Addr) : SameListing db (db.touchHandle h) :=
  .of_eq rfl rfl rfl rfl

theorem SameListing.notifyProtocolEntry (db : Database A) (e : Addr) :
    SameListing db (db.notifyProtocolEntry e) := by
  obtain ⟨signalled, heq⟩ := Database.notifyProtocolEntry_eq db e
  rw [heq]
  exact .of_eq rfl rfl rfl rfl

theorem SameListing.freeHandleIfEmpty (db : Database A) (h : Addr) :
    SameListing db (db.freeHandleIfEmpty h) := by
  unfold Database.freeHandleIfEmpty
  split
  · split
    · exact .of_eq rfl rfl rfl rfl
    · exact .refl db
  · exact .refl db

theorem SameListing.appendOpen (db : Database A) (p : Addr) (a : OpenArgs) (memory : Bool) :
    SameListing db (db.appendOpen p a memory).1 := by
  unfold Database.appendOpen
  split_ifs
  · exact .refl db
  · exact .modifyInterface db p fun _ => rfl
  · exact .refl db

theorem SameListing.openProtocol {a : OpenArgs} {memory : Bool} {status : Status}
    {i : Option Nat} (h : db.openProtocol a memory = .returned db' status i) :
    SameListing db db' := by
  obtain rfl | ⟨p, _, _, _, _, rfl⟩ | ⟨p, _, _, rfl, _⟩ := Exclusive.openProtocol_returned h
  · exact .refl _
  · exact .modifyInterface db p fun _ => rfl
  · exact .appendOpen db p a memory

theorem SameListing.closeProtocol (db : Database A) (h : Addr) (g : Option Guid)
    (image controller : Addr) : SameListing db (db.closeProtocol h g image controller).1 := by
  unfold Database.closeProtocol
  dsimp only
  generalize (db.validateHandle h).andThen _ = status
  cases status with
  | success =>
    cases g with
    | none => exact .refl db
    | some g =>
      dsimp only
      split
      · split
        · exact .modifyInterface db _ fun _ => rfl
        · exact .refl db
      · exact .refl db
  | _ => exact .refl db

theorem SameListing.locateByProtocol (ps : List Addr) (db : Database A) :
    SameListing db (db.locateByProtocol ps).1 := by
  induction ps generalizing db with
  | nil => exact .refl db
  | cons p ps ih =>
    unfold Database.locateByProtocol
    split
    · exact ih db
    · split
      · exact ih db
      · rename_i prot _ _ _ _
        split
        · exact ih db
        · have hstamp : SameListing db (db.modifyHandle prot.handle fun handle =>
              { handle with locateRequest := db.efiLocateHandleRequest }) :=
            .of_eq rfl rfl rfl rfl
          exact hstamp.trans (ih _)

theorem SameListing.nextByProtocol (ps : List Addr) (interface : Nat) (db : Database A) :
    SameListing db (db.nextByProtocol interface ps).1 := by
  induction ps generalizing interface with
  | nil => exact .refl db
  | cons p ps ih =>
    unfold Database.nextByProtocol
    split
    · exact ih _
    · split
      · exact ih _
      · split
        · exact ih _
        · exact .of_eq rfl rfl rfl rfl

theorem SameListing.locateSearch {searchType : SearchType} {protocol : Option Guid}
    {searchKey : Option Addr} {handles : List Addr}
    (h : db.locateSearch searchType protocol searchKey = .ok (db', handles)) :
    SameListing db db' := by
  unfold Database.locateSearch at h
  split at h
  · cases h
    exact .of_eq rfl rfl rfl rfl
  · cases h
    exact .of_eq rfl rfl rfl rfl
  · cases h
  · split at h
    · rename_i entry _
      have hdb : (db.newRequest.locateByProtocol entry.protocols).1 = db' :=
        congrArg Prod.fst (Except.ok.inj h)
      have hnew : SameListing db db.newRequest := .of_eq rfl rfl rfl rfl
      rw [← hdb]
      exact hnew.trans (.locateByProtocol entry.protocols _)
    · cases h
  · cases h
  · cases h

/-- Only a search by register notify that is given a registration moves one. -/
theorem SameListing.locateHandle {searchType : SearchType} {searchKey : Option Addr}
    (h : searchType ≠ .byRegisterNotify ∨ searchKey = none) (protocol : Option Guid)
    (bufferSize : Nat) :
    SameListing db (db.locateHandle searchType protocol searchKey bufferSize).1 := by
  unfold Database.locateHandle
  split
  · exact .refl db
  · rename_i db' handles hs
    dsimp only
    split
    · obtain h | h := h
      · exact absurd rfl h
      · cases h
    · exact .locateSearch hs

theorem SameListing.locateFirst (db : Database A) (g : Guid) (interface : Bool) :
    SameListing db (db.locateProtocol g none interface).1 := by
  unfold Database.locateProtocol
  split
  · exact .refl db
  · dsimp only
    split
    · exact .of_eq rfl rfl rfl rfl
    · rename_i entry _
      have hnew : SameListing db db.newRequest := .of_eq rfl rfl rfl rfl
      have hnext := hnew.trans (.nextByProtocol entry.protocols 0 db.newRequest)
      split <;> rename_i heq <;> rw [heq] at hnext <;> exact hnext

end Quiet

/-! ## Installing and uninstalling -/

section Services

variable {db db' : Database A} {l : Ledger}

theorem linkInterface_same {p h e : Addr} {interface : Nat} {entry : ProtocolEntry}
    (he : db.entries e = some entry) :
    SameListing (enlisted db p e ⟨h, e, interface, [], 0⟩ entry)
      (db.linkInterface p h e interface) := by
  apply SameListing.of_eq
  · rfl
  · simp only [enlisted, Database.linkInterface, Database.modifyEntry, Database.modifyHandle, he,
      Option.map_some]
  · rfl
  · rfl

theorem Tracks.linkInterface (h : Tracks db l) {p x e : Addr} {interface : Nat}
    {entry : ProtocolEntry} (hp : db.interfaces p = none) (he : db.entries e = some entry) :
    Tracks ((db.linkInterface p x e interface).notifyProtocolEntry e)
      (l.install entry.protocolID p x interface) :=
  ((h.enlist ⟨x, e, interface, [], 0⟩ hp he rfl).congr (linkInterface_same he)).congr
    (.notifyProtocolEntry _ e)

theorem Tracks.installLocked (h : Tracks db l) {pool : InstallPool} (hfresh : pool.Fresh db)
    {x : Addr} {g : Guid} {status : Status} {interface : Nat} {p h' : Addr}
    (hp : pool.interface = some p) (hstatus : status ≠ .success)
    (hr : db.installLocked pool x g status interface = (db', .success, some h')) :
    Tracks db' (l.install g p h' interface) := by
  obtain ⟨hfound, hi, _, hentry⟩ := h.findOrCreateEntry g hfresh.entry
  unfold Database.installLocked at hr
  rw [hp] at hr
  revert hfound hi hentry hr
  obtain ⟨db₁, e⟩ := db.findOrCreateEntry g pool.entry
  intro hr hfound hi hentry
  have hnew : db₁.interfaces p = none := by
    rw [show db₁.interfaces = db.interfaces from hi]
    exact (hfresh.interface p hp).interfaces
  cases e with
  | none =>
    cases hr
    exact absurd rfl hstatus
  | some e =>
    obtain ⟨entry, he, rfl⟩ := hentry e rfl
    dsimp only at hr
    split at hr
    · split at hr
      · cases hr
        exact absurd rfl hstatus
      · cases hr
        have hhandle : Tracks (db₁.newHandle h') l := hfound.congr (.of_eq rfl rfl rfl rfl)
        exact hhandle.linkInterface hnew he
    · split at hr
      · cases hr
      · cases hr
        exact hfound.linkInterface hnew he

theorem Tracks.installLocked_fails (h : Tracks db l) {pool : InstallPool} (hfresh : pool.Fresh db)
    {x : Addr} {g : Guid} {status status' : Status} {interface : Nat} {h' : Option Addr}
    (hr : db.installLocked pool x g status interface = (db', status', h'))
    (hstatus : status' ≠ .success) : Tracks db' l := by
  have hfound := (h.findOrCreateEntry g hfresh.entry).1
  unfold Database.installLocked at hr
  split at hr
  · rename_i heq
    rw [heq] at hfound
    cases hr
    exact hfound
  · rename_i heq
    rw [heq] at hfound
    split at hr
    · cases hr
      exact hfound
    · split at hr
      · split at hr
        · cases hr
          exact hfound
        · cases hr
          exact absurd rfl hstatus
      · split at hr
        · cases hr
          exact hfound
        · cases hr
          exact absurd rfl hstatus

/-- What a search on a handle finds is on the list of the protocol. -/
theorem Tracks.found (h : Tracks db l) {x p : Addr} {g : Guid} {interface : Nat}
    (hf : db.findProtocolInterface x g interface = some p) :
    ∃ prot entry, db.interfaces p = some prot ∧ db.entries prot.protocol = some entry ∧
      entry.protocolID = g := by
  unfold Database.findProtocolInterface at hf
  split at hf
  · rename_i e handle he _
    have hmatch := List.find?_some hf
    cases hp : db.interfaces p with
    | none => simp [hp] at hmatch
    | some prot =>
      simp only [hp, Option.any_some, decide_eq_true_eq] at hmatch
      obtain ⟨entry, hentry, hg⟩ := (h.named.findProtocolEntry g e).mp he
      exact ⟨prot, entry, rfl, by rw [hmatch.2]; exact hentry, hg⟩
  · cases hf

theorem removeInterface_found {x p : Addr} {g : Guid} {interface : Nat}
    {prot : ProtocolInterface A} (hf : db.findProtocolInterface x g interface = some p)
    (hp : db.interfaces p = some prot) :
    db.removeInterfaceFromProtocol x g interface = (db.removeByProtocol prot.protocol p, some p) := by
  unfold Database.removeInterfaceFromProtocol
  rw [hf]
  dsimp only
  rw [hp]

theorem removeInterface_none {x : Addr} {g : Guid} {interface : Nat}
    (hf : db.findProtocolInterface x g interface = none) :
    db.removeInterfaceFromProtocol x g interface = (db, none) := by
  rw [Database.removeInterfaceFromProtocol, hf]

theorem Tracks.uninstallUnused (h : Tracks db l) {x p : Addr} {g : Guid} {interface : Nat}
    (hf : db.findProtocolInterface x g interface = some p) :
    l.Allows A (.uninstall g p) ∧
      Tracks (db.uninstallUnused x g interface).1 (l.uninstall g p) := by
  obtain ⟨prot, entry, hp, he, rfl⟩ := h.found hf
  constructor
  · obtain ⟨i, hi, hrecord, _⟩ := h.live_of_interface hp he
    exact ⟨i, hi, hrecord⟩
  · rw [Database.uninstallUnused, removeInterface_found hf hp]
    have hsame : SameListing (withdrawn db p prot.protocol)
        (((db.removeByProtocol prot.protocol p).touchHandle x).freeInterface x p) := by
      apply SameListing.of_eq
      · show Function.update (db.removeByProtocol prot.protocol p).interfaces p none = _
        rw [Database.removeByProtocol, he]
        rfl
      · rfl
      · rfl
      · rfl
    exact ((h.withdraw hp he).congr hsame).congr (.freeHandleIfEmpty _ x)

theorem Tracks.uninstallUnused_fails (h : Tracks db l) {x : Addr} {g : Guid} {interface : Nat}
    (hf : db.findProtocolInterface x g interface = none) :
    Tracks (db.uninstallUnused x g interface).1 l := by
  rw [Database.uninstallUnused, removeInterface_none hf]
  exact (h.congr (.touchHandle db x)).congr (.freeHandleIfEmpty _ x)

theorem Tracks.reinsertInterface (h : Tracks db l) {x p : Addr} {g : Guid} {old : Nat}
    {prot : ProtocolInterface A} (new : Nat)
    (hr : db.removeInterfaceFromProtocol x g old = (db', some p))
    (hprot : db'.interfaces p = some prot) :
    l.Allows A (.reinstall g p prot.handle new) ∧
      Tracks ((db'.touchHandle x).reinsertInterface p prot.protocol new)
        ((l.uninstall g p).install g p prot.handle new) := by
  cases hf : db.findProtocolInterface x g old with
  | none =>
    rw [removeInterface_none hf] at hr
    cases hr
  | some q =>
    obtain ⟨prot', entry, hp, he, rfl⟩ := h.found hf
    rw [removeInterface_found hf hp] at hr
    cases hr
    have hi : (db.removeByProtocol prot'.protocol p).interfaces = db.interfaces := by
      rw [Database.removeByProtocol, he]
    rw [hi, hp] at hprot
    cases hprot
    constructor
    · obtain ⟨i, hi, hrecord, hhandle⟩ := h.live_of_interface hp he
      exact ⟨i, hi, hrecord, hhandle⟩
    · -- off the list and gone, then back at its tail with the new value
      have hgone := h.withdraw hp he
      have hentries : (withdrawn db p prot.protocol).entries prot.protocol =
          some { entry with protocols := entry.protocols.erase p } := by
        show (db.removeByProtocol prot.protocol p).entries prot.protocol = _
        rw [removeByProtocol_entries he, Function.update_self]
      have hback := hgone.enlist { prot with interface := new }
        (Function.update_self ..) hentries rfl
      refine hback.congr (.of_eq ?_ ?_ rfl rfl)
      · show Function.update (db.removeByProtocol prot.protocol p).interfaces p
          (((db.removeByProtocol prot.protocol p).interfaces p).map _) =
            Function.update (Function.update db.interfaces p none) p _
        rw [hi, hp, Option.map_some, Function.update_idem]
      · show Function.update (db.removeByProtocol prot.protocol p).entries prot.protocol
          (((db.removeByProtocol prot.protocol p).entries prot.protocol).map _) =
            Function.update (db.removeByProtocol prot.protocol p).entries prot.protocol _
        rw [removeByProtocol_entries he, Function.update_self, Option.map_some]

/-! ## Registering and locating -/

theorem Tracks.register (h : Tracks db l) {pool : RegisterPool} (hfresh : pool.Fresh db)
    {g : Guid} {event : Nat} {e n : Addr} (he : (db.findOrCreateEntry g pool.entry).2 = some e)
    (hn : pool.notify = some n) :
    l.Allows A (.register g n) ∧
      Tracks (db.registerProtocolNotify pool g event).1 (l.register g n) := by
  have hnone := (hfresh.notify n hn).notifies
  refine ⟨h.unregistered n hnone, ?_⟩
  obtain ⟨hfound, _, hnotifies, hentry⟩ := h.findOrCreateEntry g hfresh.entry
  obtain ⟨entry, hx, rfl⟩ := hentry e he
  unfold Database.registerProtocolNotify
  revert hfound hnotifies hx he
  obtain ⟨db₁, e'⟩ := db.findOrCreateEntry entry.protocolID pool.entry
  rintro rfl hfound hnotifies hx
  rw [hn]
  exact hfound.addNotify event (by rw [show db₁.notifies = db.notifies from hnotifies, hnone]) hx

theorem Tracks.register_fails (h : Tracks db l) {pool : RegisterPool} (hfresh : pool.Fresh db)
    {g : Guid} {event : Nat}
    (hfail : (db.findOrCreateEntry g pool.entry).2 = none ∨ pool.notify = none) :
    Tracks (db.registerProtocolNotify pool g event).1 l := by
  have hfound := (h.findOrCreateEntry g hfresh.entry).1
  unfold Database.registerProtocolNotify
  split
  · rename_i heq
    rw [heq] at hfound
    split <;> exact hfound
  · rename_i heq
    rw [heq] at hfound hfail
    split
    · exact hfound
    · rename_i hn
      rw [hn] at hfail
      simp at hfail

theorem locateByRegisterNotify_eq (db : Database A) (n : Addr) :
    db.locateByRegisterNotify n = ((db.nextByRegisterNotify n).map (·.handle)).toList := by
  unfold Database.locateByRegisterNotify Database.nextByRegisterNotify
  cases db.notifies n with
  | none => rfl
  | some notify =>
    dsimp only
    cases (db.entries notify.protocol).bind _ with
    | none => rfl
    | some p => rfl

theorem Tracks.locateByRegisterNotify (h : Tracks db l) (n : Addr) :
    db.locateByRegisterNotify n = ((l.due n).head?.map (·.handle)).toList := by
  have hnext := congrArg (Option.map (·.1)) (h.nextByRegisterNotify n)
  simp only [Option.map_map, Function.comp_def] at hnext
  rw [locateByRegisterNotify_eq, hnext]

theorem Tracks.locateHandle (h : Tracks db l) {protocol : Option Guid} {n : Addr}
    {bufferSize resultSize : Nat} {status : Status} {buffer : List Addr}
    (hr : db.locateHandle .byRegisterNotify protocol (some n) bufferSize =
      (db', status, resultSize, buffer)) :
    l.Allows A (.locateHandle n bufferSize status buffer) ∧
      Tracks db' (l.record (.locateHandle n bufferSize status buffer)) := by
  have hs : db.locateSearch .byRegisterNotify protocol (some n) =
      .ok (db.newRequest, db.locateByRegisterNotify n) := rfl
  have hnew : Tracks db.newRequest l := h.congr (.of_eq rfl rfl rfl rfl)
  have hlocated := Database.located_of_search hs bufferSize
  have hdb : (db.locateHandle .byRegisterNotify protocol (some n) bufferSize).1 =
      if (db.locateHandle .byRegisterNotify protocol (some n) bufferSize).2.1 = .success then
        db.newRequest.advanceNotify n else db.newRequest := by
    unfold Database.locateHandle
    rw [hs]
    dsimp only
    by_cases hnone : (db.locateByRegisterNotify n).length * A.pointerSize = 0
    · simp only [if_pos hnone]
      rfl
    · by_cases hsize : bufferSize < (db.locateByRegisterNotify n).length * A.pointerSize
      · simp only [if_neg hnone, if_pos hsize]
        rfl
      · simp only [if_neg hnone, if_neg hsize]
        rfl
  rw [hr] at hlocated hdb
  dsimp only at hdb
  rw [h.locateByRegisterNotify] at hlocated
  cases hdue : l.due n with
  | nil =>
    rw [hdue] at hlocated
    obtain ⟨hstatus, hbuffer⟩ := hlocated.notFound rfl
    dsimp only at hstatus hbuffer
    subst hstatus
    rw [if_neg (by decide)] at hdb
    rw [hdb]
    exact ⟨by rw [Ledger.Allows, hdue]; exact ⟨rfl, hbuffer⟩, hnew⟩
  | cons i rest =>
    rw [hdue] at hlocated
    by_cases hsize : bufferSize < A.pointerSize
    · have hsmall := hlocated.tooSmall (by simp) (by simpa using hsize)
      simp only [Prod.mk.injEq] at hsmall
      obtain ⟨rfl, _, hbuffer⟩ := hsmall
      rw [Nat.div_eq_of_lt hsize, List.take_zero] at hbuffer
      rw [if_neg (by decide)] at hdb
      rw [hdb]
      refine ⟨?_, hnew⟩
      rw [Ledger.Allows, hdue]
      dsimp only
      rw [if_pos hsize]
      exact ⟨rfl, hbuffer⟩
    · have hok := hlocated.success (by simp) (by simpa using hsize)
      simp only [Prod.mk.injEq] at hok
      obtain ⟨rfl, _, hbuffer⟩ := hok
      rw [if_pos rfl] at hdb
      rw [hdb]
      refine ⟨?_, hnew.advanceNotify (by simp [hdue])⟩
      rw [Ledger.Allows, hdue]
      dsimp only
      rw [if_neg hsize]
      exact ⟨rfl, by simpa using hbuffer⟩

theorem Tracks.locateProtocol (h : Tracks db l) {g : Guid} {n : Addr} {status : Status}
    {interface : Nat} (hr : db.locateProtocol g (some n) true = (db', status, interface)) :
    l.Allows A (.locateProtocol n status interface) ∧
      Tracks db' (l.record (.locateProtocol n status interface)) := by
  have hnext := h.nextByRegisterNotify n
  have hnew : Tracks db.newRequest l := h.congr (.of_eq rfl rfl rfl rfl)
  unfold Database.locateProtocol at hr
  rw [if_neg (by simp)] at hr
  dsimp only at hr
  cases hdue : l.due n with
  | nil =>
    rw [hdue, List.head?_nil, Option.map_none, Option.map_eq_none_iff] at hnext
    rw [hnext] at hr
    cases hr
    exact ⟨by rw [Ledger.Allows, hdue]; exact ⟨rfl, rfl⟩, hnew⟩
  | cons i rest =>
    rw [hdue, List.head?_cons, Option.map_some, Option.map_eq_some_iff] at hnext
    obtain ⟨prot, hprot, hface⟩ := hnext
    rw [hprot] at hr
    cases hr
    refine ⟨?_, hnew.advanceNotify (by simp [hdue])⟩
    rw [Ledger.Allows, hdue]
    exact ⟨rfl, (Prod.mk.inj hface).2⟩

end Services

/-! ## Runs -/

theorem Tracks.step {db db' : Database A} {l : Ledger} {e : Event} (h : Tracks db l)
    (hs : Section db e db') : l.Allows A e ∧ Tracks db' (l.record e) := by
  cases hs with
  | install hfresh hstatus hp hr => exact ⟨trivial, h.installLocked hfresh hp hstatus hr⟩
  | installFails hfresh hr hstatus => exact ⟨trivial, h.installLocked_fails hfresh hr hstatus⟩
  | uninstall hf => exact h.uninstallUnused hf
  | uninstallFails hf => exact ⟨trivial, h.uninstallUnused_fails hf⟩
  | reinstall hr hprot => exact h.reinsertInterface _ hr hprot
  | @reinstallFails _ x g old hr =>
    refine ⟨trivial, ?_⟩
    cases hf : db.findProtocolInterface x g old with
    | none =>
      rw [removeInterface_none hf] at hr
      cases hr
      exact h.congr (.touchHandle db x)
    | some p =>
      obtain ⟨prot, entry, hp, _⟩ := h.found hf
      rw [removeInterface_found hf hp] at hr
      cases hr
  | notify => exact ⟨trivial, h.congr (.notifyProtocolEntry db _)⟩
  | register hfresh he hn => exact h.register hfresh he hn
  | registerFails hfresh hfail => exact ⟨trivial, h.register_fails hfresh hfail⟩
  | locateHandle hr => exact h.locateHandle hr
  | locateOther hsearch => exact ⟨trivial, h.congr (.locateHandle hsearch _ _)⟩
  | locateProtocol hr => exact h.locateProtocol hr
  | locateFirst => exact ⟨trivial, h.congr (.locateFirst db _ _)⟩
  | openProtocol hr => exact ⟨trivial, h.congr (.openProtocol hr)⟩
  | appendOpen => exact ⟨trivial, h.congr (.appendOpen db _ _ _)⟩
  | closeProtocol => exact ⟨trivial, h.congr (.closeProtocol db _ _ _ _)⟩
  | closePassive => exact ⟨trivial, h.congr (.modifyInterface db _ fun _ => rfl)⟩

theorem Tracks.path {db db' : Database A} {l : Ledger} {as : List Event} (h : Tracks db l)
    (hp : (sections A).Path Machine.anyStep db as db') :
    ∃ l', (Ledger.machine A).Path Machine.anyStep l as l' ∧ Tracks db' l' := by
  refine hp.simulate (N := Ledger.machine A) (R := Tracks) ?_ h
  intro db e db' l h _ hs
  obtain ⟨hallows, htracks⟩ := h.step hs
  exact ⟨l.record e, ⟨hallows, rfl⟩, htracks⟩

/-- Whatever sections run in whatever order, every registration is positioned on its protocol's
    list, every locate call answers with the first installation due to it, and a registration is
    given the installations in order, once each, skipping what was uninstalled before. -/
theorem registerNotify_exactlyOnce (A : Arch) (as : List Event) (db : Database A)
    (hrun : (sections A).Path Machine.anyStep (Database.initializeHandle A) as db) :
    db.Positioned ∧ ∃ l, (Ledger.machine A).Path Machine.anyStep Ledger.empty as l ∧
      ∀ n g, l.registered n = some g → l.Fair n g := by
  obtain ⟨l, hpath, htracks⟩ := Tracks.initial.path hrun
  exact ⟨htracks.positioned, l, hpath, fun n g hn => htracks.ordered.fair hn⟩

/-- One registration, one installation, and two locate calls: the second finds nothing. -/
def toldOnce : List Event :=
  [.register 9 2, .install 9 3 4 7, .locateHandle 2 4 .success [4],
    .locateProtocol 2 .notFound 0]

theorem registerNotify_exactlyOnce_run : ∃ db,
    (sections .efi32).Path Machine.anyStep (Database.initializeHandle .efi32) toldOnce db ∧
      db.Positioned ∧ ∃ l, (Ledger.machine .efi32).Path Machine.anyStep Ledger.empty toldOnce l ∧
        ∀ n g, l.registered n = some g → l.Fair n g := by
  obtain ⟨db, hrun⟩ : ∃ db, (sections .efi32).Path Machine.anyStep
      (Database.initializeHandle .efi32) toldOnce db := by
    have fresh : ∀ (db : Database .efi32) (o : Option Addr) (x : Addr), (o = none ∨ o = some x) →
        db.Fresh x → ∀ a, o = some a → db.Fresh a := by
      rintro db o x (rfl | rfl) hx a ⟨⟩
      exact hx
    refine ⟨_, .cons trivial (@Section.register _ _ ⟨some 1, some 2, none⟩ 9 5 1 2 ?_ rfl rfl)
      (.cons trivial
        (@Section.install _ _ _ ⟨none, some 3, some 4⟩ 0 9 .outOfResources 7 3 4 ?_ nofun rfl rfl)
      (.cons trivial (@Section.locateHandle _ _ _ none 2 4 .success 4 [4] rfl)
      (.cons trivial (@Section.locateProtocol _ _ _ 9 2 .notFound 0 rfl) .nil)))⟩
    · exact ⟨fresh _ _ 1 (.inr rfl) ⟨by decide, rfl, rfl, rfl, rfl⟩,
        fresh _ _ 2 (.inr rfl) ⟨by decide, rfl, rfl, rfl, rfl⟩,
        by rintro _ _ ⟨⟩ ⟨⟩; decide⟩
    · exact ⟨nofun, fresh _ _ 3 (.inr rfl) ⟨by decide, rfl, rfl, rfl, rfl⟩,
        fresh _ _ 4 (.inr rfl) ⟨by decide, rfl, rfl, rfl, rfl⟩, nofun, nofun,
        by rintro _ _ ⟨⟩ ⟨⟩; decide⟩
  exact ⟨db, hrun, registerNotify_exactlyOnce .efi32 toldOnce db hrun⟩

end EfiCore.Hand
