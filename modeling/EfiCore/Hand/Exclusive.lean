import EfiCore.Hand.Answers

/-! # Exclusive access to an interface

`OpenProtocol` gives up the database lock while it disconnects the drivers of an interface, and
a driver's `Stop` may open and close protocols itself.  The machine runs one stack of
activations: a `user` frame is code that calls `OpenProtocol` and `CloseProtocol` in any way,
the caller at the bottom and `Stop` functions above it.

The flags that `OpenProtocol` computed before it gave up the lock are not computed again, so
another exclusive opening made meanwhile goes unnoticed.
-/

namespace EfiCore.Hand

open EfiCore.Lib

/-! ## DisconnectController -/

def driverBindingProtocol : Guid := 0x18a031abb4434d1aa5c00c09261e9f71

/-- Which of its allocations succeed: the information buffers of both passes over the handle's
    interfaces, and the child buffer. -/
structure DisconnectMemory where
  info : Addr → Bool
  info' : Addr → Bool
  childBuffer : Bool

/-- What `DisconnectController` does next. -/
inductive DisconnectNext where
  | return (status : Status)
  /-- Stop the children of the controller. -/
  | stopChildren (children : List Addr)
  /-- Stop the driver on the controller. -/
  | stopDriver
  deriving DecidableEq, Repr

namespace Database

variable {A : Arch}

/-- One pass over the handle's interfaces with `OpenProtocolInformation`. -/
def openInformation (db : Database A) (h : Addr) (memory : Addr → Bool) : List OpenData :=
  match db.handles h with
  | none => []
  | some handle =>
    handle.protocols.flatMap fun p =>
      match (db.interfaces p).bind fun prot => db.entries prot.protocol with
      | none => []
      | some entry =>
        match db.openProtocolInformation h entry.protocolID (memory p) with
        | .ok entries => entries
        | .error _ => []

/-- `DisconnectController (controller, driver, NULL)` with a driver given, up to its first call of
    `Stop`. -/
def disconnectController (db : Database A) (controller driver : Addr)
    (memory : DisconnectMemory) : Database A × DisconnectNext :=
  if controller = 0 ∨ (db.handles controller).isNone then (db, .return .invalidParameter)
  else
    match db.openProtocol
        ⟨driver, some driverBindingProtocol, true, 0, 0, openGetProtocol⟩ false with
    | .disconnects .. => (db, .return .unsupported)
    | .returned db .success _ =>
      let info := db.openInformation controller memory.info
      if ¬ info.any fun o => o.agentHandle = driver ∧ o.byDriver then (db, .return .notFound)
      else if ¬ info.any fun o => o.agentHandle = driver ∧ o.byChild then (db, .stopDriver)
      else if memory.childBuffer = false then (db, .return .outOfResources)
      else
        match (((db.openInformation controller memory.info').filter fun o =>
            o.agentHandle = driver ∧ o.byChild).map (·.controllerHandle)).eraseDups with
        | [] => (db, .stopDriver)
        | children => (db, .stopChildren children)
    | .returned db status _ => (db, .return status)

end Database

/-! ## The machine -/

/-- Points in the code at which an activation can be suspended. -/
inductive Frame where
  /-- A caller of the services. -/
  | user
  /-- `OpenProtocol` on the interface `p`, in its disconnect loop. -/
  | openLoop (a : OpenArgs) (p : Addr)
  /-- `DisconnectController`, stopping children. -/
  | stopChildren (controller driver : Addr)
  /-- `DisconnectController`, stopping the driver. -/
  | stopDriver (controller driver : Addr)
  deriving DecidableEq, Repr

namespace Exclusive

/-- What a step does, as its environment sees it. -/
inductive Action where
  | open (a : OpenArgs) (status : Status)
  | opening (a : OpenArgs)
  /-- `OpenProtocol` leaves its disconnect loop and makes its entry. -/
  | append (a : OpenArgs) (p : Addr) (status : Status)
  | denied (a : OpenArgs)
  | close (h : Addr) (protocol : Option Guid) (image controller : Addr) (status : Status)
  | stop (controller driver : Addr)
  | stopped (status : Status)
  deriving DecidableEq, Repr

structure Cfg (A : Arch) where
  db : Database A
  stack : List Frame

open Database

/-- One step of the running activation. -/
inductive Step {A : Arch} : Cfg A → Action → Cfg A → Prop
  -- calls of user code
  | openReturns {db db' K a memory status interface} :
      db.openProtocol a memory = .returned db' status interface →
      Step ⟨db, .user :: K⟩ (.open a status) ⟨db', .user :: K⟩
  | openLoops {db K a memory p interface} :
      db.openProtocol a memory = .disconnects p interface →
      Step ⟨db, .user :: K⟩ (.opening a) ⟨db, .openLoop a p :: .user :: K⟩
  | close {db db' K h protocol image controller status} :
      db.closeProtocol h protocol image controller = (db', status) →
      Step ⟨db, .user :: K⟩ (.close h protocol image controller status) ⟨db', .user :: K⟩
  -- the disconnect loop
  | append {db db' K a p memory status} :
      (db.openListOf p).find? (·.byDriver) = none →
      db.appendOpen p a memory = (db', status) →
      Step ⟨db, .openLoop a p :: K⟩ (.append a p status) ⟨db', K⟩
  | denied {db db' K a p o memory status} :
      (db.openListOf p).find? (·.byDriver) = some o →
      db.disconnectController a.userHandle o.agentHandle memory = (db', .return status) →
      Step ⟨db, .openLoop a p :: K⟩ (.denied a) ⟨db', K⟩
  | stopChildren {db db' K a p o memory children} :
      (db.openListOf p).find? (·.byDriver) = some o →
      db.disconnectController a.userHandle o.agentHandle memory = (db', .stopChildren children) →
      Step ⟨db, .openLoop a p :: K⟩ (.stop a.userHandle o.agentHandle)
        ⟨db', .user :: .stopChildren a.userHandle o.agentHandle :: .openLoop a p :: K⟩
  | stopDriver {db db' K a p o memory} :
      (db.openListOf p).find? (·.byDriver) = some o →
      db.disconnectController a.userHandle o.agentHandle memory = (db', .stopDriver) →
      Step ⟨db, .openLoop a p :: K⟩ (.stop a.userHandle o.agentHandle)
        ⟨db', .user :: .stopDriver a.userHandle o.agentHandle :: .openLoop a p :: K⟩
  -- `Stop` returns
  | childrenStopped {db K controller driver} :
      Step ⟨db, .user :: .stopChildren controller driver :: K⟩ (.stopped .success)
        ⟨db, .user :: .stopDriver controller driver :: K⟩
  | driverStopped {db K controller driver} :
      Step ⟨db, .user :: .stopDriver controller driver :: K⟩ (.stopped .success) ⟨db, K⟩
  | childrenRefused {db K controller driver a p status} : status ≠ .success →
      Step ⟨db, .user :: .stopChildren controller driver :: .openLoop a p :: K⟩ (.stopped status)
        ⟨db, K⟩
  | driverRefused {db K controller driver a p status} : status ≠ .success →
      Step ⟨db, .user :: .stopDriver controller driver :: .openLoop a p :: K⟩ (.stopped status)
        ⟨db, K⟩

/-- Opening and closing on a database that runs of the other services made. -/
def machine (A : Arch) : Machine (Cfg A) Action where
  init := fun c => (services A).Reach Machine.anyStep c.db ∧ c.stack = [.user]
  step := Step

/-! ## What exclusive access means -/

structure ExclusiveAccess (openList : List OpenData) : Prop where
  exclusive : openList.countP (·.exclusive) ≤ 1
  byDriver : openList.countP (·.byDriver) ≤ 1
  /-- An exclusive entry and a driver's entry are one and the same. -/
  apart : openList.Pairwise fun x y =>
    ¬ (x.exclusive ∧ y.byDriver) ∧ ¬ (x.byDriver ∧ y.exclusive)

/-- Every interface is accessed exclusively in every state that runs meeting `ok` reach. -/
def AlwaysExclusive (A : Arch) (ok : Cfg A → Action → Prop) : Prop :=
  ∀ c, (machine A).Reach ok c → ∀ p prot, c.db.interfaces p = some prot →
    ExclusiveAccess prot.openList

/-- In runs that meet `ok`, an `OpenProtocol` that leaves its disconnect loop and makes its entry
    finds no exclusive entry on the interface. -/
def ResumesFree (A : Arch) (ok : Cfg A → Action → Prop) : Prop :=
  ∀ c a p c', (machine A).Reach ok c → ok c (.append a p .success) →
    Step c (.append a p .success) c' → ∀ o ∈ c.db.openListOf p, o.exclusive = false

/-! ## Owners -/

/-- An entry that excludes others of its kind. -/
def owns (o : OpenData) : Bool := o.exclusive || o.byDriver

theorem countP_le_one_iff {α : Type*} (f : α → Bool) (l : List α) :
    l.countP f ≤ 1 ↔ l.Pairwise fun x y => ¬ (f x ∧ f y) := by
  induction l with
  | nil => simp
  | cons x l ih =>
    rw [List.countP_cons, List.pairwise_cons]
    cases hx : f x with
    | false => simp [ih]
    | true =>
      have hzero : l.countP f = 0 ↔ ∀ y ∈ l, ¬ f y = true := List.countP_eq_zero
      constructor
      · intro h
        have h0 : l.countP f = 0 := by simpa using h
        exact ⟨fun y hy => by simp [hzero.mp h0 y hy], ih.mp (by omega)⟩
      · rintro ⟨h, _⟩
        have h0 : l.countP f = 0 := hzero.mpr fun y hy hf => h y hy ⟨rfl, hf⟩
        simp [h0]

/-- Exclusive access is to have at most one owner. -/
theorem exclusiveAccess_iff (l : List OpenData) : ExclusiveAccess l ↔ l.countP owns ≤ 1 := by
  rw [countP_le_one_iff]
  constructor
  · intro h
    have hx := (countP_le_one_iff _ l).mp h.exclusive
    have hd := (countP_le_one_iff _ l).mp h.byDriver
    refine (hx.and (hd.and h.apart)).imp ?_
    rintro x y ⟨hxx, hdd, hxd, hdx⟩ ⟨hox, hoy⟩
    rw [owns, Bool.or_eq_true] at hox hoy
    obtain hx' | hx' := hox <;> obtain hy' | hy' := hoy
    · exact hxx ⟨hx', hy'⟩
    · exact hxd ⟨hx', hy'⟩
    · exact hdx ⟨hx', hy'⟩
    · exact hdd ⟨hx', hy'⟩
  · intro h
    have ofExclusive : ∀ o : OpenData, o.exclusive = true → owns o = true := by
      intro o ho
      rw [owns, ho, Bool.true_or]
    have ofDriver : ∀ o : OpenData, o.byDriver = true → owns o = true := by
      intro o ho
      rw [owns, ho, Bool.or_true]
    refine ⟨(countP_le_one_iff _ l).mpr (h.imp ?_), (countP_le_one_iff _ l).mpr (h.imp ?_),
      h.imp ?_⟩
    · rintro x y hn ⟨hx, hy⟩
      exact hn ⟨ofExclusive x hx, ofExclusive y hy⟩
    · rintro x y hn ⟨hx, hy⟩
      exact hn ⟨ofDriver x hx, ofDriver y hy⟩
    · intro x y hn
      refine ⟨?_, ?_⟩
      · rintro ⟨hx, hy⟩
        exact hn ⟨ofExclusive x hx, ofDriver y hy⟩
      · rintro ⟨hx, hy⟩
        exact hn ⟨ofDriver x hx, ofExclusive y hy⟩

/-- No interface has two owners. -/
def Owned {A : Arch} (db : Database A) : Prop :=
  ∀ p prot, db.interfaces p = some prot → prot.openList.countP owns ≤ 1

section Owners

variable {A : Arch} {db db' : Database A}

theorem Owned.modifyInterface (h : Owned db) {p : Addr} {prot : ProtocolInterface A}
    (hp : db.interfaces p = some prot) {f : ProtocolInterface A → ProtocolInterface A}
    (hf : (f prot).openList.countP owns ≤ 1) : Owned (db.modifyInterface p f) := by
  intro q r hq
  replace hq : Function.update db.interfaces p ((db.interfaces p).map f) q = some r := hq
  by_cases hqp : q = p
  · subst hqp
    rw [Function.update_self, hp, Option.map_some] at hq
    cases hq
    exact hf
  · rw [Function.update_of_ne hqp] at hq
    exact h q r hq

/-- Owning depends on the attributes alone. -/
theorem countP_owns_of_attributes {l l' : List OpenData}
    (h : l'.map (·.attributes) = l.map (·.attributes)) : l'.countP owns = l.countP owns := by
  have key : ∀ l : List OpenData, l.countP owns =
      (l.map (·.attributes)).countP fun b => b &&& openExclusive != 0 || b &&& openByDriver != 0 := by
    intro l
    rw [List.countP_map]
    rfl
  rw [key l', key l, h]

/-! ## What OpenProtocol does to the list -/

theorem scanOpenList_free {a : OpenArgs} {byDriver exclusive byDriver' exclusive' : Bool}
    {l : List OpenData}
    (h : scanOpenList a byDriver exclusive l = .free byDriver' exclusive') :
    byDriver' = (byDriver || l.any (·.byDriver)) ∧
      exclusive' = (exclusive || l.any (·.exclusive)) := by
  have cons : ∀ o r, Scan.cons o r = .free byDriver' exclusive' → r = .free byDriver' exclusive' := by
    intro o r hr
    cases r <;> first | exact hr | cases hr
  induction l generalizing byDriver exclusive with
  | nil =>
    cases h
    simp
  | cons o os ih =>
    rw [scanOpenList] at h
    split_ifs at h with hstarted hx hmatch
    · obtain ⟨hb, hx'⟩ := ih (cons o _ h)
      exact ⟨by rw [hb, List.any_cons, Bool.or_assoc], by rw [hx', List.any_cons, hx]; simp⟩
    · obtain ⟨hb, hx'⟩ := ih (cons o _ h)
      have hx0 : o.exclusive = false := Bool.eq_false_iff.mpr hx
      exact ⟨by rw [hb, List.any_cons, Bool.or_assoc], by rw [hx', List.any_cons, hx0]; simp⟩

theorem scanOpenList_reopened {a : OpenArgs} {byDriver exclusive : Bool} {l l' : List OpenData}
    (h : scanOpenList a byDriver exclusive l = .reopened l') :
    l'.map (·.attributes) = l.map (·.attributes) := by
  have cons : ∀ o r l', Scan.cons o r = .reopened l' → ∃ os, r = .reopened os ∧ l' = o :: os := by
    intro o r l' hr
    cases r with
    | reopened os =>
      cases hr
      exact ⟨os, rfl, rfl⟩
    | alreadyStarted => cases hr
    | free => cases hr
  induction l generalizing byDriver exclusive l' with
  | nil => cases h
  | cons o os ih =>
    rw [scanOpenList] at h
    split_ifs at h with hstarted hx hmatch
    · obtain ⟨os', hs, rfl⟩ := cons _ _ _ h
      rw [List.map_cons, List.map_cons, ih hs]
    · cases h
      rfl
    · obtain ⟨os', hs, rfl⟩ := cons _ _ _ h
      rw [List.map_cons, List.map_cons, ih hs]

/-- The attributes `OpenProtocol` accepts. -/
theorem attributes_of_check {a : OpenArgs} (h : db.checkAttributes a = .success) :
    a.attributes ∈ [openByHandleProtocol, openGetProtocol, openTestProtocol,
      openByChildController, openByDriver, openByDriver ||| openExclusive, openExclusive] := by
  unfold checkAttributes at h
  by_cases h1 : a.attributes = openByChildController
  · simp [h1]
  rw [if_neg h1] at h
  by_cases h2 : a.attributes = openByDriver ∨ a.attributes = openByDriver ||| openExclusive
  · obtain h2 | h2 := h2 <;> simp [h2]
  rw [if_neg h2] at h
  by_cases h3 : a.attributes = openExclusive
  · simp [h3]
  rw [if_neg h3] at h
  split at h
  · rename_i h4
    obtain h4 | h4 | h4 := h4 <;> simp [h4]
  · cases h

theorem andThen_eq_success {s t : Status} (h : s.andThen t = .success) :
    s = .success ∧ t = .success := by
  unfold Status.andThen at h
  split at h
  · rename_i hs
    rw [h] at hs
    cases hs
  · rename_i hs
    cases s <;> simp_all [Status.isError]

theorem check_of_openCheck {a : OpenArgs} {g : Guid} (h : db.openCheck a = .ok g) :
    db.checkAttributes a = .success := by
  unfold openCheck at h
  split at h
  · cases h
  · split at h
    · cases h
    · split at h
      · rename_i hs
        exact (andThen_eq_success hs).2
      · cases h

/-- Exclusive opening is for an image. -/
theorem image_of_check {a : OpenArgs} (h : db.checkAttributes a = .success)
    (ha : a.attributes = openByDriver ||| openExclusive ∨ a.attributes = openExclusive) :
    a.imageHandle ≠ 0 := by
  have hvalid : db.validateHandle a.imageHandle = .success := by
    unfold checkAttributes at h
    obtain ha | ha := ha
    · rw [ha, if_neg (by decide), if_pos (by decide)] at h
      exact (andThen_eq_success h).1
    · rw [ha, if_neg (by decide), if_neg (by decide), if_pos rfl] at h
      exact h
  intro h0
  rw [h0] at hvalid
  cases hvalid

/-- The entry `OpenProtocol` makes. -/
def newEntry (a : OpenArgs) : OpenData := ⟨a.imageHandle, a.controllerHandle, a.attributes, 1⟩

/-- An owner's entry is only made at once when there is no owner. -/
theorem owns_of_decide {a : OpenArgs} {byDriver exclusive : Bool}
    (hcheck : db.checkAttributes a = .success)
    (h : openDecide a.attributes byDriver exclusive = .append) (ho : owns (newEntry a) = true) :
    byDriver = false ∧ exclusive = false := by
  have hmem := attributes_of_check hcheck
  generalize hb : a.attributes = b at h hmem
  have ho' : (b &&& openExclusive != 0 || b &&& openByDriver != 0) = true := by rw [← hb]; exact ho
  clear ho hb hcheck
  simp only [List.mem_cons, List.not_mem_nil, or_false] at hmem
  obtain rfl | rfl | rfl | rfl | rfl | rfl | rfl := hmem <;> revert h ho' <;>
    cases byDriver <;> cases exclusive <;> decide

theorem exclusive_of_decide {attributes : BitVec 32} {byDriver exclusive : Bool}
    (h : openDecide attributes byDriver exclusive = .disconnect) :
    attributes = openByDriver ||| openExclusive ∨ attributes = openExclusive := by
  unfold openDecide at h
  split_ifs at h
  assumption

/-- Where `OpenProtocol` returns at once, it has changed nothing, counted up an entry, or made an
    entry that is no owner's or the only owner's. -/
theorem openProtocol_returned {a : OpenArgs} {memory : Bool} {status : Status}
    {i : Option Nat} (h : db.openProtocol a memory = .returned db' status i) :
    db' = db ∨
    (∃ p prot openList, db.interfaces p = some prot ∧
      openList.map (·.attributes) = prot.openList.map (·.attributes) ∧
      db' = db.modifyInterface p fun prot => { prot with openList }) ∨
    (∃ p prot, db.interfaces p = some prot ∧ db' = (db.appendOpen p a memory).1 ∧
      (owns (newEntry a) = true → prot.openList.countP owns = 0)) := by
  unfold openProtocol at h
  split at h
  · cases h
    exact .inl rfl
  · rename_i g hcheck
    split at h
    · cases h
      exact .inl rfl
    · rename_i p _
      split at h
      · cases h
        exact .inl rfl
      · rename_i prot hp
        dsimp only at h
        split at h
        · cases h
          exact .inl rfl
        · rename_i openList hscan
          cases h
          exact .inr (.inl ⟨p, prot, openList, hp, scanOpenList_reopened hscan, rfl⟩)
        · rename_i byDriver exclusive hscan
          split at h
          · cases h
            exact .inl rfl
          · cases h
          · rename_i hdecide
            cases h
            refine .inr (.inr ⟨p, prot, hp, rfl, fun ho => ?_⟩)
            obtain ⟨hb, hx⟩ := owns_of_decide (check_of_openCheck hcheck) hdecide ho
            obtain ⟨hb', hx'⟩ := scanOpenList_free hscan
            rw [hb, Bool.false_or] at hb'
            rw [hx, Bool.false_or] at hx'
            rw [List.countP_eq_zero]
            intro o hm
            rw [owns, List.any_eq_false.mp hb'.symm o hm |> Bool.eq_false_iff.mpr,
              List.any_eq_false.mp hx'.symm o hm |> Bool.eq_false_iff.mpr]
            decide

theorem openProtocol_disconnects {a : OpenArgs} {memory : Bool} {p : Addr} {i : Option Nat}
    (h : db.openProtocol a memory = .disconnects p i) :
    (newEntry a).exclusive = true ∧ a.imageHandle ≠ 0 := by
  unfold openProtocol at h
  split at h
  · cases h
  · rename_i g hcheck
    split at h
    · cases h
    · split at h
      · cases h
      · dsimp only at h
        split at h
        · cases h
        · cases h
        · split at h
          · cases h
          · rename_i hdecide
            have ha := exclusive_of_decide hdecide
            refine ⟨?_, image_of_check (check_of_openCheck hcheck) ha⟩
            show (a.attributes &&& openExclusive != 0) = true
            obtain ha | ha := ha <;> rw [ha] <;> decide
          · cases h

/-! ## One owner in every state -/

theorem Owned.appendOpen (h : Owned db) {a : OpenArgs} {p : Addr} (memory : Bool)
    (hnew : ∀ prot, db.interfaces p = some prot → owns (newEntry a) = true →
      prot.openList.countP owns = 0) : Owned (db.appendOpen p a memory).1 := by
  unfold Database.appendOpen
  split_ifs
  · exact h
  · cases hp : db.interfaces p with
    | none =>
      intro q r hq
      replace hq : Function.update db.interfaces p ((db.interfaces p).map _) q = some r := hq
      rw [hp, Option.map_none, ← hp, Function.update_eq_self] at hq
      exact h q r hq
    | some prot =>
      refine h.modifyInterface hp ?_
      show (prot.openList ++ [newEntry a]).countP owns ≤ 1
      have hold := h p prot hp
      rw [List.countP_append]
      cases ho : owns (newEntry a) with
      | false => simpa [ho] using hold
      | true => simp [ho, hnew prot hp ho]
  · exact h

theorem Owned.openProtocol (h : Owned db) {a : OpenArgs} {memory : Bool} {status : Status}
    {i : Option Nat} (hr : db.openProtocol a memory = .returned db' status i) : Owned db' := by
  obtain rfl | ⟨p, prot, openList, hp, hattr, rfl⟩ | ⟨p, prot, hp, rfl, hnew⟩ :=
    openProtocol_returned hr
  · exact h
  · refine h.modifyInterface hp ?_
    show openList.countP owns ≤ 1
    rw [countP_owns_of_attributes hattr]
    exact h p prot hp
  · refine h.appendOpen memory fun prot' hp' ho => ?_
    rw [hp] at hp'
    cases hp'
    exact hnew ho

theorem Owned.closeProtocol (h : Owned db) (x : Addr) (g : Option Guid)
    (image controller : Addr) : Owned (db.closeProtocol x g image controller).1 := by
  unfold Database.closeProtocol
  dsimp only
  generalize (db.validateHandle x).andThen _ = status
  cases status with
  | success =>
    cases g with
    | none => exact h
    | some g =>
      dsimp only
      split
      · split
        · rename_i prot hp
          exact h.modifyInterface hp (List.filter_sublist.countP_le.trans (h _ prot hp))
        · exact h
      · exact h
  | _ => exact h

theorem Owned.disconnectController (h : Owned db) {controller driver : Addr}
    {memory : DisconnectMemory} {next : DisconnectNext}
    (hr : db.disconnectController controller driver memory = (db', next)) : Owned db' := by
  unfold Database.disconnectController at hr
  split at hr
  · cases hr
    exact h
  · split at hr
    · cases hr
      exact h
    · rename_i db₁ i hopen
      have h₁ := h.openProtocol hopen
      dsimp only at hr
      have hdb : db' = db₁ := by
        split at hr
        · exact (congrArg Prod.fst hr).symm
        · split at hr
          · exact (congrArg Prod.fst hr).symm
          · split at hr
            · exact (congrArg Prod.fst hr).symm
            · split at hr <;> exact (congrArg Prod.fst hr).symm
      rw [hdb]
      exact h₁
    · rename_i db₁ status i _ hopen
      cases hr
      exact h.openProtocol hopen

/-- What suspended activations of `OpenProtocol` are about. -/
def Waiting : Frame → Prop
  | .openLoop a _ => (newEntry a).exclusive = true ∧ a.imageHandle ≠ 0
  | _ => True

theorem Step.waiting {c c' : Cfg A} {a : Action} (hs : Step c a c')
    (h : ∀ f ∈ c.stack, Waiting f) : ∀ f ∈ c'.stack, Waiting f := by
  cases hs with
  | openReturns | close => exact h
  | openLoops hr =>
    intro f hf
    obtain rfl | hf := List.mem_cons.mp hf
    · exact openProtocol_disconnects hr
    · exact h f hf
  | append | denied => exact fun f hf => h f (List.mem_cons_of_mem _ hf)
  | stopChildren | stopDriver =>
    intro f hf
    obtain rfl | hf := List.mem_cons.mp hf
    · trivial
    · obtain rfl | hf := List.mem_cons.mp hf
      · trivial
      · exact h f hf
  | childrenStopped =>
    intro f hf
    obtain rfl | hf := List.mem_cons.mp hf
    · trivial
    · obtain rfl | hf := List.mem_cons.mp hf
      · trivial
      · exact h f (List.mem_cons_of_mem _ (List.mem_cons_of_mem _ hf))
  | driverStopped =>
    exact fun f hf => h f (List.mem_cons_of_mem _ (List.mem_cons_of_mem _ hf))
  | childrenRefused | driverRefused =>
    exact fun f hf =>
      h f (List.mem_cons_of_mem _ (List.mem_cons_of_mem _ (List.mem_cons_of_mem _ hf)))

theorem appendOpen_of_error {a : OpenArgs} {p : Addr} {memory : Bool} {status : Status}
    (hr : db.appendOpen p a memory = (db', status)) (hs : status ≠ .success) : db' = db := by
  unfold Database.appendOpen at hr
  split_ifs at hr
  · exact (congrArg Prod.fst hr).symm
  · exact absurd (congrArg Prod.snd hr).symm hs
  · exact (congrArg Prod.fst hr).symm

theorem Step.owned {c c' : Cfg A} {a : Action} (hs : Step c a c') (h : Owned c.db)
    (hfree : ∀ args p, a = .append args p .success →
      ∀ o ∈ c.db.openListOf p, o.exclusive = false) : Owned c'.db := by
  cases hs with
  | openReturns hr => exact h.openProtocol hr
  | openLoops | childrenStopped | driverStopped | childrenRefused | driverRefused => exact h
  | @close db db' K x g image controller status hr =>
    have hc := h.closeProtocol x g image controller
    rw [hr] at hc
    exact hc
  | @append db db' K args p memory status hfind hr =>
    by_cases hstatus : status = .success
    · subst hstatus
      have hnone := List.find?_eq_none.mp hfind
      have hx := hfree args p rfl
      have happ : Owned (db.appendOpen p args memory).1 := by
        refine h.appendOpen memory fun prot hp _ => ?_
        rw [List.countP_eq_zero]
        intro o ho
        have hm : o ∈ db.openListOf p := by rwa [openListOf, hp]
        rw [owns, hx o hm, Bool.false_or]
        exact hnone o hm
      rw [hr] at happ
      exact happ
    · show Owned db'
      rw [appendOpen_of_error hr hstatus]
      exact h
  | denied _ hr | stopChildren _ hr | stopDriver _ hr => exact h.disconnectController hr

end Owners

variable {A : Arch} {ok : Cfg A → Action → Prop}

theorem init_owned {c : Cfg A} (h : (machine A).init c) :
    Owned c.db ∧ ∀ f ∈ c.stack, Waiting f := by
  obtain ⟨hrun, hstack⟩ := h
  have hshows : ∃ cat, c.db.Shows cat := by
    refine hrun.rule (I := fun db => ∃ cat, db.Shows cat) ?_ ?_
    · rintro _ rfl
      exact ⟨_, Database.Shows.initial⟩
    · rintro db a db' ⟨cat, hcat⟩ _ hs
      obtain ⟨cat', _, hcat'⟩ := Hand.Step.simulates hcat hs
      exact ⟨cat', hcat'⟩
  obtain ⟨cat, hcat⟩ := hshows
  refine ⟨fun p prot hp => ?_, ?_⟩
  · rw [(hcat.idle p prot hp).1]
    exact Nat.zero_le 1
  · rw [hstack]
    intro f hf
    cases List.mem_singleton.mp hf
    trivial

theorem alwaysExclusive_of_resumesFree (h : ResumesFree A ok) : AlwaysExclusive A ok := by
  intro c hrun p prot hp
  have howned : Owned c.db := by
    clear hp
    induction hrun with
    | start hinit => exact (init_owned hinit).1
    | next hrun hok hstep ih =>
      refine Step.owned hstep ih ?_
      rintro args q rfl
      exact h _ _ _ _ hrun hok hstep
  exact (exclusiveAccess_iff _).mpr (howned p prot hp)

theorem waiting_of_reach {c : Cfg A} (hrun : (machine A).Reach ok c) :
    ∀ f ∈ c.stack, Waiting f :=
  hrun.rule (fun _ hinit => (init_owned hinit).2) (fun _ _ _ h _ hs => hs.waiting h)

theorem resumesFree_of_alwaysExclusive (h : AlwaysExclusive A ok) : ResumesFree A ok := by
  intro c a p c' hrun hok hs o ho
  have hreach := hrun.next hok hs
  have hwait := waiting_of_reach hrun
  by_contra hx
  rw [Bool.not_eq_false] at hx
  cases hs with
  | @append db db' K _ _ memory _ hfind hr =>
    obtain ⟨hnew, himage⟩ := hwait _ List.mem_cons_self
    cases hp : db.interfaces p with
    | none =>
      replace ho : o ∈ db.openListOf p := ho
      rw [openListOf, hp] at ho
      cases ho
    | some prot =>
      replace ho : o ∈ db.openListOf p := ho
      rw [openListOf, hp] at ho
      -- the new entry is the second exclusive one
      have hp' : db'.interfaces p = some { prot with
          openList := prot.openList ++ [newEntry a]
          openListCount := prot.openListCount + 1 } := by
        unfold Database.appendOpen at hr
        rw [if_neg himage] at hr
        split at hr
        · rw [show db' = _ from (congrArg Prod.fst hr).symm]
          show Function.update db.interfaces p ((db.interfaces p).map _) p = _
          rw [Function.update_self, hp]
          rfl
        · cases congrArg Prod.snd hr
      have hle := (h _ hreach p _ hp').exclusive
      have hold : 0 < prot.openList.countP (·.exclusive) := List.countP_pos_iff.mpr ⟨o, ho, hx⟩
      rw [List.countP_append, List.countP_singleton, if_pos hnew] at hle
      omega

/-- Interfaces are accessed exclusively in the runs in which no `OpenProtocol` makes its entry,
    after it disconnected drivers, beside an exclusive one; and in no others. -/
theorem alwaysExclusive_iff_resumesFree (A : Arch) (ok : Cfg A → Action → Prop) :
    AlwaysExclusive A ok ↔ ResumesFree A ok :=
  ⟨resumesFree_of_alwaysExclusive, alwaysExclusive_of_resumesFree⟩

/-! ## Two exclusive openings -/

/-- Installing on a new handle, in three blocks at `x`. -/
def installNew (db : Database .efi32) (x : Addr) (g : Guid) (interface : Nat) : Database .efi32 :=
  (db.installProtocolInterface ⟨some x, some (x + 1), some (x + 2)⟩ (some 0) (some g) .native
    interface).1

/-- A controller (3), a driver (6) and an application (9). -/
def threeHandles : Database .efi32 :=
  installNew (installNew (installNew (Database.initializeHandle .efi32) 1 7 70)
    4 driverBindingProtocol 80) 7 8 90

theorem fresh_blocks {db : Database .efi32} {x : Addr} (h : db.Fresh x) (h' : db.Fresh (x + 1))
    (h'' : db.Fresh (x + 2)) : InstallPool.Fresh ⟨some x, some (x + 1), some (x + 2)⟩ db := by
  refine ⟨?_, ?_, ?_, ?_, ?_, ?_⟩
  · rintro _ ⟨⟩
    exact h
  · rintro _ ⟨⟩
    exact h'
  · rintro _ ⟨⟩
    exact h''
  · rintro _ _ ⟨⟩ ⟨⟩
    exact (Nat.lt_succ_self x).ne
  · rintro _ _ ⟨⟩ ⟨⟩
    exact (Nat.lt_add_of_pos_right (by decide)).ne
  · rintro _ _ ⟨⟩ ⟨⟩
    exact (Nat.lt_succ_self (x + 1)).ne

theorem reach_installNew {db : Database .efi32} (hrun : (services .efi32).Reach Machine.anyStep db)
    {x : Addr} (h : db.Fresh x) (h' : db.Fresh (x + 1)) (h'' : db.Fresh (x + 2)) (g : Guid)
    (i : Nat) : (services .efi32).Reach Machine.anyStep (installNew db x g i) :=
  hrun.next trivial (@Hand.Step.install _ db _ _ (some 0) (some g) .native i _ _
    (fresh_blocks h h' h'') rfl)

theorem reach_threeHandles : (services .efi32).Reach Machine.anyStep threeHandles := by
  have first := reach_installNew (.start rfl) (x := 1) ⟨by decide, rfl, rfl, rfl, rfl⟩
    ⟨by decide, rfl, rfl, rfl, rfl⟩ ⟨by decide, rfl, rfl, rfl, rfl⟩ 7 70
  have second := reach_installNew first (x := 4) ⟨by decide, rfl, rfl, rfl, rfl⟩
    ⟨by decide, rfl, rfl, rfl, rfl⟩ ⟨by decide, rfl, rfl, rfl, rfl⟩ driverBindingProtocol 80
  exact reach_installNew second (x := 7) ⟨by decide, rfl, rfl, rfl, rfl⟩
    ⟨by decide, rfl, rfl, rfl, rfl⟩ ⟨by decide, rfl, rfl, rfl, rfl⟩ 8 90

/-- The application opens exclusively; the driver's `Stop`, called to make way, closes its opening
    and opens exclusively itself. -/
theorem resume_beside_exclusive : ∃ c c' : Cfg .efi32, (machine .efi32).Reach Machine.anyStep c ∧
    Step c (.append ⟨3, some 7, true, 9, 0, openExclusive⟩ 2 .success) c' ∧
    ∃ o ∈ c.db.openListOf 2, o.exclusive = true := by
  have start : (machine .efi32).Reach Machine.anyStep ⟨threeHandles, [.user]⟩ :=
    .start ⟨reach_threeHandles, rfl⟩
  have driven := start.next trivial
    (@Step.openReturns _ _ _ _ ⟨3, some 7, true, 6, 3, openByDriver⟩ true _ _ rfl)
  have opening := driven.next trivial
    (@Step.openLoops _ _ _ ⟨3, some 7, true, 9, 0, openExclusive⟩ true _ _ rfl)
  have stopping := opening.next trivial
    (@Step.stopDriver _ _ _ _ _ _ _ ⟨fun _ => true, fun _ => true, true⟩ rfl rfl)
  have closed := stopping.next trivial (@Step.close _ _ _ _ 3 (some 7) 6 3 _ rfl)
  have taken := closed.next trivial
    (@Step.openReturns _ _ _ _ ⟨3, some 7, true, 6, 0, openExclusive⟩ true _ _ rfl)
  have stopped := taken.next trivial Step.driverStopped
  refine ⟨_, _, stopped, @Step.append _ _ _ _ _ _ true _ rfl rfl,
    ⟨6, 0, openExclusive, 1⟩, ?_, by decide⟩
  exact List.mem_singleton.mpr rfl

theorem not_alwaysExclusive : ¬ AlwaysExclusive .efi32 Machine.anyStep := by
  intro h
  obtain ⟨c, c', hrun, hs, o, ho, hx⟩ := resume_beside_exclusive
  have hfree := resumesFree_of_alwaysExclusive h c _ 2 c' hrun trivial hs o ho
  rw [hx] at hfree
  cases hfree

end Exclusive

end EfiCore.Hand
