import EfiCore.Hand.Lists

/-! # Removing an interface that is in use

`DisconnectControllersUsingProtocolInterface` of `handle.c` disconnects the drivers of an
interface one after the other, and gives up when one refuses.  `ReinstallProtocolInterface` then
connects the handle again; `UninstallProtocolInterface` does not.
-/

namespace EfiCore.Hand

open EfiCore.Lib

variable {A : Arch}

/-- A use that something has to be stopped for. -/
def OpenData.active (o : OpenData) : Bool := o.byDriver || o.exclusive || o.byChild

/-- What is asked of the drivers of a handle. -/
inductive DriverCall where
  | disconnected (agent : Addr)
  | refused (agent : Addr)
  | connected
  deriving DecidableEq, Repr

/-- `ConnectController` is called after the last driver was disconnected. -/
def Reconnects (calls : List DriverCall) : Prop :=
  ∀ before agent after, calls = before ++ .disconnected agent :: after → .connected ∈ after

namespace Database

/-- The calls in the first loop of `DisconnectControllersUsingProtocolInterface`. -/
def disconnectDriversCalls (D : Drivers A) (h p : Addr) : Nat → Database A → List DriverCall
  | 0, _ => []
  | fuel + 1, db =>
    match (db.openListOf p).find? (·.byDriver) with
    | none => []
    | some o =>
      match D.disconnectController db h o.agentHandle with
      | (db, .success) => .disconnected o.agentHandle :: disconnectDriversCalls D h p fuel db
      | (_, _) => [.refused o.agentHandle]

/-- The calls of `DisconnectControllersUsingProtocolInterface`. -/
def disconnectControllersCalls (db : Database A) (D : Drivers A) (fuel : Nat) (h p : Addr) :
    List DriverCall :=
  disconnectDriversCalls D h p fuel db ++
    match disconnectDrivers D h p fuel db with
    | some (db, .success) =>
      match (db.closePassive p).interfaces p with
      | some prot => if prot.openListCount ≠ 0 then [.connected] else []
      | none => []
    | _ => []

/-- The calls of `UninstallProtocolInterface`. -/
def uninstallCalls (db : Database A) (D : Drivers A) (fuel : Nat) (h : Addr) (g : Guid)
    (interface : Nat) : List DriverCall :=
  match db.validateHandle h, db.findProtocolInterface h g interface with
  | .success, some p => db.disconnectControllersCalls D fuel h p
  | _, _ => []

/-- The calls of `ReinstallProtocolInterface`. -/
def reinstallCalls (db : Database A) (D : Drivers A) (fuel : Nat) (h : Addr) (g : Guid)
    (old : Nat) : List DriverCall :=
  match db.validateHandle h, db.findProtocolInterface h g old with
  | .success, some p => db.disconnectControllersCalls D fuel h p ++
    match db.disconnectControllersUsingProtocolInterface D fuel h p with
    | none => []
    | some (db, .success) => if (db.findProtocolInterface h g old).isSome then [.connected] else []
    | some (_, _) => [.connected]
  | _, _ => []

/-! ## The loop -/

/-- The drivers `agents` are disconnected one after the other, and then the next one refuses. -/
inductive RefusesAfter (D : Drivers A) (h p : Addr) :
    Database A → List Addr → Database A → Prop
  | refused {db db' : Database A} {o : OpenData} {status : Status} :
      (db.openListOf p).find? (·.byDriver) = some o →
      D.disconnectController db h o.agentHandle = (db', status) → status ≠ .success →
      RefusesAfter D h p db [] db'
  | disconnected {db db₁ db' : Database A} {o : OpenData} {agents : List Addr} :
      (db.openListOf p).find? (·.byDriver) = some o →
      D.disconnectController db h o.agentHandle = (db₁, .success) →
      RefusesAfter D h p db₁ agents db' → RefusesAfter D h p db (o.agentHandle :: agents) db'

section Loop

variable {D : Drivers A} {h p : Addr} {db db' : Database A}

/-- How the loop ends, with its calls. -/
theorem disconnectDrivers_cases {fuel : Nat} {status : Status}
    (hr : disconnectDrivers D h p fuel db = some (db', status)) :
    (status = .success ∧ (db'.openListOf p).find? (·.byDriver) = none ∧
        ∃ agents : List Addr, disconnectDriversCalls D h p fuel db = agents.map .disconnected) ∨
      (status = .accessDenied ∧ ∃ agents agent, RefusesAfter D h p db agents db' ∧
        disconnectDriversCalls D h p fuel db = agents.map .disconnected ++ [.refused agent]) := by
  induction fuel generalizing db with
  | zero => cases hr
  | succ fuel ih =>
    rw [disconnectDrivers] at hr
    rw [disconnectDriversCalls]
    cases hfind : (db.openListOf p).find? (·.byDriver) with
    | none =>
      rw [hfind] at hr
      cases hr
      exact .inl ⟨rfl, hfind, [], rfl⟩
    | some o =>
      rw [hfind] at hr
      cases hcall : D.disconnectController db h o.agentHandle with
      | mk db₁ status₁ =>
        dsimp only at hr ⊢
        rw [hcall] at hr ⊢
        cases status₁ with
        | success =>
          obtain ⟨hstatus, hnone, agents, hcalls⟩ | ⟨hstatus, agents, agent, hrefuses, hcalls⟩ :=
            ih hr
          · refine .inl ⟨hstatus, hnone, o.agentHandle :: agents, ?_⟩
            rw [List.map_cons, ← hcalls]
          · refine .inr ⟨hstatus, o.agentHandle :: agents, agent,
              .disconnected hfind hcall hrefuses, ?_⟩
            rw [List.map_cons, List.cons_append, ← hcalls]
        | _ =>
          cases hr
          exact .inr ⟨rfl, [], o.agentHandle, .refused hfind hcall (by rintro ⟨⟩), rfl⟩

/-- With rounds enough the loop gets to the driver that refuses. -/
theorem RefusesAfter.disconnectDrivers {agents : List Addr}
    (hrefuses : RefusesAfter D h p db agents db') :
    ∃ fuel, Database.disconnectDrivers D h p fuel db = some (db', .accessDenied) ∧
      ∃ agent, disconnectDriversCalls D h p fuel db =
        agents.map .disconnected ++ [.refused agent] := by
  induction hrefuses with
  | @refused db db' o status hfind hcall hne =>
    refine ⟨1, ?_, o.agentHandle, ?_⟩
    · rw [Database.disconnectDrivers, hfind]
      dsimp only
      rw [hcall]
      cases status with
      | success => exact absurd rfl hne
      | _ => rfl
    · rw [disconnectDriversCalls, hfind]
      dsimp only
      rw [hcall]
      cases status with
      | success => exact absurd rfl hne
      | _ => rfl
  | disconnected hfind hcall _ ih =>
    obtain ⟨fuel, hloop, agent, hcalls⟩ := ih
    refine ⟨fuel + 1, ?_, agent, ?_⟩
    · rw [Database.disconnectDrivers, hfind]
      dsimp only
      rw [hcall]
      exact hloop
    · rw [disconnectDriversCalls, hfind]
      dsimp only
      rw [hcall]
      exact congrArg _ hcalls

/-- The calls of the drivers lead from one database to the other; in between, the passive users of
    the interface may be closed. -/
inductive Performs (D : Drivers A) (h p : Addr) :
    Database A → List DriverCall → Database A → Prop
  | nil {db : Database A} : Performs D h p db [] db
  | close {db db' : Database A} {calls : List DriverCall} :
      Performs D h p (db.closePassive p) calls db' → Performs D h p db calls db'
  | disconnected {db db₁ db' : Database A} {agent : Addr} {calls : List DriverCall} :
      D.disconnectController db h agent = (db₁, .success) → Performs D h p db₁ calls db' →
      Performs D h p db (.disconnected agent :: calls) db'
  | refused {db db₁ db' : Database A} {agent : Addr} {status : Status}
      {calls : List DriverCall} :
      D.disconnectController db h agent = (db₁, status) → status ≠ .success →
      Performs D h p db₁ calls db' → Performs D h p db (.refused agent :: calls) db'
  | connected {db db' : Database A} {calls : List DriverCall} :
      Performs D h p (D.connectController db h) calls db' →
      Performs D h p db (.connected :: calls) db'

theorem Performs.append {db₁ : Database A} {calls calls' : List DriverCall}
    (hfirst : Performs D h p db calls db₁) (hrest : Performs D h p db₁ calls' db') :
    Performs D h p db (calls ++ calls') db' := by
  induction hfirst with
  | nil => exact hrest
  | close _ ih => exact .close (ih hrest)
  | disconnected hcall _ ih => exact .disconnected hcall (ih hrest)
  | refused hcall hne _ ih => exact .refused hcall hne (ih hrest)
  | connected _ ih => exact .connected (ih hrest)

/-- The loop makes the calls that are told of it. -/
theorem disconnectDrivers_performs {fuel : Nat} {status : Status}
    (hr : disconnectDrivers D h p fuel db = some (db', status)) :
    Performs D h p db (disconnectDriversCalls D h p fuel db) db' := by
  induction fuel generalizing db with
  | zero => cases hr
  | succ fuel ih =>
    rw [disconnectDrivers] at hr
    rw [disconnectDriversCalls]
    cases hfind : (db.openListOf p).find? (·.byDriver) with
    | none =>
      rw [hfind] at hr
      cases hr
      exact .nil
    | some o =>
      rw [hfind] at hr
      cases hcall : D.disconnectController db h o.agentHandle with
      | mk db₁ status₁ =>
        dsimp only at hr ⊢
        rw [hcall] at hr ⊢
        cases status₁ with
        | success => exact .disconnected hcall (ih hr)
        | _ =>
          cases hr
          exact .refused hcall (by rintro ⟨⟩) .nil

/-- So does `DisconnectControllersUsingProtocolInterface`. -/
theorem disconnectControllers_performs {fuel : Nat} {status : Status}
    (hr : db.disconnectControllersUsingProtocolInterface D fuel h p = some (db', status)) :
    Performs D h p db (db.disconnectControllersCalls D fuel h p) db' := by
  unfold disconnectControllersUsingProtocolInterface at hr
  unfold disconnectControllersCalls
  cases hloop : Database.disconnectDrivers D h p fuel db with
  | none =>
    rw [hloop] at hr
    cases hr
  | some answer =>
    obtain ⟨db₁, status₁⟩ := answer
    have hperforms := disconnectDrivers_performs hloop
    rw [hloop] at hr
    refine hperforms.append ?_
    obtain ⟨rfl, -⟩ | ⟨rfl, -⟩ := disconnectDrivers_cases hloop
    · dsimp only at hr ⊢
      cases hprot : (db₁.closePassive p).interfaces p with
      | none =>
        rw [hprot] at hr
        cases hr
        exact .close .nil
      | some prot =>
        rw [hprot] at hr
        dsimp only at hr ⊢
        by_cases hcount : prot.openListCount ≠ 0
        · rw [if_pos hcount] at hr ⊢
          cases hr
          exact .close (.connected .nil)
        · rw [if_neg hcount] at hr ⊢
          cases hr
          exact .close .nil
    · cases hr
      exact .nil

end Loop

/-! ## The interface stays -/

/-- The interface `p` installs the triple, and fewer uses of it are open than there are addresses. -/
structure Intact (db : Database A) (p h : Addr) (g : Guid) (i : Nat) : Prop where
  wellFormed : db.WellFormed
  holds : db.Holds p h g i
  bounded : (db.openListOf p).length < 2 ^ A.bits

end Database

/-- The drivers leave the interface that is about to be removed to the caller. -/
structure Drivers.LeaveIntact (D : Drivers A) (p h : Addr) (g : Guid) (i : Nat) : Prop where
  disconnect : ∀ db a, db.Intact p h g i → (D.disconnectController db h a).1.Intact p h g i
  connect : ∀ db, db.Intact p h g i → (D.connectController db h).Intact p h g i

namespace Database

section Intact

variable {D : Drivers A} {h p : Addr} {g : Guid} {i : Nat} {db db' : Database A} {fuel : Nat}
  {status : Status}

/-- Writing to the open list of an interface. -/
theorem Intact.modifyInterface (hi : db.Intact p h g i) (q : Addr)
    {f : ProtocolInterface A → ProtocolInterface A} (hh : ∀ r, (f r).handle = r.handle)
    (hp : ∀ r, (f r).protocol = r.protocol) (hf : ∀ r, (f r).interface = r.interface)
    (hc : ∀ r, r.openListCount = BitVec.ofNat _ r.openList.length →
      (f r).openListCount = BitVec.ofNat _ (f r).openList.length)
    (hl : ∀ r, r.openList.length < 2 ^ A.bits → (f r).openList.length < 2 ^ A.bits) :
    (db.modifyInterface q f).Intact p h g i := by
  obtain ⟨prot, entry, hprot, rfl, rfl, he, rfl⟩ := hi.holds
  have hbound := hi.bounded
  have hwf : (db.modifyInterface q f).WellFormed :=
    ⟨hi.wellFormed.toLinked.modifyInterface q hh hp hc, hi.wellFormed.inUse⟩
  unfold openListOf at hbound
  rw [hprot] at hbound
  by_cases hq : p = q
  · subst hq
    have hself : (db.modifyInterface p f).interfaces p = some (f prot) := by
      unfold Database.modifyInterface
      dsimp only
      rw [Function.update_self, hprot]
      rfl
    refine ⟨hwf, ⟨f prot, entry, hself, hh prot, hf prot, ?_, rfl⟩, ?_⟩
    · rw [hp]
      exact he
    · unfold openListOf
      rw [hself]
      exact hl prot hbound
  · have hother : (db.modifyInterface q f).interfaces p = some prot := by
      unfold Database.modifyInterface
      dsimp only
      rw [Function.update_of_ne hq, hprot]
    refine ⟨hwf, ⟨prot, entry, hother, rfl, rfl, he, rfl⟩, ?_⟩
    unfold openListOf
    rw [hother]
    exact hbound

theorem Intact.closePassive (hi : db.Intact p h g i) : (db.closePassive p).Intact p h g i :=
  hi.modifyInterface p (fun _ => rfl) (fun _ => rfl) (fun _ => rfl) closePassive_counted
    fun _ hl => (List.length_filter_le _ _).trans_lt hl

theorem Intact.disconnectDrivers (hD : D.LeaveIntact p h g i) (hi : db.Intact p h g i)
    (hr : Database.disconnectDrivers D h p fuel db = some (db', status)) :
    db'.Intact p h g i := by
  induction fuel generalizing db with
  | zero => cases hr
  | succ fuel ih =>
    rw [Database.disconnectDrivers] at hr
    cases hfind : (db.openListOf p).find? (·.byDriver) with
    | none =>
      rw [hfind] at hr
      cases hr
      exact hi
    | some o =>
      have hnext := hD.disconnect db o.agentHandle hi
      rw [hfind] at hr
      dsimp only at hr
      cases hcall : D.disconnectController db h o.agentHandle with
      | mk db₁ status₁ =>
        rw [hcall] at hr hnext
        cases status₁ with
        | success => exact ih hnext hr
        | _ =>
          cases hr
          exact hnext

/-- An interface that nothing uses according to its count is not used. -/
theorem Intact.unused (hi : db.Intact p h g i) {prot : ProtocolInterface A}
    (hp : db.interfaces p = some prot) (hcount : prot.openListCount = 0) :
    db.openListOf p = [] := by
  have hcounted := hi.wellFormed.counted p prot hp
  have hbound := hi.bounded
  unfold openListOf at hbound ⊢
  rw [hp] at hbound ⊢
  have hnat := congrArg BitVec.toNat (hcounted.symm.trans hcount)
  rw [BitVec.toNat_ofNat, Nat.mod_eq_of_lt hbound] at hnat
  exact List.eq_nil_of_length_eq_zero hnat

/-- How `DisconnectControllersUsingProtocolInterface` ends, with its calls. -/
theorem Intact.disconnectControllers (hD : D.LeaveIntact p h g i) (hi : db.Intact p h g i)
    (hr : db.disconnectControllersUsingProtocolInterface D fuel h p = some (db', status)) :
    db'.Intact p h g i ∧
      ((status = .success ∧ db'.openListOf p = []) ∨
        (status = .accessDenied ∧ ∃ agents : List Addr,
          db.disconnectControllersCalls D fuel h p = agents.map .disconnected ++ [.connected]) ∨
        (status = .accessDenied ∧ ∃ agents agent, RefusesAfter D h p db agents db' ∧
          db.disconnectControllersCalls D fuel h p =
            agents.map .disconnected ++ [.refused agent])) := by
  unfold disconnectControllersUsingProtocolInterface at hr
  unfold disconnectControllersCalls
  cases hloop : Database.disconnectDrivers D h p fuel db with
  | none =>
    rw [hloop] at hr
    cases hr
  | some answer =>
    obtain ⟨db₁, status₁⟩ := answer
    rw [hloop] at hr
    have hi₁ := hi.disconnectDrivers hD hloop
    obtain ⟨rfl, -, agents, hcalls⟩ | ⟨rfl, agents, agent, hrefuses, hcalls⟩ :=
      disconnectDrivers_cases hloop
    · have hi₂ := hi₁.closePassive
      obtain ⟨prot, -, hprot, -⟩ := hi₂.holds
      dsimp only at hr ⊢
      rw [hprot] at hr ⊢
      dsimp only at hr ⊢
      by_cases hcount : prot.openListCount = 0
      · rw [if_neg (by simpa using hcount)] at hr
        cases hr
        exact ⟨hi₂, .inl ⟨rfl, hi₂.unused hprot hcount⟩⟩
      · rw [if_pos hcount] at hr ⊢
        cases hr
        exact ⟨hD.connect _ hi₂, .inr (.inl ⟨rfl, agents, by rw [hcalls]⟩)⟩
    · cases hr
      exact ⟨hi₁, .inr (.inr ⟨rfl, agents, agent, hrefuses, by rw [hcalls, List.append_nil]⟩)⟩

end Intact

end Database

/-! ## Connecting again -/

theorem reconnects_connected (calls : List DriverCall) : Reconnects (calls ++ [.connected]) := by
  intro before agent after heq
  -- what was connected last is behind the disconnected driver
  have hlast := congrArg List.getLast? heq
  rw [List.getLast?_append_of_ne_nil _ (List.cons_ne_nil _ _),
    List.getLast?_append_of_ne_nil _ (List.cons_ne_nil _ _)] at hlast
  cases after with
  | nil => cases hlast
  | cons call after =>
    rw [List.getLast?_cons_cons] at hlast
    exact List.mem_of_getLast? hlast.symm

theorem reconnects_refused_iff (agents : List Addr) (agent : Addr) :
    Reconnects (agents.map .disconnected ++ [.refused agent]) ↔ agents = [] := by
  constructor
  · intro h
    cases agents with
    | nil => rfl
    | cons a agents =>
      have hmem := h [] a (agents.map .disconnected ++ [.refused agent]) rfl
      simp at hmem
  · rintro rfl before a after heq
    cases before with
    | nil => cases heq
    | cons call before =>
      have hlength := congrArg List.length heq
      simp at hlength

namespace Database

/-- What removing an interface is to keep to: no use that something has to be stopped for is left
    when it is removed; and when the removal is denied, the triple is installed still and the
    drivers that were disconnected were given the chance to connect again. -/
structure RemovesSafely (D : Drivers A) (db : Database A) (h : Addr) (g : Guid) (i : Nat) :
    Prop where
  unused : ∀ fuel p db' q o, db.findProtocolInterface h g i = some p →
    db.disconnectControllersUsingProtocolInterface D fuel h p = some (db', .success) →
    db'.findProtocolInterface h g i = some q → o ∈ db'.openListOf q → o.active = false
  uninstall : ∀ fuel db',
    db.uninstallProtocolInterface D fuel h (some g) i = some (db', .accessDenied) →
    (h, g, i) ∈ db'.triples ∧ Reconnects (db.uninstallCalls D fuel h g i)
  reinstall : ∀ fuel new db',
    db.reinstallProtocolInterface D fuel h (some g) i new = some (db', .accessDenied) →
    (h, g, i) ∈ db'.triples ∧ Reconnects (db.reinstallCalls D fuel h g i)

section Removal

variable {D : Drivers A} {h : Addr} {g : Guid} {i : Nat} {db : Database A}

theorem validateHandle_cases (db : Database A) (h : Addr) :
    db.validateHandle h = .success ∨ db.validateHandle h = .invalidParameter := by
  unfold Database.validateHandle
  split_ifs
  · exact .inr rfl
  · exact .inr rfl
  · exact .inl rfl

/-- A denial comes from `DisconnectControllersUsingProtocolInterface`. -/
theorem uninstall_accessDenied {fuel : Nat} {db' : Database A}
    (hr : db.uninstallProtocolInterface D fuel h (some g) i = some (db', .accessDenied)) :
    db.validateHandle h = .success ∧ ∃ p, db.findProtocolInterface h g i = some p ∧
      db.disconnectControllersUsingProtocolInterface D fuel h p = some (db', .accessDenied) := by
  unfold uninstallProtocolInterface at hr
  dsimp only at hr
  obtain hvalid | hvalid := validateHandle_cases db h
  · rw [hvalid] at hr
    refine ⟨hvalid, ?_⟩
    cases hfind : db.findProtocolInterface h g i with
    | none =>
      rw [hfind] at hr
      cases hr
    | some p =>
      rw [hfind] at hr
      dsimp only at hr
      refine ⟨p, rfl, ?_⟩
      cases hcall : db.disconnectControllersUsingProtocolInterface D fuel h p with
      | none =>
        rw [hcall] at hr
        cases hr
      | some answer =>
        obtain ⟨db₁, status⟩ := answer
        rw [hcall] at hr
        cases status with
        | success =>
          -- what is not used is removed or not found
          replace hr := congrArg Prod.snd (Option.some.inj hr)
          unfold uninstallUnused at hr
          split at hr <;> cases hr
        | _ => cases hr <;> rfl
  · rw [hvalid] at hr
    cases hr

theorem reinstall_accessDenied {fuel new : Nat} {db' : Database A}
    (hr : db.reinstallProtocolInterface D fuel h (some g) i new = some (db', .accessDenied)) :
    db.validateHandle h = .success ∧ ∃ p db₁, db.findProtocolInterface h g i = some p ∧
      db.disconnectControllersUsingProtocolInterface D fuel h p = some (db₁, .accessDenied) ∧
      db' = D.connectController db₁ h := by
  unfold reinstallProtocolInterface at hr
  obtain hvalid | hvalid := validateHandle_cases db h
  · rw [hvalid] at hr
    dsimp only at hr
    refine ⟨hvalid, ?_⟩
    cases hfind : db.findProtocolInterface h g i with
    | none =>
      rw [hfind] at hr
      cases hr
    | some p =>
      rw [hfind] at hr
      dsimp only at hr
      cases hcall : db.disconnectControllersUsingProtocolInterface D fuel h p with
      | none =>
        rw [hcall] at hr
        cases hr
      | some answer =>
        obtain ⟨db₁, status⟩ := answer
        rw [hcall] at hr
        cases status with
        | success =>
          replace hr := congrArg Prod.snd (Option.some.inj hr)
          unfold reinstallUnused at hr
          dsimp only at hr
          split at hr
          · split at hr <;> cases hr
          · cases hr
        | _ => cases hr <;> exact ⟨p, db₁, rfl, hcall, rfl⟩
  · rw [hvalid] at hr
    cases hr

/-- A removal that is denied has made the calls that are told of it. -/
theorem uninstall_performs {fuel : Nat} {db' : Database A}
    (hr : db.uninstallProtocolInterface D fuel h (some g) i = some (db', .accessDenied)) :
    ∃ p, db.findProtocolInterface h g i = some p ∧
      Performs D h p db (db.uninstallCalls D fuel h g i) db' := by
  obtain ⟨hvalid, p, hfind, hcall⟩ := uninstall_accessDenied hr
  refine ⟨p, hfind, ?_⟩
  rw [uninstallCalls, hvalid, hfind]
  exact disconnectControllers_performs hcall

theorem reinstall_performs {fuel new : Nat} {db' : Database A}
    (hr : db.reinstallProtocolInterface D fuel h (some g) i new = some (db', .accessDenied)) :
    ∃ p, db.findProtocolInterface h g i = some p ∧
      Performs D h p db (db.reinstallCalls D fuel h g i) db' := by
  obtain ⟨hvalid, p, db₁, hfind, hcall, rfl⟩ := reinstall_accessDenied hr
  refine ⟨p, hfind, ?_⟩
  rw [reinstallCalls, hvalid, hfind]
  dsimp only
  rw [hcall]
  exact (disconnectControllers_performs hcall).append (.connected .nil)

/-- Interfaces in use are removed safely, by drivers that leave the interface alone, if and only if
    no driver refuses to be disconnected after another one has been. -/
theorem removesSafely_iff (hwf : db.WellFormed)
    (hbound : ∀ p, db.Holds p h g i → (db.openListOf p).length < 2 ^ A.bits)
    (hD : ∀ p, D.LeaveIntact p h g i) :
    RemovesSafely D db h g i ↔
      ∀ p agents db', db.Holds p h g i → RefusesAfter D h p db agents db' → agents = [] := by
  have hintact : ∀ p, db.Holds p h g i → db.Intact p h g i := fun p hp => ⟨hwf, hp, hbound p hp⟩
  have hfound : ∀ p, db.findProtocolInterface h g i = some p ↔ db.Holds p h g i :=
    hwf.findProtocolInterface h g i
  constructor
  · intro hsafe p agents db' hholds hrefuses
    obtain ⟨fuel, hloop, agent, hcalls⟩ := hrefuses.disconnectDrivers
    have hvalid : db.validateHandle h = .success :=
      hwf.lists.validateHandle_live ⟨g, (hwf.lists.carries h g).mpr ⟨p, i, hholds⟩⟩
    have hcall : db.uninstallProtocolInterface D fuel h (some g) i =
        some (db', .accessDenied) := by
      unfold uninstallProtocolInterface disconnectControllersUsingProtocolInterface
      simp only [hvalid, (hfound p).mpr hholds, hloop]
    obtain ⟨-, hreconnects⟩ := hsafe.uninstall fuel db' hcall
    rw [← reconnects_refused_iff agents agent, ← hcalls]
    unfold uninstallCalls disconnectControllersCalls at hreconnects
    simp only [hvalid, (hfound p).mpr hholds, hloop, List.append_nil] at hreconnects
    exact hreconnects
  · intro hnone
    refine ⟨fun fuel p db' q o hfind hcall hfind' ho => ?_, fun fuel db' hcall => ?_,
      fun fuel new db' hcall => ?_⟩
    · have hi := hintact p ((hfound p).mp hfind)
      obtain ⟨hi', hend⟩ := hi.disconnectControllers (hD p) hcall
      obtain ⟨-, hnil⟩ | ⟨hdenied, -⟩ | ⟨hdenied, -⟩ := hend
      · have hq := (hi'.wellFormed.findProtocolInterface h g i q).mp hfind'
        rw [(hi'.wellFormed.holds_unique hq hi'.holds).1, hnil] at ho
        cases ho
      · cases hdenied
      · cases hdenied
    · obtain ⟨hvalid, p, hfind, hdisconnect⟩ := uninstall_accessDenied hcall
      have hholds := (hfound p).mp hfind
      obtain ⟨hi', hend⟩ := (hintact p hholds).disconnectControllers (hD p) hdisconnect
      refine ⟨⟨p, hi'.holds⟩, ?_⟩
      unfold uninstallCalls
      simp only [hvalid, hfind]
      obtain ⟨hsuccess, -⟩ | ⟨-, agents, hcalls⟩ | ⟨-, agents, agent, hrefuses, hcalls⟩ := hend
      · cases hsuccess
      · rw [hcalls]
        exact reconnects_connected _
      · rw [hcalls, reconnects_refused_iff]
        exact hnone p agents db' hholds hrefuses
    · obtain ⟨hvalid, p, db₁, hfind, hdisconnect, rfl⟩ := reinstall_accessDenied hcall
      obtain ⟨hi', -⟩ := (hintact p ((hfound p).mp hfind)).disconnectControllers (hD p) hdisconnect
      refine ⟨⟨p, ((hD p).connect db₁ hi').holds⟩, ?_⟩
      unfold reinstallCalls
      simp only [hvalid, hfind, hdisconnect]
      exact reconnects_connected _

end Removal

end Database

/-! ## A driver that makes room for another one -/

/-- An interface of the handle 3, opened by a driver. -/
def usedBy (agent : Addr) : Database .efi64 :=
  ((Database.initializeHandle .efi64).installProtocolInterface ⟨some 1, some 2, some 3⟩ (some 0)
    (some 1) .native 100).1.modifyInterface 2 fun prot =>
      { prot with openList := [⟨agent, 3, openByDriver, 1⟩], openListCount := 1 }

/-- When the driver 7 has closed the interface, the driver 8 opens it; the others refuse. -/
def takesTurns : Drivers .efi64 where
  disconnectController db h agent :=
    if agent = 7 then
      (db.modifyInterface 2 fun prot =>
        { prot with openList := [⟨8, h, openByDriver, 1⟩], openListCount := 1 }, .success)
    else (db, .accessDenied)
  connectController db _ := db

theorem usedBy_wellFormed (agent : Addr) : (usedBy agent).WellFormed := by
  have hinstalled := Database.WellFormed.initial.lists.installProtocolInterface
    (firstPool_fresh .efi64) 0 1 100
  obtain ⟨c, hc⟩ := hinstalled.lists Database.WellFormed.initial.lists
  exact ⟨hc.wellFormed.toLinked.modifyInterface 2 (fun _ => rfl) (fun _ => rfl) fun _ _ => rfl,
    hc.wellFormed.inUse⟩

theorem usedBy_holds {agent p : Addr} (hp : (usedBy agent).Holds p 3 1 100) : p = 2 := by
  have hfind := ((usedBy_wellFormed agent).findProtocolInterface 3 1 100 p).mpr hp
  have hfound : (usedBy agent).findProtocolInterface 3 1 100 = some 2 := rfl
  rw [hfound] at hfind
  exact (Option.some.inj hfind).symm

theorem usedBy_bounded (agent p : Addr) (hp : (usedBy agent).Holds p 3 1 100) :
    ((usedBy agent).openListOf p).length < 2 ^ Arch.bits .efi64 := by
  rw [usedBy_holds hp]
  show 1 < 2 ^ 64
  decide

theorem takesTurns_leaveIntact (p h : Addr) (g : Guid) (i : Nat) :
    takesTurns.LeaveIntact p h g i where
  disconnect db a hi := by
    unfold takesTurns
    dsimp only
    split
    · exact hi.modifyInterface 2 (fun _ => rfl) (fun _ => rfl) (fun _ => rfl) (fun _ _ => rfl)
        fun _ _ => (by decide : 1 < 2 ^ 64)
    · exact hi
  connect _ hi := hi

/-- The driver 8 refuses at once: nothing has to be connected again. -/
theorem removesSafely_refused : Database.RemovesSafely takesTurns (usedBy 8) 3 1 100 := by
  refine (Database.removesSafely_iff (usedBy_wellFormed 8) (usedBy_bounded 8)
    fun p => takesTurns_leaveIntact p 3 1 100).mpr ?_
  intro p agents db' hholds hrefuses
  cases hrefuses with
  | refused => rfl
  | disconnected hfind hcall =>
    rw [usedBy_holds hholds] at hfind
    cases (show ((usedBy 8).openListOf 2).find? (·.byDriver) = some _ from rfl).symm.trans hfind
    cases hcall

/-- The driver 7 has been disconnected when the driver 8 refuses, and stays so. -/
theorem not_removesSafely_takesTurns :
    (usedBy 7).WellFormed ∧ (∀ p, takesTurns.LeaveIntact p 3 1 100) ∧
      (∃ db', (usedBy 7).uninstallProtocolInterface takesTurns 2 3 (some 1) 100 =
        some (db', .accessDenied)) ∧
      (usedBy 7).uninstallCalls takesTurns 2 3 1 100 = [.disconnected 7, .refused 8] ∧
      ¬ Database.RemovesSafely takesTurns (usedBy 7) 3 1 100 := by
  have hcall : ∃ db', (usedBy 7).uninstallProtocolInterface takesTurns 2 3 (some 1) 100 =
      some (db', .accessDenied) := ⟨_, rfl⟩
  have hcalls : (usedBy 7).uninstallCalls takesTurns 2 3 1 100 =
      [.disconnected 7, .refused 8] := by decide
  refine ⟨usedBy_wellFormed 7, fun p => takesTurns_leaveIntact p 3 1 100, hcall, hcalls,
    fun hsafe => ?_⟩
  obtain ⟨db', hdenied⟩ := hcall
  have hreconnects := (hsafe.uninstall 2 db' hdenied).2
  rw [hcalls] at hreconnects
  cases (reconnects_refused_iff [7] 8).mp hreconnects

end EfiCore.Hand
