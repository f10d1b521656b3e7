import EfiCore.DevPath.Locate
import EfiCore.Hand.Exclusive
import EfiCore.Hand.Notify
import EfiCore.Lib.Selection

/-! # Connecting a controller

`ConnectSingleController` of `DriverSupport.c`.  It collects the instances of the driver binding
protocol in an array of one entry a handle, each instance once: first those that the caller, the
platform and the bus name, then the others by their version.  The drivers are offered the
controller in this order until none of them takes it.

The array has entries that are not filled when handles share an instance.  The sort goes on to
the end of the array.
-/

namespace EfiCore.Hand

open EfiCore.DevPath EfiCore.Lib

variable {A : Arch}

def platformDriverOverrideProtocol : Guid := 0x6b30c738a39111d49a3b0090273fc14d
def busSpecificDriverOverrideProtocol : Guid := 0x3bc1b2858a154a82aabf4d7d13fb3265

/-- A call of a driver with its answer. -/
inductive BindingCall where
  | supported (binding : Nat) (status : Status)
  | start (binding : Nat) (status : Status)
  deriving DecidableEq, Repr

/-- The driver that a call of `Start` starts. -/
def BindingCall.started : BindingCall → Option Nat
  | .supported .. => none
  | .start b _ => some b

/-- The protocols that are called.  What a driver answers may depend on all the calls before. -/
structure DriverCode where
  /-- What `GetDriver` of the platform's protocol returns, call after call. -/
  platformDrivers : Nat → List Addr
  /-- What `GetDriver` of the bus's protocol returns, call after call. -/
  busDrivers : Nat → List Addr
  version : Nat → Nat
  supported : List BindingCall → Nat → Status
  start : List BindingCall → Nat → Status

inductive ConnectFault where
  /-- An entry of the array is read that was not filled. -/
  | unfilled
  /-- The array is written past its end. -/
  | arrayOverrun
  | hang
  deriving DecidableEq, Repr

/-- The filled entries of `SortedDriverBindingProtocols`, and `DriverBindingHandleBuffer`. -/
structure Sorting where
  sorted : List Nat
  handles : List Addr

/-- The array when it is sorted, and the calls that follow. -/
structure Selection where
  sorted : List Nat
  calls : List BindingCall
  deriving DecidableEq

/-- What `ConnectSingleController` leaves; `selection` if it gets to the array. -/
structure Connected (A : Arch) where
  db : Database A
  status : Status
  selection : Option Selection

namespace Database

/-! ## AddSortedDriverBindingProtocol -/

def addSortedDriverBindingProtocol (db : Database A) (handle : Addr) (s : Sorting) :
    Except ConnectFault (Database A × Sorting) :=
  if handle = 0 then .ok (db, s)
  else
    match db.interfaceOf handle driverBindingProtocol with
    | (db, none) => .ok (db, s)
    | (db, some b) =>
      if b ∈ s.sorted then .ok (db, s)
      else if s.handles.length ≤ s.sorted.length then .error .arrayOverrun
      else .ok (db, ⟨s.sorted ++ [b], s.handles.map fun h => if h = handle then 0 else h⟩)

/-- `AddSortedDriverBindingProtocol` on one handle after the other. -/
def addHandles : List Addr → Database A → Sorting → Except ConnectFault (Database A × Sorting)
  | [], db, s => .ok (db, s)
  | handle :: handles, db, s => do
    let (db, s) ← db.addSortedDriverBindingProtocol handle s
    addHandles handles db s

/-- The loop over the `n` entries of `DriverBindingHandleBuffer` from `index` on. -/
def addRemaining :
    Nat → Nat → Database A → Sorting → Except ConnectFault (Database A × Sorting)
  | 0, _, db, s => .ok (db, s)
  | n + 1, index, db, s => do
    let (db, s) ← db.addSortedDriverBindingProtocol (s.handles.getD index 0) s
    addRemaining n (index + 1) db s

end Database

/-! ## The sort -/

def readSorted (sorted : List Nat) (index : Nat) : Except ConnectFault Nat :=
  match sorted[index]? with
  | some b => .ok b
  | none => .error .unfilled

/-- The inner loop of the sort over `n` entries from `index` on: `HighestIndex`. -/
def findHighest (version : Nat → Nat) (sorted : List Nat) :
    Nat → Nat → Nat → Nat → Except ConnectFault Nat
  | 0, _, highestIndex, _ => .ok highestIndex
  | n + 1, index, highestIndex, highestVersion => do
    let b ← readSorted sorted index
    if highestVersion < version b then findHighest version sorted n (index + 1) index (version b)
    else findHighest version sorted n (index + 1) highestIndex highestVersion

/-- The sort of `n` entries from `sortIndex` on. -/
def sortRemaining (version : Nat → Nat) :
    Nat → Nat → List Nat → Except ConnectFault (List Nat)
  | 0, _, sorted => .ok sorted
  | n + 1, sortIndex, sorted => do
    let b ← readSorted sorted sortIndex
    let highestIndex ← findHighest version sorted n (sortIndex + 1) sortIndex (version b)
    if sortIndex = highestIndex then sortRemaining version n (sortIndex + 1) sorted
    else do
      let highest ← readSorted sorted highestIndex
      sortRemaining version n (sortIndex + 1) ((sorted.set sortIndex highest).set highestIndex b)

/-! ## The drivers -/

/-- The loop over the sorted drivers: the first one that supports the controller, which is blanked
    in the array. -/
def findSupported (E : DriverCode) :
    List BindingCall → List (Option Nat) → List BindingCall × Option Nat × List (Option Nat)
  | calls, [] => (calls, none, [])
  | calls, none :: entries =>
    let (calls, found, entries) := findSupported E calls entries
    (calls, found, none :: entries)
  | calls, some b :: entries =>
    let status := E.supported calls b
    let calls := calls ++ [.supported b status]
    if status = .success then (calls, some b, none :: entries)
    else
      let (calls, found, entries) := findSupported E calls entries
      (calls, found, some b :: entries)

/-- The loop until no driver is found: the calls, and `OneStarted`. -/
def startDrivers (E : DriverCode) :
    Nat → List BindingCall → List (Option Nat) → Bool → Except ConnectFault (List BindingCall × Bool)
  | 0, _, _, _ => .error .hang
  | fuel + 1, calls, entries, oneStarted =>
    match findSupported E calls entries with
    | (calls, none, _) => .ok (calls, oneStarted)
    | (calls, some b, entries) =>
      let status := E.start calls b
      startDrivers E fuel (calls ++ [.start b status]) entries (oneStarted || status = .success)

/-! ## ConnectSingleController -/

namespace Database

/-- The drivers that the platform names. -/
def platformDrivers (db : Database A) (E : DriverCode) : Database A × List Addr :=
  match db.locateProtocol platformDriverOverrideProtocol none true with
  | (db, .success, i) => (db, if i = 0 then [] else E.platformDrivers i)
  | (db, _, _) => (db, [])

/-- The drivers that the bus of the controller names. -/
def busDrivers (db : Database A) (E : DriverCode) (controller : Addr) : Database A × List Addr :=
  match db.interfaceOf controller busSpecificDriverOverrideProtocol with
  | (db, some i) => (db, E.busDrivers i)
  | (db, none) => (db, [])

/-- The drivers that are collected: those of `handles`, and before them those that are named.  Also
    `SortIndex`, from which on they are sorted. -/
def collectDrivers (db : Database A) (E : DriverCode) (controller : Addr) (context : List Addr)
    (handles : List Addr) : Except ConnectFault (Database A × Nat × List Nat) := do
  let (db, s) ← addHandles (context.takeWhile (· ≠ 0)) db ⟨[], handles⟩
  let (db, drivers) := db.platformDrivers E
  let (db, s) ← addHandles drivers db s
  let (db, drivers) := db.busDrivers E controller
  let (db, s) ← addHandles drivers db s
  let sortIndex := s.sorted.length
  let (db, s) ← addRemaining handles.length 0 db s
  return (db, sortIndex, s.sorted)

/-- `ConnectSingleController`.  `memory` are the allocations of `LibLocateHandle`, `alloc` is that
    of the array; `context` ends with its first `NULL`, and of `RemainingDevicePath` the type and
    the subtype of its first node are given. -/
def connectSingleController (db : Database A) (E : DriverCode) (memory : List Bool) (alloc : Bool)
    (controller : Addr) (context : List Addr) (remaining : Option (Byte × Byte)) :
    Except ConnectFault (Connected A) := do
  let (db, handles) := libLocateHandle db .byProtocol (some driverBindingProtocol) none memory
  if handles = [] then return ⟨db, .notFound, none⟩
  if alloc = false then return ⟨db, .outOfResources, none⟩
  let (db, sortIndex, sorted) ← db.collectDrivers E controller context handles
  -- the array has an entry for every handle, and all of them are sorted
  let sorted ← sortRemaining E.version (handles.length - sortIndex) sortIndex sorted
  let (calls, oneStarted) ← startDrivers E (sorted.length + 1) [] (sorted.map some) false
  let status : Status := if oneStarted then .success else
    match remaining with
    | some (type, subType) =>
      if isDevicePathEndType type ∧ subType = endEntireDevicePathSubtype then .success
      else .notFound
    | none => .notFound
  return ⟨db, status, some ⟨sorted, calls⟩⟩

end Database

/-! ## Sorting -/

section Sorts

theorem readSorted_of {sorted : List Nat} {index b : Nat} (h : sorted[index]? = some b) :
    readSorted sorted index = .ok b := by
  rw [readSorted, h]

theorem readSorted_unfilled {sorted : List Nat} {index : Nat} (h : sorted.length ≤ index) :
    readSorted sorted index = .error .unfilled := by
  rw [readSorted, List.getElem?_eq_none h]

/-- With all its entries filled, the inner loop finds the first of the highest versions. -/
theorem findHighest_spec (version : Nat → Nat) (todo front : List Nat) (highestIndex b : Nat)
    (hb : front[highestIndex]? = some b) :
    ∃ found highest, findHighest version (front ++ todo) todo.length front.length highestIndex
        (version b) = .ok found ∧ (front ++ todo)[found]? = some highest ∧
      (found = highestIndex ∨ front.length ≤ found) ∧ version b ≤ version highest ∧
      ∀ z ∈ todo, version z ≤ version highest := by
  induction todo generalizing front highestIndex b with
  | nil => exact ⟨highestIndex, b, rfl, by rwa [List.append_nil], .inl rfl, le_refl _, by simp⟩
  | cons z todo ih =>
    have hread : readSorted (front ++ z :: todo) front.length = .ok z :=
      readSorted_of (by simp)
    have hlength : (front ++ [z]).length = front.length + 1 := List.length_append
    have hlist : front ++ z :: todo = (front ++ [z]) ++ todo := by simp
    rw [List.length_cons, findHighest, hread]
    simp only [bind, Except.bind]
    by_cases hlt : version b < version z
    · rw [if_pos hlt]
      obtain ⟨found, highest, hfound, hget, hplace, hle, hall⟩ :=
        ih (front ++ [z]) front.length z (by simp)
      rw [hlength, ← hlist] at hfound
      refine ⟨found, highest, hfound, by rwa [hlist], ?_, hlt.le.trans hle, ?_⟩
      · rw [hlength] at hplace
        omega
      · intro y hy
        rcases List.mem_cons.mp hy with rfl | hy
        · exact hle
        · exact hall y hy
    · rw [if_neg hlt]
      have hb' : (front ++ [z])[highestIndex]? = some b := by
        rw [List.getElem?_append_left (List.getElem?_eq_some_iff.mp hb).1, hb]
      obtain ⟨found, highest, hfound, hget, hplace, hle, hall⟩ := ih (front ++ [z]) highestIndex b hb'
      rw [hlength, ← hlist] at hfound
      refine ⟨found, highest, hfound, by rwa [hlist], ?_, hle, ?_⟩
      · rw [hlength] at hplace
        omega
      · intro y hy
        rcases List.mem_cons.mp hy with rfl | hy
        · exact (Nat.le_of_not_lt hlt).trans hle
        · exact hall y hy

/-- An entry that is not filled stops the inner loop. -/
theorem findHighest_unfilled (version : Nat → Nat) (sorted : List Nat) (n index : Nat)
    (hn : 0 < n) (hshort : sorted.length < index + n) (highestIndex highestVersion : Nat) :
    findHighest version sorted n index highestIndex highestVersion = .error .unfilled := by
  induction n generalizing index highestIndex highestVersion with
  | zero => exact absurd hn (Nat.lt_irrefl 0)
  | succ n ih =>
    rw [findHighest]
    rcases Nat.lt_or_ge index sorted.length with hin | hout
    · rw [readSorted_of (List.getElem?_eq_getElem hin)]
      simp only [bind, Except.bind]
      split <;> exact ih (index + 1) (by omega) (by omega) _ _
    · rw [readSorted_unfilled hout]
      rfl

/-- With all its entries filled, the sort selects the highest versions one by one. -/
theorem sortRemaining_spec (version : Nat → Nat) (rest done : List Nat) :
    ∃ rest', sortRemaining version rest.length done.length (done ++ rest) = .ok (done ++ rest') ∧
      Selects version rest rest' := by
  generalize hn : rest.length = n
  induction n generalizing rest done with
  | zero =>
    rw [List.eq_nil_of_length_eq_zero hn, List.append_nil]
    exact ⟨[], by rw [List.append_nil]; rfl, .nil⟩
  | succ n ih =>
    obtain ⟨x, rest, rfl⟩ := List.exists_cons_of_length_eq_add_one hn
    have hrest : rest.length = n := Nat.succ.inj hn
    have hx : (done ++ x :: rest)[done.length]? = some x := by simp
    have hlist : done ++ x :: rest = (done ++ [x]) ++ rest := by simp
    have hlength : ∀ y : Nat, (done ++ [y]).length = done.length + 1 := fun _ => List.length_append
    obtain ⟨found, highest, hfound, hget, hplace, hle, hall⟩ :=
      findHighest_spec version rest (done ++ [x]) done.length x (by simp)
    rw [hlength, hrest, ← hlist] at hfound
    rw [hlength] at hplace
    rw [← hlist] at hget
    rw [sortRemaining, readSorted_of hx]
    simp only [bind, Except.bind, hfound]
    by_cases hsame : done.length = found
    · -- the entry has the highest version itself
      subst hsame
      cases hx.symm.trans hget
      obtain ⟨rest', hsort, hselects⟩ := ih rest (done ++ [x]) hrest
      rw [hlength, ← hlist] at hsort
      refine ⟨x :: rest', ?_, .keep hall hselects⟩
      rw [if_pos rfl, hsort]
      simp
    · obtain ⟨k, rfl⟩ := Nat.exists_eq_add_of_le (hplace.resolve_left fun h => hsame h.symm)
      have hk : rest[k]? = some highest := by
        rw [hlist, List.getElem?_append_right (by rw [hlength]; omega), hlength,
          Nat.add_sub_cancel_left] at hget
        exact hget
      obtain ⟨front, back, rfl, rfl⟩ := exists_append_of_getElem? hk
      obtain ⟨rest', hsort, hselects⟩ := ih (front ++ x :: back) (done ++ [highest])
        (by simpa [Nat.add_assoc, Nat.add_comm] using hrest)
      rw [hlength] at hsort
      refine ⟨highest :: rest', ?_, .swap ?_ hselects⟩
      · rw [if_neg hsame, readSorted_of hget]
        dsimp only
        rw [set_exchange, hsort]
        simp
      · intro z hz
        rcases List.mem_cons.mp hz with rfl | hz
        · exact hle
        · refine hall z ?_
          simp only [List.mem_append, List.mem_cons] at hz ⊢
          tauto

/-- The sort goes on to the last of `n` entries. -/
theorem sortRemaining_unfilled (version : Nat → Nat) (sorted : List Nat) (n sortIndex : Nat)
    (hindex : sortIndex ≤ sorted.length) (hshort : sorted.length < sortIndex + n) :
    sortRemaining version n sortIndex sorted = .error .unfilled := by
  cases n with
  | zero => omega
  | succ n =>
    rw [sortRemaining]
    rcases Nat.lt_or_eq_of_le hindex with hin | rfl
    · rw [readSorted_of (List.getElem?_eq_getElem hin)]
      simp only [bind, Except.bind]
      rw [findHighest_unfilled version sorted n _ (by omega) (by omega)]
    · rw [readSorted_unfilled (Nat.le_refl _)]
      rfl

end Sorts

/-! ## Starting -/

section Starts

variable {E : DriverCode}

/-- No driver is started twice, and none before it has told that it supports the controller. -/
structure Orderly (calls : List BindingCall) : Prop where
  once : (calls.filterMap BindingCall.started).Nodup
  supported : ∀ front b status back, calls = front ++ .start b status :: back →
    .supported b .success ∈ front

theorem Orderly.nil : Orderly [] where
  once := List.nodup_nil
  supported := by simp

theorem Orderly.ask {calls asked : List BindingCall} (h : Orderly calls)
    (hasked : asked.filterMap BindingCall.started = []) : Orderly (calls ++ asked) where
  once := by
    rw [List.filterMap_append, hasked, List.append_nil]
    exact h.once
  supported := by
    intro front b status back heq
    rcases List.append_eq_append_iff.mp heq with ⟨front', rfl, hback⟩ | ⟨back', rfl, hback⟩
    · -- a call of `Start` among those that are asked
      rw [hback, List.filterMap_append, List.filterMap_cons] at hasked
      simp [BindingCall.started] at hasked
    · cases back' with
      | nil =>
        rw [List.nil_append] at hback
        rw [← hback, List.filterMap_cons] at hasked
        simp [BindingCall.started] at hasked
      | cons call back' =>
        cases hback
        exact h.supported front b status back' rfl

theorem Orderly.start {calls : List BindingCall} {b : Nat} (h : Orderly calls) (status : Status)
    (hb : .supported b .success ∈ calls) (hnew : b ∉ calls.filterMap BindingCall.started) :
    Orderly (calls ++ [.start b status]) where
  once := by
    rw [List.filterMap_append]
    exact List.nodup_append.mpr ⟨h.once, by simp [BindingCall.started], by
      intro x hx y hy hxy
      simp only [List.filterMap_cons, BindingCall.started, List.filterMap_nil,
        List.mem_singleton] at hy
      exact hnew (hy ▸ hxy ▸ hx)⟩
  supported := by
    intro front b' status' back heq
    rcases List.eq_nil_or_concat back with rfl | ⟨back, last, rfl⟩
    · obtain ⟨rfl, hlast⟩ := List.append_inj' heq rfl
      cases hlast
      exact hb
    · rw [List.concat_eq_append, ← List.cons_append, ← List.append_assoc] at heq
      exact h.supported front b' status' back (List.append_inj' heq rfl).1

/-- The loop over the sorted drivers asks them until one of them supports the controller. -/
theorem findSupported_spec (E : DriverCode) (entries : List (Option Nat))
    (calls : List BindingCall) :
    ∃ asked, asked.filterMap BindingCall.started = [] ∧
      ((∃ entries', findSupported E calls entries = (calls ++ asked, none, entries')) ∨
        ∃ b front back entries', findSupported E calls entries =
            (calls ++ asked, some b, entries') ∧ .supported b .success ∈ asked ∧
          entries.filterMap id = front ++ b :: back ∧ entries'.filterMap id = front ++ back) := by
  induction entries generalizing calls with
  | nil => exact ⟨[], rfl, .inl ⟨[], by rw [List.append_nil]; rfl⟩⟩
  | cons entry entries ih =>
    cases entry with
    | none =>
      rw [findSupported]
      obtain ⟨asked, hasked, ⟨entries', heq⟩ | ⟨b, front, back, entries', heq, hb, h, h'⟩⟩ :=
        ih calls
      · rw [heq]
        exact ⟨asked, hasked, .inl ⟨_, rfl⟩⟩
      · rw [heq]
        exact ⟨asked, hasked, .inr ⟨b, front, back, _, rfl, hb, h, h'⟩⟩
    | some b =>
      rw [findSupported]
      dsimp only
      by_cases hstatus : E.supported calls b = .success
      · rw [if_pos hstatus, hstatus]
        exact ⟨[.supported b .success], rfl,
          .inr ⟨b, [], entries.filterMap id, _, rfl, by simp, rfl, rfl⟩⟩
      · rw [if_neg hstatus]
        obtain ⟨asked, hasked, hfound⟩ := ih (calls ++ [.supported b (E.supported calls b)])
        refine ⟨.supported b (E.supported calls b) :: asked, hasked, ?_⟩
        rcases hfound with ⟨entries', heq⟩ | ⟨b', front, back, entries', heq, hb, h, h'⟩
        · rw [heq, List.append_assoc]
          exact .inl ⟨_, rfl⟩
        · rw [heq, List.append_assoc]
          refine .inr ⟨b', b :: front, back, _, rfl, List.mem_cons_of_mem _ hb, ?_, ?_⟩
          · exact congrArg (b :: ·) h
          · exact congrArg (b :: ·) h'

/-- The loop that starts drivers ends, as every driver that it starts is blanked. -/
theorem startDrivers_spec (E : DriverCode) (fuel : Nat) (calls : List BindingCall)
    (entries : List (Option Nat)) (oneStarted : Bool)
    (hfuel : (entries.filterMap id).length < fuel) (horderly : Orderly calls)
    (hnodup : (entries.filterMap id).Nodup)
    (hnew : ∀ b ∈ entries.filterMap id, b ∉ calls.filterMap BindingCall.started) :
    ∃ calls' oneStarted', startDrivers E fuel calls entries oneStarted =
      .ok (calls', oneStarted') ∧ Orderly calls' := by
  induction fuel generalizing calls entries oneStarted with
  | zero => exact absurd hfuel (Nat.not_lt_zero _)
  | succ fuel ih =>
    obtain ⟨asked, hasked, ⟨entries', heq⟩ | ⟨b, front, back, entries', heq, hb, h, h'⟩⟩ :=
      findSupported_spec E entries calls
    · rw [startDrivers, heq]
      exact ⟨_, _, rfl, horderly.ask hasked⟩
    · have hstarted : (calls ++ asked).filterMap BindingCall.started =
          calls.filterMap BindingCall.started := by
        rw [List.filterMap_append, hasked, List.append_nil]
      rw [h] at hfuel hnodup hnew
      rw [startDrivers, heq]
      dsimp only
      have hleft := List.nodup_middle.mp hnodup
      refine ih _ entries' _ ?_ ?_ ?_ ?_
      · rw [h']
        simp only [List.length_append, List.length_cons] at hfuel ⊢
        omega
      · refine (horderly.ask hasked).start _ (List.mem_append_right _ hb) ?_
        rw [hstarted]
        exact hnew b (by simp)
      · rw [h']
        exact (List.nodup_cons.mp hleft).2
      · intro b' hb'
        rw [h'] at hb'
        rw [List.filterMap_append, hstarted, List.mem_append]
        rintro (hold | hlast)
        · refine hnew b' ?_ hold
          simp only [List.mem_append, List.mem_cons] at hb' ⊢
          tauto
        · simp only [List.filterMap_cons, BindingCall.started, List.filterMap_nil,
            List.mem_singleton] at hlast
          exact (List.nodup_cons.mp hleft).1 (hlast ▸ hb')

end Starts

end EfiCore.Hand
