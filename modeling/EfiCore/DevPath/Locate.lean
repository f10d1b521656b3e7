import EfiCore.Lib.PrefixCode
import EfiCore.Hand.Answers
import EfiCore.DevPath.Walk

/-! # Locating a device path

`LocateDevicePath` of `locate.c`: of the handles that carry a protocol, the one with the device
path that is the longest part of a path from its beginning on.  The code compares bytes; as a node
tells its own length, this compares nodes.

The interface of the device path protocol on a handle is the address of a path; `paths` is what
lies in memory from an address on.
-/

namespace EfiCore.DevPath

open EfiCore.Hand EfiCore.Lib

variable {A : Arch}

/-- `DEVICE_PATH_PROTOCOL` -/
def devicePathProtocol : Guid := 0x09576e916d3f11d28e3900a0c969723b

/-- The `GrowBuffer` loop of `LibLocateHandle`; the answers of `AllocatePool` are in `memory`. -/
def growLocate (db : Database A) (searchType : SearchType) (protocol : Option Guid)
    (searchKey : Option Addr) : List Bool → Nat → Database A × Status × List Addr
  | true :: memory, bufferSize =>
    let (db, status, bufferSize, buffer) :=
      db.locateHandle searchType protocol searchKey bufferSize
    if status = .bufferTooSmall then
      growLocate db searchType protocol searchKey memory bufferSize
    else (db, status, buffer)
  | _, _ => (db, .outOfResources, [])

/-- `LibLocateHandle`; on an error `*NoHandles` is 0. -/
def libLocateHandle (db : Database A) (searchType : SearchType) (protocol : Option Guid)
    (searchKey : Option Addr) (memory : List Bool) : Database A × List Addr :=
  let (db, status, buffer) :=
    growLocate db searchType protocol searchKey memory (50 * A.pointerSize)
  (db, if status = .success then buffer else [])

/-- `DevicePathFromHandle` -/
def devicePathFromHandle (db : Database A) (handle : Addr) : Database A × Option Addr :=
  match db.handleProtocol handle (some devicePathProtocol) true with
  | (db, .success, some i) => (db, if i = 0 then none else some i)
  | (db, _, _) => (db, none)

/-- `BestMatch` and `*Device` -/
structure BestMatch where
  size : Int
  device : Addr
  deriving DecidableEq

def BestMatch.start : BestMatch := ⟨-1, 0⟩

/-- A match of `size` bytes. -/
def BestMatch.improve (best : BestMatch) (size : Nat) (handle : Addr) : BestMatch :=
  if best.size < size then ⟨size, handle⟩ else best

/-- What `LocateDevicePath` does with one instance. -/
def matchInstance (source : List Byte) (sourceSize : Nat) (mem : List Byte) (handle : Addr)
    (inst size : Nat) (best : BestMatch) : Except Fault BestMatch :=
  if size ≤ sourceSize then do
    let sourceBytes ← readBuffer source 0 size
    let instBytes ← readBuffer mem inst size
    if sourceBytes = instBytes then do
      let eop ← readByte mem (inst + size)
      if isDevicePathEndType eop then return best.improve size handle
      else return best
    else return best
  else return best

/-- The loop of `LocateDevicePath` over the instances of a handle's path. -/
def matchInstances (source : List Byte) (sourceSize : Nat) (mem : List Byte) (handle : Addr) :
    Nat → Option Nat → BestMatch → Except Fault BestMatch
  | 0, _, _ => .error .hang
  | fuel + 1, devicePath, best => do
    let (inst, devicePath) ← devicePathInstance mem devicePath
    match inst with
    | none => return best
    | some (inst, size) =>
      let best ← matchInstance source sourceSize mem handle inst size best
      matchInstances source sourceSize mem handle fuel devicePath best

/-- The loop of `LocateDevicePath` over the handles. -/
def matchHandles (paths : Addr → List Byte) (source : List Byte) (sourceSize : Nat) :
    List Addr → Database A → BestMatch → Except Fault (Database A × BestMatch)
  | [], db, best => .ok (db, best)
  | handle :: handles, db, best =>
    match devicePathFromHandle db handle with
    | (db, none) => matchHandles paths source sourceSize handles db best
    | (db, some i) => do
      let best ← matchInstances source sourceSize (paths i) handle ((paths i).length + 1) (some 0)
        best
      matchHandles paths source sourceSize handles db best

/-- `LocateDevicePath`; with the status how far `*FilePath` has moved, and `*Device`. -/
def locateDevicePath (db : Database A) (memory : List Bool) (paths : Addr → List Byte)
    (protocol : Guid) (source : List Byte) :
    Except Fault (Database A × Status × Nat × Addr) := do
  let count ← devicePathInstanceCount source (source.length + 1) (some 0)
  if count ≠ 1 then return (db, .invalidParameter, 0, 0)
  let (db, handles) := libLocateHandle db .byProtocol (some protocol) none memory
  let size ← devicePathSize source 0
  let (db, best) ← matchHandles paths source (size - sizeofDevicePath) handles db .start
  if best.size = -1 then return (db, .notFound, 0, best.device)
  return (db, .success, best.size.toNat, best.device)

/-! ## Bytes and nodes -/

/-- A node tells its own length. -/
theorem node_selfDelimiting : SelfDelimiting Node.bytes where
  ne_nil := by
    intro n h
    have hlength := congrArg List.length h
    have hle := n.four_le_length
    rw [Node.length_bytes, List.length_nil] at hlength
    omega
  head := by
    intro a b x y h
    have hheader : a.type = b.type ∧ a.subType = b.subType ∧
        leBytes 2 a.length ++ (a.data ++ x) = leBytes 2 b.length ++ (b.data ++ y) := by
      simpa [Node.bytes] using h
    obtain ⟨htype, hsubType, hrest⟩ := hheader
    obtain ⟨hbytes, hdata⟩ := List.append_inj hrest (by simp)
    have hlength : a.length = b.length := by
      have hnat := congrArg leNat hbytes
      rw [leNat_leBytes, leNat_leBytes, Nat.mod_eq_of_lt (show a.length < 256 ^ 2 from a.length_lt),
        Nat.mod_eq_of_lt (show b.length < 256 ^ 2 from b.length_lt)] at hnat
      exact hnat
    have hsame : a.data.length = b.data.length := Nat.add_left_cancel hlength
    have hdata' := (List.append_inj hdata hsame).1
    cases a
    cases b
    cases htype
    cases hsubType
    cases hdata'
    rfl

theorem nodesBytes_prefix_iff (nodes nodes' : List Node) :
    nodesBytes nodes <+: nodesBytes nodes' ↔ nodes <+: nodes' :=
  node_selfDelimiting.flatMap_prefix_iff nodes nodes'

/-! ## The best match -/

/-- `best` is the best of the matches among the instances `P`. -/
def BestOf (src : List Node) (P : Addr → List Node → Prop) (best : BestMatch) : Prop :=
  (best = .start ∧ ∀ handle nodes, P handle nodes → ¬ nodes <+: src) ∨
    ∃ handle nodes, P handle nodes ∧ nodes <+: src ∧
      best = ⟨(nodesBytes nodes).length, handle⟩ ∧
      ∀ handle' nodes', P handle' nodes' → nodes' <+: src →
        (nodesBytes nodes').length ≤ (nodesBytes nodes).length

section BestOf

variable {src : List Node} {P : Addr → List Node → Prop} {best : BestMatch}

theorem BestOf.start (src : List Node) : BestOf src (fun _ _ => False) .start :=
  .inl ⟨rfl, fun _ _ h => h.elim⟩

theorem BestOf.congr {P' : Addr → List Node → Prop} (h : BestOf src P best)
    (hP : ∀ handle nodes, P' handle nodes ↔ P handle nodes) : BestOf src P' best := by
  have heq : P' = P := by
    funext handle nodes
    exact propext (hP handle nodes)
  rwa [heq]

/-- One more instance, which does not match. -/
theorem BestOf.skip (h : BestOf src P best) {handle : Addr} {nodes : List Node}
    (hno : ¬ nodes <+: src) :
    BestOf src (fun a ns => P a ns ∨ (a = handle ∧ ns = nodes)) best := by
  obtain ⟨hstart, hnone⟩ | ⟨a, ns, hP, hmatch, hbest, hmax⟩ := h
  · refine .inl ⟨hstart, ?_⟩
    rintro a ns (hP | ⟨rfl, rfl⟩)
    · exact hnone a ns hP
    · exact hno
  · refine .inr ⟨a, ns, .inl hP, hmatch, hbest, ?_⟩
    rintro a' ns' (hP' | ⟨rfl, rfl⟩) hmatch'
    · exact hmax a' ns' hP' hmatch'
    · exact absurd hmatch' hno

/-- One more instance, which matches. -/
theorem BestOf.improve (h : BestOf src P best) {handle : Addr} {nodes : List Node}
    (hmatch : nodes <+: src) :
    BestOf src (fun a ns => P a ns ∨ (a = handle ∧ ns = nodes))
      (best.improve (nodesBytes nodes).length handle) := by
  rw [BestMatch.improve]
  obtain ⟨rfl, hnone⟩ | ⟨a, ns, hP, hmatch', rfl, hmax⟩ := h
  · have hlt : BestMatch.start.size < (nodesBytes nodes).length := by
      show (-1 : Int) < _
      omega
    rw [if_pos hlt]
    refine .inr ⟨handle, nodes, .inr ⟨rfl, rfl⟩, hmatch, rfl, ?_⟩
    rintro a' ns' (hP' | ⟨rfl, rfl⟩) hmatch''
    · exact absurd hmatch'' (hnone a' ns' hP')
    · exact Nat.le_refl _
  · split
    · rename_i hlt
      replace hlt : (nodesBytes ns).length < (nodesBytes nodes).length := Int.ofNat_lt.mp hlt
      refine .inr ⟨handle, nodes, .inr ⟨rfl, rfl⟩, hmatch, rfl, ?_⟩
      rintro a' ns' (hP' | ⟨rfl, rfl⟩) hmatch''
      · exact (hmax a' ns' hP' hmatch'').trans hlt.le
      · exact Nat.le_refl _
    · rename_i hle
      replace hle : (nodesBytes nodes).length ≤ (nodesBytes ns).length :=
        Nat.le_of_not_lt fun hlt => hle (Int.ofNat_lt.mpr hlt)
      refine .inr ⟨a, ns, .inl hP, hmatch', rfl, ?_⟩
      rintro a' ns' (hP' | ⟨rfl, rfl⟩) hmatch''
      · exact hmax a' ns' hP' hmatch''
      · exact hle

end BestOf

/-! ## The loops -/

section Loops

variable {source mem behind rest : List Byte} {src nodes : List Node} {off : Nat}

theorem matchInstance_spec (hsource : source = nodesBytes src ++ behind) {t : EndType}
    {subType : Byte} (h : Holds mem off nodes t subType rest) (handle : Addr) {best : BestMatch}
    {P : Addr → List Node → Prop} (hbest : BestOf src P best) :
    ∃ best', matchInstance source (nodesBytes src).length mem handle off (nodesBytes nodes).length
        best = .ok best' ∧
      BestOf src (fun a ns => P a ns ∨ (a = handle ∧ ns = nodes)) best' := by
  rw [matchInstance]
  by_cases hsize : (nodesBytes nodes).length ≤ (nodesBytes src).length
  · have hread : readBuffer source 0 (nodesBytes nodes).length =
        .ok ((nodesBytes src).take (nodesBytes nodes).length) := by
      have hle : 0 + (nodesBytes nodes).length ≤ source.length := by
        rw [hsource, List.length_append]
        omega
      rw [readBuffer, if_pos hle, slice, List.drop_zero, hsource,
        List.take_append_of_le_length hsize]
    have hread' : readBuffer mem off (nodesBytes nodes).length = .ok (nodesBytes nodes) :=
      readBuffer_of_drop h.drop (by
        have hle := h.off_le
        omega)
    obtain ⟨-, heop, -⟩ := endMarker_walk h.endWalk
    rw [if_pos hsize, hread, hread', heop]
    simp only [bind, Except.bind, t.2, if_pos]
    by_cases hbytes : (nodesBytes src).take (nodesBytes nodes).length = nodesBytes nodes
    · have hmatch : nodes <+: src := by
        rw [← nodesBytes_prefix_iff, List.prefix_iff_eq_take]
        exact hbytes.symm
      rw [if_pos hbytes]
      exact ⟨_, rfl, hbest.improve hmatch⟩
    · have hno : ¬ nodes <+: src := by
        rw [← nodesBytes_prefix_iff, List.prefix_iff_eq_take]
        exact fun heq => hbytes heq.symm
      rw [if_neg hbytes]
      exact ⟨best, rfl, hbest.skip hno⟩
  · have hno : ¬ nodes <+: src := fun hmatch =>
      hsize ((nodesBytes_prefix_iff nodes src).mpr hmatch).length_le
    rw [if_neg hsize]
    exact ⟨best, rfl, hbest.skip hno⟩

/-- The instances of a path that the limit does not cut off are offered one after the other. -/
theorem matchInstances_spec (hsource : source = nodesBytes src ++ behind) (handle : Addr)
    {p : Path} (hdrop : mem.drop off = p.bytes ++ rest)
    (hlimit : ∀ nodes ∈ p.instances, nodes.length ≤ countLimit + 1) {fuel : Nat}
    (hfuel : p.instances.length < fuel) {best : BestMatch} {P : Addr → List Node → Prop}
    (hbest : BestOf src P best) :
    ∃ best', matchInstances source (nodesBytes src).length mem handle fuel (some off) best =
        .ok best' ∧
      BestOf src (fun a ns => P a ns ∨ (a = handle ∧ ns ∈ p.instances)) best' := by
  induction p generalizing off fuel best P with
  | last nodes t =>
    have hholds : Holds mem off nodes t endEntireDevicePathSubtype rest := by
      constructor
      rw [hdrop, Path.bytes, List.append_assoc]
    have hcount := hlimit nodes (List.mem_singleton.mpr rfl)
    obtain ⟨next, sub, -, -, hinst, hend⟩ := devicePathInstance_spec hholds
    rw [List.take_of_length_le hcount, (hend hcount).1, if_pos rfl] at hinst
    obtain ⟨best', hmatch, hbest'⟩ := matchInstance_spec hsource hholds handle hbest
    obtain ⟨k, rfl⟩ : ∃ k, fuel = k + 2 := by
      rw [Path.instances, List.length_singleton] at hfuel
      exact ⟨fuel - 2, by omega⟩
    refine ⟨best', ?_, hbest'.congr fun a ns => ?_⟩
    · rw [matchInstances, hinst]
      simp only [bind, Except.bind, hmatch]
      rfl
    · rw [Path.instances, List.mem_singleton]
  | more nodes t p ih =>
    have hholds : Holds mem off nodes t endInstanceDevicePathSubtype (p.bytes ++ rest) := by
      constructor
      rw [hdrop, Path.bytes, List.append_assoc, List.append_assoc]
    have hcount := hlimit nodes List.mem_cons_self
    obtain ⟨next, sub, -, -, hinst, hend⟩ := devicePathInstance_spec hholds
    rw [List.take_of_length_le hcount, (hend hcount).1, (hend hcount).2,
      if_neg (by decide)] at hinst
    obtain ⟨best', hmatch, hbest'⟩ := matchInstance_spec hsource hholds handle hbest
    cases fuel with
    | zero => exact absurd hfuel (Nat.not_lt_zero _)
    | succ fuel =>
      obtain ⟨best'', hrest, hbest''⟩ := ih hholds.after
        (fun nodes hmem => hlimit nodes (List.mem_cons_of_mem _ hmem))
        (Nat.lt_of_succ_lt_succ hfuel) hbest'
      refine ⟨best'', ?_, hbest''.congr fun a ns => ?_⟩
      · rw [matchInstances, hinst]
        simp only [bind, Except.bind, hmatch]
        exact hrest
      · rw [Path.instances, List.mem_cons]
        tauto

/-- The instances of the device path that a handle carries. -/
def Instances (c : Catalogue) (paths : Addr → Path) (handle : Addr) (nodes : List Node) : Prop :=
  ∃ i, i ≠ 0 ∧ (handle, i) ∈ c.installed devicePathProtocol ∧ nodes ∈ (paths i).instances

theorem devicePathFromHandle_spec {db : Database A} {c : Catalogue} (h : db.Lists c)
    (handle : Addr) :
    db.SameContents (devicePathFromHandle db handle).1 ∧
      ∀ i, (devicePathFromHandle db handle).2 = some i ↔
        i ≠ 0 ∧ (handle, i) ∈ c.installed devicePathProtocol :=
  h.interfaceOf handle devicePathProtocol

theorem matchHandles_spec (hsource : source = nodesBytes src ++ behind) {c : Catalogue}
    {paths : Addr → Path} (tails : Addr → List Byte)
    (hlimit : ∀ handle nodes, Instances c paths handle nodes → nodes.length ≤ countLimit + 1)
    (handles : List Addr) {db : Database A} (h : db.Lists c) {best : BestMatch}
    {P : Addr → List Node → Prop} (hbest : BestOf src P best) :
    ∃ db' best', matchHandles (fun i => (paths i).bytes ++ tails i) source
        (nodesBytes src).length handles db best = .ok (db', best') ∧ db.SameContents db' ∧
      BestOf src (fun a ns => P a ns ∨ (a ∈ handles ∧ Instances c paths a ns)) best' := by
  induction handles generalizing db best P with
  | nil =>
    refine ⟨db, best, rfl, .refl db, hbest.congr fun a ns => ?_⟩
    simp
  | cons handle handles ih =>
    obtain ⟨hsame, hpath⟩ := devicePathFromHandle_spec h handle
    rw [matchHandles]
    cases hr : devicePathFromHandle db handle with
    | mk db₁ devicePath =>
      rw [hr] at hsame hpath
      dsimp only at hsame hpath
      have h₁ := hsame.lists c h
      cases devicePath with
      | none =>
        obtain ⟨db', best', heq, hsame', hbest'⟩ := ih h₁ hbest
        refine ⟨db', best', heq, hsame.trans hsame', hbest'.congr fun a ns => ?_⟩
        rw [List.mem_cons]
        constructor
        · rintro (hP | ⟨rfl | ha, hinst⟩)
          · exact .inl hP
          · obtain ⟨i, h0, hi, -⟩ := hinst
            have hsome := (hpath i).mpr ⟨h0, hi⟩
            cases hsome
          · exact .inr ⟨ha, hinst⟩
        · rintro (hP | ⟨ha, hinst⟩)
          · exact .inl hP
          · exact .inr ⟨.inr ha, hinst⟩
      | some i =>
        obtain ⟨h0, hi⟩ := (hpath i).mp rfl
        have hfuel : (paths i).instances.length < ((paths i).bytes ++ tails i).length + 1 := by
          have hle := (paths i).length_instances_le
          rw [List.length_append]
          omega
        obtain ⟨best₁, heq₁, hbest₁⟩ := matchInstances_spec hsource handle
          (show List.drop 0 ((paths i).bytes ++ tails i) = (paths i).bytes ++ tails i from rfl)
          (fun nodes hmem => hlimit handle nodes ⟨i, h0, hi, hmem⟩) hfuel hbest
        obtain ⟨db', best', heq, hsame', hbest'⟩ := ih h₁ hbest₁
        refine ⟨db', best', ?_, hsame.trans hsame', hbest'.congr fun a ns => ?_⟩
        · simp only [bind, Except.bind, heq₁]
          exact heq
        · rw [List.mem_cons]
          constructor
          · rintro (hP | ⟨rfl | ha, hinst⟩)
            · exact .inl (.inl hP)
            · obtain ⟨j, hj0, hj, hmem⟩ := hinst
              have hij := (hpath j).mpr ⟨hj0, hj⟩
              cases hij
              exact .inl (.inr ⟨rfl, hmem⟩)
            · exact .inr ⟨ha, hinst⟩
          · rintro ((hP | ⟨rfl, hmem⟩) | ⟨ha, hinst⟩)
            · exact .inl hP
            · exact .inr ⟨.inl rfl, ⟨i, h0, hi, hmem⟩⟩
            · exact .inr ⟨.inr ha, hinst⟩

end Loops

/-! ## The list of handles -/

theorem growLocate_same (searchType : SearchType) (protocol : Option Guid)
    (searchKey : Option Addr) (memory : List Bool) (db : Database A) (bufferSize : Nat) :
    Database.SameContents db (growLocate db searchType protocol searchKey memory bufferSize).1 := by
  induction memory generalizing db bufferSize with
  | nil => exact .refl db
  | cons given memory ih =>
    cases given with
    | false => exact .refl db
    | true =>
      have hsame := Database.SameContents.locateHandle db searchType protocol searchKey bufferSize
      rw [growLocate]
      dsimp only
      split
      · exact hsame.trans (ih _ _)
      · exact hsame

/-- With memory for its buffer, twice if it is too small, the loop finds all the handles. -/
theorem growLocate_spec {db : Database A} {c : Catalogue} (h : db.Lists c) {n : Nat}
    (hreq : db.RequestsUpTo n) (hn : n + 2 < 2 ^ A.bits) (g : Guid) (memory : List Bool) :
    ∃ db' status buffer, growLocate db .byProtocol (some g) none (true :: true :: memory)
        (50 * A.pointerSize) = (db', status, buffer) ∧ db.SameContents db' ∧
      (if status = .success then buffer else []) = (c.installed g).map (·.1) := by
  have hsame := Database.SameContents.locateHandle db .byProtocol (some g) none
    (50 * A.pointerSize)
  have hfirst := h.locate_byProtocol (hreq.unstamped (by omega)) g none (50 * A.pointerSize)
  have hreq' := hreq.locateHandle (by omega) .byProtocol (some g) none (50 * A.pointerSize)
  cases hr : db.locateHandle .byProtocol (some g) none (50 * A.pointerSize) with
  | mk db₁ answer =>
    obtain ⟨status, size, buffer⟩ := answer
    rw [hr] at hsame hfirst hreq'
    dsimp only at hsame hreq'
    by_cases hnil : (c.installed g).map (·.1) = []
    · obtain ⟨hstatus, -⟩ := hfirst.notFound hnil
      dsimp only at hstatus
      subst hstatus
      refine ⟨db₁, .notFound, buffer, ?_, hsame, ?_⟩
      · rw [growLocate, hr]
        rfl
      · rw [if_neg (by decide), hnil]
    · by_cases hfits : ((c.installed g).map (·.1)).length * A.pointerSize ≤ 50 * A.pointerSize
      · have hall := hfirst.success hnil hfits
        cases hall
        refine ⟨db₁, .success, _, ?_, hsame, if_pos rfl⟩
        rw [growLocate, hr]
        rfl
      · have hfew := hfirst.tooSmall hnil (Nat.lt_of_not_le hfits)
        cases hfew
        -- the second buffer is of the size that was asked for
        have hsecond := (hsame.lists c h).locate_byProtocol (hreq'.unstamped (by omega)) g none
          (((c.installed g).map (·.1)).length * A.pointerSize)
        have hsame' := Database.SameContents.locateHandle db₁ .byProtocol (some g) none
          (((c.installed g).map (·.1)).length * A.pointerSize)
        have hall := hsecond.success hnil (Nat.le_refl _)
        cases hr' : db₁.locateHandle .byProtocol (some g) none
            (((c.installed g).map (·.1)).length * A.pointerSize) with
        | mk db₂ answer' =>
          rw [hr'] at hall hsame'
          dsimp only at hall hsame'
          subst hall
          refine ⟨db₂, .success, _, ?_, hsame.trans hsame', if_pos rfl⟩
          rw [growLocate, hr]
          dsimp only
          rw [if_pos rfl, growLocate, hr']
          rfl

theorem libLocateHandle_spec {db : Database A} {c : Catalogue} (h : db.Lists c) {n : Nat}
    (hreq : db.RequestsUpTo n) (hn : n + 2 < 2 ^ A.bits) (g : Guid) (memory : List Bool) :
    db.SameContents (libLocateHandle db .byProtocol (some g) none (true :: true :: memory)).1 ∧
      (libLocateHandle db .byProtocol (some g) none (true :: true :: memory)).2 =
        (c.installed g).map (·.1) := by
  obtain ⟨db', status, buffer, heq, hsame, hbuffer⟩ := growLocate_spec h hreq hn g memory
  rw [libLocateHandle, heq]
  exact ⟨hsame, hbuffer⟩

/-! ## LocateDevicePath -/

/-- The property of `LocateDevicePath`: it returns the handle with the longest instance that the
    path begins with, and the rest of the path; or it reports that there is none. -/
def LocatesLongest (db : Database A) (c : Catalogue) (memory : List Bool) (paths : Addr → Path)
    (tails : Addr → List Byte) (g : Guid) (src : List Node) (t : EndType) (tail : List Byte) :
    Prop :=
  let answer := locateDevicePath db memory (fun i => (paths i).bytes ++ tails i) g
    ((Path.last src t).bytes ++ tail)
  let candidate := fun handle nodes => c.Carries handle g ∧ Instances c paths handle nodes
  ((∀ handle nodes, candidate handle nodes → ¬ nodes <+: src) ∧
      ∃ db', answer = .ok (db', .notFound, 0, 0)) ∨
    ∃ handle nodes rest, candidate handle nodes ∧ src = nodes ++ rest ∧
      (∀ handle' nodes', candidate handle' nodes' → nodes' <+: src → nodes' <+: nodes) ∧
      ∃ db', answer = .ok (db', .success, (nodesBytes nodes).length, handle)

theorem locateDevicePath_longest {db : Database A} {c : Catalogue} (h : db.Lists c) {n : Nat}
    (hreq : db.RequestsUpTo n) (hn : n + 2 < 2 ^ A.bits) (memory : List Bool)
    {paths : Addr → Path} (tails : Addr → List Byte)
    (hlimit : ∀ handle nodes, Instances c paths handle nodes → nodes.length ≤ countLimit + 1)
    (g : Guid) {src : List Node} (hsrc : src.length ≤ countLimit + 1) (t : EndType)
    (tail : List Byte) :
    LocatesLongest db c (true :: true :: memory) paths tails g src t tail := by
  have hholds := Path.last_holds src t tail
  obtain ⟨hsame, hhandles⟩ := libLocateHandle_spec h hreq hn g memory
  have hsource : (Path.last src t).bytes ++ tail =
      nodesBytes src ++ (endMarker t endEntireDevicePathSubtype ++ tail) := by
    rw [Path.bytes, List.append_assoc]
  obtain ⟨db', best, hmatch, -, hbest⟩ := matchHandles_spec hsource tails hlimit
    ((c.installed g).map (·.1)) (hsame.lists c h) (BestOf.start src)
  have hanswer : locateDevicePath db (true :: true :: memory)
      (fun i => (paths i).bytes ++ tails i) g ((Path.last src t).bytes ++ tail) =
      if best.size = -1 then .ok (db', .notFound, 0, best.device)
      else .ok (db', .success, best.size.toNat, best.device) := by
    rw [locateDevicePath, devicePathInstanceCount_last hholds hsrc hholds.two_le]
    simp only [bind, Except.bind, ne_eq, not_true_eq_false, if_false, hhandles,
      devicePathSize_spec hholds, Nat.add_sub_cancel, hmatch]
    split <;> rfl
  rw [LocatesLongest]
  dsimp only
  rw [hanswer]
  obtain ⟨rfl, hnone⟩ | ⟨handle, nodes, hcand, ⟨rest, rfl⟩, rfl, hmax⟩ := hbest
  · refine .inl ⟨fun handle nodes hc => hnone handle nodes (.inr hc), db', ?_⟩
    rw [if_pos (show BestMatch.start.size = -1 from rfl)]
    rfl
  · obtain ⟨hcarries, hinst⟩ := hcand.resolve_left id
    refine .inr ⟨handle, nodes, rest, ⟨hcarries, hinst⟩, rfl, ?_, db', ?_⟩
    · intro handle' nodes' hc hmatch'
      have hlength := hmax handle' nodes' (.inr hc) hmatch'
      obtain hshort | hlong := List.prefix_or_prefix_of_prefix hmatch' (List.prefix_append nodes rest)
      · exact hshort
      · -- the longer one in nodes is not the shorter one in bytes
        have hbytes := (nodesBytes_prefix_iff nodes nodes').mpr hlong
        have heq := hbytes.eq_of_length (Nat.le_antisymm hbytes.length_le hlength)
        rw [node_selfDelimiting.flatMap_injective heq]
    · rw [if_neg (by
        show ¬ ((nodesBytes nodes).length : Int) = -1
        omega)]
      rfl

/-- A path that `DevicePathInstance` cuts off is refused. -/
theorem locateDevicePath_cut (db : Database A) (memory : List Bool) (paths : Addr → List Byte)
    (g : Guid) {front nodes : List Node} {n : Node} (hfront : front.length = countLimit + 1)
    (hn : n.subType ≠ endEntireDevicePathSubtype) (hcount : nodes.length ≤ countLimit + 1)
    (t : EndType) (tail : List Byte) :
    locateDevicePath db memory paths g ((Path.last (front ++ n :: nodes) t).bytes ++ tail) =
      .ok (db, .invalidParameter, 0, 0) := by
  have hholds := Path.last_holds (front ++ n :: nodes) t tail
  have hfuel : 3 ≤ ((Path.last (front ++ n :: nodes) t).bytes ++ tail).length + 1 := by
    have hle := hholds.off_le
    rw [sizeofDevicePath] at hle
    omega
  rw [locateDevicePath, devicePathInstanceCount_cut hholds hfront hn hcount hfuel]
  rfl

/-- What is behind the node at which `DevicePathInstance` gives up is matched as an instance. -/
theorem matchInstances_cut {source mem behind rest : List Byte} {src front nodes : List Node}
    (hsource : source = nodesBytes src ++ behind) {n : Node} {t : EndType}
    (h : Holds mem 0 (front ++ n :: nodes) t endEntireDevicePathSubtype rest)
    (hfront : front.length = countLimit + 1) (hn : n.subType ≠ endEntireDevicePathSubtype)
    (hcount : nodes.length ≤ countLimit + 1)
    (hlong : (nodesBytes src).length < (nodesBytes front).length) (handle : Addr)
    (hmatch : nodes <+: src) :
    matchInstances source (nodesBytes src).length mem handle (mem.length + 1) (some 0) .start =
      .ok ⟨(nodesBytes nodes).length, handle⟩ := by
  obtain ⟨k, hk⟩ : ∃ k, mem.length = k + 2 := ⟨mem.length - 2, by
    have hle := h.off_le
    rw [sizeofDevicePath] at hle
    omega⟩
  obtain ⟨best, heq, hbest⟩ := matchInstance_spec hsource h.skip.tail handle (BestOf.start src)
  -- the one match is the best
  have hone : best = ⟨(nodesBytes nodes).length, handle⟩ := by
    obtain ⟨-, hnone⟩ | ⟨a, ns, hcand, -, hbest', -⟩ := hbest
    · exact absurd hmatch (hnone handle nodes (.inr ⟨rfl, rfl⟩))
    · obtain ⟨rfl, rfl⟩ := hcand.resolve_left id
      exact hbest'
  have hcut := devicePathInstance_cut h hfront hn
  rw [Nat.zero_add] at hcut
  have hlast := devicePathInstance_last h.skip.tail hcount
  rw [Nat.zero_add] at hlast heq
  rw [hk, matchInstances, hcut]
  simp only [bind, Except.bind]
  rw [matchInstance, if_neg (Nat.not_le_of_lt hlong)]
  simp only [pure, Except.pure]
  rw [matchInstances, hlast]
  simp only [bind, Except.bind, heq, ← hone]
  rfl

/-- One handle, and a match in its path. -/
theorem locateDevicePath_one {db db₁ db₂ : Database A} {memory : List Bool}
    {paths : Addr → List Byte} {g : Guid} {source : List Byte} {handle i size n : Nat}
    (hcount : devicePathInstanceCount source (source.length + 1) (some 0) = .ok 1)
    (hlocate : libLocateHandle db .byProtocol (some g) none memory = (db₁, [handle]))
    (hsize : devicePathSize source 0 = .ok (size + sizeofDevicePath))
    (hpath : devicePathFromHandle db₁ handle = (db₂, some i))
    (hmatch : matchInstances source size (paths i) handle ((paths i).length + 1) (some 0) .start =
      .ok ⟨n, handle⟩) :
    locateDevicePath db memory paths g source = .ok (db₂, .success, n, handle) := by
  have hn : ¬ (n : Int) = -1 := by omega
  rw [locateDevicePath, hcount]
  simp only [bind, Except.bind, ne_eq, not_true_eq_false, if_false, hlocate, hsize,
    Nat.add_sub_cancel, matchHandles, hpath, hmatch]
  rw [if_neg hn]
  rfl

/-- No handle is listed. -/
theorem locateDevicePath_none {db db₁ : Database A} {memory : List Bool}
    (paths : Addr → List Byte) {g : Guid} {source : List Byte} {size : Nat}
    (hcount : devicePathInstanceCount source (source.length + 1) (some 0) = .ok 1)
    (hlocate : libLocateHandle db .byProtocol (some g) none memory = (db₁, []))
    (hsize : devicePathSize source 0 = .ok (size + sizeofDevicePath)) :
    locateDevicePath db memory paths g source = .ok (db₁, .notFound, 0, 0) := by
  rw [locateDevicePath, hcount]
  simp only [bind, Except.bind, ne_eq, not_true_eq_false, if_false, hlocate, hsize,
    Nat.add_sub_cancel, matchHandles]
  rfl

/-- An answer that reports no match where there is one. -/
theorem not_locatesLongest_of_notFound {db db' : Database A} {c : Catalogue} {memory : List Bool}
    {paths : Addr → Path} {tails : Addr → List Byte} {g : Guid} {src : List Node} {t : EndType}
    {tail : List Byte} (hanswer : locateDevicePath db memory (fun i => (paths i).bytes ++ tails i) g
      ((Path.last src t).bytes ++ tail) = .ok (db', .notFound, 0, 0)) {handle : Addr}
    {nodes : List Node} (hcarries : c.Carries handle g) (hinst : Instances c paths handle nodes)
    (hmatch : nodes <+: src) : ¬ LocatesLongest db c memory paths tails g src t tail := by
  rintro (⟨hnone, -⟩ | ⟨handle', nodes', -, -, -, -, db'', hfound⟩)
  · exact hnone handle nodes ⟨hcarries, hinst⟩ hmatch
  · rw [hanswer] at hfound
    cases hfound

/-! ## A database with one controller -/

/-- The handle 3 carries the device path at the address 100. -/
def oneController (A : Arch) : Database A :=
  ((Database.initializeHandle A).installProtocolInterface ⟨some 1, some 2, some 3⟩ (some 0)
    (some devicePathProtocol) .native 100).1

theorem oneController_shows (A : Arch) : ∃ c, (oneController A).Shows c := by
  obtain ⟨c, -, hshows⟩ := Database.Shows.initial.install (firstPool_fresh A) (some 0)
    (some devicePathProtocol) .native 100
  exact ⟨c, hshows⟩

theorem oneController_wellFormed (A : Arch) : (oneController A).WellFormed := by
  obtain ⟨c, hshows⟩ := oneController_shows A
  exact hshows.wellFormed

theorem oneController_requests (A : Arch) : (oneController A).RequestsUpTo 0 := by
  have hstart : (Database.initializeHandle A).RequestsUpTo 0 := ⟨le_refl _, by rintro _ _ ⟨⟩⟩
  exact hstart.stamps (Database.Shows.initial.stamps_install _ _ _ _ _)

/-- The path of the controller, wherever one looks. -/
def controllerPath (_ : Addr) : Path := .last [controllerNode] endType

theorem locateDevicePath_controller :
    LocatesLongest (oneController .efi64) (oneController_wellFormed .efi64).catalogue
      [true, true] controllerPath (fun _ => []) devicePathProtocol
      [controllerNode, controllerNode] endType [] := by
  refine locateDevicePath_longest (oneController_wellFormed .efi64).lists
    (oneController_requests .efi64) (by decide) [] (fun _ => []) ?_ devicePathProtocol (by decide)
    endType []
  rintro handle nodes ⟨i, -, -, hmem⟩
  rw [List.mem_singleton.mp hmem]
  decide

theorem otherNode_notEnd : isDevicePathEndType 1 = false := rfl

/-- Of the path of the controller a second one, with another number. -/
def otherNode : Node := ⟨1, 5, [1, 0, 0, 0], otherNode_notEnd, controller_small⟩

/-- As many nodes as `DevicePathInstance` passes over. -/
def longFront : List Node := List.replicate (countLimit + 1) controllerNode

theorem length_longFront : longFront.length = countLimit + 1 := List.length_replicate

/-- A path with an instance that is cut off; the last node stands alone then. -/
def longPath (_ : Addr) : Path := .last (longFront ++ controllerNode :: [otherNode]) endType

theorem oneController_longPath : ∃ db', locateDevicePath (oneController .efi64) [true, true]
    (fun i => (longPath i).bytes ++ []) devicePathProtocol
    ((Path.last [otherNode] endType).bytes ++ []) = .ok (db', .success, 8, 3) := by
  have hsource : (Path.last [otherNode] endType).bytes ++ [] =
      nodesBytes [otherNode] ++ (endMarker endType endEntireDevicePathSubtype ++ []) := by
    rw [Path.bytes, List.append_assoc]
  have hlong : (nodesBytes [otherNode]).length < (nodesBytes longFront).length := by
    have hle := length_le_nodesBytes longFront
    rw [length_longFront] at hle
    have hshort : (nodesBytes [otherNode]).length = 8 := rfl
    rw [countLimit] at hle
    omega
  have hmatch := matchInstances_cut hsource
    (Path.last_holds (longFront ++ controllerNode :: [otherNode]) endType [])
    length_longFront (by decide) (by decide) hlong 3 (List.prefix_refl _)
  have hholds := Path.last_holds [otherNode] endType []
  have hlocate : (libLocateHandle (oneController .efi64) .byProtocol (some devicePathProtocol) none
      [true, true]).2 = [3] := rfl
  have hpath : (devicePathFromHandle (libLocateHandle (oneController .efi64) .byProtocol
      (some devicePathProtocol) none [true, true]).1 3).2 = some 100 := rfl
  exact ⟨_, locateDevicePath_one
    (devicePathInstanceCount_last hholds (by decide) hholds.two_le) (Prod.ext rfl hlocate)
    (devicePathSize_spec hholds) (Prod.ext rfl hpath) hmatch⟩

/-- The controller, whatever the number of the last request. -/
theorem oneController_controllerPath {db : Database .efi64} {c : Catalogue} (h : db.Lists c)
    (hlists : (3, 100) ∈ db.installations devicePathProtocol) {memory : List Bool}
    (hlocate : (libLocateHandle db .byProtocol (some devicePathProtocol) none memory).2 = []) :
    ¬ LocatesLongest db c memory controllerPath (fun _ => []) devicePathProtocol
      [controllerNode] endType [] := by
  have hholds := Path.last_holds [controllerNode] endType []
  have hmem : (3, 100) ∈ c.installed devicePathProtocol := by
    rw [← h.same]
    exact hlists
  refine not_locatesLongest_of_notFound (locateDevicePath_none _
    (devicePathInstanceCount_last hholds (by decide) hholds.two_le) (Prod.ext rfl hlocate)
    (devicePathSize_spec hholds)) (List.mem_map_of_mem hmem)
    ⟨100, by decide, hmem, List.mem_singleton.mpr rfl⟩ (List.prefix_refl _)

/-- The database whose next request has the number 0 again, that of handles never located. -/
def wrappedController : Database .efi64 :=
  { oneController .efi64 with efiLocateHandleRequest := -1 }

/-- The path is not matched if it, or the path of a handle, is cut off; if there is no memory for
    the list of handles; or if the number of the request has wrapped. -/
theorem not_alwaysLocatesLongest :
    (∀ c, (oneController .efi64).Lists c →
      ¬ LocatesLongest (oneController .efi64) c [true, true] controllerPath (fun _ => [])
        devicePathProtocol (longFront ++ controllerNode :: []) endType [] ∧
      ¬ LocatesLongest (oneController .efi64) c [true, true] longPath (fun _ => [])
        devicePathProtocol [otherNode] endType [] ∧
      ¬ LocatesLongest (oneController .efi64) c [] controllerPath (fun _ => [])
        devicePathProtocol [controllerNode] endType []) ∧
    ∀ c, wrappedController.Lists c →
      ¬ LocatesLongest wrappedController c [true, true] controllerPath (fun _ => [])
        devicePathProtocol [controllerNode] endType [] := by
  refine ⟨fun c hc => ⟨?_, ?_, ?_⟩, fun c hc => ?_⟩
  · have hcut := locateDevicePath_cut (oneController .efi64) [true, true]
      (fun i => (controllerPath i).bytes ++ []) devicePathProtocol length_longFront
      (show controllerNode.subType ≠ endEntireDevicePathSubtype by decide)
      (show ([] : List Node).length ≤ countLimit + 1 from Nat.zero_le _) endType []
    rintro (⟨-, db', h⟩ | ⟨handle, nodes, rest, -, -, -, db', h⟩)
    · rw [hcut] at h
      cases h
    · rw [hcut] at h
      cases h
  · obtain ⟨db₁, hanswer⟩ := oneController_longPath
    rintro (⟨-, db', h⟩ | ⟨handle, nodes, rest, ⟨-, i, -, -, hmem⟩, heq, -⟩)
    · rw [hanswer] at h
      cases h
    · have hlength := congrArg List.length heq
      rw [List.mem_singleton.mp hmem] at hlength
      simp only [List.length_append, List.length_cons, List.length_nil] at hlength
      omega
  · exact oneController_controllerPath hc (by decide) rfl
  · exact oneController_controllerPath hc (by decide) rfl

end EfiCore.DevPath
