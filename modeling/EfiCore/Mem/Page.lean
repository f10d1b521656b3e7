import EfiCore.Mem.Pool

/-! # The memory map

`AddRange`, `FreeMemoryMapStack`, `RemoveMemoryMapEntry` and `ConvertPages` of `page.c`.
Everything that can re-enter `ConvertPages` takes it as the parameter `convert`;
`convertPages` ties the knot on a fuel that bounds the depth of the recursion and the turns
of the two loops.
-/

namespace EfiCore.Mem

namespace MemState

variable {A : Arch} (convert : Convert A)

def removeMemoryMapEntry (e : MapEntry) (s : MemState A) : Except Fault (MemState A) := do
  let s := s.unlink e.home
  match e.home with
  | .mapStack _ => return s
  | .pool buffer =>
    let (_, s) ← s.freePoolI convert buffer
    return s

/-- `Entry` and a range of the same type and attribute touch, in wrapping arithmetic. -/
def adjoins (e : MapEntry) (type : MemoryType) (start last : Nat) (attr : BitVec 64) : Bool :=
  e.type = type ∧ e.attr = attr ∧
    ((e.last + 1) % 2 ^ 64 = start ∨ e.start = (last + 1) % 2 ^ 64)

/-- `e` with the range that adjoins it merged in: at its end if it fits there, else at its
    start. -/
def absorb (e : MapEntry) (start last : Nat) : MapEntry :=
  if (e.last + 1) % 2 ^ 64 = start then { e with last := last } else { e with start := start }

/-- `Entry1` with the descriptor `e` merged in; the tests come in the other order. -/
def absorbEntry (e1 e : MapEntry) : MapEntry :=
  if (e.last + 1) % 2 ^ 64 = e1.start then { e1 with start := e.start }
  else { e1 with last := e.last }

def addRange (type : MemoryType) (start last : Nat) (attr : BitVec 64) (s : MemState A) :
    Except Fault (MemState A) := do
  let s := s.bumpKey
  match s.memoryMap.find? (adjoins · type start last attr) with
  | some e =>
    let e := absorb e start last
    let s := s.setEntry e
    -- the grown descriptor may now touch another one of its kind
    match s.memoryMap.find? (adjoins · e.type e.start e.last e.attr) with
    | some e1 => (s.setEntry (absorbEntry e1 e)).removeMemoryMapEntry convert e
    | none => return s
  | none =>
    let (_, s) ← s.pushEntry type start last attr
    return s

/-- The loop of `FreeMemoryMapStack`, bounded by `fuel`. -/
def drainMapStack : Nat → MemState A → Except Fault (MemState A)
  | fuel, s => do
    if s.mapDepth = 0 then return s
    else match fuel with
      | 0 => .error .outOfFuel
      | fuel + 1 =>
        let (entry, s) ←
          s.allocatePoolI convert .runtimeServicesData (sizeOfMemoryMap A)
        let s := { s with mapDepth := s.mapDepth - 1 }
        match s.memoryMap.find? (·.home = .mapStack s.mapDepth) with
        | some e =>
          if entry = 0 then .error .nullDescriptor
          else if s.memoryMap.any (·.home = .pool entry) then .error .descriptorReused
          else drainMapStack fuel ((s.unlink e.home).insertEntry { e with home := .pool entry })
        | none =>
          -- it was removed while it was on the stack
          let (_, s) ← s.freePoolI convert entry
          drainMapStack fuel s

def freeMemoryMapStack (fuel : Nat) (s : MemState A) : Except Fault (MemState A) := do
  if s.freeMapStack then return s
  else
    let s ← drainMapStack convert fuel { s with freeMapStack := true }
    return { s with freeMapStack := false }

/-- Pull `[start, rangeEnd]` out of the descriptor `e`.  Returns what `Entry` is afterwards:
    `e` clipped, or the new descriptor of the part above. -/
def clip (e : MapEntry) (start rangeEnd : Nat) (s : MemState A) :
    Except Fault (MapEntry × MemState A) :=
  if e.start = start then
    let e := { e with start := (rangeEnd + 1) % 2 ^ 64 }
    .ok (e, s.setEntry e)
  else if e.last = rangeEnd then
    let e := { e with last := start - 1 }
    .ok (e, s.setEntry e)
  else
    (s.setEntry { e with last := start - 1 }).pushEntry e.type (rangeEnd + 1) e.last e.attr

/-- If the descriptor is empty, then remove it from the map. -/
def removeIfEmpty (e : MapEntry) (s : MemState A) : Except Fault (MemState A) :=
  if e.start = (e.last + 1) % 2 ^ 64 then s.removeMemoryMapEntry convert e else .ok s

/-- The descriptor that covers `start`, as `ConvertPages` and `FreePages` look for it. -/
def findEntry (s : MemState A) (start : Nat) : Option MapEntry :=
  s.memoryMap.find? fun e => e.start ≤ start ∧ start < e.last

/-- `!LoadConvert && !(NewType == Conventional) ^ (Entry->Type == Conventional)`, where the
    negation binds tighter than the exclusive or. -/
def incompatible (loadConvert : Bool) (newType type : MemoryType) : Bool :=
  !loadConvert &&
    ((!decide (newType = .conventionalMemory)) ^^ decide (type = .conventionalMemory))

/-- One turn of the loop of `ConvertPages`: convert `[start, ..]` up to `last` or to the end
    of the descriptor.  Returns the next start, or nothing for `EFI_NOT_FOUND`. -/
def convertRange (fuel : Nat) (loadConvert : Bool) (start last : Nat) (newType : MemoryType)
    (s : MemState A) : Except Fault (Option Nat × MemState A) := do
  match s.findEntry start with
  | none => return (none, s)
  | some e =>
    let rangeEnd := if e.last < last then e.last else last
    if incompatible loadConvert newType e.type then return (none, s)
    else
      let s := s.bumpKey
      let (e, s) ← s.clip e start rangeEnd
      let s ← s.removeIfEmpty convert e
      let s ← s.addRange convert newType start rangeEnd e.attr
      let s ← s.freeMemoryMapStack convert fuel
      return (some ((rangeEnd + 1) % 2 ^ 64), s)

/-- The loop of `ConvertPages`, at most `turns` times. -/
def convertLoop (fuel : Nat) (loadConvert : Bool) (last : Nat) (newType : MemoryType) :
    Nat → Nat → MemState A → Except Fault (Status × MemState A)
  | turns, start, s => do
    if start < last then
      match turns with
      | 0 => .error .outOfFuel
      | turns + 1 =>
        match ← s.convertRange convert fuel loadConvert start last newType with
        | (none, s) => return (.notFound, s)
        | (some start, s) => convertLoop fuel loadConvert last newType turns start s
    else return (.success, s)

/-- The body of `ConvertPages`. -/
def convertBody (fuel : Nat) (loadConvert : Bool) (start noPages : Nat) (newType : MemoryType)
    (s : MemState A) : Except Fault (Status × MemState A) :=
  let noBytes := noPages * 4096 % 2 ^ 64
  let last := (start + noBytes + (2 ^ 64 - 1)) % 2 ^ 64
  if noPages = 0 ∨ start % 4096 ≠ 0 ∨ (start + noBytes) % 2 ^ 64 < start then
    .ok (.invalidParameter, s)
  else s.convertLoop convert fuel loadConvert last newType fuel start

end MemState

/-- `ConvertPages`, its recursion through the pool cut off after `fuel` levels. -/
def convertPages {A : Arch} : Nat → Convert A
  | 0 => fun _ _ _ _ _ => .error .outOfFuel
  | fuel + 1 => fun loadConvert start noPages newType s =>
    s.convertBody (convertPages fuel) (fuel + 1) loadConvert start noPages newType

end EfiCore.Mem
