import EfiCore.Lib.Bytes
import EfiCore.Types
import Mathlib.Logic.Function.Basic

/-! # Decompression

`Decompress.c`.  The compressed data are blocks, and each block begins with three sets of code
lengths, from which `MakeTable` makes the tables that symbols are looked up in.  What is read behind
the compressed data is what the memory holds there, so the source is a function.

`ScratchData.tables` keeps the sets of lengths that are read; the program does not have it.
-/

namespace EfiCore.Dec

open EfiCore.Lib

@[irreducible] def wndSiz : Nat := 8192
def nc : Nat := 510
def np : Nat := 14
def nt : Nat := 19
def npt : Nat := 19

/-- The nodes that `mLeft` and `mRight` have room for. -/
def nodes : Nat := 2 * nc - 1

inductive CodeSet where
  | extra
  | charLen
  | position
  deriving DecidableEq, Repr

def CodeSet.symbols : CodeSet → Nat
  | .extra => nt
  | .charLen => nc
  | .position => np

/-- A set of code lengths that has been read. -/
structure CodeTable where
  set : CodeSet
  lens : List Nat
  deriving DecidableEq, Repr

/-- `SCRATCH_DATA` -/
structure ScratchData where
  bytesRemain : Nat
  bitCount : Nat
  bitBuf : Nat
  subBitBuf : Nat
  blockSize : Nat
  dataIdx : Nat
  compSize : Nat
  origSize : Nat
  inBuf : Nat
  badTableFlag : Bool
  buffer : Nat → Nat
  left : Nat → Nat
  right : Nat → Nat
  cLen : Nat → Nat
  ptLen : Nat → Nat
  cTable : Nat → Nat
  ptTable : Nat → Nat
  tables : List CodeTable

/-- The function does not come to an end: it accesses something outside of its arrays, or a loop
    has no end.  These sets have been read before, with one that is too long for its array. -/
structure Stuck where
  tables : List CodeTable
  deriving DecidableEq, Repr

/-- What `for` loops write: `v` in the places from `i` up to `j`. -/
def fill (a : Nat → Nat) (i j v : Nat) : Nat → Nat := fun k => if i ≤ k ∧ k < j then v else a k

variable (src : Nat → Byte)

/-! ## Bits -/

/-- The loop of `FillBuf`. -/
def fillLoop : Nat → ScratchData → Nat → ScratchData × Nat
  | 0, sd, numOfBits => (sd, numOfBits)
  | fuel + 1, sd, numOfBits =>
    if numOfBits ≤ sd.bitCount then (sd, numOfBits)
    else
      let numOfBits := numOfBits - sd.bitCount
      let bitBuf := sd.bitBuf ||| (sd.subBitBuf <<< numOfBits) % 2 ^ 16
      if 0 < sd.compSize then
        fillLoop fuel
          { sd with
            bitBuf := bitBuf
            compSize := sd.compSize - 1
            subBitBuf := (src sd.inBuf).toNat
            inBuf := (sd.inBuf + 1) % 2 ^ 32
            bitCount := 8 } numOfBits
      else fillLoop fuel { sd with bitBuf := bitBuf, subBitBuf := 0, bitCount := 8 } numOfBits

/-- `FillBuf`.  Each turn of its loop but the first takes 8 bits. -/
def fillBuf (sd : ScratchData) (numOfBits : Nat) : ScratchData :=
  let r := fillLoop src (numOfBits + 1)
    { sd with bitBuf := (sd.bitBuf <<< numOfBits) % 2 ^ 16 } numOfBits
  let bitCount := r.1.bitCount - r.2
  { r.1 with bitCount := bitCount, bitBuf := r.1.bitBuf ||| r.1.subBitBuf >>> bitCount }

/-- `GetBits` -/
def getBits (sd : ScratchData) (numOfBits : Nat) : ScratchData × Nat :=
  (fillBuf src sd numOfBits, sd.bitBuf >>> (16 - numOfBits))

/-! ## MakeTable -/

/-- `mLeft`, `mRight` and the table. -/
structure Trees where
  left : Nat → Nat
  right : Nat → Nat
  table : Nat → Nat

/-- The pointer `p`. -/
inductive Link where
  | table (i : Nat)
  | left (i : Nat)
  | right (i : Nat)

def Trees.get (t : Trees) : Link → Nat
  | .table i => t.table i
  | .left i => t.left i
  | .right i => t.right i

def Trees.set (t : Trees) (v : Nat) : Link → Trees
  | .table i => { t with table := Function.update t.table i v }
  | .left i => { t with left := Function.update t.left i v }
  | .right i => { t with right := Function.update t.right i v }

/-- `Start`, as the first loop sets it. -/
def codeStart (count : Nat → Nat) : Nat → Nat
  | 0 => 0
  | i + 1 => if i = 0 then 0 else (codeStart count i + count i <<< (16 - i)) % 2 ^ 16

/-- `Weight` -/
def weight (tableBits i : Nat) : Nat :=
  if i ≤ tableBits then 1 <<< (tableBits - i) else 1 <<< (16 - i)

/-- What the loop over the symbols changes. -/
structure Assign where
  start : Nat → Nat
  avail : Nat
  trees : Trees

/-- The loop that follows the bits of a code behind the table, with the pointer after it. -/
def growBranch (tableBits : Nat) : Nat → Nat → Link → Assign → Option (Assign × Link)
  | 0, _, p, s => some (s, p)
  | i + 1, k, p, s =>
    if s.trees.get p = 0 ∧ nodes ≤ s.avail then none
    else
      let s :=
        if s.trees.get p = 0 then
          { s with
            avail := s.avail + 1
            trees := ((s.trees.set 0 (.right s.avail)).set 0 (.left s.avail)).set s.avail p }
        else s
      let node := s.trees.get p
      if nodes ≤ node then none
      else
        let p := if k.testBit (15 - tableBits) then Link.right node else Link.left node
        growBranch tableBits i ((k <<< 1) % 2 ^ 16) p s

/-- A turn of the loop over the symbols. -/
def assignCode (tableBits len char : Nat) (s : Assign) : Option Assign :=
  let nextCode := (s.start len + weight tableBits len) % 2 ^ 16
  let start := Function.update s.start len nextCode
  if len ≤ tableBits then
    if s.start len < nextCode ∧ 1 <<< tableBits < nextCode then none
    else
      some
        { s with
          start := start
          trees := { s.trees with table := fill s.trees.table (s.start len) nextCode char } }
  else
    (growBranch tableBits (len - tableBits) (s.start len)
      (.table (s.start len >>> (16 - tableBits))) s).map fun r =>
      { r.1 with start := start, trees := r.1.trees.set char r.2 }

/-- The loop over the symbols. -/
def assignCodes (bitLen : Nat → Nat) (tableBits : Nat) : List Nat → Assign → Option Assign
  | [], s => some s
  | char :: rest, s =>
    if bitLen char = 0 then assignCodes bitLen tableBits rest s
    else (assignCode tableBits (bitLen char) char s).bind (assignCodes bitLen tableBits rest)

/-- `MakeTable`, with whether it succeeds. -/
def makeTable (numOfChar : Nat) (bitLen : Nat → Nat) (tableBits : Nat) (t : Trees) :
    Option (Trees × Bool) :=
  let lens := (List.range numOfChar).map bitLen
  -- `Count` has no place for longer ones
  if lens.any fun len => 16 < len then none
  else
    let start := codeStart fun i => lens.count i
    if start 17 ≠ 0 then some (t, false)
    else
      let juBits := 16 - tableBits
      let i := start (tableBits + 1) >>> juBits
      let table := if i ≠ 0 then fill t.table i (1 <<< tableBits) 0 else t.table
      let shifted i := if i ≤ tableBits then start i >>> juBits else start i
      (assignCodes bitLen tableBits (List.range numOfChar)
        ⟨shifted, numOfChar, { t with table := table }⟩).map fun s => (s.trees, true)

/-! ## Symbols -/

/-- The `do` loop that goes through the nodes.  `Mask` becomes 0 after 16 turns, and then nodes that
    go on for longer than there are nodes go on forever. -/
def walk (sd : ScratchData) (limit : Nat) : Nat → Nat → Nat → Except Stuck Nat
  | 0, _, _ => .error ⟨sd.tables⟩
  | fuel + 1, mask, val =>
    if nodes ≤ val then .error ⟨sd.tables⟩
    else
      let val := if sd.bitBuf &&& mask ≠ 0 then sd.right val else sd.left val
      if limit ≤ val then walk sd limit fuel (mask >>> 1) val else .ok val

/-- The symbol at the head of the bits. -/
def lookUp (sd : ScratchData) (table : Nat → Nat) (tableBits limit : Nat) : Except Stuck Nat :=
  let val := table (sd.bitBuf >>> (16 - tableBits))
  if limit ≤ val then walk sd limit (nodes + 17) (1 <<< (15 - tableBits)) val else .ok val

/-- `DecodeP` -/
def decodeP (sd : ScratchData) : Except Stuck (ScratchData × Nat) := do
  let val ← lookUp sd sd.ptTable 8 np
  let sd := fillBuf src sd (sd.ptLen val)
  if val ≠ 0 then
    let r := getBits src sd (val - 1)
    .ok (r.1, (1 <<< (val - 1) + r.2) % 2 ^ 16)
  else .ok (sd, val)

/-! ## Code lengths -/

/-- The set of lengths is kept. -/
def ScratchData.record (sd : ScratchData) (set : CodeSet) (count : Nat) (lens : Nat → Nat) :
    ScratchData :=
  { sd with tables := ⟨set, (List.range count).map lens⟩ :: sd.tables }

/-- There is no room for the lengths up to `count`. -/
def ScratchData.overflow (sd : ScratchData) (set : CodeSet) (count : Nat) (lens : Nat → Nat) :
    Stuck :=
  ⟨(sd.record set count lens).tables⟩

/-- The bits that are set from the bit `k - 1` down. -/
def leadingOnes (bitBuf : Nat) : Nat → Nat
  | 0 => 0
  | k + 1 => if bitBuf.testBit k then leadingOnes bitBuf k + 1 else 0

/-- The loop of `ReadPTLen`, for `n` lengths. -/
def ptLenLoop (set : CodeSet) (n special : Nat) :
    Nat → ScratchData → Nat → Except Stuck (ScratchData × Nat)
  | 0, sd, i => .ok (sd, i)
  | fuel + 1, sd, i =>
    if n ≤ i then .ok (sd, i)
    else if npt ≤ i then .error (sd.overflow set (i + 1) sd.ptLen)
    else
      let c := sd.bitBuf >>> (16 - 3)
      let c := if c = 7 then c + leadingOnes sd.bitBuf (16 - 3) else c
      let sd := fillBuf src sd (if c < 7 then 3 else c - 3)
      let sd := { sd with ptLen := Function.update sd.ptLen i c }
      if i + 1 = special then
        let r := getBits src sd 2
        if npt < i + 1 + r.2 then .error (r.1.overflow set (i + 1 + r.2) r.1.ptLen)
        else
          ptLenLoop set n special fuel
            { r.1 with ptLen := fill r.1.ptLen (i + 1) (i + 1 + r.2) 0 } (i + 1 + r.2)
      else ptLenLoop set n special fuel sd (i + 1)

/-- The call of `MakeTable` for the extra set and the position set. -/
def makePTTable (sd : ScratchData) (nn : Nat) : Except Stuck (ScratchData × Bool) :=
  (makeTable nn sd.ptLen 8 ⟨sd.left, sd.right, sd.ptTable⟩).elim (.error ⟨sd.tables⟩) fun r =>
    .ok ({ sd with left := r.1.left, right := r.1.right, ptTable := r.1.table }, r.2)

/-- `ReadPTLen`, with whether it succeeds. -/
def readPTLen (sd : ScratchData) (set : CodeSet) (nn nbit special : Nat) :
    Except Stuck (ScratchData × Bool) :=
  let r := getBits src sd nbit
  if r.2 = 0 then
    -- the single symbol
    let c := getBits src r.1 nbit
    .ok ({ c.1 with
      ptTable := fill c.1.ptTable 0 256 c.2
      ptLen := fill c.1.ptLen 0 nn 0 }, true)
  else do
    let read ← ptLenLoop src set r.2 special r.2 r.1 0
    let sd := { read.1 with ptLen := fill read.1.ptLen read.2 nn 0 }
    makePTTable (sd.record set nn sd.ptLen) nn

/-- The loop of `ReadCLen`, for `n` lengths. -/
def cLenLoop (n : Nat) : Nat → ScratchData → Nat → Except Stuck (ScratchData × Nat)
  | 0, sd, i => .ok (sd, i)
  | fuel + 1, sd, i =>
    if n ≤ i then .ok (sd, i)
    else do
      let c ← lookUp sd sd.ptTable 8 nt
      let sd := fillBuf src sd (sd.ptLen c)
      if c ≤ 2 then
        let r :=
          if c = 0 then (sd, 1)
          else if c = 1 then ((getBits src sd 4).1, (getBits src sd 4).2 + 3)
          else ((getBits src sd 9).1, (getBits src sd 9).2 + 20)
        if nc < i + r.2 then .error (r.1.overflow .charLen (i + r.2) r.1.cLen)
        else cLenLoop n fuel { r.1 with cLen := fill r.1.cLen i (i + r.2) 0 } (i + r.2)
      else if nc ≤ i then .error (sd.overflow .charLen (i + 1) sd.cLen)
      else cLenLoop n fuel { sd with cLen := Function.update sd.cLen i (c - 2) } (i + 1)

/-- The call of `MakeTable` for the char&len set, which drops what it returns. -/
def makeCTable (sd : ScratchData) : Except Stuck ScratchData :=
  (makeTable nc sd.cLen 12 ⟨sd.left, sd.right, sd.cTable⟩).elim (.error ⟨sd.tables⟩) fun r =>
    .ok { sd with left := r.1.left, right := r.1.right, cTable := r.1.table }

/-- `ReadCLen` -/
def readCLen (sd : ScratchData) : Except Stuck ScratchData :=
  let r := getBits src sd 9
  if r.2 = 0 then
    let c := getBits src r.1 9
    .ok { c.1 with cLen := fill c.1.cLen 0 nc 0, cTable := fill c.1.cTable 0 4096 c.2 }
  else do
    let read ← cLenLoop src r.2 r.2 r.1 0
    let sd := { read.1 with cLen := fill read.1.cLen read.2 nc 0 }
    makeCTable (sd.record .charLen nc sd.cLen)

/-! ## Blocks -/

/-- The part of `DecodeC` that starts a new block. -/
def startBlock (sd : ScratchData) : Except Stuck ScratchData := do
  let size := getBits src sd 16
  let extra ← readPTLen src { size.1 with blockSize := size.2 } .extra nt 5 3
  let sd := { extra.1 with badTableFlag := !extra.2 }
  if sd.badTableFlag then .ok sd
  else do
    let sd ← readCLen src sd
    let position ← readPTLen src sd .position np 4 0xffff
    .ok { position.1 with badTableFlag := !position.2 }

/-- The part of `DecodeC` that looks the symbol up. -/
def decodeSymbol (sd : ScratchData) : Except Stuck (ScratchData × Nat) := do
  let sd := { sd with blockSize := (sd.blockSize + 2 ^ 16 - 1) % 2 ^ 16 }
  let j ← lookUp sd sd.cTable 12 nc
  .ok (fillBuf src sd (sd.cLen j), j)

/-- `DecodeC` -/
def decodeC (sd : ScratchData) : Except Stuck (ScratchData × Nat) :=
  if sd.blockSize = 0 then do
    let sd ← startBlock src sd
    if sd.badTableFlag then .ok (sd, 0) else decodeSymbol src sd
  else decodeSymbol src sd

/-! ## Windows -/

/-- A byte of a match, to the place `di` of the window. -/
def copyByte (sd : ScratchData) (di : Nat) : ScratchData :=
  { sd with
    buffer := Function.update sd.buffer di (sd.buffer sd.dataIdx)
    dataIdx := if wndSiz ≤ sd.dataIdx + 1 then sd.dataIdx + 1 - wndSiz else sd.dataIdx + 1 }

/-- The loops that copy a match: the place after it, and whether the `limit` is reached. -/
def copyLoop (limit : Nat) : Nat → ScratchData → Nat → ScratchData × Nat × Bool
  | 0, sd, di => (sd, di, false)
  | fuel + 1, sd, di =>
    let sd := { sd with bytesRemain := (sd.bytesRemain + 2 ^ 16 - 1) % 2 ^ 16 }
    if 2 ^ 15 ≤ sd.bytesRemain then (sd, di, false)
    else if limit ≤ di + 1 then (copyByte sd di, di + 1, true)
    else copyLoop limit fuel (copyByte sd di) (di + 1)

/-- `mBytesRemain` is not negative for at most this many turns. -/
@[irreducible] def copyTurns : Nat := 2 ^ 15 + 1

/-- A turn of the `for` loop of `Decode`: the place after it, if the function does not return.  `di`
    and `r` are the same number. -/
def decodeTurn (sd : ScratchData) (di : Nat) : Except Stuck (ScratchData × Option Nat) := do
  let r ← decodeC src sd
  if r.1.badTableFlag then .ok (r.1, none)
  else if r.2 < 256 then
    let sd := { r.1 with buffer := Function.update r.1.buffer di r.2 }
    .ok (sd, if wndSiz ≤ di + 1 then none else some (di + 1))
  else do
    let p ← decodeP src { r.1 with bytesRemain := r.2 - (0xff + 1 - 3) }
    let sd := { p.1 with dataIdx := (di + 2 ^ 32 - p.2 - 1) % wndSiz }
    let copied := copyLoop wndSiz copyTurns sd di
    .ok (copied.1, if copied.2.2 then none else some copied.2.1)

/-- The `for` loop of `Decode`.  Its turns write at least one byte each. -/
def decodeLoop : Nat → ScratchData → Nat → Except Stuck ScratchData
  | 0, sd, _ => .error ⟨sd.tables⟩
  | fuel + 1, sd, di => do
    let r ← decodeTurn src sd di
    r.2.elim (.ok r.1) (decodeLoop fuel r.1)

/-- `Decode` -/
def decode (sd : ScratchData) (numOfBytes : Nat) : Except Stuck ScratchData :=
  let copied := copyLoop numOfBytes copyTurns sd 0
  if copied.2.2 then .ok copied.1 else decodeLoop src wndSiz copied.1 copied.2.1

/-! ## Decompress -/

/-- What `Decompress` returns, with the bytes that it has written. -/
structure Result where
  status : Status
  output : List Nat
  tables : List CodeTable
  deriving DecidableEq, Repr

/-- The loop of `Decompress`. -/
def decompressLoop (dstSize : Nat) : Nat → ScratchData → List Nat → Except Stuck Result
  | 0, sd, _ => .error ⟨sd.tables⟩
  | fuel + 1, sd, output =>
    if sd.origSize = 0 then
      .ok ⟨if sd.badTableFlag then .invalidParameter else .success, output, sd.tables⟩
    else do
      let count := min wndSiz sd.origSize
      let sd ← decode src sd count
      if sd.badTableFlag then .ok ⟨.invalidParameter, output, sd.tables⟩
      else if dstSize < output.length + count then
        .ok ⟨.invalidParameter, output ++ (List.range (dstSize - output.length)).map sd.buffer,
          sd.tables⟩
      else
        decompressLoop dstSize fuel { sd with origSize := sd.origSize - count }
          (output ++ (List.range count).map sd.buffer)

/-- `sizeof (SCRATCH_DATA)` -/
def scratchDataSize : Arch → Nat
  | .efi32 => 21552
  | .efi64 => 21560

/-- `CompSize` and `OrigSize`, at the offset `off` of the source. -/
def sourceSize (off : Nat) : Nat := leNat ((List.range 4).map fun i => src (off + i))

/-- The scratch data before the first bits are read. -/
def clearScratch (compSize origSize : Nat) : ScratchData where
  bytesRemain := 2 ^ 16 - 1
  bitCount := 0
  bitBuf := 0
  subBitBuf := 0
  blockSize := 0
  dataIdx := 0
  compSize := compSize
  origSize := origSize
  inBuf := 0
  badTableFlag := false
  buffer _ := 0
  left _ := 0
  right _ := 0
  cLen _ := 0
  ptLen _ := 0
  cTable _ := 0
  ptTable _ := 0
  tables := []

/-- `Decompress` -/
def decompress (A : Arch) (srcSize dstSize scratchSize : Nat) : Except Stuck Result :=
  let invalid : Result := ⟨.invalidParameter, [], []⟩
  if scratchSize < scratchDataSize A then .ok invalid
  else if srcSize < 8 then .ok invalid
  else
    let compSize := sourceSize src 0
    let origSize := sourceSize src 4
    if srcSize < (compSize + 8) % 2 ^ 32 then .ok invalid
    else if dstSize ≠ origSize then .ok invalid
    else
      let source i := src (8 + i)
      decompressLoop source dstSize (origSize + 1)
        (fillBuf source (clearScratch compSize origSize) 16) []

end EfiCore.Dec
