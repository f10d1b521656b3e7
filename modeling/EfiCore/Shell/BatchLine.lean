import EfiCore.Lib.Bytes
import EfiCore.Uni.CaseMap

/-! # Lines of a script (`BatchGetLine`)

A line is read in pieces of `COMMON_CMDLINE_LENGTH` characters into one buffer on the stack, and
the character behind a terminator is looked up in that buffer. The reference only asks the
characters of the file.
-/

namespace EfiCore.Shell

open EfiCore.Lib (Byte)
open EfiCore.Uni (Char16)

/-- `COMMON_CMDLINE_LENGTH` -/
abbrev commonCmdlineLength : Nat := 32

/-- A script as `BatchIsAscii` has found it. A Unicode file begins with the byte-order mark. -/
structure ScriptFile where
  ascii : Bool
  bytes : List Byte
  marked : ascii = false → bytes.take 2 = [0xff, 0xfe]

def charSize (ascii : Bool) : Nat := if ascii then 1 else 2

/-- An element of `Buffer8` or `Buffer16`, as the `CHAR16` that is copied of it. -/
def charAt (ascii : Bool) (bytes : Nat → Byte) (index : Nat) : Char16 :=
  if ascii then (bytes index).setWidth 16
  else (bytes (2 * index + 1)).setWidth 16 <<< 8 ||| (bytes (2 * index)).setWidth 16

/-- The elements that some bytes fill. -/
def toChars (ascii : Bool) (data : List Byte) : List Char16 :=
  (List.range (data.length / charSize ascii)).map (charAt ascii fun i => data[i]?.getD 0)

/-- CR or LF. -/
def isTerminator (c : Char16) : Bool := c = 0x0a ∨ c = 0x0d

/-- `Buffer8` or `Buffer16`, with the number of bytes that the reads of this call have filled. -/
structure Buffer where
  bytes : Nat → Byte
  filled : Nat

def Buffer.fill (buffer : Buffer) (data : List Byte) : Buffer where
  bytes i := data[i]?.getD (buffer.bytes i)
  filled := max buffer.filled data.length

/-- What a call gives back, and whether it used only elements that its own reads have filled. -/
structure Line where
  commandLine : List Char16
  cmdLineSize : Nat
  filePosition : Nat
  ownReads : Bool
  deriving DecidableEq

/-- The line ends at a terminator. -/
def endLine (ascii : Bool) (filePosition : Nat) (buffer : Buffer) (cmdLine : List Char16)
    (oldIndex index : Nat) : Line :=
  -- the next element is read whether or not the file had that many
  let next := charAt ascii buffer.bytes (index + 1)
  let size := (oldIndex + index + if isTerminator next then 2 else 1) * charSize ascii
  ⟨cmdLine, size, filePosition + size, (index + 2) * charSize ascii ≤ buffer.filled⟩

/-- The loop of `BatchGetLine`. `oldIndex` is `OldIndex` and also the distance of `CmdBuf` from
`*CommandLine`; `rest` is what is behind the position of the file. -/
def readLoop (ascii : Bool) (filePosition : Nat) :
    Nat → Buffer → List Char16 → Nat → List Byte → Option Line
  | 0, _, _, _, _ => none
  | fuel + 1, buffer, cmdLine, oldIndex, rest =>
    let data := rest.take (commonCmdlineLength * charSize ascii)
    if data.length = 0 then
      let size := oldIndex * 2
      some ⟨cmdLine, size, filePosition + size, true⟩
    else
      let buffer := buffer.fill data
      let chars := toChars ascii data
      match chars.findIdx? isTerminator with
      | some index =>
        some (endLine ascii filePosition buffer (cmdLine ++ chars.take index) oldIndex index)
      | none =>
        if data.length < commonCmdlineLength * charSize ascii then
          let size := (oldIndex + chars.length + 1) * charSize ascii
          some ⟨cmdLine ++ chars, size, filePosition + size, true⟩
        else
          readLoop ascii filePosition fuel buffer (cmdLine ++ chars)
            (oldIndex + commonCmdlineLength) (rest.drop (commonCmdlineLength * charSize ascii))

def ScriptFile.header (file : ScriptFile) : Nat := if file.ascii then 0 else 2

/-- `BatchGetLine` on a stack whose bytes are `stack`. -/
def batchGetLine (file : ScriptFile) (stack : Nat → Byte) (filePosition : Nat) : Option Line :=
  let filePosition := if ¬file.ascii ∧ filePosition = 0 then 2 else filePosition
  readLoop file.ascii filePosition (file.bytes.length + 1) ⟨stack, 0⟩ [] 0
    (file.bytes.drop filePosition)

/-! ## The lines of a file -/

/-- The first line and the number of characters up to the next one. -/
def nextLine (chars : List Char16) : List Char16 × Nat :=
  match chars.findIdx? isTerminator with
  | some index =>
    (chars.take index, if chars[index + 1]?.any isTerminator then index + 2 else index + 1)
  | none => (chars, chars.length)

/-- The lines of the characters behind a position, and the end of the file. -/
inductive Lines (ascii : Bool) : List Char16 → Nat → List Line → Prop
  | eof {position : Nat} {r : Line} : r.cmdLineSize = 0 → r.filePosition = position →
      r.ownReads = true → Lines ascii [] position [r]
  | line {chars : List Char16} {position : Nat} {r : Line} {results : List Line} :
      chars ≠ [] → r.commandLine = (nextLine chars).1 →
      r.filePosition = position + (nextLine chars).2 * charSize ascii → r.ownReads = true →
      Lines ascii (chars.drop (nextLine chars).2) r.filePosition results →
      Lines ascii chars position (r :: results)

theorem Lines.ne_nil {ascii : Bool} {chars : List Char16} {position : Nat} {results : List Line}
    (h : Lines ascii chars position results) : results ≠ [] := by
  cases h <;> exact List.cons_ne_nil _ _

/-- Calls from a position on, until one reports the end of the file. What the stack holds is
another thing at each call. -/
inductive Reads (file : ScriptFile) : (Nat → Nat → Byte) → Nat → List Line → Prop
  | last {stack : Nat → Nat → Byte} {position : Nat} {r : Line} :
      batchGetLine file (stack 0) position = some r → r.cmdLineSize = 0 →
      Reads file stack position [r]
  | next {stack : Nat → Nat → Byte} {position : Nat} {r : Line} {results : List Line} :
      batchGetLine file (stack 0) position = some r → r.cmdLineSize ≠ 0 →
      Reads file (fun call => stack (call + 1)) r.filePosition results →
      Reads file stack position (r :: results)

/-- The characters of the file, behind its mark. -/
def ScriptFile.chars (file : ScriptFile) : List Char16 :=
  toChars file.ascii (file.bytes.drop file.header)

/-- Whatever the stack holds, the calls return the lines of the file and then its end. -/
def ReadsLines (file : ScriptFile) : Prop :=
  ∀ stack, ∃ results, Reads file stack 0 results ∧
    Lines file.ascii file.chars file.header results ∧
    ∀ r ∈ results, r.filePosition ≤ file.bytes.length

/-- No line ends where the code takes the character behind it from somewhere else: at the end of
the buffer, or, in a first buffer, at the end of the file. A last line without a terminator is a
multiple of the buffer, in Unicode. -/
inductive Suits (ascii : Bool) : List Char16 → Prop
  | eof : Suits ascii []
  | unterminated {chars : List Char16} : chars.findIdx? isTerminator = none → ascii = false →
      chars.length % commonCmdlineLength = 0 → Suits ascii chars
  | line {chars : List Char16} {index : Nat} : chars.findIdx? isTerminator = some index →
      index % commonCmdlineLength ≠ commonCmdlineLength - 1 →
      (index + 1 < chars.length ∨ commonCmdlineLength ≤ index) →
      Suits ascii (chars.drop (nextLine chars).2) → Suits ascii chars

/-! ## Bytes and characters -/

section Chars

variable {ascii : Bool} {data : List Byte} {f g : Nat → Byte} {i k n : Nat}

theorem charSize_pos (ascii : Bool) : 0 < charSize ascii := by
  cases ascii <;> decide

/-- An element depends on its own bytes only. -/
theorem charAt_congr (h : ∀ j < charSize ascii, f (i * charSize ascii + j) =
    g (k * charSize ascii + j)) : charAt ascii f i = charAt ascii g k := by
  cases ascii with
  | true =>
    have hbyte := h 0 (by decide)
    simp only [charSize, if_true, Nat.mul_one, Nat.add_zero] at hbyte
    simp only [charAt, if_true, hbyte]
  | false =>
    have hlow := h 0 (by decide)
    have hhigh := h 1 (by decide)
    simp only [charSize, Bool.false_eq_true, if_false, Nat.add_zero] at hlow hhigh
    simp only [charAt, Bool.false_eq_true, if_false, Nat.mul_comm 2, hlow, hhigh]

@[simp] theorem length_toChars : (toChars ascii data).length = data.length / charSize ascii := by
  simp [toChars]

@[simp] theorem toChars_nil : toChars ascii [] = [] := by
  simp [toChars]

theorem getElem?_toChars (hi : i < data.length / charSize ascii) :
    (toChars ascii data)[i]? = some (charAt ascii (fun j => data[j]?.getD 0) i) := by
  simp [toChars, hi]

/-- The bytes of an element that some bytes fill are among them. -/
theorem byte_lt {j : Nat} (hi : i < data.length / charSize ascii) (hj : j < charSize ascii) :
    i * charSize ascii + j < data.length := by
  have hmul := Nat.div_mul_le_self data.length (charSize ascii)
  have hnext : (i + 1) * charSize ascii ≤ data.length / charSize ascii * charSize ascii :=
    Nat.mul_le_mul_right _ hi
  rw [Nat.succ_mul] at hnext
  omega

theorem toChars_take : toChars ascii (data.take (n * charSize ascii)) =
    (toChars ascii data).take n := by
  have hpos := charSize_pos ascii
  have hlength : min (n * charSize ascii) data.length / charSize ascii =
      min n (data.length / charSize ascii) := by
    rcases Nat.le_total (n * charSize ascii) data.length with hle | hle
    · rw [Nat.min_eq_left hle, Nat.mul_div_cancel _ hpos,
        Nat.min_eq_left ((Nat.le_div_iff_mul_le hpos).mpr hle)]
    · have hdiv := Nat.div_le_div_right (c := charSize ascii) hle
      rw [Nat.mul_div_cancel _ hpos] at hdiv
      rw [Nat.min_eq_right hle, Nat.min_eq_right hdiv]
  apply List.ext_getElem?
  intro i
  rw [List.getElem?_take]
  by_cases hi : i < n ∧ i < data.length / charSize ascii
  · have hin : i < (data.take (n * charSize ascii)).length / charSize ascii := by
      rw [List.length_take, hlength]
      omega
    rw [getElem?_toChars hin, if_pos hi.1, getElem?_toChars hi.2]
    congr 1
    apply charAt_congr
    intro j hj
    have hlt := byte_lt hin hj
    rw [List.length_take] at hlt
    rw [List.getElem?_take_of_lt (by omega)]
  · rw [List.getElem?_eq_none]
    · split
      · rw [List.getElem?_eq_none (by rw [length_toChars]; omega)]
      · rfl
    · rw [length_toChars, List.length_take, hlength]
      omega

theorem toChars_drop : toChars ascii (data.drop (n * charSize ascii)) =
    (toChars ascii data).drop n := by
  have hpos := charSize_pos ascii
  have hlength : (data.length - n * charSize ascii) / charSize ascii =
      data.length / charSize ascii - n := by
    rw [Nat.mul_comm, Nat.sub_mul_div]
  apply List.ext_getElem?
  intro i
  rw [List.getElem?_drop]
  by_cases hi : i < data.length / charSize ascii - n
  · have hin : i < (data.drop (n * charSize ascii)).length / charSize ascii := by
      rwa [List.length_drop, hlength]
    rw [getElem?_toChars hin, getElem?_toChars (by omega)]
    congr 1
    apply charAt_congr
    intro j _
    rw [List.getElem?_drop, Nat.add_mul, Nat.add_assoc]
  · rw [List.getElem?_eq_none (by rw [length_toChars, List.length_drop, hlength]; omega),
      List.getElem?_eq_none (by rw [length_toChars]; omega)]

/-! What a read has filled, and what it has left. -/

theorem charAt_fill_of_lt (buffer : Buffer) (hi : i < data.length / charSize ascii) :
    (toChars ascii data)[i]? = some (charAt ascii (buffer.fill data).bytes i) := by
  rw [getElem?_toChars hi]
  congr 1
  apply charAt_congr
  intro j hj
  simp only [Buffer.fill, List.getElem?_eq_getElem (byte_lt hi hj), Option.getD_some]

theorem charAt_fill_of_le (buffer : Buffer) (hi : data.length ≤ i * charSize ascii) :
    charAt ascii (buffer.fill data).bytes i = charAt ascii buffer.bytes i := by
  apply charAt_congr
  intro j _
  have hnone : data[i * charSize ascii + j]? = none := List.getElem?_eq_none (by omega)
  simp only [Buffer.fill, hnone, Option.getD_none]

end Chars

/-! ## One call -/

/-- The buffer at the head of the loop: unfilled, or full with characters of the line. -/
def Carried (ascii : Bool) (buffer : Buffer) (oldIndex : Nat) : Prop :=
  oldIndex % commonCmdlineLength = 0 ∧
    (oldIndex = 0 ∧ buffer.filled = 0 ∨
      commonCmdlineLength ≤ oldIndex ∧ buffer.filled = commonCmdlineLength * charSize ascii ∧
        ∀ i < commonCmdlineLength, isTerminator (charAt ascii buffer.bytes i) = false)

/-- The character behind a terminator is one that the code has read for this line. -/
def Seen (chars : List Char16) (oldIndex index : Nat) : Prop :=
  index % commonCmdlineLength ≠ commonCmdlineLength - 1 ∧
    (index + 1 < chars.length ∨ commonCmdlineLength ≤ oldIndex + index)

section Loop

variable {ascii : Bool} {rest : List Byte} {buffer : Buffer} {cmdLine : List Char16}
  {filePosition fuel oldIndex index : Nat} {r : Line}

/-- A full read without a terminator. -/
theorem Carried.next (h : Carried ascii buffer oldIndex)
    (hlength : commonCmdlineLength ≤ rest.length / charSize ascii)
    (hnone : ((toChars ascii rest).take commonCmdlineLength).findIdx? isTerminator = none) :
    Carried ascii (buffer.fill (rest.take (commonCmdlineLength * charSize ascii)))
      (oldIndex + commonCmdlineLength) := by
  have hbytes : commonCmdlineLength * charSize ascii ≤ rest.length :=
    (Nat.le_div_iff_mul_le (charSize_pos ascii)).mp hlength
  have hdata : (rest.take (commonCmdlineLength * charSize ascii)).length =
      commonCmdlineLength * charSize ascii := by
    rw [List.length_take, Nat.min_eq_left hbytes]
  refine ⟨?_, .inr ⟨Nat.le_add_left _ _, ?_, ?_⟩⟩
  · rw [Nat.add_mod_right]
    exact h.1
  · rw [Buffer.fill, hdata]
    rcases h.2 with ⟨-, hfilled⟩ | ⟨-, hfilled, -⟩
    · rw [hfilled, Nat.zero_max]
    · rw [hfilled, Nat.max_self]
  · intro i hi
    have hin : i < (rest.take (commonCmdlineLength * charSize ascii)).length / charSize ascii := by
      rwa [hdata, Nat.mul_div_cancel _ (charSize_pos ascii)]
    have hchar := charAt_fill_of_lt buffer hin
    rw [toChars_take] at hchar
    exact List.findIdx?_eq_none_iff.mp hnone _ (List.mem_of_getElem? hchar)

/-- What the code takes for the next character, where it has read one. -/
theorem next_seen (h : Carried ascii buffer oldIndex)
    (hindex : index + 1 < commonCmdlineLength)
    (hwhole : rest.length % charSize ascii = 0)
    (hseen : index + 1 < (toChars ascii rest).length ∨ commonCmdlineLength ≤ oldIndex) :
    isTerminator (charAt ascii
      (buffer.fill (rest.take (commonCmdlineLength * charSize ascii))).bytes (index + 1)) =
        (toChars ascii rest)[index + 1]?.any isTerminator := by
  have hpos := charSize_pos ascii
  by_cases hin : index + 1 < (toChars ascii rest).length
  · have hdata : index + 1 <
        (rest.take (commonCmdlineLength * charSize ascii)).length / charSize ascii := by
      rw [← @length_toChars ascii, toChars_take, List.length_take]
      omega
    have hchar := charAt_fill_of_lt buffer hdata
    rw [toChars_take, List.getElem?_take_of_lt hindex] at hchar
    rw [hchar, Option.any_some]
  · -- the element is left of an earlier read
    have hbytes : rest.length ≤ (index + 1) * charSize ascii := by
      rw [length_toChars] at hin
      have hdiv := Nat.div_mul_cancel (Nat.dvd_of_mod_eq_zero hwhole)
      rw [← hdiv]
      exact Nat.mul_le_mul_right _ (by omega)
    rw [charAt_fill_of_le buffer (Nat.le_trans (List.length_take_le' _ _) hbytes),
      List.getElem?_eq_none (by omega), Option.any_none]
    rcases h.2 with ⟨hzero, -⟩ | ⟨-, -, hold⟩
    · omega
    · exact hold _ hindex

/-- The result of a call whose line has a terminator at `index`. -/
structure Terminated (ascii : Bool) (filePosition : Nat) (cmdLine : List Char16)
    (oldIndex : Nat) (rest : List Byte) (index : Nat) (r : Line) : Prop where
  commandLine : r.commandLine = cmdLine ++ (toChars ascii rest).take index
  size : r.cmdLineSize ≠ 0
  seen : r.ownReads = true → Seen (toChars ascii rest) oldIndex index
  right : Seen (toChars ascii rest) oldIndex index → rest.length % charSize ascii = 0 →
    r.ownReads = true ∧
      r.filePosition =
        filePosition + (oldIndex + (nextLine (toChars ascii rest)).2) * charSize ascii

theorem nextLine_some {chars : List Char16} (h : chars.findIdx? isTerminator = some index) :
    nextLine chars = (chars.take index,
      if chars[index + 1]?.any isTerminator then index + 2 else index + 1) := by
  rw [nextLine, h]

theorem nextLine_none {chars : List Char16} (h : chars.findIdx? isTerminator = none) :
    nextLine chars = (chars, chars.length) := by
  rw [nextLine, h]

theorem index_lt {chars : List Char16} (h : chars.findIdx? isTerminator = some index) :
    index < chars.length :=
  (List.findIdx?_eq_some_iff_findIdx_eq.mp h).1

theorem Carried.old_of_le (h : Carried ascii buffer oldIndex) (hlt : index < commonCmdlineLength)
    (hle : commonCmdlineLength ≤ oldIndex + index) : commonCmdlineLength ≤ oldIndex := by
  rcases h.2 with ⟨hzero, -⟩ | ⟨hold, -⟩
  · omega
  · exact hold

/-- The element behind the terminator has been filled. -/
theorem filled_iff (h : Carried ascii buffer oldIndex) (hlt : index < commonCmdlineLength) :
    (index + 2) * charSize ascii ≤
        (buffer.fill (rest.take (commonCmdlineLength * charSize ascii))).filled ↔
      Seen (toChars ascii rest) oldIndex index := by
  have hpos := charSize_pos ascii
  rw [Buffer.fill, List.length_take, Seen, Nat.mod_eq_of_lt hlt, length_toChars]
  rcases h.2 with ⟨hzero, hfilled⟩ | ⟨hold, hfilled, -⟩
  · rw [hfilled, Nat.zero_max, Nat.le_min, Nat.mul_le_mul_right_iff hpos,
      ← Nat.le_div_iff_mul_le hpos, hzero]
    omega
  · rw [hfilled, Nat.max_eq_left (Nat.min_le_left _ _), Nat.mul_le_mul_right_iff hpos]
    omega

/-- The terminator is in the piece that is read now. -/
theorem terminated_here (h : Carried ascii buffer oldIndex)
    (hindex : (toChars ascii rest).findIdx? isTerminator = some index)
    (hlt : index < commonCmdlineLength) :
    ∃ r, readLoop ascii filePosition (fuel + 1) buffer cmdLine oldIndex rest = some r ∧
      Terminated ascii filePosition cmdLine oldIndex rest index r := by
  have hpos := charSize_pos ascii
  have hin := index_lt hindex
  have htake : ((toChars ascii rest).take commonCmdlineLength).findIdx? isTerminator =
      some index := by
    rw [List.findIdx?_take, hindex, Option.bind_some, Option.guard, if_pos (by simpa using hlt)]
  have hdata : (rest.take (commonCmdlineLength * charSize ascii)).length ≠ 0 := by
    have hbytes := byte_lt (by rwa [length_toChars] at hin) hpos
    have hroom : 0 < commonCmdlineLength * charSize ascii := Nat.mul_pos (by decide) hpos
    rw [List.length_take]
    omega
  have hvalue : readLoop ascii filePosition (fuel + 1) buffer cmdLine oldIndex rest =
      some (endLine ascii filePosition
        (buffer.fill (rest.take (commonCmdlineLength * charSize ascii)))
        (cmdLine ++ (toChars ascii rest).take index) oldIndex index) := by
    have htaken : ((toChars ascii rest).take commonCmdlineLength).take index =
        (toChars ascii rest).take index := by
      rw [List.take_take, Nat.min_eq_left (Nat.le_of_lt hlt)]
    rw [readLoop]
    dsimp only
    rw [if_neg hdata, toChars_take, htake]
    dsimp only
    rw [htaken]
  refine ⟨_, hvalue, ?_⟩
  constructor
  case commandLine => rfl
  case size =>
    refine Nat.mul_ne_zero ?_ (Nat.ne_of_gt hpos)
    split <;> omega
  case seen =>
    intro hown
    exact (filled_iff h hlt).mp (of_decide_eq_true hown)
  case right =>
    intro hseen hwhole
    refine ⟨decide_eq_true ((filled_iff h hlt).mpr hseen), ?_⟩
    have hmod := hseen.1
    rw [Nat.mod_eq_of_lt hlt] at hmod
    have hnext := next_seen h (by omega) hwhole (hseen.2.imp_right (h.old_of_le hlt))
    rw [endLine, hnext, nextLine_some hindex, Nat.add_assoc oldIndex]
    split <;> rfl

/-- A full piece without a terminator, and the next turn. -/
theorem readLoop_again (hlength : commonCmdlineLength ≤ rest.length / charSize ascii)
    (hnone : ((toChars ascii rest).take commonCmdlineLength).findIdx? isTerminator = none) :
    readLoop ascii filePosition (fuel + 1) buffer cmdLine oldIndex rest =
      readLoop ascii filePosition fuel
        (buffer.fill (rest.take (commonCmdlineLength * charSize ascii)))
        (cmdLine ++ (toChars ascii rest).take commonCmdlineLength) (oldIndex + commonCmdlineLength)
        (rest.drop (commonCmdlineLength * charSize ascii)) := by
  have hpos := charSize_pos ascii
  have hroom : 0 < commonCmdlineLength * charSize ascii := Nat.mul_pos (by decide) hpos
  have hdata : (rest.take (commonCmdlineLength * charSize ascii)).length =
      commonCmdlineLength * charSize ascii := by
    rw [List.length_take, Nat.min_eq_left ((Nat.le_div_iff_mul_le hpos).mp hlength)]
  rw [readLoop]
  dsimp only
  rw [if_neg (by omega), toChars_take, hnone]
  dsimp only
  rw [if_neg (by omega)]

/-- What is left has fewer bytes. -/
theorem drop_lt (hlength : commonCmdlineLength ≤ rest.length / charSize ascii)
    (hfuel : rest.length < fuel + 1) :
    (rest.drop (commonCmdlineLength * charSize ascii)).length < fuel := by
  have hpos := charSize_pos ascii
  have hbytes := (Nat.le_div_iff_mul_le hpos).mp hlength
  have hroom : 0 < commonCmdlineLength * charSize ascii := Nat.mul_pos (by decide) hpos
  rw [List.length_drop]
  omega

theorem mod_drop (hle : index ≤ rest.length / charSize ascii) :
    (rest.drop (index * charSize ascii)).length % charSize ascii =
      rest.length % charSize ascii := by
  have hbytes := (Nat.le_div_iff_mul_le (charSize_pos ascii)).mp hle
  rw [Nat.mul_comm] at hbytes ⊢
  rw [List.length_drop, Nat.sub_mul_mod hbytes]

/-- The terminator is in a later piece. -/
theorem Terminated.later (hle : commonCmdlineLength ≤ index)
    (hindex : (toChars ascii rest).findIdx? isTerminator = some index)
    (hdrop : ((toChars ascii rest).drop commonCmdlineLength).findIdx? isTerminator =
      some (index - commonCmdlineLength))
    (h : Terminated ascii filePosition (cmdLine ++ (toChars ascii rest).take commonCmdlineLength)
      (oldIndex + commonCmdlineLength) (rest.drop (commonCmdlineLength * charSize ascii))
      (index - commonCmdlineLength) r) :
    Terminated ascii filePosition cmdLine oldIndex rest index r := by
  have hseen : Seen ((toChars ascii rest).drop commonCmdlineLength)
      (oldIndex + commonCmdlineLength) (index - commonCmdlineLength) ↔
        Seen (toChars ascii rest) oldIndex index := by
    rw [commonCmdlineLength] at hle
    simp only [Seen, List.length_drop, commonCmdlineLength]
    omega
  have hnext : (nextLine (toChars ascii rest)).2 =
      commonCmdlineLength + (nextLine ((toChars ascii rest).drop commonCmdlineLength)).2 := by
    have hplace : commonCmdlineLength + (index - commonCmdlineLength + 1) = index + 1 := by omega
    rw [nextLine_some hindex, nextLine_some hdrop, List.getElem?_drop, hplace]
    split <;> omega
  have hcommand := h.commandLine
  have hown := h.seen
  have hright := h.right
  rw [toChars_drop] at hcommand hown hright
  rw [hseen] at hown hright
  constructor
  case commandLine =>
    rw [hcommand, List.append_assoc, ← List.take_add, Nat.add_sub_cancel' hle]
  case size => exact h.size
  case seen => exact hown
  case right =>
    intro hs hwhole
    rw [hnext, ← Nat.add_assoc]
    have hin := index_lt hindex
    rw [length_toChars] at hin
    exact hright hs ((mod_drop (by omega)).trans hwhole)

theorem readLoop_terminated (h : Carried ascii buffer oldIndex) (hfuel : rest.length < fuel)
    (hindex : (toChars ascii rest).findIdx? isTerminator = some index) :
    ∃ r, readLoop ascii filePosition fuel buffer cmdLine oldIndex rest = some r ∧
      Terminated ascii filePosition cmdLine oldIndex rest index r := by
  induction fuel generalizing buffer cmdLine oldIndex rest index with
  | zero => omega
  | succ fuel ih =>
    by_cases hlt : index < commonCmdlineLength
    · exact terminated_here h hindex hlt
    have hin := index_lt hindex
    rw [length_toChars] at hin
    have hlength : commonCmdlineLength ≤ rest.length / charSize ascii := by omega
    have htake : ((toChars ascii rest).take commonCmdlineLength).findIdx? isTerminator =
        none := by
      rw [List.findIdx?_take, hindex, Option.bind_some, Option.guard, if_neg (by simpa using hlt)]
    have hdrop : ((toChars ascii rest).drop commonCmdlineLength).findIdx? isTerminator =
        some (index - commonCmdlineLength) := by
      have hsplit := List.take_append_drop commonCmdlineLength (toChars ascii rest)
      rw [← hsplit, List.findIdx?_append, htake, Option.none_or, Option.map_eq_some_iff,
        List.length_take, length_toChars, Nat.min_eq_left hlength] at hindex
      obtain ⟨index', hindex', rfl⟩ := hindex
      rw [hindex', Nat.add_sub_cancel]
    obtain ⟨r, hr, hright⟩ := ih (h.next hlength htake) (drop_lt hlength hfuel)
      (by rwa [toChars_drop])
    exact ⟨r, (readLoop_again hlength htake).trans hr,
      hright.later (Nat.le_of_not_lt hlt) hindex hdrop⟩

/-- The result of a call that finds no terminator. The size is in bytes of `CHAR16`, or counts a
terminator that is not there. -/
structure Unterminated (ascii : Bool) (filePosition : Nat) (cmdLine : List Char16)
    (oldIndex : Nat) (rest : List Byte) (r : Line) : Prop where
  commandLine : r.commandLine = cmdLine ++ toChars ascii rest
  ownReads : r.ownReads = true
  size : r.cmdLineSize =
    if rest.length % (commonCmdlineLength * charSize ascii) = 0 then
      (oldIndex + (toChars ascii rest).length) * 2
    else (oldIndex + (toChars ascii rest).length + 1) * charSize ascii
  position : r.filePosition = filePosition + r.cmdLineSize

/-- The last piece is not a full one. -/
theorem unterminated_here (hnone : (toChars ascii rest).findIdx? isTerminator = none)
    (hshort : rest.length < commonCmdlineLength * charSize ascii) :
    ∃ r, readLoop ascii filePosition (fuel + 1) buffer cmdLine oldIndex rest = some r ∧
      Unterminated ascii filePosition cmdLine oldIndex rest r := by
  have hdata : rest.take (commonCmdlineLength * charSize ascii) = rest :=
    List.take_of_length_le (Nat.le_of_lt hshort)
  by_cases hempty : rest.length = 0
  · have hnil := List.eq_nil_of_length_eq_zero hempty
    have hvalue : readLoop ascii filePosition (fuel + 1) buffer cmdLine oldIndex rest =
        some ⟨cmdLine, oldIndex * 2, filePosition + oldIndex * 2, true⟩ := by
      rw [readLoop]
      dsimp only
      rw [hdata, if_pos hempty]
    refine ⟨_, hvalue, ?_⟩
    subst hnil
    constructor <;> simp
  · have hvalue : readLoop ascii filePosition (fuel + 1) buffer cmdLine oldIndex rest =
        some ⟨cmdLine ++ toChars ascii rest,
          (oldIndex + (toChars ascii rest).length + 1) * charSize ascii,
          filePosition + (oldIndex + (toChars ascii rest).length + 1) * charSize ascii,
          true⟩ := by
      rw [readLoop]
      dsimp only
      rw [hdata, if_neg hempty, hnone]
      dsimp only
      rw [if_pos hshort]
    refine ⟨_, hvalue, ?_⟩
    constructor
    case commandLine => rfl
    case ownReads => rfl
    case size => rw [if_neg (by rwa [Nat.mod_eq_of_lt hshort])]
    case position => rfl

theorem readLoop_unterminated (hfuel : rest.length < fuel)
    (hnone : (toChars ascii rest).findIdx? isTerminator = none) :
    ∃ r, readLoop ascii filePosition fuel buffer cmdLine oldIndex rest = some r ∧
      Unterminated ascii filePosition cmdLine oldIndex rest r := by
  induction fuel generalizing buffer cmdLine oldIndex rest with
  | zero => omega
  | succ fuel ih =>
    by_cases hshort : rest.length < commonCmdlineLength * charSize ascii
    · exact unterminated_here hnone hshort
    have hbytes := Nat.le_of_not_lt hshort
    have hlength : commonCmdlineLength ≤ rest.length / charSize ascii :=
      (Nat.le_div_iff_mul_le (charSize_pos ascii)).mpr hbytes
    have hall := List.findIdx?_eq_none_iff.mp hnone
    have htake : ((toChars ascii rest).take commonCmdlineLength).findIdx? isTerminator = none :=
      List.findIdx?_eq_none_iff.mpr fun c hc => hall c (List.mem_of_mem_take hc)
    have hdrop : ((toChars ascii rest).drop commonCmdlineLength).findIdx? isTerminator = none :=
      List.findIdx?_eq_none_iff.mpr fun c hc => hall c (List.mem_of_mem_drop hc)
    obtain ⟨r, hr, hright⟩ := ih (drop_lt hlength hfuel) (by rwa [toChars_drop])
    refine ⟨r, (readLoop_again hlength htake).trans hr, ?_⟩
    have hcommand := hright.commandLine
    have hsize := hright.size
    have hmod : (rest.length - commonCmdlineLength * charSize ascii) %
        (commonCmdlineLength * charSize ascii) =
          rest.length % (commonCmdlineLength * charSize ascii) :=
      (Nat.mod_eq_sub_mod hbytes).symm
    have hchars : oldIndex + commonCmdlineLength +
        ((toChars ascii rest).length - commonCmdlineLength) =
          oldIndex + (toChars ascii rest).length := by
      rw [length_toChars]
      omega
    rw [toChars_drop, List.append_assoc, List.take_append_drop] at hcommand
    rw [toChars_drop, List.length_drop, List.length_drop, hmod, hchars] at hsize
    exact ⟨hcommand, hright.ownReads, hsize, hright.position⟩

end Loop

/-! ## The calls -/

section Calls

variable {file : ScriptFile} {stack : Nat → Nat → Byte} {position index : Nat}
  {results : List Line}

/-- What is behind a position, in characters. -/
def ScriptFile.behind (file : ScriptFile) (position : Nat) : List Char16 :=
  toChars file.ascii (file.bytes.drop position)

theorem ScriptFile.header_le (file : ScriptFile) : file.header ≤ file.bytes.length := by
  cases hascii : file.ascii with
  | true => simp [header, hascii]
  | false =>
    have hlength := congrArg List.length (file.marked hascii)
    rw [List.length_take] at hlength
    simp only [List.length_cons, List.length_nil] at hlength
    simp only [header, hascii, Bool.false_eq_true, if_false]
    omega

theorem batchGetLine_zero (file : ScriptFile) (stack : Nat → Byte) :
    batchGetLine file stack 0 = batchGetLine file stack file.header := by
  cases hascii : file.ascii <;> simp [batchGetLine, ScriptFile.header, hascii]

/-- The first call skips the mark. -/
theorem reads_header : Reads file stack file.header results ↔ Reads file stack 0 results := by
  constructor
  · intro h
    cases h with
    | last hr hsize => exact .last (by rwa [batchGetLine_zero]) hsize
    | next hr hsize hrest => exact .next (by rwa [batchGetLine_zero]) hsize hrest
  · intro h
    cases h with
    | last hr hsize => exact .last (by rwa [batchGetLine_zero] at hr) hsize
    | next hr hsize hrest => exact .next (by rwa [batchGetLine_zero] at hr) hsize hrest

theorem batchGetLine_eq (file : ScriptFile) (stack : Nat → Byte)
    (hheader : file.header ≤ position) :
    batchGetLine file stack position = readLoop file.ascii position (file.bytes.length + 1)
      ⟨stack, 0⟩ [] 0 (file.bytes.drop position) := by
  have hmark : ¬(¬file.ascii = true ∧ position = 0) := by
    rintro ⟨hunicode, rfl⟩
    rw [ScriptFile.header, if_neg hunicode] at hheader
    omega
  rw [batchGetLine, if_neg hmark]

theorem drop_length_lt (file : ScriptFile) (position : Nat) :
    (file.bytes.drop position).length < file.bytes.length + 1 := by
  rw [List.length_drop]
  omega

theorem call_terminated (file : ScriptFile) (stack : Nat → Byte)
    (hheader : file.header ≤ position)
    (hindex : (file.behind position).findIdx? isTerminator = some index) :
    ∃ r, batchGetLine file stack position = some r ∧
      Terminated file.ascii position [] 0 (file.bytes.drop position) index r := by
  rw [batchGetLine_eq file stack hheader]
  exact readLoop_terminated ⟨rfl, .inl ⟨rfl, rfl⟩⟩ (drop_length_lt file position) hindex

theorem call_unterminated (file : ScriptFile) (stack : Nat → Byte)
    (hheader : file.header ≤ position)
    (hnone : (file.behind position).findIdx? isTerminator = none) :
    ∃ r, batchGetLine file stack position = some r ∧
      Unterminated file.ascii position [] 0 (file.bytes.drop position) r := by
  rw [batchGetLine_eq file stack hheader]
  exact readLoop_unterminated (drop_length_lt file position) hnone

theorem behind_drop (file : ScriptFile) (position n : Nat) :
    (file.behind position).drop n = file.behind (position + n * charSize file.ascii) := by
  rw [ScriptFile.behind, ScriptFile.behind, ← toChars_drop, List.drop_drop]

theorem nextLine_le {chars : List Char16} : (nextLine chars).2 ≤ chars.length := by
  cases hindex : chars.findIdx? isTerminator with
  | none => rw [nextLine_none hindex]
  | some index =>
    have hlt := index_lt hindex
    rw [nextLine_some hindex]
    dsimp only
    split
    · rename_i hnext
      cases hget : chars[index + 1]? with
      | none => rw [hget, Option.any_none] at hnext; exact absurd hnext Bool.false_ne_true
      | some c => exact (List.getElem?_eq_some_iff.mp hget).1
    · exact hlt

/-- At the end of the file. -/
theorem reads_eof (stack : Nat → Nat → Byte) (hheader : file.header ≤ position)
    (hposition : position = file.bytes.length) :
    ∃ results, Reads file stack position results ∧ Lines file.ascii [] position results ∧
      ∀ r ∈ results, r.filePosition ≤ file.bytes.length := by
  have hnil : file.bytes.drop position = [] := List.drop_eq_nil_of_le (Nat.le_of_eq hposition.symm)
  have hbehind : file.behind position = [] := by
    rw [ScriptFile.behind, hnil, toChars_nil]
  obtain ⟨r, hr, hright⟩ := call_unterminated file (stack 0) hheader (by rw [hbehind]; rfl)
  have hsize := hright.size
  have hend := hright.position
  rw [hnil, List.length_nil, Nat.zero_mod, if_pos rfl] at hsize
  have hzero : r.cmdLineSize = 0 := by simpa using hsize
  rw [hzero, Nat.add_zero] at hend
  refine ⟨[r], .last hr hzero, .eof hzero hend hright.ownReads, ?_⟩
  simp only [List.mem_singleton, forall_eq]
  exact Nat.le_of_eq (hend.trans hposition)

/-- Characters that are behind a position, in bytes. -/
theorem bytes_le {n : Nat} (hposition : position ≤ file.bytes.length)
    (hle : n ≤ (file.behind position).length) :
    position + n * charSize file.ascii ≤ file.bytes.length := by
  rw [ScriptFile.behind, length_toChars] at hle
  have hbytes := (Nat.le_div_iff_mul_le (charSize_pos file.ascii)).mp hle
  rw [List.length_drop] at hbytes
  omega

/-- A file of whole characters. -/
theorem bytes_eq (hposition : position ≤ file.bytes.length)
    (hwhole : (file.bytes.drop position).length % charSize file.ascii = 0) :
    position + (file.behind position).length * charSize file.ascii = file.bytes.length := by
  have hdiv := Nat.div_mul_cancel (Nat.dvd_of_mod_eq_zero hwhole)
  rw [ScriptFile.behind, length_toChars, hdiv, List.length_drop]
  omega

theorem whole_next {n : Nat} (hle : n ≤ (file.behind position).length) :
    (file.bytes.drop (position + n * charSize file.ascii)).length % charSize file.ascii =
      (file.bytes.drop position).length % charSize file.ascii := by
  rw [ScriptFile.behind, length_toChars] at hle
  rw [← List.drop_drop, mod_drop hle]

/-- A call in the middle of the file, and the calls after it. -/
theorem reads_line {r : Line} (hr : batchGetLine file (stack 0) position = some r)
    (hsize : r.cmdLineSize ≠ 0) (hown : r.ownReads = true)
    (hcommand : r.commandLine = (nextLine (file.behind position)).1)
    (hend : r.filePosition =
      position + (nextLine (file.behind position)).2 * charSize file.ascii)
    (hposition : position ≤ file.bytes.length) (hne : file.behind position ≠ [])
    (hrest : ∃ results, Reads file (fun call => stack (call + 1)) r.filePosition results ∧
      Lines file.ascii ((file.behind position).drop (nextLine (file.behind position)).2)
        r.filePosition results ∧ ∀ r ∈ results, r.filePosition ≤ file.bytes.length) :
    ∃ results, Reads file stack position results ∧
      Lines file.ascii (file.behind position) position results ∧
      ∀ r ∈ results, r.filePosition ≤ file.bytes.length := by
  obtain ⟨results, hreads, hlines, hbound⟩ := hrest
  refine ⟨r :: results, .next hr hsize hreads, .line hne hcommand hend hown hlines, ?_⟩
  rw [List.forall_mem_cons]
  exact ⟨hend ▸ bytes_le hposition nextLine_le, hbound⟩

/-- From a position on, where what is behind it suits the code. -/
theorem reads_of_suits {chars : List Char16} (h : Suits file.ascii chars)
    (stack : Nat → Nat → Byte) (hchars : file.behind position = chars)
    (hheader : file.header ≤ position) (hposition : position ≤ file.bytes.length)
    (hwhole : (file.bytes.drop position).length % charSize file.ascii = 0) :
    ∃ results, Reads file stack position results ∧ Lines file.ascii chars position results ∧
      ∀ r ∈ results, r.filePosition ≤ file.bytes.length := by
  have hpos := charSize_pos file.ascii
  have hbytes := bytes_eq hposition hwhole
  induction h generalizing stack position with
  | eof =>
    rw [hchars, List.length_nil, Nat.zero_mul, Nat.add_zero] at hbytes
    exact reads_eof stack hheader hbytes
  | @unterminated chars hnone hunicode hmod =>
    subst hchars
    by_cases hne : file.behind position = []
    · rw [hne] at hbytes ⊢
      rw [List.length_nil, Nat.zero_mul, Nat.add_zero] at hbytes
      exact reads_eof stack hheader hbytes
    obtain ⟨r, hr, hright⟩ := call_unterminated file (stack 0) hheader hnone
    have htwo : charSize file.ascii = 2 := by rw [hunicode]; rfl
    have hfull : (file.bytes.drop position).length %
        (commonCmdlineLength * charSize file.ascii) = 0 := by
      rw [ScriptFile.behind, length_toChars, htwo] at hmod
      rw [htwo] at hwhole ⊢
      rw [commonCmdlineLength] at hmod ⊢
      omega
    have hsize := hright.size
    rw [if_pos hfull, Nat.zero_add, ← htwo, ← ScriptFile.behind] at hsize
    have hend := hright.position
    rw [hsize] at hend
    have hnext := nextLine_none hnone
    refine reads_line hr ?_ hright.ownReads ?_ ?_ hposition hne ?_
    · rw [hsize]
      exact Nat.mul_ne_zero (by simpa using hne) (Nat.ne_of_gt hpos)
    · rw [hright.commandLine, hnext, List.nil_append, ScriptFile.behind]
    · rw [hend, hnext]
    · rw [hnext, List.drop_length]
      exact reads_eof _ (by omega) (hend.trans hbytes)
  | @line chars index hindex hmod hseen _ ih =>
    subst hchars
    obtain ⟨r, hr, hright⟩ := call_terminated file (stack 0) hheader hindex
    obtain ⟨hown, hend⟩ := hright.right ⟨hmod, by rwa [Nat.zero_add]⟩ hwhole
    rw [← ScriptFile.behind, Nat.zero_add] at hend
    have hcommand := hright.commandLine
    have hnext := nextLine_some hindex
    have hbound := bytes_le hposition nextLine_le
    refine reads_line hr hright.size hown ?_ hend hposition ?_ ?_
    · rw [hcommand, hnext, List.nil_append, ScriptFile.behind]
    · intro hnil
      rw [hnil] at hindex
      exact absurd hindex (by simp)
    · rw [hend]
      refine ih _ (behind_drop file position _).symm (by omega) hbound ?_ ?_
      · rw [whole_next nextLine_le, hwhole]
      · exact bytes_eq hbound (by rw [whole_next nextLine_le, hwhole])

/-- A call that gives back all that is left, without a terminator. -/
theorem suits_of_unterminated {r : Line}
    (hnone : (file.behind position).findIdx? isTerminator = none)
    (hright : Unterminated file.ascii position [] 0 (file.bytes.drop position) r)
    (hsize : r.cmdLineSize = (file.behind position).length * charSize file.ascii) :
    Suits file.ascii (file.behind position) ∧
      (file.bytes.drop position).length % charSize file.ascii = 0 := by
  have hpos := charSize_pos file.ascii
  have hvalue := hright.size
  rw [← ScriptFile.behind, hsize, Nat.zero_add] at hvalue
  by_cases hfull : (file.bytes.drop position).length %
      (commonCmdlineLength * charSize file.ascii) = 0
  · have hwhole : (file.bytes.drop position).length % charSize file.ascii = 0 :=
      Nat.mod_eq_zero_of_dvd (Nat.dvd_trans (Nat.dvd_mul_left _ _) (Nat.dvd_of_mod_eq_zero hfull))
    refine ⟨?_, hwhole⟩
    rw [if_pos hfull] at hvalue
    cases hascii : file.ascii with
    | true =>
      rw [hascii, charSize, if_pos rfl] at hvalue
      have hnil : file.behind position = [] := List.eq_nil_of_length_eq_zero (by omega)
      rw [hnil]
      exact .eof
    | false =>
      refine .unterminated hnone rfl ?_
      rw [hascii, charSize, if_neg Bool.false_ne_true] at hfull hwhole
      rw [ScriptFile.behind, length_toChars, hascii, charSize, if_neg Bool.false_ne_true]
      rw [commonCmdlineLength] at hfull ⊢
      omega
  · rw [if_neg hfull, Nat.succ_mul] at hvalue
    omega

/-- Calls that give back the lines have a file that suits the code. -/
theorem suits_of_reads (hreads : Reads file stack position results)
    (hlines : Lines file.ascii (file.behind position) position results)
    (hheader : file.header ≤ position) :
    Suits file.ascii (file.behind position) ∧
      (file.bytes.drop position).length % charSize file.ascii = 0 := by
  induction hreads with
  | @last stack position r hr hsize =>
    generalize hchars : file.behind position = chars at hlines
    cases hlines with
    | eof _ _ _ =>
      have hnone : (file.behind position).findIdx? isTerminator = none := by rw [hchars]; rfl
      obtain ⟨r', hr', hright⟩ := call_unterminated file (stack 0) hheader hnone
      obtain rfl := Option.some.inj (hr.symm.trans hr')
      rw [← hchars]
      exact suits_of_unterminated hnone hright
        (by rw [hsize, hchars, List.length_nil, Nat.zero_mul])
    | line _ _ _ _ hrest => exact absurd rfl hrest.ne_nil
  | @next stack position r results hr hsize _ ih =>
    generalize hchars : file.behind position = chars at hlines
    cases hlines with
    | eof hzero _ _ => exact absurd hzero hsize
    | line _ _ hend hown hrest =>
      subst hchars
      cases hindex : (file.behind position).findIdx? isTerminator with
      | some index =>
        obtain ⟨r', hr', hright⟩ := call_terminated file (stack 0) hheader hindex
        obtain rfl := Option.some.inj (hr.symm.trans hr')
        obtain ⟨hmod, hseen⟩ := hright.seen hown
        rw [behind_drop, ← hend] at hrest
        obtain ⟨hsuits, hwhole⟩ := ih hrest (by omega)
        rw [hend, ← behind_drop] at hsuits
        rw [hend, whole_next nextLine_le] at hwhole
        exact ⟨.line hindex hmod (by rwa [Nat.zero_add] at hseen) hsuits, hwhole⟩
      | none =>
        obtain ⟨r', hr', hright⟩ := call_unterminated file (stack 0) hheader hindex
        obtain rfl := Option.some.inj (hr.symm.trans hr')
        have hposition := hright.position
        rw [nextLine_none hindex] at hend
        dsimp only at hend
        exact suits_of_unterminated hindex hright (by omega)

end Calls

/-- The calls return the lines of the file exactly if it suits the code. -/
theorem readsLines_iff (file : ScriptFile) :
    ReadsLines file ↔
      Suits file.ascii file.chars ∧
        (file.bytes.drop file.header).length % charSize file.ascii = 0 := by
  constructor
  · intro h
    obtain ⟨results, hreads, hlines, -⟩ := h fun _ _ => 0
    exact suits_of_reads (reads_header.mpr hreads) hlines (Nat.le_refl _)
  · rintro ⟨hsuits, hwhole⟩ stack
    obtain ⟨results, hreads, hlines, hbound⟩ :=
      reads_of_suits hsuits stack rfl (Nat.le_refl _) file.header_le hwhole
    exact ⟨results, reads_header.mp hreads, hlines, hbound⟩

/-- The ASCII script `a` and a line feed. -/
def shortScript : ScriptFile where
  ascii := true
  bytes := [0x61, 0x0a]
  marked := by simp

/-- Another line feed that happens to be on the stack is taken for the second half of a pair. -/
theorem shortScript_misread : ¬ReadsLines shortScript := by
  intro h
  obtain ⟨results, hreads, -, hbound⟩ := h fun _ _ => 0x0a
  have hcall : batchGetLine shortScript (fun _ => 0x0a) 0 = some ⟨[0x61], 3, 3, false⟩ := by
    decide
  cases hreads with
  | last hr hsize =>
    obtain rfl := Option.some.inj (hcall.symm.trans hr)
    exact absurd hsize (by decide)
  | @next _ _ r _ hr _ _ =>
    obtain rfl := Option.some.inj (hcall.symm.trans hr)
    exact absurd (hbound _ List.mem_cons_self) (by decide)

end EfiCore.Shell
