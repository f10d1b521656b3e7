import EfiCore.Dec.BitReader
import EfiCore.Enc.PutBits
import EfiCore.Lib.Memory

/-! # What `Compress` puts around the bits

The two sizes in front, the flush and the byte behind.  A buffer that has room for all of it is a
source of `Decompress`, which has the bits ahead.
-/

namespace EfiCore.Enc

open EfiCore.Lib
open EfiCore.Dec

/-- What `Compress` returns. -/
structure Output where
  status : Status
  dst : List Byte
  dstSize : Nat
  deriving DecidableEq, Repr

/-- `Compress`, with the calls of `PutBits` that `SendBlock` makes. -/
def compressBits (dst : List Byte) (puts : List Put) (origSize : Nat) : Output :=
  let s := putDword (putDword ⟨dst, 0, 0, 0, 0⟩ 0) 0
  -- the flush is the one of `HufEncodeEnd`
  let s := putBits (putAll (initPutBits s) puts) 7 0
  let s := s.store 0
  let s := putDword (putDword { s with pos := 0 } ((s.compSize + 1) % 2 ^ 32)) origSize
  let dstSize := (s.compSize + 9) % 2 ^ 32
  ⟨if dst.length < dstSize then .bufferTooSmall else .success, s.dst, dstSize⟩

/-! ## The buffer -/

section Buffer

variable {s : Sink} {header written bytes : List Byte} {bits : List Bool} {k : Nat}

theorem Sink.store_drop (h : s.pos < k) (x : Nat) : (s.store x).dst.drop k = s.dst.drop k := by
  rw [Sink.store]
  split
  · exact List.drop_set_of_lt h
  · rfl

theorem Sink.store_compSize (s : Sink) (x : Nat) : (s.store x).compSize = s.compSize := by
  rw [Sink.store]
  split <;> rfl

theorem Sink.store_pos_le (s : Sink) (x : Nat) : (s.store x).pos ≤ s.pos + 1 := by
  rw [Sink.store]
  split
  · exact Nat.le_refl _
  · exact Nat.le_succ _

theorem putDword_length (s : Sink) (data : Nat) : (putDword s data).dst.length = s.dst.length := by
  simp only [putDword, Sink.store_length]

theorem putBits_length (s : Sink) (n x : Nat) : (putBits s n x).dst.length = s.dst.length := by
  rw [putBits]
  split
  · rfl
  · dsimp only
    split
    · exact s.store_length _
    · exact ((s.emit _).store_length _).trans (s.store_length _)

theorem putAll_length (s : Sink) (puts : List Put) : (putAll s puts).dst.length = s.dst.length := by
  induction puts generalizing s with
  | nil => rfl
  | cons p puts ih => rw [putAll_cons, ih, putBits_length]

theorem putDword_pos_le (s : Sink) (data : Nat) : (putDword s data).pos ≤ s.pos + 4 := by
  have h0 := s.store_pos_le data
  have h1 := (s.store data).store_pos_le (data >>> 8)
  have h2 := ((s.store data).store (data >>> 8)).store_pos_le (data >>> 16)
  have h3 := (((s.store data).store (data >>> 8)).store (data >>> 16)).store_pos_le (data >>> 24)
  simp only [putDword]
  omega

theorem putDword_drop (h : s.pos + 4 ≤ k) (data : Nat) :
    (putDword s data).dst.drop k = s.dst.drop k := by
  have h0 := s.store_pos_le data
  have h1 := (s.store data).store_pos_le (data >>> 8)
  have h2 := ((s.store data).store (data >>> 8)).store_pos_le (data >>> 16)
  rw [putDword, Sink.store_drop (by omega), Sink.store_drop (by omega), Sink.store_drop (by omega),
    Sink.store_drop (by omega)]

theorem Sink.Wrote.take (h : s.Wrote written) (hroom : written.length ≤ s.dst.length) :
    s.dst.take written.length = written := by
  have hdst := h.dst
  rwa [h.pos, Nat.min_eq_left hroom, List.take_of_length_le hroom] at hdst

/-- The flush leaves less than a byte of zeros behind the bits. -/
theorem byteBits_flushed {pending : List Bool}
    (h : bits ++ List.replicate 7 false = byteBits bytes ++ pending) (hfew : pending.length ≤ 7) :
    ∃ n ≤ 7, byteBits bytes = bits ++ List.replicate n false := by
  rcases List.append_eq_append_iff.mp h with ⟨zeros, hbytes, hzeros⟩ | ⟨more, hbits, hpending⟩
  · obtain ⟨hlen, hall, -⟩ := List.append_eq_replicate_iff.mp hzeros.symm
    exact ⟨zeros.length, by omega, by rw [hbytes, ← hall]⟩
  · have hlen := congrArg List.length hpending
    rw [List.length_append, List.length_replicate] at hlen
    obtain rfl : more = [] := List.eq_nil_of_length_eq_zero (by omega)
    exact ⟨0, by omega, by simpa using hbits.symm⟩

/-- The sizes replace what is in front. -/
theorem exists_putDwords {rest : List Byte} (hpos : s.pos = 0)
    (hdst : s.dst.take (header ++ rest).length = header ++ rest) (hheader : header.length = 8)
    (hroom : (header ++ rest).length ≤ s.dst.length) (a b : Nat) :
    ∃ tail, (putDword (putDword s a) b).dst = leBytes 4 a ++ leBytes 4 b ++ (rest ++ tail) := by
  have hempty : s.Wrote [] := ⟨by simp [hpos], by simp [hpos]⟩
  have hwrote := (hempty.putDword a).putDword b
  have hpos' := putDword_pos_le s a
  have hbehind : (putDword (putDword s a) b).dst.drop 8 = s.dst.drop 8 := by
    rw [putDword_drop (by omega), putDword_drop (by omega)]
  have hlen : (putDword (putDword s a) b).dst.length = s.dst.length := by
    rw [putDword_length, putDword_length]
  generalize putDword (putDword s a) b = s' at *
  rw [List.nil_append] at hwrote
  have hwords : s'.dst.take 8 = leBytes 4 a ++ leBytes 4 b := by
    have hin : (leBytes 4 a ++ leBytes 4 b).length ≤ s'.dst.length := by
      rw [hlen, List.length_append, length_leBytes, length_leBytes]
      rw [List.length_append] at hroom
      omega
    have htake := hwrote.take hin
    rwa [List.length_append, length_leBytes, length_leBytes] at htake
  have hsplit : s.dst = header ++ (rest ++ s.dst.drop (header ++ rest).length) := by
    have hall := List.take_append_drop (header ++ rest).length s.dst
    rw [hdst, List.append_assoc] at hall
    exact hall.symm
  refine ⟨s.dst.drop (header ++ rest).length, ?_⟩
  have hrest : s.dst.drop 8 = rest ++ s.dst.drop (header ++ rest).length := by
    have hdrop := congrArg (List.drop 8) hsplit
    rwa [List.drop_left' hheader] at hdrop
  rw [← hwords, ← hrest, ← hbehind, List.take_append_drop]

/-- What the sink of `Compress` holds at first. -/
theorem initPutBits_holds (hwrote : s.Wrote header) (hsize : s.compSize = 0) :
    (initPutBits s).Holds header [] [] := by
  refine ⟨rfl, Nat.le_of_ble_eq_true rfl, Nat.le_refl 8, fun i _ => Nat.zero_testBit i, hsize, ?_⟩
  rw [List.append_nil]
  exact ⟨hwrote.pos, hwrote.dst⟩

theorem putDword_compSize (s : Sink) (data : Nat) : (putDword s data).compSize = s.compSize := by
  simp only [putDword, Sink.store_compSize]

end Buffer

/-! ## The source of the decompressor -/

/-- The buffer as `Source`. -/
def Output.source (o : Output) (i : Nat) : Byte := o.dst.getD i 0

/-- `Decompress` finds the sizes, and the bits behind them. -/
structure Output.Framed (o : Output) (bits : List Bool) (size total : Nat) : Prop where
  dstSize : o.dstSize = total + 8
  room : o.dstSize ≤ o.dst.length
  small : total + 8 < 2 ^ 32
  compSize : sourceSize o.source 0 = total
  origSize : sourceSize o.source 4 = size % 2 ^ 32
  ahead : (fillBuf (fun i => o.source (8 + i)) (clearScratch total (size % 2 ^ 32)) 16).Ahead
    (fun i => o.source (8 + i)) total bits

/-- The sizes in front of bytes. -/
theorem framed_of_bytes {o : Output} {bytes tail : List Byte} {bits : List Bool} {n size : Nat}
    (hdst : o.dst = leBytes 4 (bytes.length + 1) ++ leBytes 4 size ++ (bytes ++ [0]) ++ tail)
    (hbits : byteBits bytes = bits ++ List.replicate n false)
    (hsize : o.dstSize = bytes.length + 9) (hsmall : bytes.length + 9 < 2 ^ 32) :
    o.Framed bits size (bytes.length + 1) := by
  have hlen : o.dst.length = 4 + 4 + (bytes.length + 1) + tail.length := by
    rw [hdst]
    simp
    omega
  have hword : ∀ off, off + 4 ≤ o.dst.length → sourceSize o.source off = leNat (slice o.dst off 4) :=
    fun off hoff => by
      rw [← bytesAt_getD hoff]
      rfl
  have hfirst : slice o.dst 0 4 = leBytes 4 (bytes.length + 1) := by
    rw [hdst, slice, List.drop_zero, List.append_assoc, List.append_assoc,
      List.take_left' (length_leBytes ..)]
  have hsecond : slice o.dst 4 4 = leBytes 4 size := by
    rw [hdst, slice, List.append_assoc, List.append_assoc, List.drop_left' (length_leBytes ..),
      List.take_left' (length_leBytes ..)]
  have hrest : slice o.dst 8 (bytes.length + 1) = bytes ++ [0] := by
    rw [hdst, slice, List.append_assoc, List.drop_left' (by simp), List.take_left' (by simp)]
  have hsource : (List.range (bytes.length + 1)).map (fun i => o.source (8 + i)) = bytes ++ [0] := by
    rw [← hrest, ← bytesAt_getD (by omega)]
    rfl
  refine ⟨hsize, by omega, hsmall, ?_, ?_, ?_⟩
  · rw [hword 0 (by omega), hfirst, leNat_leBytes, Nat.mod_eq_of_lt (by omega)]
  · rw [hword 4 (by omega), hsecond, leNat_leBytes]
    rfl
  · have htotal : bytes.length + 1 < 2 ^ 32 := by omega
    have hahead := clearScratch_ahead (fun i => o.source (8 + i)) (size % 2 ^ 32) htotal
    rw [hsource, byteBits_append, hbits, byteBits_cons, byteBits_nil, List.append_nil,
      show (0 : Byte).toNat = 0 from rfl, wordBits_eq_zeros, List.append_assoc,
      List.replicate_append_replicate] at hahead
    exact hahead.dropZeros

theorem compressBits_framed {dst : List Byte} {puts : List Put} {size : Nat}
    (hfits : ∀ p ∈ puts, p.Fits) (hsmall : (putsBits puts).length / 8 + 10 < 2 ^ 32)
    (h : (compressBits dst puts size).status = .success) :
    ∃ total, (compressBits dst puts size).Framed (putsBits puts) size total := by
  have hempty : (⟨dst, 0, 0, 0, 0⟩ : Sink).Wrote [] := ⟨by simp, by simp⟩
  have hheader := (hempty.putDword 0).putDword 0
  have hzero : (putDword (putDword ⟨dst, 0, 0, 0, 0⟩ 0) 0).compSize = 0 := by
    rw [putDword_compSize, putDword_compSize]
  have hlength : (putDword (putDword ⟨dst, 0, 0, 0, 0⟩ 0) 0).dst.length = dst.length := by
    rw [putDword_length, putDword_length]
  rw [compressBits] at h ⊢
  dsimp only at h ⊢
  generalize putDword (putDword ⟨dst, 0, 0, 0, 0⟩ 0) 0 = s at *
  obtain ⟨_, hputs⟩ := (initPutBits_holds hheader hzero).putAll hfits
  -- seven bits more fill the last byte
  obtain ⟨bytes, hflush⟩ := hputs.putBits (n := 7) (x := 0) (by omega) (by omega)
  have hlength1 : (putBits (putAll (initPutBits s) puts) 7 0).dst.length = dst.length := by
    rw [putBits_length, putAll_length, ← hlength]
    rfl
  generalize putBits (putAll (initPutBits s) puts) 7 0 = s at *
  have hflushed : putsBits puts ++ List.replicate 7 false = byteBits bytes ++ _ := hflush.bits
  obtain ⟨n, hn, hbits⟩ := byteBits_flushed hflushed
    (by rw [length_wordBits]; have := hflush.pos; omega)
  have hcount : bytes.length ≤ (putsBits puts).length / 8 + 1 := by
    have := congrArg List.length hbits
    simp only [length_byteBits, List.length_append, List.length_replicate] at this
    omega
  have hsize : s.compSize = bytes.length := by
    rw [hflush.size, Nat.mod_eq_of_lt (by omega)]
  -- the null byte is stored and not counted
  have hstored := hflush.wrote.store 0
  have hlength2 : (s.store 0).dst.length = dst.length := by rw [Sink.store_length, hlength1]
  have hsize2 : (s.store 0).compSize = bytes.length := by rw [Sink.store_compSize, hsize]
  generalize s.store 0 = s at *
  have hzeroByte : (BitVec.ofNat 8 0 : Byte) = 0 := rfl
  rw [List.append_assoc, hzeroByte, List.nil_append] at hstored
  have hlen : (leBytes 4 0 ++ leBytes 4 0 ++ (bytes ++ [0])).length = bytes.length + 9 := by
    simp
    omega
  have hsize3 : (putDword (putDword { s with pos := 0 } ((s.compSize + 1) % 2 ^ 32)) size).compSize =
      bytes.length := by
    rw [putDword_compSize, putDword_compSize, ← hsize2]
  -- else the status is not success
  have hroom : bytes.length + 9 ≤ dst.length := by
    by_contra hshort
    rw [hsize3, if_pos (by omega)] at h
    cases h
  have htake := hstored.take (by rw [hlen, hlength2]; exact hroom)
  obtain ⟨tail, htail⟩ := exists_putDwords (s := { s with pos := 0 }) rfl htake
    (by simp) (by rw [hlen]; exact hroom.trans hlength2.ge) ((s.compSize + 1) % 2 ^ 32) size
  rw [hsize2] at htail hsize3 ⊢
  have hword : (bytes.length + 1) % 2 ^ 32 = bytes.length + 1 := Nat.mod_eq_of_lt (by omega)
  rw [hword] at htail hsize3 ⊢
  generalize putDword (putDword { s with pos := 0 } (bytes.length + 1)) size = out at *
  refine ⟨bytes.length + 1, @framed_of_bytes _ _ tail _ _ _ ?_ hbits ?_ (by omega)⟩
  · rw [htail]
    simp only [List.append_assoc]
  · rw [hsize3]
    exact Nat.mod_eq_of_lt (by omega)

/-! ## Every sequence of calls -/

/-- What calls of `GetBits` return, one after the other. -/
def getAll (src : Nat → Byte) : ScratchData → List Nat → List Nat
  | _, [] => []
  | sd, n :: ns => (getBits src sd n).2 :: getAll src (getBits src sd n).1 ns

theorem getAll_ahead {src : Nat → Byte} {total : Nat} {sd : ScratchData} {puts : List Put}
    (h : sd.Ahead src total (putsBits puts)) (hfits : ∀ p ∈ puts, p.Fits)
    (htotal : total < 2 ^ 32) : getAll src sd (puts.map Put.n) = puts.map Put.x := by
  induction puts generalizing sd with
  | nil => rfl
  | cons p puts ih =>
    have hp := hfits p List.mem_cons_self
    obtain ⟨hread, hahead⟩ := h.getBits hp.n hp.x htotal
    rw [List.map_cons, getAll, hread, List.map_cons,
      ih hahead fun q hq => hfits q (List.mem_cons_of_mem p hq)]

/-- The header has the two sizes, and the decompressor reads the numbers that were put. -/
theorem getAll_compressBits (dst : List Byte) (puts : List Put) (size : Nat)
    (hfits : ∀ p ∈ puts, p.Fits) (hsmall : (putsBits puts).length / 8 + 10 < 2 ^ 32)
    (h : (compressBits dst puts size).status = .success) :
    let src := (compressBits dst puts size).source
    (compressBits dst puts size).dstSize = sourceSize src 0 + 8 ∧
      sourceSize src 4 = size % 2 ^ 32 ∧
      getAll (fun i => src (8 + i))
        (fillBuf (fun i => src (8 + i)) (clearScratch (sourceSize src 0) (sourceSize src 4)) 16)
        (puts.map Put.n) = puts.map Put.x := by
  obtain ⟨total, hframed⟩ := compressBits_framed hfits hsmall h
  have hsmall' := hframed.small
  dsimp only
  rw [hframed.compSize, hframed.origSize]
  exact ⟨hframed.dstSize, rfl, getAll_ahead hframed.ahead hfits (by omega)⟩

theorem getAll_compressBits_three :
    let src := (compressBits (List.replicate 16 0) [⟨5, 19⟩, ⟨0, 0⟩, ⟨16, 0xbeef⟩] 3).source
    (compressBits (List.replicate 16 0) [⟨5, 19⟩, ⟨0, 0⟩, ⟨16, 0xbeef⟩] 3).dstSize =
        sourceSize src 0 + 8 ∧
      sourceSize src 4 = 3 % 2 ^ 32 ∧
      getAll (fun i => src (8 + i))
        (fillBuf (fun i => src (8 + i)) (clearScratch (sourceSize src 0) (sourceSize src 4)) 16)
        [5, 0, 16] = [19, 0, 0xbeef] :=
  getAll_compressBits (List.replicate 16 0) [⟨5, 19⟩, ⟨0, 0⟩, ⟨16, 0xbeef⟩] 3
    (fun p hp => by
      simp only [List.mem_cons, List.not_mem_nil, or_false] at hp
      rcases hp with rfl | rfl | rfl
      · exact ⟨by decide, by decide⟩
      · exact ⟨by decide, by decide⟩
      · exact ⟨by decide, by decide⟩)
    (by decide) (by decide)

end EfiCore.Enc
