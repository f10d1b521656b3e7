import EfiCore.Pxe.Packet

/-! # Receiving the packets of a datagram -/

namespace EfiCore.Pxe

open EfiCore.Lib

/-! ## Bytes of the receive buffer -/

section Bytes

variable {packet memory : Nat → Byte} {x y : List Byte} {pos start i n m : Nat} {b : Byte}

/-- The bytes are in the buffer from an offset on. -/
def Holds (packet : Nat → Byte) (pos : Nat) (bytes : List Byte) : Prop :=
  bytesAt packet pos bytes.length = bytes

theorem holds_append :
    Holds packet pos (x ++ y) ↔ Holds packet pos x ∧ Holds packet (pos + x.length) y := by
  rw [Holds, List.length_append, bytesAt_add]
  constructor
  · intro h
    exact List.append_inj h (length_bytesAt _ _ _)
  · rintro ⟨hx, hy⟩
    rw [hx, hy]

theorem Holds.byte (h : Holds packet pos x) (hi : x[i]? = some b) : packet (pos + i) = b := by
  have hlt := (List.getElem?_eq_some_iff.mp hi).1
  rw [← h] at hi
  simpa [bytesAt, hlt] using hi

/-- What is copied. -/
theorem bytesAt_copyMem :
    bytesAt (copyMem memory pos packet start n) pos n = bytesAt packet start n := by
  apply List.map_congr_left
  intro i hi
  have hlt := List.mem_range.mp hi
  rw [copyMem, if_pos (by omega), Nat.add_sub_cancel_left]

/-- What is not copied over. -/
theorem bytesAt_copyMem_of_disjoint {pos' m : Nat} (h : pos' + m ≤ pos ∨ pos + n ≤ pos') :
    bytesAt (copyMem memory pos packet start n) pos' m = bytesAt memory pos' m := by
  apply List.map_congr_left
  intro i hi
  have hlt := List.mem_range.mp hi
  rw [copyMem, if_neg (by omega)]

end Bytes

/-! ## A packet that has arrived -/

section Arrived

variable {A : Arch} {d : Datagram} {l : Listener} {packet : Nat → Byte} {a : Assembly}
  {fields hdrSize hdrRoom messageLength : Nat} {hdr data body : List Byte}

/-- A packet of the datagram in the receive buffer, with its fragment fields and what is behind
its header. -/
structure Arrived (d : Datagram) (packet : Nat → Byte) (fields : Nat) (body : List Byte) :
    Prop where
  version : packet 0 = 0x45
  checksum : ipChecksum (bytesAt packet 0 ipv4HeaderSize) = 0
  protocol : packet 9 = protUdp
  length : ntohs (packet 2) (packet 3) = ipv4HeaderSize + body.length
  id : ntohs (packet 5) (packet 4) = d.id.toNat
  fields : ntohs (packet 6) (packet 7) = fields
  srcAddr : readLong packet 12 = d.srcIp
  destAddr : readLong packet 16 = d.destIp
  body : Holds packet ipv4HeaderSize body

theorem leNat_longBytes (v : Ip) : leNat (longBytes v) = v.toNat := by
  have hv := v.isLt
  simp only [longBytes, leNat, BitVec.toNat_setWidth, BitVec.toNat_ushiftRight,
    Nat.shiftRight_eq_div_pow]
  omega

theorem readLong_of_holds {v : Ip} {pos : Nat} (h : Holds packet pos (longBytes v)) :
    readLong packet pos = v := by
  have hread : bytesAt packet pos 4 = longBytes v := h
  rw [readLong, hread, leNat_longBytes, BitVec.ofNat_toNat, BitVec.setWidth_eq]

/-- A well-formed packet that is delivered. -/
theorem arrived_of_delivers {header : Ipv4Header} {n : Nat} (hheader : HeaderOf d header)
    (hchecksum : header.headerChecksum = 0) (hn : n = ipv4HeaderSize + body.length)
    (hlongest : n ≤ maxFrameDataSize)
    (hfields : ntohs (header.fragmentFields.setWidth 8)
      ((header.fragmentFields >>> 8).setWidth 8) = fields)
    (h : Delivers packet ((header.sent n).bytes ++ body)) : Arrived d packet fields body := by
  have hsizes := sizes
  rw [Delivers, ← Holds, holds_append, length_bytes, Nat.zero_add] at h
  obtain ⟨hhead, hbody⟩ := h
  have haddr := hhead
  rw [Ipv4Header.bytes] at haddr
  obtain ⟨haddr, hdest⟩ := holds_append.mp haddr
  have hsrc := (holds_append.mp haddr).2
  constructor
  case version => exact hhead.byte (i := 0) rfl
  case checksum =>
    have hread : bytesAt packet 0 ipv4HeaderSize = (header.sent n).bytes := by
      rw [← length_bytes (header.sent n)]
      exact hhead
    rw [hread, sent_checks, hchecksum]
    rfl
  case protocol =>
    have hbyte : packet (0 + 9) = header.protocol := hhead.byte rfl
    rw [← hheader.protocol, ← hbyte, Nat.zero_add]
  case length =>
    have hfirst : packet (0 + 2) = (htons n).setWidth 8 := hhead.byte rfl
    have hsecond : packet (0 + 3) = (htons n >>> 8).setWidth 8 := hhead.byte rfl
    rw [Nat.zero_add] at hfirst hsecond
    rw [hfirst, hsecond, ntohs_htons (by omega), hn]
  case id =>
    have hlow : packet (0 + 4) = header.id.setWidth 8 := hhead.byte rfl
    have hhigh : packet (0 + 5) = (header.id >>> 8).setWidth 8 := hhead.byte rfl
    have hword := wordBytes_toNat header.id
    rw [Nat.zero_add] at hlow hhigh
    rw [hlow, hhigh, ntohs, ← hheader.id]
    omega
  case fields =>
    have hfirst : packet (0 + 6) = header.fragmentFields.setWidth 8 := hhead.byte rfl
    have hsecond : packet (0 + 7) = (header.fragmentFields >>> 8).setWidth 8 := hhead.byte rfl
    rw [Nat.zero_add] at hfirst hsecond
    rw [hfirst, hsecond, hfields]
  case srcAddr => rw [← hheader.srcAddr]; exact readLong_of_holds hsrc
  case destAddr => rw [← hheader.destAddr]; exact readLong_of_holds hdest
  case body => exact hbody

/-- The receiver takes packets of the datagram, and has taken no others. -/
structure Awaits (l : Listener) (d : Datagram) (a : Assembly) : Prop where
  srcIp : l.anySrcIp = true ∨ a.srcIp = d.srcIp
  destIp : if l.useFilter then l.ipGood d.destIp = true
    else l.anyDestIp = true ∨ a.destIp = d.destIp
  same : a.fragmentCount ≠ 0 → a.id = d.id.toNat ∧ a.destIp = d.destIp ∧ a.srcIp = d.srcIp

/-- The receiver with the addresses and the `Id` of the datagram. -/
def Assembly.of (a : Assembly) (d : Datagram) : Assembly :=
  { a with id := d.id.toNat, destIp := d.destIp, srcIp := d.srcIp }

theorem Arrived.ipHeaderLength (h : Arrived d packet fields body) :
    ipHeaderLength packet = ipv4HeaderSize := by
  rw [Pxe.ipHeaderLength, h.version]
  rfl

theorem Awaits.wants (haw : Awaits l d a) (h : Arrived d packet fields body) :
    l.wants a packet = true := by
  have hdest := haw.destIp
  rw [Listener.wants, h.srcAddr, h.destAddr, Bool.and_eq_true, Bool.or_eq_true,
    decide_eq_true_eq]
  refine ⟨haw.srcIp, ?_⟩
  cases hfilter : l.useFilter with
  | true => simpa [hfilter] using hdest
  | false => simpa [hfilter] using hdest

/-- A packet of the datagram passes the filters. -/
theorem receivePacket_arrived (h : Arrived d packet fields body) (haw : Awaits l d a) :
    receivePacket A l protUdp hdrSize hdrRoom messageLength a packet =
      assemble A hdrSize hdrRoom messageLength (a.of d) packet := by
  have hversion : ¬(packet 0 >>> 4 ≠ 4) := by
    rw [h.version]
    decide
  have hchecksum : ¬(ipChecksum (bytesAt packet 0 (ipHeaderLength packet)) ≠ 0) := by
    rw [h.ipHeaderLength, h.checksum]
    exact not_not.mpr rfl
  rw [receivePacket, if_neg hversion, if_neg hchecksum, h.protocol, if_neg (by decide),
    if_neg (by decide), if_neg (by rw [haw.wants h]; decide), h.id, h.destAddr, h.srcAddr]
  by_cases hcount : a.fragmentCount = 0
  · rw [if_pos hcount]
    rfl
  · obtain ⟨hid, hdest, hsrc⟩ := haw.same hcount
    rw [if_neg hcount, if_neg (not_not.mpr hid), Assembly.of, ← hid, ← hdest, ← hsrc]

/-- A part of the datagram is put in its place. -/
def Assembly.put (a : Assembly) (first last : Bool) (header : List Byte) (pos start n : Nat)
    (packet : Nat → Byte) : Assembly :=
  { a with
    fragmentCount := a.fragmentCount + 1
    gotFirstFragment := a.gotFirstFragment || first
    gotLastFragment := a.gotLastFragment || last
    header := header
    expectedPacketLength := if last then pos + n else a.expectedPacketLength
    message := copyMem a.message pos packet start n
    byteCount := a.byteCount + n }

/-- The test at the end of a turn. -/
def Assembly.turn (a : Assembly) : Turn :=
  if a.gotFirstFragment ∧ a.gotLastFragment ∧ a.expectedPacketLength ≤ a.byteCount then
    .done (.success a.expectedPacketLength) a
  else .next a

/-- The fragment with the headers. -/
theorem assemble_first (h : Arrived d packet fields (hdr ++ data)) (hfirst : fields % 2 ^ 13 = 0)
    (hroom : hdr.length ≤ hdrRoom) (hfit : data.length ≤ messageLength)
    (hsize : ipv4HeaderSize + hdr.length + data.length < 2 ^ 32)
    (hcount : a.byteCount + data.length < 2 ^ 32) :
    assemble A hdr.length hdrRoom messageLength a packet =
      (a.put true (fields / 0x2000 % 2 = 0) hdr 0 (ipv4HeaderSize + hdr.length) data.length
        packet).turn := by
  have hbody := h.length
  rw [List.length_append] at hbody
  have hdata : A.sub (ntohs (packet 2) (packet 3)) ipv4HeaderSize = hdr.length + data.length := by
    rw [hbody, Arch.sub_of_le (by omega) (by omega)]
    omega
  have hrest : A.sub (hdr.length + data.length) hdr.length = data.length := by
    rw [Arch.sub_of_le (by omega) (by omega)]
    omega
  have hread : bytesAt packet ipv4HeaderSize hdr.length = hdr := (holds_append.mp h.body).1
  have hzero : A.add 0 data.length = data.length := by
    rw [Arch.add_of_lt (by omega), Nat.zero_add]
  rw [assemble]
  simp only [h.ipHeaderLength, h.fields, hdata, hfirst, Nat.zero_mul, decide_true, if_true, hrest,
    hread, hzero, Arch.add_of_lt hcount, true_and]
  rw [if_neg (Nat.not_lt.mpr hroom), if_neg (Nat.not_lt.mpr hfit), Assembly.turn, Assembly.put,
    Nat.zero_add]

/-- A fragment behind it. -/
theorem assemble_later {pos : Nat} (h : Arrived d packet fields data)
    (hpos : hdrSize + pos = fields % 2 ^ 13 * 8) (hlater : fields % 2 ^ 13 ≠ 0)
    (hfit : pos + data.length ≤ messageLength)
    (hsize : ipv4HeaderSize + hdrSize + pos + data.length < 2 ^ 32)
    (hcount : a.byteCount + data.length < 2 ^ 32) :
    assemble A hdrSize hdrRoom messageLength a packet =
      (a.put false (fields / 0x2000 % 2 = 0) a.header pos ipv4HeaderSize data.length
        packet).turn := by
  have hdata : A.sub (ntohs (packet 2) (packet 3)) ipv4HeaderSize = data.length := by
    rw [h.length, Arch.sub_of_le (by omega) (by omega)]
    omega
  have hplace : A.sub (hdrSize + pos) hdrSize = pos := by
    rw [Arch.sub_of_le (by omega) (by omega)]
    omega
  have hadd : A.add pos data.length = pos + data.length := Arch.add_of_lt (by omega)
  have hfirst : hdrSize + pos ≠ 0 := by omega
  rw [assemble]
  simp only [h.ipHeaderLength, h.fields, hdata, ← hpos, hfirst, decide_false, Bool.false_eq_true,
    if_false, hplace, hadd, Arch.add_of_lt hcount, false_and]
  rw [if_neg (Nat.not_lt.mpr hfit), Assembly.turn, Assembly.put]

end Arrived

end EfiCore.Pxe
