import EfiCore.Pxe.Ip

/-! # The packets that are sent

What `Ipv4Xmt` puts together is a packet of the datagram if the checksum field held nothing before.
-/

namespace EfiCore.Pxe

open EfiCore.Lib

/-! ## Numbers in memory -/

section Fields

variable {w : BitVec 16} {v : Nat}

theorem wordBytes_toNat (w : BitVec 16) :
    (w.setWidth 8).toNat + 256 * ((w >>> 8).setWidth 8).toNat = w.toNat := by
  have hw := w.isLt
  simp only [BitVec.toNat_setWidth, BitVec.toNat_ushiftRight, Nat.shiftRight_eq_div_pow]
  omega

theorem htons_toNat (v : Nat) : (htons v).toNat = v % 256 * 256 + v / 256 % 256 := by
  rw [htons, BitVec.toNat_ofNat]
  omega

/-- What `HTONS` stores is read back in network order. -/
theorem ntohs_htons (hv : v < 2 ^ 16) :
    ntohs ((htons v).setWidth 8) ((htons v >>> 8).setWidth 8) = v := by
  have hword := wordBytes_toNat (htons v)
  have hlow := ((htons v).setWidth 8).isLt
  have hhigh := ((htons v >>> 8).setWidth 8).isLt
  rw [htons_toNat] at hword
  rw [ntohs]
  generalize ((htons v).setWidth 8).toNat = low at *
  generalize ((htons v >>> 8).setWidth 8).toNat = high at *
  have hsame : high = v % 256 := by omega
  omega

theorem length_bytes (header : Ipv4Header) : header.bytes.length = ipv4HeaderSize := by
  simp [Ipv4Header.bytes, wordBytes, longBytes]

end Fields

/-! ## The checksum of a header -/

section Checksum

variable {header : Ipv4Header} {packet : List Byte}

/-- The header before its checksum is stored. -/
def Ipv4Header.cleared (header : Ipv4Header) : Ipv4Header := { header with headerChecksum := 0 }

theorem wordSum_bytes (header : Ipv4Header) :
    wordSum header.bytes = wordSum header.cleared.bytes + header.headerChecksum.toNat := by
  have hword := wordBytes_toNat header.headerChecksum
  have hlow : ((0 : BitVec 16).setWidth 8).toNat = 0 := rfl
  have hhigh : (((0 : BitVec 16) >>> 8).setWidth 8).toNat = 0 := rfl
  simp only [Ipv4Header.bytes, Ipv4Header.cleared, wordBytes, longBytes, List.cons_append,
    List.nil_append, wordSum, hlow, hhigh]
  omega

theorem wordSum_header_lt (header : Ipv4Header) : wordSum header.bytes + 65535 < 2 ^ 32 := by
  have hle := wordSum_le header.bytes
  rw [length_bytes, ipv4HeaderSize] at hle
  omega

/-- A sum in 32 bits does not wrap on what a packet can hold. -/
theorem ipChecksum_toNat (hlength : packet.length ≤ 100000) :
    (ipChecksum packet).toNat = onesCheck (wordSum packet) := by
  have hle := wordSum_le packet
  have hcheck := onesCheck_le (wordSum packet)
  rw [ipChecksum, BitVec.toNat_ofNat, Nat.mod_eq_of_lt (a := wordSum packet) (by omega),
    Nat.mod_eq_of_lt (by omega)]

theorem ipChecksum_eq_zero (hlength : packet.length ≤ 100000) :
    ipChecksum packet = 0 ↔ onesCheck (wordSum packet) = 0 := by
  rw [← ipChecksum_toNat hlength, BitVec.toNat_eq]
  rfl

theorem ipChecksum_bytes (header : Ipv4Header) :
    (ipChecksum header.bytes).toNat = onesCheck (wordSum header.bytes) :=
  ipChecksum_toNat (by rw [length_bytes]; decide)

/-- The sum over two buffers is that of both. -/
theorem ipChecksum2_toNat {message : List Byte} (hheader : packet.length ≤ 1000)
    (hmessage : message.length ≤ 100000) :
    (ipChecksum2 packet message).toNat = onesCheck (wordSum packet + wordSum message) := by
  have hle := wordSum_le packet
  have hle' := wordSum_le message
  have hfold := onesFold_add (x := wordSum packet) (y := wordSum message) (by omega)
  have hx := onesFold_le (wordSum packet)
  have hy := onesFold_le (wordSum message)
  have hnot (bytes : List Byte) (h : bytes.length ≤ 100000) :
      (~~~ipChecksum bytes).toNat = onesFold (wordSum bytes) := by
    have hfold := onesFold_le (wordSum bytes)
    rw [BitVec.toNat_not, ipChecksum_toNat h, onesCheck]
    omega
  have hsum : onesFold (wordSum packet) + onesFold (wordSum message) ≤ 131070 := by omega
  rw [ipChecksum2, hnot _ (by omega), hnot _ hmessage, onesCheck, ← hfold]
  generalize onesFold (wordSum packet) + onesFold (wordSum message) = sum at *
  simp only [BitVec.toNat_not, BitVec.toNat_ofNat, onesFold]
  by_cases hcarry : sum < 65536
  · omega
  · have hone : sum / 65536 = 1 := by omega
    omega

/-- The header that `Ipv4Xmt` sends. -/
def Ipv4Header.sent (header : Ipv4Header) (packetLength : Nat) : Ipv4Header :=
  let header := { header with versionIhl := 0x45, totalLength := htons packetLength }
  { header with headerChecksum := ipChecksum header.bytes }

theorem cleared_pos (header : Ipv4Header) (packetLength : Nat) :
    0 < wordSum (header.sent packetLength).cleared.bytes :=
  wordSum_pos (b := 0x45) List.mem_cons_self (by decide)

theorem sent_checksum (header : Ipv4Header) (packetLength : Nat) :
    (header.sent packetLength).headerChecksum.toNat =
      onesCheck (wordSum (header.sent packetLength).cleared.bytes +
        header.headerChecksum.toNat) := by
  rw [Ipv4Header.sent, ipChecksum_bytes, wordSum_bytes]
  rfl

/-- The sum of a header that is sent checks exactly if the checksum field was zero before. -/
theorem sent_checks (header : Ipv4Header) (packetLength : Nat) :
    ipChecksum (header.sent packetLength).bytes = 0 ↔ header.headerChecksum.toNat % 65535 = 0 := by
  have hlt := wordSum_header_lt (header.sent packetLength).cleared
  have hle := header.headerChecksum.isLt
  rw [ipChecksum_eq_zero (by rw [length_bytes]; decide), wordSum_bytes, sent_checksum]
  exact stale_check hlt (cleared_pos header packetLength) (by omega)

/-- The checksum of a header is never minus zero. -/
theorem sent_checksum_lt (header : Ipv4Header) (packetLength : Nat) :
    (header.sent packetLength).headerChecksum.toNat < 65535 := by
  have hlt := wordSum_header_lt (header.sent packetLength).cleared
  have hle := header.headerChecksum.isLt
  have hpos := cleared_pos header packetLength
  rw [sent_checksum]
  exact onesCheck_lt (by omega) (by omega)

end Checksum

/-! ## What `SendPacket` gets -/

section Xmt

variable {header header' : Ipv4Header} {protHdr message packet body : List Byte} {n : Nat}

theorem ipv4Xmt_eq (hroom : ipv4HeaderSize + protHdr.length + n ≤ transmitRoom) :
    ipv4Xmt header protHdr message n =
      some (header.sent (ipv4HeaderSize + protHdr.length + n),
        (header.sent (ipv4HeaderSize + protHdr.length + n)).bytes ++ protHdr ++
          message.take n) := by
  rw [ipv4Xmt]
  dsimp only
  rw [if_neg (Nat.not_lt.mpr hroom)]
  rfl

theorem ipv4Xmt_some (h : ipv4Xmt header protHdr message n = some (header', packet)) :
    header' = header.sent (ipv4HeaderSize + protHdr.length + n) ∧
      packet = header'.bytes ++ protHdr ++ message.take n := by
  by_cases hroom : ipv4HeaderSize + protHdr.length + n ≤ transmitRoom
  · rw [ipv4Xmt_eq hroom, Option.some.injEq, Prod.mk.injEq] at h
    obtain ⟨rfl, rfl⟩ := h
    exact ⟨rfl, rfl⟩
  · rw [ipv4Xmt] at h
    dsimp only at h
    rw [if_pos (Nat.lt_of_not_le hroom)] at h
    exact absurd h (by simp)

theorem take_bytes (header : Ipv4Header) (body : List Byte) :
    (header.bytes ++ body).take ipv4HeaderSize = header.bytes :=
  List.take_left' (length_bytes header)

theorem drop_bytes (header : Ipv4Header) (body : List Byte) :
    (header.bytes ++ body).drop ipv4HeaderSize = body :=
  List.drop_left' (length_bytes header)

/-- The fields that no packet of a datagram changes. -/
structure HeaderOf (d : Datagram) (header : Ipv4Header) : Prop where
  id : header.id = d.id
  protocol : header.protocol = protUdp
  srcAddr : header.srcAddr = d.srcIp
  destAddr : header.destAddr = d.destIp

theorem sent_wellFormed {d : Datagram} (hheader : HeaderOf d header)
    (hchecksum : header.headerChecksum = 0) (hn : n = ipv4HeaderSize + body.length)
    (hlongest : n ≤ maxFrameDataSize) : WellFormed d ((header.sent n).bytes ++ body) := by
  have hlength : ((header.sent n).bytes ++ body).length = n := by
    rw [List.length_append, length_bytes, hn]
  constructor
  case version => rfl
  case length =>
    rw [hlength]
    exact ntohs_htons (by rw [maxFrameDataSize] at hlongest; omega)
  case longest => rwa [hlength]
  case identification => rw [← hheader.id]; rfl
  case protocol =>
    rw [← hheader.protocol]
    rfl
  case checksum =>
    rw [take_bytes, sent_checks, hchecksum]
    rfl
  case addresses => rw [← hheader.srcAddr, ← hheader.destAddr]; rfl

theorem bigEndian_fragmentFields (header : Ipv4Header) (n : Nat) (body : List Byte) :
    bigEndian ((header.sent n).bytes ++ body) 6 =
      ntohs (header.fragmentFields.setWidth 8) ((header.fragmentFields >>> 8).setWidth 8) :=
  rfl

/-- A packet that is well formed was put together with nothing in its checksum field. -/
theorem checksum_of_wellFormed {d : Datagram}
    (h : WellFormed d ((header.sent n).bytes ++ body)) :
    header.headerChecksum.toNat % 65535 = 0 := by
  have hchecksum := h.checksum
  rwa [take_bytes, sent_checks] at hchecksum

end Xmt

/-! ## Which datagrams come through -/

/-- The header of the first of several packets, without its checksum. -/
def firstHeader (d : Datagram) : Ipv4Header where
  versionIhl := 0x45
  typeOfService := 0
  totalLength := htons (ipv4HeaderSize + ipv4FragSize)
  id := d.id
  fragmentFields := 0x20
  timeToLive := 16
  protocol := protUdp
  headerChecksum := 0
  srcAddr := d.srcIp
  destAddr := d.destIp

/-- The protocol header has room on the stack of `UdpRead`, and there is one packet, or there are
two of which the first has the checksum zero. -/
def Fits (d : Datagram) : Prop :=
  d.header.length ≤ protHdrRoom ∧
    (d.totalLength ≤ maxIpv4FrameDataSize ∨
      d.totalLength ≤ 2 * ipv4FragSize ∧ ipChecksum (firstHeader d).bytes = 0)

end EfiCore.Pxe
