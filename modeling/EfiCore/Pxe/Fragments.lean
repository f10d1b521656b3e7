import EfiCore.Pxe.Packet

/-! # More than one packet

The checksum of a packet is summed into that of the next one, so that the second packet needs a
first one with checksum zero, and the third has none that fits.
-/

namespace EfiCore.Pxe

open EfiCore.Lib

variable {A : Arch} {d : Datagram} {header : Ipv4Header} {protHdr message : List Byte}
  {packets : List (List Byte)} {fuel fragmentOffset : Nat}

/-! ## The loop -/

/-- The loop sends a full fragment and goes on. -/
structure SendsNext (fuel : Nat) (header : Ipv4Header) (fragmentOffset : Nat)
    (message : List Byte) (packets : List (List Byte)) : Prop where
  long : ipv4FragSize < message.length
  sent : ∃ header' packet rest, ipv4Xmt header [] message ipv4FragSize = some (header', packet) ∧
    sendRest fuel
      { header' with fragmentFields := htons ((fragmentOffset + ipv4FragOffInc) % 2 ^ 16) }
      ((fragmentOffset + ipv4FragOffInc) % 2 ^ 16) (message.drop ipv4FragSize) = some rest ∧
    packets = packet :: rest

/-- The last fragment is sent. -/
structure SendsLast (header : Ipv4Header) (message : List Byte) (packets : List (List Byte)) :
    Prop where
  short : message.length ≤ ipv4FragSize
  sent : ∃ header' packet,
    ipv4Xmt { header with fragmentFields := header.fragmentFields &&& ~~~0x20 } [] message
      message.length = some (header', packet) ∧ packets = [packet]

theorem sendRest_cases (h : sendRest (fuel + 1) header fragmentOffset message = some packets) :
    SendsNext fuel header fragmentOffset message packets ∨ SendsLast header message packets := by
  rw [sendRest] at h
  by_cases hlong : ipv4FragSize < message.length
  · rw [if_pos hlong, Option.bind_eq_some_iff] at h
    obtain ⟨⟨header', packet⟩, hsent, h⟩ := h
    obtain ⟨rest, hrest, rfl⟩ := Option.map_eq_some_iff.mp h
    exact .inl ⟨hlong, header', packet, rest, hsent, hrest, rfl⟩
  · rw [if_neg hlong] at h
    obtain ⟨⟨header', packet⟩, hsent, rfl⟩ := Option.map_eq_some_iff.mp h
    exact .inr ⟨Nat.le_of_not_lt hlong, header', packet, hsent, rfl⟩

theorem sendRest_last (hshort : message.length ≤ ipv4FragSize) :
    sendRest (fuel + 1) header fragmentOffset message =
      (ipv4Xmt { header with fragmentFields := header.fragmentFields &&& ~~~0x20 } [] message
        message.length).map fun sent => [sent.2] := by
  rw [sendRest, if_neg (Nat.not_lt.mpr hshort)]

/-- The next packet is sent with what the last one has left in the checksum field. -/
theorem checksum_of_sendRest
    (h : sendRest (fuel + 1) header fragmentOffset message = some packets)
    (hwell : ∀ packet ∈ packets, WellFormed d packet) :
    header.headerChecksum.toNat % 65535 = 0 := by
  rcases sendRest_cases h with hnext | hlast
  · obtain ⟨header', packet, rest, hsent, -, rfl⟩ := hnext.sent
    obtain ⟨rfl, rfl⟩ := ipv4Xmt_some hsent
    have hpacket := hwell _ List.mem_cons_self
    rw [List.append_assoc] at hpacket
    have hzero := checksum_of_wellFormed hpacket
    exact hzero
  · obtain ⟨header', packet, hsent, rfl⟩ := hlast.sent
    obtain ⟨rfl, rfl⟩ := ipv4Xmt_some hsent
    have hpacket := hwell _ List.mem_cons_self
    rw [List.append_assoc] at hpacket
    have hzero := checksum_of_wellFormed hpacket
    exact hzero

/-! ## The first packet -/

/-- The header that the first of several packets is sent with. -/
def fragmentHeader (d : Datagram) : Ipv4Header :=
  { startHeader true protUdp d.srcIp d.destIp d.id with
    fragmentFields := setFirstByte (startHeader true protUdp d.srcIp d.destIp d.id).fragmentFields
      0x20 }

theorem length_protHdr (d : Datagram) :
    (d.udpHeader d.checksum ++ d.header).length = udpv4HeaderSize + d.header.length := by
  rw [List.length_append]
  rfl

theorem fragmentHeader_fields (d : Datagram) : (fragmentHeader d).fragmentFields = 0x20 := by
  simp [fragmentHeader, startHeader, setFirstByte]

theorem firstHeader_checksum (d : Datagram) :
    ((fragmentHeader d).sent (ipv4HeaderSize + ipv4FragSize)).headerChecksum =
      ipChecksum (firstHeader d).bytes := by
  have hheader : { fragmentHeader d with
      versionIhl := 0x45
      totalLength := htons (ipv4HeaderSize + ipv4FragSize) } = firstHeader d := by
    ext1 <;> try rfl
    exact fragmentHeader_fields d
  rw [Ipv4Header.sent, ← hheader]

/-- The part of the payload in the first packet. -/
abbrev firstLength (d : Datagram) : Nat := ipv4FragSize - (udpv4HeaderSize + d.header.length)

theorem sub_firstLength (hroom : d.header.length ≤ 64) :
    A.sub ipv4FragSize (d.udpHeader d.checksum ++ d.header).length = firstLength d := by
  have hsizes := sizes
  rw [length_protHdr]
  exact Arch.sub_of_le (by omega) (by decide)

theorem firstXmt (d : Datagram) (hroom : d.header.length ≤ 64) :
    ipv4Xmt (fragmentHeader d) (d.udpHeader d.checksum ++ d.header) d.payload (firstLength d) =
      some ((fragmentHeader d).sent (ipv4HeaderSize + ipv4FragSize),
        ((fragmentHeader d).sent (ipv4HeaderSize + ipv4FragSize)).bytes ++
          (d.udpHeader d.checksum ++ d.header) ++ d.payload.take (firstLength d)) := by
  have hsizes := sizes
  have hlength : ipv4HeaderSize + (d.udpHeader d.checksum ++ d.header).length + firstLength d =
      ipv4HeaderSize + ipv4FragSize := by
    rw [length_protHdr, firstLength]
    omega
  rw [ipv4Xmt_eq (by rw [hlength]; decide), hlength]

/-- The header that is left by the first packet, with the fields of the second one. -/
def secondHeader (d : Datagram) : Ipv4Header :=
  { (fragmentHeader d).sent (ipv4HeaderSize + ipv4FragSize) with
    fragmentFields := htons (0x2000 + ipv4FragOffInc) }

/-- A datagram that does not fit one packet. -/
theorem udpWrite_several (hroom : d.header.length ≤ 64)
    (hlong : maxIpv4FrameDataSize < d.totalLength) (hsmall : d.totalLength ≤ maxIpv4DataSize) :
    udpWrite A d =
      (sendRest (d.payload.length + 1) (secondHeader d) (0x2000 + ipv4FragOffInc)
        (d.payload.drop (firstLength d))).map fun packets =>
          (.success, (((fragmentHeader d).sent (ipv4HeaderSize + ipv4FragSize)).bytes ++
            (d.udpHeader d.checksum ++ d.header) ++ d.payload.take (firstLength d)) :: packets) := by
  have hsizes := sizes
  have htotal : (d.udpHeader d.checksum ++ d.header).length + d.payload.length =
      d.totalLength := by
    rw [length_protHdr, Datagram.totalLength]
  rw [udpWrite, if_neg (by omega), ip4Send]
  dsimp only
  rw [htotal, if_neg (Nat.not_lt.mpr hsmall), if_pos hlong, if_neg (by simp),
    sub_firstLength hroom]
  change (ipv4Xmt (fragmentHeader d) _ _ _).bind _ = _
  rw [firstXmt d hroom, Option.bind_some]
  rfl

/-- A datagram that fits one packet. -/
theorem udpWrite_single (hroom : d.header.length ≤ 64)
    (hshort : d.totalLength ≤ maxIpv4FrameDataSize) :
    udpWrite A d = some (.success,
      [((startHeader true protUdp d.srcIp d.destIp d.id).sent
        (ipv4HeaderSize + d.totalLength)).bytes ++
          (d.udpHeader d.checksum ++ d.header) ++ d.payload]) := by
  have hsizes := sizes
  have htotal : (d.udpHeader d.checksum ++ d.header).length + d.payload.length =
      d.totalLength := by
    rw [length_protHdr, Datagram.totalLength]
  rw [udpWrite, if_neg (by omega), ip4Send]
  dsimp only
  rw [htotal, if_neg (by omega), if_neg (Nat.not_lt.mpr hshort), ipv4Xmt_eq (by omega),
    Nat.add_assoc, htotal, List.take_length, Option.map_some]

theorem udpWrite_tooLong (hroom : d.header.length ≤ 64)
    (hlong : maxIpv4DataSize < d.totalLength) : udpWrite A d = some (.badBufferSize, []) := by
  have hsizes := sizes
  have htotal : (d.udpHeader d.checksum ++ d.header).length + d.payload.length =
      d.totalLength := by
    rw [length_protHdr, Datagram.totalLength]
  rw [udpWrite, if_neg (by omega), ip4Send]
  dsimp only
  rw [htotal, if_pos hlong]

/-! ## What the checksums ask for -/

theorem wordSum_fragmentFields (header : Ipv4Header) (w : BitVec 16) :
    wordSum { header with fragmentFields := w }.bytes + header.fragmentFields.toNat =
      wordSum header.bytes + w.toNat := by
  have hword := wordBytes_toNat w
  have hold := wordBytes_toNat header.fragmentFields
  simp only [Ipv4Header.bytes, wordBytes, longBytes, List.cons_append, List.nil_append, wordSum]
  omega

/-- The second checksum is never zero if the first one is. -/
theorem secondChecksum_ne (hfirst : ipChecksum (firstHeader d).bytes = 0)
    (hheader : header.cleared = { firstHeader d with
      fragmentFields := htons (0x2000 + ipv4FragOffInc) }) :
    onesCheck (wordSum header.cleared.bytes) % 65535 ≠ 0 := by
  have hfields := wordSum_fragmentFields (firstHeader d) (htons (0x2000 + ipv4FragOffInc))
  have hlt := wordSum_header_lt (firstHeader d)
  have hlt' := wordSum_header_lt header.cleared
  have hpos : 0 < wordSum (firstHeader d).bytes :=
    wordSum_pos (b := 0x45) List.mem_cons_self (by decide)
  have hmod := onesCheck_mod (x := wordSum header.cleared.bytes) (by omega)
  have hbytes : ipChecksum (firstHeader d).bytes = 0 ↔
      onesCheck (wordSum (firstHeader d).bytes) = 0 :=
    ipChecksum_eq_zero (by rw [length_bytes]; decide)
  rw [hbytes, onesCheck_eq_zero (by omega) hpos] at hfirst
  have hold : (firstHeader d).fragmentFields.toNat = 0x20 := rfl
  have hnew : (htons (0x2000 + ipv4FragOffInc)).toNat = 0xb720 := by decide
  rw [← hheader, hold, hnew] at hfields
  omega

theorem secondHeader_checksum (d : Datagram) :
    (secondHeader d).headerChecksum = ipChecksum (firstHeader d).bytes :=
  firstHeader_checksum d

theorem firstChecksum_zero (h : (secondHeader d).headerChecksum.toNat % 65535 = 0) :
    ipChecksum (firstHeader d).bytes = 0 := by
  have hlt : (secondHeader d).headerChecksum.toNat < 65535 := sent_checksum_lt _ _
  rw [← secondHeader_checksum]
  exact BitVec.eq_of_toNat_eq (by rw [Nat.mod_eq_of_lt hlt] at h; exact h)

theorem sent_second_cleared (d : Datagram) :
    ((secondHeader d).sent (ipv4HeaderSize + ipv4FragSize)).cleared =
      { firstHeader d with fragmentFields := htons (0x2000 + ipv4FragOffInc) } := by
  ext1 <;> rfl

/-- Packets that are all well formed are one, or two of which the first has checksum zero. -/
theorem fits_of_wellFormed (hroom : d.header.length ≤ 64)
    (hwrite : udpWrite A d = some (.success, packets))
    (hwell : ∀ packet ∈ packets, WellFormed d packet) : Fits d := by
  have hsizes := sizes
  refine ⟨hroom, ?_⟩
  by_cases hshort : d.totalLength ≤ maxIpv4FrameDataSize
  · exact .inl hshort
  by_cases hsmall : d.totalLength ≤ maxIpv4DataSize
  · rw [udpWrite_several hroom (Nat.lt_of_not_le hshort) hsmall, Option.map_eq_some_iff] at hwrite
    obtain ⟨rest, hrest, hpackets⟩ := hwrite
    obtain rfl := (Prod.mk.inj hpackets).2
    have hwellRest : ∀ packet ∈ rest, WellFormed d packet := fun packet hmem =>
      hwell packet (List.mem_cons_of_mem _ hmem)
    have hfirst : ipChecksum (firstHeader d).bytes = 0 :=
      firstChecksum_zero (checksum_of_sendRest hrest hwellRest)
    refine .inr ⟨?_, hfirst⟩
    -- a third packet would be summed with the checksum of the second
    rcases sendRest_cases hrest with hnext | hlast
    · obtain ⟨fuel, hfuel⟩ : ∃ fuel, d.payload.length = fuel + 1 := by
        refine Nat.exists_eq_succ_of_ne_zero fun hzero => ?_
        rw [Datagram.totalLength, hzero] at hshort
        omega
      obtain ⟨header', packet, rest', hsent, hthird, rfl⟩ := hnext.sent
      obtain ⟨rfl, -⟩ := ipv4Xmt_some hsent
      rw [hfuel] at hthird
      have hzero := checksum_of_sendRest hthird fun packet hmem =>
        hwellRest packet (List.mem_cons_of_mem _ hmem)
      have hne := secondChecksum_ne hfirst (sent_second_cleared d)
      refine absurd ?_ hne
      have hsecond := sent_checksum (secondHeader d) (ipv4HeaderSize + ipv4FragSize)
      rw [secondHeader_checksum, hfirst] at hsecond
      exact hsecond ▸ hzero
    · have hlength := hlast.short
      rw [List.length_drop, firstLength] at hlength
      rw [Datagram.totalLength]
      omega
  · rw [udpWrite_tooLong hroom (Nat.lt_of_not_le hsmall)] at hwrite
    exact absurd hwrite (by simp)

end EfiCore.Pxe
