import EfiCore.Lib.Memory
import EfiCore.Lib.OnesSum
import EfiCore.Types
import Mathlib

/-! # IPv4 and UDP of the PXE base code (`pxe_bc_ip.c`, `pxe_bc_udp.c`)

A packet is its bytes from the IP header on. The processor is a little-endian one: a `UINT16` of a
header is the number that it reads there, and `HTONS` and `NTOHS` exchange its bytes. The hardware
address is known, and `SendPacket` succeeds.
-/

namespace EfiCore.Pxe

open EfiCore.Lib (Byte bytesAt leNat wordSum onesCheck slice splice)

/-- An `IPV4_ADDR` as a `UINT32`. -/
abbrev Ip := BitVec 32

/-- `EFI_PXE_BASE_CODE_UDP_PORT` -/
abbrev Port := BitVec 16

def wordBytes (w : BitVec 16) : List Byte := [w.setWidth 8, (w >>> 8).setWidth 8]

def longBytes (l : BitVec 32) : List Byte :=
  [l.setWidth 8, (l >>> 8).setWidth 8, (l >>> 16).setWidth 8, (l >>> 24).setWidth 8]

/-- `HTONS` -/
def htons (v : Nat) : BitVec 16 := BitVec.ofNat 16 (v % 256 * 256 + v / 256 % 256)

/-- `IPV4_HEADER` -/
@[ext]
structure Ipv4Header where
  versionIhl : Byte
  typeOfService : Byte
  totalLength : BitVec 16
  id : BitVec 16
  fragmentFields : BitVec 16
  timeToLive : Byte
  protocol : Byte
  headerChecksum : BitVec 16
  srcAddr : Ip
  destAddr : Ip

/-- The header as it lies in memory. -/
def Ipv4Header.bytes (header : Ipv4Header) : List Byte :=
  [header.versionIhl, header.typeOfService] ++ wordBytes header.totalLength ++
    wordBytes header.id ++ wordBytes header.fragmentFields ++
    [header.timeToLive, header.protocol] ++ wordBytes header.headerChecksum ++
    longBytes header.srcAddr ++ longBytes header.destAddr

abbrev ipv4HeaderSize : Nat := 20
abbrev udpv4HeaderSize : Nat := 8
abbrev protUdp : Byte := 17

/-- `MAX_FRAME_DATA_SIZE` -/
abbrev maxFrameDataSize : Nat := 1488

/-- `MAX_IPV4_DATA_SIZE` -/
abbrev maxIpv4DataSize : Nat := 65535 - ipv4HeaderSize

/-- `MAX_IPV4_FRAME_DATA_SIZE` -/
abbrev maxIpv4FrameDataSize : Nat := maxFrameDataSize - ipv4HeaderSize

/-- `IPV4_FRAG_SIZE`, the former with the last three bits clear. -/
abbrev ipv4FragSize : Nat := 1464

/-- `IPV4_FRAG_OFF_INC` -/
abbrev ipv4FragOffInc : Nat := ipv4FragSize / 8

/-- What `TransmitBufferPtr`, of `BUFFER_ALLOCATE_SIZE`, holds from the IP header on. -/
abbrev transmitRoom : Nat := 8192 + 512 - 64

theorem sizes : ipv4HeaderSize = 20 ∧ udpv4HeaderSize = 8 ∧ maxFrameDataSize = 1488 ∧
    maxIpv4DataSize = 65515 ∧ maxIpv4FrameDataSize = 1468 ∧ ipv4FragSize = 1464 ∧
    transmitRoom = 8640 := by
  decide

/-! ## Checksums -/

/-- `IpChecksum`, with `Sum` in 32 bits. -/
def ipChecksum (packet : List Byte) : BitVec 16 :=
  BitVec.ofNat 16 (onesCheck (wordSum packet % 2 ^ 32))

/-- `IpChecksum2` -/
def ipChecksum2 (header message : List Byte) : BitVec 16 :=
  let sum := (~~~ipChecksum header).toNat + (~~~ipChecksum message).toNat
  ~~~BitVec.ofNat 16 (sum + sum / 65536)

/-! ## Sending -/

/-- `*(UINT8 *)(&FragmentFields) = b` -/
def setFirstByte (w : BitVec 16) (b : Byte) : BitVec 16 := w &&& 0xff00 ||| b.setWidth 16

/-- `Ipv4Xmt` with `sizeof (IPV4_HEADER)`: the header as it is left in the buffer, and what
`SendPacket` gets. There is no result if the buffer does not hold it. -/
def ipv4Xmt (header : Ipv4Header) (protHdr message : List Byte) (dataLength : Nat) :
    Option (Ipv4Header × List Byte) :=
  let packetLength := ipv4HeaderSize + protHdr.length + dataLength
  if transmitRoom < packetLength then none
  else
    let header := { header with versionIhl := 0x45, totalLength := htons packetLength }
    -- the field has what the last packet left in it
    let header := { header with headerChecksum := ipChecksum header.bytes }
    some (header, header.bytes ++ protHdr ++ message.take dataLength)

/-- The fragments after the first one. -/
def sendRest : Nat → Ipv4Header → Nat → List Byte → Option (List (List Byte))
  | 0, _, _, _ => none
  | fuel + 1, header, fragmentOffset, message =>
    if ipv4FragSize < message.length then
      (ipv4Xmt header [] message ipv4FragSize).bind fun sent =>
        let fragmentOffset := (fragmentOffset + ipv4FragOffInc) % 2 ^ 16
        let header := { sent.1 with fragmentFields := htons fragmentOffset }
        (sendRest fuel header fragmentOffset (message.drop ipv4FragSize)).map fun packets =>
          sent.2 :: packets
    else
      let header := { header with fragmentFields := header.fragmentFields &&& ~~~0x20 }
      (ipv4Xmt header [] message message.length).map fun sent => [sent.2]

/-- The header that `Ip4Send` begins with. -/
def startHeader (mayFrag : Bool) (prot : Byte) (srcIp destIp : Ip) (id : BitVec 16) :
    Ipv4Header where
  versionIhl := 0
  typeOfService := 0
  totalLength := 0
  id := id
  fragmentFields := if mayFrag then 0 else setFirstByte 0 0x40
  timeToLive := 16
  protocol := prot
  headerChecksum := 0
  srcAddr := srcIp
  destAddr := destIp

/-- `Ip4Send`: the status and the packets for `SendPacket`. -/
def ip4Send (A : Arch) (mayFrag : Bool) (prot : Byte) (srcIp destIp : Ip) (id : BitVec 16)
    (protHdr message : List Byte) : Option (Status × List (List Byte)) :=
  let totDataLength := protHdr.length + message.length
  if maxIpv4DataSize < totDataLength then some (.badBufferSize, [])
  else
    let header := startHeader mayFrag prot srcIp destIp id
    if maxIpv4FrameDataSize < totDataLength then
      if ¬mayFrag then some (.badBufferSize, [])
      else
        let header := { header with fragmentFields := setFirstByte header.fragmentFields 0x20 }
        let dataLengthSent := A.sub ipv4FragSize protHdr.length
        (ipv4Xmt header protHdr message dataLengthSent).bind fun sent =>
          let fragmentOffset := 0x2000 + ipv4FragOffInc
          let header := { sent.1 with fragmentFields := htons fragmentOffset }
          (sendRest (message.length + 1) header fragmentOffset
            (message.drop dataLengthSent)).map fun packets => (.success, sent.2 :: packets)
    else (ipv4Xmt header protHdr message message.length).map fun sent => (.success, [sent.2])

/-- A call of `UdpWrite`, and the `Id` that it draws. The UDP length fits its field. -/
structure Datagram where
  srcIp : Ip
  destIp : Ip
  srcPort : Port
  destPort : Port
  id : BitVec 16
  header : List Byte
  payload : List Byte
  fits : udpv4HeaderSize + header.length + payload.length ≤ 65535

/-- `UDPV4_PSEUDO_HEADER` -/
def pseudoHeader (srcIp destIp : Ip) (totalLength : BitVec 16) : List Byte :=
  longBytes srcIp ++ longBytes destIp ++ [0, protUdp] ++ wordBytes totalLength

namespace Datagram

def totalLength (d : Datagram) : Nat := udpv4HeaderSize + d.header.length + d.payload.length

/-- `UDPV4_HEADER` with a checksum. -/
def udpHeader (d : Datagram) (checksum : BitVec 16) : List Byte :=
  wordBytes (htons d.srcPort.toNat) ++ wordBytes (htons d.destPort.toNat) ++
    wordBytes (htons d.totalLength) ++ wordBytes checksum

def checksum (d : Datagram) : BitVec 16 :=
  let checksum := ipChecksum2
    (pseudoHeader d.srcIp d.destIp (htons d.totalLength) ++ d.udpHeader 0 ++ d.header) d.payload
  if checksum = 0 then 0xffff else checksum

end Datagram

/-- `UdpWrite` with `EFI_PXE_BASE_CODE_UDP_OPFLAGS_MAY_FRAGMENT`. -/
def udpWrite (A : Arch) (d : Datagram) : Option (Status × List (List Byte)) :=
  if transmitRoom < ipv4HeaderSize + udpv4HeaderSize + d.header.length then none
  else ip4Send A true protUdp d.srcIp d.destIp d.id (d.udpHeader d.checksum ++ d.header) d.payload

/-! ## Receiving

A packet in the receive buffer is the memory from its IP header on. -/

/-- `NTOHS` of two bytes. -/
def ntohs (first second : Byte) : Nat := first.toNat * 256 + second.toNat

def readLong (packet : Nat → Byte) (pos : Nat) : BitVec 32 :=
  BitVec.ofNat 32 (leNat (bytesAt packet pos 4))

/-- What `UdpRead` is given to select a packet. -/
structure Listener where
  anySrcIp : Bool
  anyDestIp : Bool
  anySrcPort : Bool
  anyDestPort : Bool
  useFilter : Bool
  srcIp : Option Ip
  destIp : Option Ip
  srcPort : Option Port
  destPort : Option Port
  stationIp : Ip
  /-- `IPgood`, on the destination address. -/
  ipGood : Ip → Bool

/-- The variables of `IpReceive`, and what its pointers point to. -/
structure Assembly where
  srcIp : Ip
  destIp : Ip
  expectedPacketLength : Nat
  gotFirstFragment : Bool
  gotLastFragment : Bool
  fragmentCount : Nat
  byteCount : Nat
  id : Nat
  header : List Byte
  message : Nat → Byte

inductive IpResult where
  | success (length : Nat)
  | bufferTooSmall
  | timeout
  | icmpError
  /-- The header is longer than what it is copied to. -/
  | overrun

/-- One turn of the loop of `IpReceive`. -/
inductive Turn where
  | next (a : Assembly)
  | done (result : IpResult) (a : Assembly)

/-- `EfiCopyMem` -/
def copyMem (memory : Nat → Byte) (pos : Nat) (packet : Nat → Byte) (start n : Nat) :
    Nat → Byte := fun i =>
  if pos ≤ i ∧ i < pos + n then packet (start + (i - pos)) else memory i

/-- `IPV4_HEADER_LENGTH` -/
def ipHeaderLength (packet : Nat → Byte) : Nat := (packet 0 &&& 0xf).toNat <<< 2

/-- The filters, behind those for the protocol. -/
def Listener.wants (l : Listener) (a : Assembly) (packet : Nat → Byte) : Bool :=
  (l.anySrcIp || a.srcIp = readLong packet 12) &&
    if l.useFilter then l.ipGood (readLong packet 16)
    else l.anyDestIp || a.destIp = readLong packet 16

/-- The end of a turn, with a packet that passed the filters. `hdrRoom` is what the caller has for
the header. -/
def assemble (A : Arch) (hdrSize hdrRoom messageLength : Nat) (a : Assembly)
    (packet : Nat → Byte) : Turn :=
  let nextHdr := ipHeaderLength packet
  let dataLength := A.sub (ntohs (packet 2) (packet 3)) nextHdr
  let fflds := ntohs (packet 6) (packet 7)
  let fragmentOffset := fflds % 2 ^ 13 * 8
  let first : Bool := fragmentOffset = 0
  let last : Bool := fflds / 0x2000 % 2 = 0
  if first ∧ hdrRoom < hdrSize then .done .overrun a
  else
    let header := if first then bytesAt packet nextHdr hdrSize else a.header
    let nextHdr := if first then nextHdr + hdrSize else nextHdr
    let dataLength := if first then A.sub dataLength hdrSize else dataLength
    let fragmentOffset := if first then fragmentOffset else A.sub fragmentOffset hdrSize
    let a := { a with
      fragmentCount := a.fragmentCount + 1
      gotFirstFragment := a.gotFirstFragment || first
      gotLastFragment := a.gotLastFragment || last
      header := header
      expectedPacketLength :=
        if last then A.add fragmentOffset dataLength else a.expectedPacketLength }
    if messageLength < A.add fragmentOffset dataLength then .done .bufferTooSmall a
    else
      let a := { a with
        message := copyMem a.message fragmentOffset packet nextHdr dataLength
        byteCount := A.add a.byteCount dataLength }
      if a.gotFirstFragment ∧ a.gotLastFragment ∧ a.expectedPacketLength ≤ a.byteCount then
        .done (.success a.expectedPacketLength) a
      else .next a

/-- A turn of `IpReceive` with an IP packet. -/
def receivePacket (A : Arch) (l : Listener) (prot : Byte) (hdrSize hdrRoom messageLength : Nat)
    (a : Assembly) (packet : Nat → Byte) : Turn :=
  let id := ntohs (packet 5) (packet 4)
  if (packet 0 >>> 4) ≠ 4 then .next a
  else if ipChecksum (bytesAt packet 0 (ipHeaderLength packet)) ≠ 0 then .next a
  else if packet 9 = 1 then
    if packet (ipHeaderLength packet) ∈ ([3, 4, 11, 12] : List Byte) then .done .icmpError a
    else .next a
  else if packet 9 ≠ prot then .next a
  else if ¬l.wants a packet then .next a
  else if a.fragmentCount = 0 then
    assemble A hdrSize hdrRoom messageLength
      { a with id := id, destIp := readLong packet 16, srcIp := readLong packet 12 } packet
  else if a.id ≠ id then .next a
  else assemble A hdrSize hdrRoom messageLength a packet

/-- `IpReceive`: its result, and the packets that it has not read. -/
def ipReceive (A : Arch) (l : Listener) (prot : Byte) (hdrSize hdrRoom messageLength : Nat) :
    Assembly → List (Nat → Byte) → IpResult × Assembly × List (Nat → Byte)
  | a, [] => (.timeout, a, [])
  | a, packet :: packets =>
    match receivePacket A l prot hdrSize hdrRoom messageLength a packet with
    | .next a => ipReceive A l prot hdrSize hdrRoom messageLength a packets
    | .done result a => (result, a, packets)

/-- What `UdpRead` gives back: its status, the protocol header where it is written, and
`*BufferSizePtr` with the buffer. -/
inductive UdpResult where
  | returned (status : Status) (header : Option (List Byte)) (bufferSize : Nat)
    (buffer : Nat → Byte)
  | icmpError
  | overrun

/-- What the structure that `UdpRead` receives its headers in has for the protocol header. -/
abbrev protHdrRoom : Nat := 64

/-- The filters for the ports, on `Hdrs.Udpv4Header`. -/
def Listener.wantsPorts (l : Listener) (header : List Byte) : Bool :=
  let port (i : Nat) : Port :=
    BitVec.ofNat 16 (ntohs (header[i]?.getD 0) (header[i + 1]?.getD 0))
  (l.anySrcPort || l.srcPort = some (port 0)) && (l.anyDestPort || l.destPort = some (port 2))

/-- The checksum of what has been received, unless its field is 0. -/
def checksumRight (a : Assembly) (length : Nat) : Bool :=
  let checksum := slice a.header 6 2
  let header := if checksum = [0xff, 0xff] then splice a.header 6 [0, 0] else a.header
  let pseudo := longBytes a.srcIp ++ longBytes a.destIp ++ [0, protUdp] ++ slice a.header 4 2
  checksum = [0, 0] || ipChecksum2 (pseudo ++ header) (bytesAt a.message 0 length) = 0

/-- `IpReceive` begins. -/
def Assembly.start (a : Assembly) : Assembly :=
  { a with
    expectedPacketLength := 0, gotFirstFragment := false, gotLastFragment := false
    fragmentCount := 0, byteCount := 0, id := 0 }

/-- The loop of `UdpRead`. -/
def udpReadLoop (A : Arch) (l : Listener) (headerSize bufferSize : Nat) :
    Nat → Assembly → List (Nat → Byte) → UdpResult
  | 0, a, _ => .returned .timeout none bufferSize a.message
  | fuel + 1, a, packets =>
    let received := ipReceive A l protUdp (headerSize + udpv4HeaderSize)
      (udpv4HeaderSize + protHdrRoom) bufferSize a.start packets
    let a := received.2.1
    match received.1 with
    | .overrun => .overrun
    | .icmpError => .icmpError
    | .timeout => .returned .timeout none bufferSize a.message
    | .bufferTooSmall =>
      if ¬l.wantsPorts a.header then
        udpReadLoop A l headerSize bufferSize fuel a received.2.2
      else
        .returned .bufferTooSmall (some (slice a.header udpv4HeaderSize headerSize)) bufferSize
          a.message
    | .success length =>
      if ¬l.wantsPorts a.header then
        udpReadLoop A l headerSize bufferSize fuel a received.2.2
      else if ¬checksumRight a length then .returned .deviceError none length a.message
      else
        .returned .success (some (slice a.header udpv4HeaderSize headerSize)) length a.message

/-- `UdpRead` begins. `hdrs` is on its stack; `TmpSrcIp`, which it does not set, is only used with
`ANY_SRC_IP`. -/
def Listener.assembly (l : Listener) (hdrs : List Byte) (buffer : Nat → Byte) : Assembly where
  srcIp := l.srcIp.getD 0
  destIp := l.destIp.getD l.stationIp
  expectedPacketLength := 0
  gotFirstFragment := false
  gotLastFragment := false
  fragmentCount := 0
  byteCount := 0
  id := 0
  header := hdrs
  message := buffer

/-- `UdpRead`, with the packets that arrive until the timeout. -/
def udpRead (A : Arch) (l : Listener) (headerSize bufferSize : Nat) (hdrs : List Byte)
    (buffer : Nat → Byte) (packets : List (Nat → Byte)) : UdpResult :=
  if ¬l.anySrcIp ∧ l.srcIp = none ∨ ¬l.anySrcPort ∧ l.srcPort = none ∨
      ¬l.anyDestPort ∧ l.destPort = none then
    .returned .invalidParameter none bufferSize buffer
  else
    udpReadLoop A l headerSize bufferSize (packets.length + 1) (l.assembly hdrs buffer) packets

/-! ## What a datagram comes to -/

/-- A number in network order. -/
def bigEndian (packet : List Byte) (pos : Nat) : Nat :=
  ntohs (packet[pos]?.getD 0) (packet[pos + 1]?.getD 0)

/-- A packet of this datagram, as the standard has it. -/
structure WellFormed (d : Datagram) (packet : List Byte) : Prop where
  version : packet.head? = some 0x45
  length : bigEndian packet 2 = packet.length
  longest : packet.length ≤ maxFrameDataSize
  identification : slice packet 4 2 = wordBytes d.id
  protocol : packet[9]? = some protUdp
  checksum : ipChecksum (packet.take ipv4HeaderSize) = 0
  addresses : slice packet 12 8 = longBytes d.srcIp ++ longBytes d.destIp

/-- The packets cover the message from an offset on, one behind the other, and only the last one
has no more fragments behind it. -/
def Tiles : Nat → List Byte → List (List Byte) → Prop
  | _, _, [] => False
  | offset, message, packet :: packets =>
    let data := packet.drop ipv4HeaderSize
    bigEndian packet 6 = (if packets = [] then 0 else 0x2000) + offset / 8 ∧ offset % 8 = 0 ∧
      match packets with
      | [] => data = message
      | _ :: _ => data <+: message ∧
          Tiles (offset + data.length) (message.drop data.length) packets

/-- The listener asks for this datagram. -/
structure Listener.Wants (l : Listener) (d : Datagram) : Prop where
  srcIp : l.srcIp = some d.srcIp ∨ l.anySrcIp = true
  destIp : if l.useFilter then l.ipGood d.destIp = true
    else l.anyDestIp = true ∨ l.destIp.getD l.stationIp = d.destIp
  srcPort : l.srcPort = some d.srcPort ∨ l.anySrcPort = true
  destPort : l.destPort = some d.destPort ∨ l.anyDestPort = true

/-- The packet is in the receive buffer, whatever is behind it. -/
def Delivers (buffer : Nat → Byte) (packet : List Byte) : Prop :=
  bytesAt buffer 0 packet.length = packet

/-- In whatever order the packets come, `UdpRead` gives the datagram back. -/
def ReadsBack (A : Arch) (d : Datagram) (packets : List (List Byte)) : Prop :=
  ∀ (l : Listener) (bufferSize : Nat) (hdrs : List Byte) (buffer : Nat → Byte)
    (order : List (List Byte)) (arrived : List (Nat → Byte)),
    l.Wants d → d.payload.length ≤ bufferSize → order.Perm packets →
    List.Forall₂ Delivers arrived order →
    ∃ message, udpRead A l d.header.length bufferSize hdrs buffer arrived =
        .returned .success (some d.header) d.payload.length message ∧
      bytesAt message 0 d.payload.length = d.payload

/-- One `UdpWrite` sends what one `UdpRead` receives. -/
def RoundTrip (A : Arch) (d : Datagram) : Prop :=
  ∃ packets, udpWrite A d = some (.success, packets) ∧
    (∀ packet ∈ packets, WellFormed d packet) ∧
    Tiles 0 (d.udpHeader d.checksum ++ d.header ++ d.payload) packets ∧ ReadsBack A d packets

end EfiCore.Pxe
