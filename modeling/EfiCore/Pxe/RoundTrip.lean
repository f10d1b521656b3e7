import EfiCore.Pxe.Fragments
import EfiCore.Pxe.Receive
import Mathlib.Data.List.Permutation

/-! # From `UdpWrite` to `UdpRead`

A datagram comes back exactly if its protocol header has room and it fits one packet, or two of
which the first one happens to have the checksum zero.
-/

namespace EfiCore.Pxe

open EfiCore.Lib

variable {A : Arch} {d : Datagram} {l : Listener} {a : Assembly} {packet : Nat → Byte}
  {hdrSize hdrRoom messageLength headerSize bufferSize fuel : Nat} {prot : Byte}
  {packets : List (Nat → Byte)}

/-! ## The room for the protocol header -/

/-- A first fragment has been taken only if its header has room. -/
def Safe (hdrSize hdrRoom : Nat) (a : Assembly) : Prop :=
  a.gotFirstFragment = true → hdrSize ≤ hdrRoom

/-- What a turn leaves. -/
def Turn.Safe (hdrSize hdrRoom : Nat) : Turn → Prop
  | .next a => Pxe.Safe hdrSize hdrRoom a
  | .done (.success _) _ => hdrSize ≤ hdrRoom
  | .done _ _ => True

theorem Turn.safe_ite {c : Prop} [Decidable c] {t t' : Turn} (ht : c → t.Safe hdrSize hdrRoom)
    (ht' : ¬c → t'.Safe hdrSize hdrRoom) : (if c then t else t').Safe hdrSize hdrRoom := by
  split
  · exact ht ‹_›
  · exact ht' ‹_›

theorem assemble_safe (h : Safe hdrSize hdrRoom a) :
    (assemble A hdrSize hdrRoom messageLength a packet).Safe hdrSize hdrRoom := by
  rw [assemble]
  dsimp only
  refine Turn.safe_ite (fun _ => trivial) fun hroom => ?_
  have hsafe : (a.gotFirstFragment ||
      decide (ntohs (packet 6) (packet 7) % 2 ^ 13 * 8 = 0)) = true → hdrSize ≤ hdrRoom := by
    intro hfirst
    rcases Bool.or_eq_true _ _ ▸ hfirst with hold | hnew
    · exact h hold
    · by_contra hlt
      exact hroom ⟨hnew, Nat.lt_of_not_le hlt⟩
  refine Turn.safe_ite (fun _ => trivial) fun _ => ?_
  exact Turn.safe_ite (fun hdone => hsafe hdone.1) fun _ => hsafe

theorem receivePacket_safe (h : Safe hdrSize hdrRoom a) :
    (receivePacket A l prot hdrSize hdrRoom messageLength a packet).Safe hdrSize hdrRoom := by
  rw [receivePacket]
  split
  · exact h
  split
  · exact h
  split
  · split
    · exact trivial
    · exact h
  split
  · exact h
  split
  · exact h
  split
  · exact assemble_safe h
  split
  · exact h
  · exact assemble_safe h

theorem ipReceive_room {length : Nat} (h : Safe hdrSize hdrRoom a)
    (hr : (ipReceive A l prot hdrSize hdrRoom messageLength a packets).1 = .success length) :
    hdrSize ≤ hdrRoom := by
  induction packets generalizing a with
  | nil => exact absurd hr (by simp [ipReceive])
  | cons packet packets ih =>
    have hturn : (receivePacket A l prot hdrSize hdrRoom messageLength a packet).Safe
        hdrSize hdrRoom := receivePacket_safe h
    rw [ipReceive] at hr
    cases hcase : receivePacket A l prot hdrSize hdrRoom messageLength a packet with
    | next a' =>
      rw [hcase] at hr hturn
      exact ih hturn hr
    | done result a' =>
      rw [hcase] at hr hturn
      dsimp only at hr
      rw [hr] at hturn
      exact hturn

theorem udpReadLoop_room {header : Option (List Byte)} {size : Nat}
    {buffer : Nat → Byte}
    (hr : udpReadLoop A l headerSize bufferSize fuel a packets =
      .returned .success header size buffer) : headerSize ≤ protHdrRoom := by
  induction fuel generalizing a packets with
  | zero => exact absurd hr (by simp [udpReadLoop])
  | succ fuel ih =>
    rw [udpReadLoop] at hr
    have hstart : Safe (headerSize + udpv4HeaderSize) (udpv4HeaderSize + protHdrRoom) a.start :=
      fun hfirst => absurd hfirst (by simp [Assembly.start])
    split at hr
    · exact absurd hr (by simp)
    · exact absurd hr (by simp)
    · exact absurd hr (by simp)
    · split at hr
      · exact ih hr
      · exact absurd hr (by simp)
    · rename_i length hsuccess
      have hle := ipReceive_room hstart hsuccess
      rw [Nat.add_comm] at hle
      exact Nat.le_of_add_le_add_left hle

/-! ## The checksum of the datagram -/

theorem wordBytes_inj {v w : BitVec 16} : wordBytes v = wordBytes w ↔ v = w := by
  constructor
  · intro h
    have hv := wordBytes_toNat v
    have hw := wordBytes_toNat w
    simp only [wordBytes, List.cons.injEq, and_true] at h
    rw [h.1, h.2] at hv
    exact BitVec.eq_of_toNat_eq (hv.symm.trans hw)
  · exact congrArg wordBytes

theorem wordBytes_zero : wordBytes 0 = [0, 0] := by decide

theorem wordBytes_ones : wordBytes 0xffff = [0xff, 0xff] := by decide

/-- What the checksum of a datagram is computed over, apart from the payload. -/
def Datagram.headers (d : Datagram) (checksum : BitVec 16) : List Byte :=
  pseudoHeader d.srcIp d.destIp (htons d.totalLength) ++ (d.udpHeader checksum ++ d.header)

theorem length_headers (d : Datagram) (checksum : BitVec 16) :
    (d.headers checksum).length = 20 + d.header.length := by
  rw [Datagram.headers, ← List.append_assoc, List.length_append]
  rfl

theorem wordSum_headers (d : Datagram) (checksum : BitVec 16) :
    wordSum (d.headers checksum) = wordSum (d.headers 0) + checksum.toNat := by
  have hword := wordBytes_toNat checksum
  have hlow : ((0 : BitVec 16).setWidth 8).toNat = 0 := rfl
  have hhigh : (((0 : BitVec 16) >>> 8).setWidth 8).toNat = 0 := rfl
  simp only [Datagram.headers, pseudoHeader, Datagram.udpHeader, wordBytes, longBytes,
    List.cons_append, List.nil_append, wordSum, hlow, hhigh]
  omega

/-- The sum without its checksum. -/
abbrev Datagram.sum (d : Datagram) : Nat := wordSum (d.headers 0) + wordSum d.payload

theorem sum_pos (d : Datagram) : 0 < d.sum := by
  have hmem : protUdp ∈ d.headers 0 := by
    simp [Datagram.headers, pseudoHeader]
  exact Nat.add_pos_left (wordSum_pos hmem (by decide)) _

theorem sum_lt (d : Datagram) : d.sum + 65535 < 2 ^ 32 := by
  have hfits := d.fits
  have hsizes := sizes
  have hle := wordSum_le (d.headers 0)
  have hle' := wordSum_le d.payload
  rw [length_headers] at hle
  rw [Datagram.sum]
  omega

theorem ipChecksum2_headers (hroom : d.header.length ≤ 64) (checksum : BitVec 16) :
    (ipChecksum2 (d.headers checksum) d.payload).toNat = onesCheck (d.sum + checksum.toNat) := by
  have hfits := d.fits
  rw [ipChecksum2_toNat (by rw [length_headers]; omega) (by omega), wordSum_headers,
    Nat.add_right_comm]

/-- The checksum as it is computed, before zero is replaced. -/
theorem checksum_cases (hroom : d.header.length ≤ 64) :
    onesCheck d.sum = 0 ∧ d.checksum = 0xffff ∨
      d.checksum.toNat = onesCheck d.sum ∧ d.checksum ≠ 0 ∧ d.checksum ≠ 0xffff := by
  have hsum := ipChecksum2_headers hroom 0
  have hlt := onesCheck_lt (x := d.sum) (by have := sum_lt d; omega) (sum_pos d)
  have hzero : (0 : BitVec 16).toNat = 0 := rfl
  rw [hzero, Nat.add_zero, Datagram.headers, ← List.append_assoc] at hsum
  by_cases hnil : ipChecksum2 (pseudoHeader d.srcIp d.destIp (htons d.totalLength) ++
      d.udpHeader 0 ++ d.header) d.payload = 0
  · left
    rw [hnil] at hsum
    refine ⟨hsum.symm, ?_⟩
    rw [Datagram.checksum, if_pos hnil]
  · right
    have hchecksum : d.checksum = ipChecksum2 (pseudoHeader d.srcIp d.destIp
        (htons d.totalLength) ++ d.udpHeader 0 ++ d.header) d.payload := by
      rw [Datagram.checksum, if_neg hnil]
    rw [← hchecksum] at hsum hnil
    refine ⟨hsum, hnil, fun hones => ?_⟩
    have htop : (0xffff : BitVec 16).toNat = 65535 := rfl
    rw [hones, htop] at hsum
    omega

/-! ## What `UdpRead` makes of it -/

/-- The datagram in the variables of `UdpRead`. -/
structure Received (d : Datagram) (a : Assembly) : Prop where
  srcIp : a.srcIp = d.srcIp
  destIp : a.destIp = d.destIp
  header : a.header = d.udpHeader d.checksum ++ d.header
  message : bytesAt a.message 0 d.payload.length = d.payload

theorem Received.wantsPorts (h : Received d a) (hw : l.Wants d) :
    l.wantsPorts a.header = true := by
  have hport (p : Port) : BitVec.ofNat 16
      (ntohs ((htons p.toNat).setWidth 8) ((htons p.toNat >>> 8).setWidth 8)) = p := by
    rw [ntohs_htons p.isLt, BitVec.ofNat_toNat, BitVec.setWidth_eq]
  have hsrc := hport d.srcPort
  have hdest := hport d.destPort
  rw [Listener.wantsPorts, h.header]
  change ((l.anySrcPort || decide (l.srcPort = some (BitVec.ofNat 16 _))) &&
    (l.anyDestPort || decide (l.destPort = some (BitVec.ofNat 16 _)))) = true
  rw [Bool.and_eq_true, Bool.or_eq_true, Bool.or_eq_true, decide_eq_true_eq, decide_eq_true_eq]
  exact ⟨hw.srcPort.symm.imp_right fun h => h.trans (congrArg some hsrc.symm),
    hw.destPort.symm.imp_right fun h => h.trans (congrArg some hdest.symm)⟩

theorem Received.checksumRight (h : Received d a) (hroom : d.header.length ≤ 64) :
    checksumRight a d.payload.length = true := by
  have hfield : slice (d.udpHeader d.checksum ++ d.header) 6 2 = wordBytes d.checksum := rfl
  have hlength : slice (d.udpHeader d.checksum ++ d.header) 4 2 =
      wordBytes (htons d.totalLength) := rfl
  have hcleared : splice (d.udpHeader d.checksum ++ d.header) 6 [0, 0] =
      d.udpHeader 0 ++ d.header := rfl
  rw [Pxe.checksumRight, h.header, h.srcIp, h.destIp, h.message, hfield, hlength, hcleared,
    Bool.or_eq_true, decide_eq_true_eq, ← wordBytes_zero, wordBytes_inj, ← wordBytes_ones]
  refine .inr (decide_eq_true ?_)
  rcases checksum_cases hroom with ⟨hzero, hones⟩ | ⟨hsum, -, hne⟩
  · rw [if_pos (congrArg wordBytes hones)]
    have hcheck := ipChecksum2_headers hroom 0
    have hnil : (0 : BitVec 16).toNat = 0 := rfl
    rw [hnil, Nat.add_zero, hzero] at hcheck
    exact BitVec.eq_of_toNat_eq hcheck
  · rw [if_neg fun h => hne (wordBytes_inj.mp h)]
    refine BitVec.eq_of_toNat_eq ((ipChecksum2_headers hroom d.checksum).trans ?_)
    rw [hsum]
    exact check_passes (sum_lt d) (sum_pos d)

/-! ## The runs of `UdpRead` -/

section Runs

variable {hdrs : List Byte} {buffer : Nat → Byte} {arrived : List (Nat → Byte)} {a' : Assembly}

theorem Listener.Wants.awaits (h : l.Wants d) : Awaits l d (l.assembly hdrs buffer).start where
  srcIp := by
    rcases h.srcIp with hsrc | hany
    · right
      rw [Assembly.start, Listener.assembly, hsrc, Option.getD_some]
    · exact .inl hany
  destIp := h.destIp
  same hcount := absurd rfl hcount

/-- `IpReceive` has put the datagram together. -/
theorem udpRead_received (hw : l.Wants d) (hroom : d.header.length ≤ 64)
    (hreceive : ipReceive A l protUdp (d.header.length + udpv4HeaderSize)
      (udpv4HeaderSize + protHdrRoom) bufferSize (l.assembly hdrs buffer).start arrived =
        (.success d.payload.length, a', []))
    (h : Received d a') :
    udpRead A l d.header.length bufferSize hdrs buffer arrived =
      .returned .success (some d.header) d.payload.length a'.message := by
  have hvalid : ¬(¬l.anySrcIp = true ∧ l.srcIp = none ∨
      ¬l.anySrcPort = true ∧ l.srcPort = none ∨ ¬l.anyDestPort = true ∧ l.destPort = none) := by
    have hsrcIp := hw.srcIp
    have hsrcPort := hw.srcPort
    have hdestPort := hw.destPort
    rintro (⟨hany, hnone⟩ | ⟨hany, hnone⟩ | ⟨hany, hnone⟩)
    · exact absurd hsrcIp (by simp [hany, hnone])
    · exact absurd hsrcPort (by simp [hany, hnone])
    · exact absurd hdestPort (by simp [hany, hnone])
  have hheader : slice (d.udpHeader d.checksum ++ d.header) udpv4HeaderSize d.header.length =
      d.header := List.take_length
  have hports := h.wantsPorts hw
  have hchecksum := h.checksumRight hroom
  rw [udpRead, if_neg hvalid, udpReadLoop]
  simp only [hreceive, hports, hchecksum, not_true, if_false]
  rw [h.header, hheader]

/-- One packet has everything. -/
theorem receive_single {m : Nat → Byte} (hw : l.Wants d) (hroom : d.header.length ≤ 64)
    (hfit : d.payload.length ≤ bufferSize)
    (hm : Arrived d m 0 ((d.udpHeader d.checksum ++ d.header) ++ d.payload)) :
    ∃ a', ipReceive A l protUdp (d.header.length + udpv4HeaderSize)
        (udpv4HeaderSize + protHdrRoom) bufferSize (l.assembly hdrs buffer).start [m] =
          (.success d.payload.length, a', []) ∧ Received d a' := by
  have hsizes := sizes
  have hfits := d.fits
  have hlength := length_protHdr d
  have hsize : d.header.length + udpv4HeaderSize =
      (d.udpHeader d.checksum ++ d.header).length := by
    rw [hlength, Nat.add_comm]
  have hpart : Holds m (ipv4HeaderSize + (d.udpHeader d.checksum ++ d.header).length) d.payload :=
    (holds_append.mp hm.body).2
  refine ⟨((l.assembly hdrs buffer).start.of d).put true true
    (d.udpHeader d.checksum ++ d.header) 0
    (ipv4HeaderSize + (d.udpHeader d.checksum ++ d.header).length) d.payload.length m, ?_, ?_⟩
  · rw [ipReceive, receivePacket_arrived hm hw.awaits, hsize,
      assemble_first hm rfl (by rw [hlength, protHdrRoom]; omega) hfit (by rw [hlength]; omega)
        (by simp [Assembly.of, Assembly.start]; omega)]
    simp [Assembly.turn, Assembly.put, Assembly.of, Assembly.start]
  · exact ⟨rfl, rfl, rfl, bytesAt_copyMem.trans hpart⟩

/-- The state after a packet still awaits the others. -/
theorem Awaits.put {first last : Bool} {header : List Byte} {pos start n : Nat}
    (h : Awaits l d a) : Awaits l d ((a.of d).put first last header pos start n packet) where
  srcIp := .inr rfl
  destIp := by
    have hdest := h.destIp
    cases hfilter : l.useFilter with
    | true => simpa [hfilter] using hdest
    | false => simp [Assembly.put, Assembly.of]
  same _ := ⟨rfl, rfl, rfl⟩

/-- The two packets of a datagram in the receive buffer. -/
structure ArrivedTwo (d : Datagram) (m m' : Nat → Byte) : Prop where
  first : Arrived d m 0x2000
    ((d.udpHeader d.checksum ++ d.header) ++ d.payload.take (firstLength d))
  last : Arrived d m' ipv4FragOffInc (d.payload.drop (firstLength d))
  long : firstLength d ≤ d.payload.length

section Two

variable {m m' : Nat → Byte}

theorem assemble_two_first (h : ArrivedTwo d m m') (hroom : d.header.length ≤ 64)
    (hfit : d.payload.length ≤ bufferSize) (hcount : a.byteCount ≤ 65535) :
    assemble A (d.header.length + udpv4HeaderSize) (udpv4HeaderSize + protHdrRoom) bufferSize a
        m = (a.put true false (d.udpHeader d.checksum ++ d.header) 0
          (ipv4HeaderSize + (d.udpHeader d.checksum ++ d.header).length)
          (firstLength d) m).turn := by
  have hsizes := sizes
  have hfits := d.fits
  have hlong := h.long
  have hlength := length_protHdr d
  have hsize : d.header.length + udpv4HeaderSize =
      (d.udpHeader d.checksum ++ d.header).length := by
    rw [hlength, Nat.add_comm]
  have htake : (d.payload.take (firstLength d)).length = firstLength d := by
    rw [List.length_take, Nat.min_eq_left hlong]
  have hheader : (d.udpHeader d.checksum ++ d.header).length ≤ udpv4HeaderSize + protHdrRoom := by
    rw [hlength]
    exact Nat.add_le_add_left hroom _
  have hpart : (d.payload.take (firstLength d)).length ≤ bufferSize := by
    rw [htake]
    exact Nat.le_trans hlong hfit
  have hput := assemble_first (A := A) (a := a) h.first rfl hheader hpart
    (by rw [hlength, htake]; omega) (by rw [htake]; omega)
  rw [htake] at hput
  rw [hsize]
  exact hput

theorem assemble_two_last (h : ArrivedTwo d m m') (hroom : d.header.length ≤ 64)
    (hfit : d.payload.length ≤ bufferSize) (hcount : a.byteCount ≤ 65535) :
    assemble A (d.header.length + udpv4HeaderSize) (udpv4HeaderSize + protHdrRoom) bufferSize a
        m' = (a.put false true a.header (firstLength d) ipv4HeaderSize
          (d.payload.length - firstLength d) m').turn := by
  have hsizes := sizes
  have hfits := d.fits
  have hlong := h.long
  have hdrop : (d.payload.drop (firstLength d)).length = d.payload.length - firstLength d :=
    List.length_drop
  have hpos : d.header.length + udpv4HeaderSize + firstLength d =
      ipv4FragOffInc % 2 ^ 13 * 8 := by
    have hoffset : ipv4FragOffInc % 2 ^ 13 * 8 = ipv4FragSize := rfl
    rw [hoffset, firstLength]
    omega
  have hpart : firstLength d + (d.payload.drop (firstLength d)).length ≤ bufferSize := by
    rw [hdrop]
    omega
  have hput : assemble A _ (udpv4HeaderSize + protHdrRoom) _ a _ = _ :=
    assemble_later h.last hpos (by decide) hpart (by rw [hdrop, firstLength]; omega)
      (by rw [hdrop]; omega)
  rw [hdrop] at hput
  exact hput

/-- The payload from its two parts. -/
theorem payload_of_parts {message : Nat → Byte} (hlong : firstLength d ≤ d.payload.length)
    (hfirst : bytesAt message 0 (firstLength d) = d.payload.take (firstLength d))
    (hlast : bytesAt message (firstLength d) (d.payload.length - firstLength d) =
      d.payload.drop (firstLength d)) :
    bytesAt message 0 d.payload.length = d.payload := by
  have hlength : d.payload.length = firstLength d + (d.payload.length - firstLength d) := by
    omega
  rw [hlength, bytesAt_add, hfirst, Nat.zero_add, hlast, List.take_append_drop]

theorem ArrivedTwo.firstPart (h : ArrivedTwo d m m') :
    bytesAt m (ipv4HeaderSize + (d.udpHeader d.checksum ++ d.header).length) (firstLength d) =
      d.payload.take (firstLength d) := by
  have hpart := (holds_append.mp h.first.body).2
  rwa [Holds, List.length_take, Nat.min_eq_left h.long] at hpart

theorem ArrivedTwo.lastPart (h : ArrivedTwo d m m') :
    bytesAt m' ipv4HeaderSize (d.payload.length - firstLength d) =
      d.payload.drop (firstLength d) := by
  have hpart := h.last.body
  rwa [Holds, List.length_drop] at hpart

/-- In the order in which they were sent. -/
theorem receive_inOrder (h : ArrivedTwo d m m') (hw : l.Wants d) (hroom : d.header.length ≤ 64)
    (hfit : d.payload.length ≤ bufferSize) :
    ∃ a', ipReceive A l protUdp (d.header.length + udpv4HeaderSize)
        (udpv4HeaderSize + protHdrRoom) bufferSize (l.assembly hdrs buffer).start [m, m'] =
          (.success d.payload.length, a', []) ∧ Received d a' := by
  have hfits := d.fits
  have hlong := h.long
  have haw : Awaits l d (l.assembly hdrs buffer).start := hw.awaits
  have hcount : 0 + firstLength d ≤ 65535 := by omega
  rw [ipReceive, receivePacket_arrived h.first haw,
    assemble_two_first h hroom hfit (Nat.zero_le _), Assembly.turn,
    if_neg (by simp [Assembly.put, Assembly.of, Assembly.start])]
  dsimp only
  rw [ipReceive, receivePacket_arrived h.last haw.put, assemble_two_last h hroom hfit hcount,
    Assembly.turn, if_pos (by simp [Assembly.put, Assembly.of, Assembly.start])]
  refine ⟨_, Prod.ext (congrArg IpResult.success (Nat.add_sub_cancel' hlong)) rfl,
    ⟨rfl, rfl, rfl, ?_⟩⟩
  refine payload_of_parts hlong ?_ (bytesAt_copyMem.trans h.lastPart)
  exact (bytesAt_copyMem_of_disjoint (.inl (by omega))).trans
    (bytesAt_copyMem.trans h.firstPart)

/-- The last one first. -/
theorem receive_turned (h : ArrivedTwo d m m') (hw : l.Wants d) (hroom : d.header.length ≤ 64)
    (hfit : d.payload.length ≤ bufferSize) :
    ∃ a', ipReceive A l protUdp (d.header.length + udpv4HeaderSize)
        (udpv4HeaderSize + protHdrRoom) bufferSize (l.assembly hdrs buffer).start [m', m] =
          (.success d.payload.length, a', []) ∧ Received d a' := by
  have hfits := d.fits
  have hlong := h.long
  have haw : Awaits l d (l.assembly hdrs buffer).start := hw.awaits
  have hcount : 0 + (d.payload.length - firstLength d) ≤ 65535 := by omega
  have hall : firstLength d + (d.payload.length - firstLength d) ≤
      0 + (d.payload.length - firstLength d) + firstLength d := by omega
  rw [ipReceive, receivePacket_arrived h.last haw,
    assemble_two_last h hroom hfit (Nat.zero_le _), Assembly.turn,
    if_neg (by simp [Assembly.put, Assembly.of, Assembly.start])]
  dsimp only
  rw [ipReceive, receivePacket_arrived h.first haw.put, assemble_two_first h hroom hfit hcount,
    Assembly.turn, if_pos ⟨rfl, rfl, hall⟩]
  refine ⟨_, Prod.ext (congrArg IpResult.success (Nat.add_sub_cancel' hlong)) rfl,
    ⟨rfl, rfl, rfl, ?_⟩⟩
  refine payload_of_parts hlong (bytesAt_copyMem.trans h.firstPart) ?_
  exact (bytesAt_copyMem_of_disjoint (.inr (by omega))).trans
    (bytesAt_copyMem.trans h.lastPart)

end Two

end Runs

/-! ## One packet -/

theorem startHeader_of (d : Datagram) :
    HeaderOf d (startHeader true protUdp d.srcIp d.destIp d.id) :=
  ⟨rfl, rfl, rfl, rfl⟩

theorem fragmentHeader_of (d : Datagram) : HeaderOf d (fragmentHeader d) := ⟨rfl, rfl, rfl, rfl⟩

theorem secondHeader_of (d : Datagram) (w : BitVec 16) :
    HeaderOf d { secondHeader d with fragmentFields := w } :=
  ⟨rfl, rfl, rfl, rfl⟩

theorem length_datagram (d : Datagram) :
    ((d.udpHeader d.checksum ++ d.header) ++ d.payload).length = d.totalLength := by
  rw [List.length_append, length_protHdr, Datagram.totalLength]

theorem noFields : ntohs ((0 : BitVec 16).setWidth 8) (((0 : BitVec 16) >>> 8).setWidth 8) = 0 := by
  decide

/-- The last packet, or the only one. -/
theorem tiles_last {header : Ipv4Header} {body : List Byte} {offset : Nat}
    (hfields : bigEndian (header.bytes ++ body) 6 = offset / 8) (hoffset : offset % 8 = 0) :
    Tiles offset body [header.bytes ++ body] := by
  refine ⟨?_, hoffset, drop_bytes header body⟩
  rw [if_pos rfl, Nat.zero_add, hfields]

theorem roundTrip_single (hroom : d.header.length ≤ 64)
    (hshort : d.totalLength ≤ maxIpv4FrameDataSize) : RoundTrip A d := by
  have hsizes := sizes
  have hn : ipv4HeaderSize + d.totalLength =
      ipv4HeaderSize + ((d.udpHeader d.checksum ++ d.header) ++ d.payload).length := by
    rw [length_datagram]
  have hlongest : ipv4HeaderSize + d.totalLength ≤ maxFrameDataSize := by omega
  have hwell := sent_wellFormed (startHeader_of d) rfl hn hlongest
  have hwrite := udpWrite_single (A := A) hroom hshort
  rw [List.append_assoc] at hwrite
  refine ⟨_, hwrite, List.forall_mem_singleton.mpr hwell, ?_, ?_⟩
  · exact tiles_last ((bigEndian_fragmentFields _ _ _).trans noFields) rfl
  · intro l bufferSize hdrs buffer order arrived hw hfit horder harrived
    obtain rfl := List.perm_singleton.mp horder
    cases harrived with
    | cons hm hnil =>
      cases hnil
      have hone := arrived_of_delivers (startHeader_of d) rfl hn hlongest noFields hm
      obtain ⟨a', hreceive, hreceived⟩ := receive_single (A := A) hw hroom hfit hone
      exact ⟨a'.message, udpRead_received hw hroom hreceive hreceived, hreceived.message⟩

/-! ## Two packets -/

/-- The fragment fields of the second packet, where it is the last one. -/
abbrev lastFields : BitVec 16 := htons (0x2000 + ipv4FragOffInc) &&& ~~~0x20

theorem moreFields (d : Datagram) :
    ntohs ((fragmentHeader d).fragmentFields.setWidth 8)
      (((fragmentHeader d).fragmentFields >>> 8).setWidth 8) = 0x2000 := by
  rw [fragmentHeader_fields]
  decide

theorem restFields :
    ntohs (lastFields.setWidth 8) ((lastFields >>> 8).setWidth 8) = ipv4FragOffInc := by
  decide

/-- The first one of two. -/
theorem tiles_next {header : Ipv4Header} {body rest packet : List Byte}
    (hbody : body.length = ipv4FragSize)
    (hfields : bigEndian (header.bytes ++ body) 6 = 0x2000)
    (hrest : Tiles ipv4FragSize rest [packet]) :
    Tiles 0 (body ++ rest) [header.bytes ++ body, packet] := by
  refine ⟨?_, rfl, ?_⟩
  · rw [if_neg (List.cons_ne_nil _ _), hfields]
  · dsimp only
    rw [drop_bytes, List.drop_left, hbody, Nat.zero_add]
    exact ⟨List.prefix_append body rest, hrest⟩

/-- What the first packet holds behind its header. -/
def firstBody (d : Datagram) : List Byte :=
  (d.udpHeader d.checksum ++ d.header) ++ d.payload.take (firstLength d)

/-- The header of the second packet, where it is the last one. -/
def lastHeader (d : Datagram) : Ipv4Header := { secondHeader d with fragmentFields := lastFields }

def firstPacket (d : Datagram) : List Byte :=
  ((fragmentHeader d).sent (ipv4HeaderSize + ipv4FragSize)).bytes ++ firstBody d

def lastPacket (d : Datagram) : List Byte :=
  ((lastHeader d).sent (ipv4HeaderSize + (d.payload.drop (firstLength d)).length)).bytes ++
    d.payload.drop (firstLength d)

theorem udpWrite_two (hroom : d.header.length ≤ 64)
    (hlong : maxIpv4FrameDataSize < d.totalLength) (htwo : d.totalLength ≤ 2 * ipv4FragSize) :
    udpWrite A d = some (.success, [firstPacket d, lastPacket d]) := by
  have hsizes := sizes
  have hlast : (d.payload.drop (firstLength d)).length ≤ ipv4FragSize := by
    rw [Datagram.totalLength] at htwo
    rw [List.length_drop, firstLength]
    omega
  have hfit : ipv4HeaderSize + ([] : List Byte).length +
      (d.payload.drop (firstLength d)).length ≤ transmitRoom := by
    rw [List.length_nil]
    omega
  rw [udpWrite_several hroom hlong (by omega), sendRest_last hlast, ipv4Xmt_eq hfit, firstPacket,
    firstBody, lastPacket]
  simp only [Option.map_some, List.length_nil, Nat.add_zero, List.append_nil, List.take_length,
    List.append_assoc]
  rfl

theorem firstLength_le (hlong : maxIpv4FrameDataSize < d.totalLength) :
    firstLength d ≤ d.payload.length := by
  have hsizes := sizes
  rw [Datagram.totalLength] at hlong
  rw [firstLength]
  omega

theorem length_firstBody (hroom : d.header.length ≤ 64)
    (hlong : maxIpv4FrameDataSize < d.totalLength) : (firstBody d).length = ipv4FragSize := by
  have hsizes := sizes
  have hpayload := firstLength_le hlong
  rw [firstBody, List.length_append, length_protHdr, List.length_take,
    Nat.min_eq_left hpayload, firstLength]
  omega

theorem length_firstPacket (hroom : d.header.length ≤ 64)
    (hlong : maxIpv4FrameDataSize < d.totalLength) :
    ipv4HeaderSize + ipv4FragSize = ipv4HeaderSize + (firstBody d).length := by
  rw [length_firstBody hroom hlong]

theorem lastPacket_short (hroom : d.header.length ≤ 64)
    (htwo : d.totalLength ≤ 2 * ipv4FragSize) :
    ipv4HeaderSize + (d.payload.drop (firstLength d)).length ≤ maxFrameDataSize := by
  have hsizes := sizes
  rw [Datagram.totalLength] at htwo
  rw [List.length_drop, firstLength]
  omega

theorem tiles_two (hroom : d.header.length ≤ 64)
    (hlong : maxIpv4FrameDataSize < d.totalLength) :
    Tiles 0 ((d.udpHeader d.checksum ++ d.header) ++ d.payload) [firstPacket d, lastPacket d] := by
  have hlast : Tiles ipv4FragSize (d.payload.drop (firstLength d)) [lastPacket d] := by
    rw [lastPacket]
    exact tiles_last ((bigEndian_fragmentFields _ _ _).trans restFields) rfl
  have hmessage : (d.udpHeader d.checksum ++ d.header) ++ d.payload =
      firstBody d ++ d.payload.drop (firstLength d) := by
    rw [firstBody, List.append_assoc _ (d.payload.take _), List.take_append_drop]
  have hfields := (bigEndian_fragmentFields (fragmentHeader d) (ipv4HeaderSize + ipv4FragSize)
    (firstBody d)).trans (moreFields d)
  rw [hmessage, firstPacket]
  exact tiles_next (length_firstBody hroom hlong) hfields hlast

theorem lastHeader_checksum (hzero : ipChecksum (firstHeader d).bytes = 0) :
    (lastHeader d).headerChecksum = 0 :=
  (secondHeader_checksum d).trans hzero

/-- The two packets in the receive buffer. -/
theorem arrivedTwo {m m' : Nat → Byte} (hroom : d.header.length ≤ 64)
    (hlong : maxIpv4FrameDataSize < d.totalLength) (htwo : d.totalLength ≤ 2 * ipv4FragSize)
    (hzero : ipChecksum (firstHeader d).bytes = 0) (hm : Delivers m (firstPacket d))
    (hm' : Delivers m' (lastPacket d)) : ArrivedTwo d m m' where
  first := arrived_of_delivers (fragmentHeader_of d) rfl
    (length_firstPacket hroom hlong) (by decide) (moreFields d) hm
  last := arrived_of_delivers (secondHeader_of d _) (lastHeader_checksum hzero) rfl
    (lastPacket_short hroom htwo) restFields hm'
  long := firstLength_le hlong

theorem roundTrip_two (hroom : d.header.length ≤ 64)
    (hlong : maxIpv4FrameDataSize < d.totalLength) (htwo : d.totalLength ≤ 2 * ipv4FragSize)
    (hzero : ipChecksum (firstHeader d).bytes = 0) : RoundTrip A d := by
  refine ⟨_, udpWrite_two hroom hlong htwo, ?_, tiles_two hroom hlong, ?_⟩
  · rw [List.forall_mem_cons, List.forall_mem_singleton]
    constructor
    · exact sent_wellFormed (fragmentHeader_of d) rfl (length_firstPacket hroom hlong) (by decide)
    · exact sent_wellFormed (secondHeader_of d _) (lastHeader_checksum hzero) rfl
        (lastPacket_short hroom htwo)
  · intro l bufferSize hdrs buffer order arrived hw hfit horder harrived
    rcases List.perm_pair.mp horder with rfl | rfl
    · cases harrived with
      | cons hm hrest =>
        cases hrest with
        | cons hm' hnil =>
          cases hnil
          have harrived := arrivedTwo hroom hlong htwo hzero hm hm'
          obtain ⟨a', hreceive, hreceived⟩ := receive_inOrder (A := A) harrived hw hroom hfit
          exact ⟨a'.message, udpRead_received hw hroom hreceive hreceived, hreceived.message⟩
    · cases harrived with
      | cons hm' hrest =>
        cases hrest with
        | cons hm hnil =>
          cases hnil
          have harrived := arrivedTwo hroom hlong htwo hzero hm hm'
          obtain ⟨a', hreceive, hreceived⟩ := receive_turned (A := A) harrived hw hroom hfit
          exact ⟨a'.message, udpRead_received hw hroom hreceive hreceived, hreceived.message⟩

/-! ## Which datagrams come back -/

/-- Somebody who takes every packet. -/
def anyListener : Listener where
  anySrcIp := true
  anyDestIp := true
  anySrcPort := true
  anyDestPort := true
  useFilter := false
  srcIp := none
  destIp := none
  srcPort := none
  destPort := none
  stationIp := 0
  ipGood _ := false

theorem anyListener_wants (d : Datagram) : anyListener.Wants d where
  srcIp := .inr rfl
  destIp := .inl rfl
  srcPort := .inr rfl
  destPort := .inr rfl

theorem delivers_self (packet : List Byte) : Delivers (fun i => packet[i]?.getD 0) packet := by
  apply List.ext_getElem?
  intro i
  rw [bytesAt, List.getElem?_map]
  rcases Nat.lt_or_ge i packet.length with hi | hi
  · simp [hi]
  · simp [hi]

theorem fits_of_roundTrip (h : RoundTrip A d) : Fits d := by
  obtain ⟨packets, hwrite, hwell, -, hreads⟩ := h
  have harrived : List.Forall₂ Delivers (packets.map fun packet i => packet[i]?.getD 0) packets :=
    List.forall₂_map_left_iff.mpr (List.forall₂_same.mpr fun packet _ => delivers_self packet)
  obtain ⟨message, hread, -⟩ := hreads anyListener d.payload.length [] (fun _ => 0) packets _
    (anyListener_wants d) (Nat.le_refl _) (List.Perm.refl _) harrived
  rw [udpRead, if_neg (by simp [anyListener])] at hread
  exact fits_of_wellFormed (udpReadLoop_room hread) hwrite hwell

theorem roundTrip_iff (A : Arch) (d : Datagram) : RoundTrip A d ↔ Fits d := by
  constructor
  · exact fits_of_roundTrip
  · rintro ⟨hroom, hshort | ⟨htwo, hzero⟩⟩
    · exact roundTrip_single hroom hshort
    · by_cases hshort : d.totalLength ≤ maxIpv4FrameDataSize
      · exact roundTrip_single hroom hshort
      · exact roundTrip_two hroom (Nat.lt_of_not_le hshort) htwo hzero

/-- A datagram of one byte more than fits one packet. -/
def longDatagram : Datagram where
  srcIp := 0x0100000a
  destIp := 0x0200000a
  srcPort := 2070
  destPort := 69
  id := 1
  header := []
  payload := List.replicate 1461 0
  fits := by
    rw [List.length_replicate]
    decide

/-- The second packet has a wrong checksum. -/
theorem longDatagram_lost : ¬RoundTrip .efi32 longDatagram := by
  intro h
  obtain ⟨-, hshort | ⟨-, hzero⟩⟩ := fits_of_roundTrip h
  · have hpayload : longDatagram.payload.length = 1461 := List.length_replicate
    rw [Datagram.totalLength, hpayload] at hshort
    exact absurd hshort (by decide)
  · exact absurd hzero (by decide +kernel)

end EfiCore.Pxe
