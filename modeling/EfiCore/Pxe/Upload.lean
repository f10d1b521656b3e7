import EfiCore.Pxe.Download

/-! # Uploads over the same network

The server takes the packet that has the number after its last one, and acknowledges what it takes.
What it has is always the beginning of the client's buffer, and all of it once `TftpUpload` has
succeeded.
-/

namespace EfiCore.Pxe

open EfiCore.Lib

/-- A data packet. Its place in the file is not in it; the server sees the number. -/
structure Packet where
  index : Nat
  number : Nat
  data : List Byte

/-- The client, what the server has, and what was sent. -/
structure UploadNet where
  client : UploadOutcome
  taken : Nat
  stored : List Byte
  finished : Bool
  sent : List Packet
  acks : List Nat

/-- The packet that the client writes, from its buffer. -/
def Uploader.packet (u : Uploader) (buffer : List Byte) : Packet :=
  ⟨u.blockNum, u.header, (buffer.drop u.bufferPtr).take u.transferLen⟩

/-- The client goes on: before its next read it writes a packet. -/
def UploadNet.next (net : UploadNet) (buffer : List Byte) (client : UploadOutcome) : UploadNet :=
  match client with
  | .running u => { net with client := client, sent := u.packet buffer :: net.sent }
  | .returned _ => { net with client := client }

inductive UploadMove where
  | take (p : Packet)
  | deliver (ack : Nat)
  | silence
  | failure

inductive UploadNet.Step (srv : Server) : UploadNet → UploadMove → UploadNet → Prop
  | take {net : UploadNet} {p : Packet} : p ∈ net.sent → p.number = (net.taken + 1) % 2 ^ 16 →
      net.finished = false →
      UploadNet.Step srv net (.take p)
        { net with
          taken := net.taken + 1
          stored := net.stored ++ p.data
          finished := p.data.length < srv.blkSize
          acks := p.number :: net.acks }
  | deliver {net : UploadNet} {u : Uploader} {ack : Nat} : net.client = .running u →
      ack ∈ net.acks →
      UploadNet.Step srv net (.deliver ack)
        (net.next srv.file (uploadTurn srv.blkSize u (.datagram tftpAck ack [])))
  | silence {net : UploadNet} {u : Uploader} : net.client = .running u →
      UploadNet.Step srv net .silence (net.next srv.file (uploadTurn srv.blkSize u .timeout))
  | failure {net : UploadNet} {u : Uploader} : net.client = .running u →
      UploadNet.Step srv net .failure (net.next srv.file (uploadTurn srv.blkSize u .failed))

/-- Every run of an upload of a buffer, behind the reply to the request. -/
def uploads (srv : Server) : Machine UploadNet UploadMove where
  init net := net = UploadNet.next
    ⟨tftpUpload srv.blkSize srv.file.length, 0, [], false, [], [0]⟩ srv.file
    (tftpUpload srv.blkSize srv.file.length)
  step := UploadNet.Step srv

/-! ## The client -/

/-- The client is at block `blockNum` of its buffer. -/
structure Uploading (srv : Server) (u : Uploader) : Prop where
  first : 1 ≤ u.blockNum
  last : u.blockNum ≤ srv.blocks
  ptr : u.bufferPtr = (u.blockNum - 1) * srv.blkSize
  size : u.transferSize = srv.file.length - u.bufferPtr
  len : u.transferLen = min srv.blkSize u.transferSize

section Client

variable {srv : Server} {u u' : Uploader} {event : Event} {k : Nat}

/-- What it writes is the block. -/
theorem Uploading.data (h : Uploading srv u) : (u.packet srv.file).data = srv.block u.blockNum := by
  have hsize := h.size
  have hlen := h.len
  rw [Uploader.packet, Server.block, ← h.ptr]
  by_cases hshort : srv.blkSize ≤ u.transferSize
  · rw [hlen, Nat.min_eq_left hshort]
  · rw [List.take_of_length_le, List.take_of_length_le] <;> rw [List.length_drop] <;> omega

/-- A turn sends the block again, goes on to the next one, or ends. -/
inductive UploadShape (srv : Server) (u : Uploader) (event : Event) : UploadOutcome → Prop
  | again {retries : Nat} : UploadShape srv u event (.running { u with retries := retries })
  | error {status : TftpStatus} : status ≠ .success →
      UploadShape srv u event (.returned status)
  | on {u' : Uploader} : (∃ payload, event = .datagram tftpAck u.header payload) →
      u.transferLen = srv.blkSize → u'.blockNum = (u.blockNum + 1) % 2 ^ 64 →
      u'.bufferPtr = u.bufferPtr + u.transferLen →
      u'.transferSize = u.transferSize - u.transferLen →
      u'.transferLen = min srv.blkSize u'.transferSize →
      UploadShape srv u event (.running u')
  | done : (∃ payload, event = .datagram tftpAck u.header payload) →
      u.transferLen ≠ srv.blkSize → UploadShape srv u event (.returned .success)

theorem uploadTurn_shape (srv : Server) (u : Uploader) (event : Event) :
    UploadShape srv u event (uploadTurn srv.blkSize u event) := by
  have hagain : UploadShape srv u event
      (if u.retries = 1 then .returned .timeout else .running { u with retries := u.retries - 1 }) := by
    split
    · exact .error (by simp)
    · exact .again
  cases event with
  | timeout => exact hagain
  | failed => exact .error (by simp)
  | datagram opCode blockNum payload =>
    simp only [uploadTurn]
    by_cases hlong : 512 < payload.length
    · rw [if_pos hlong]
      exact .error (by simp)
    rw [if_neg hlong]
    by_cases herror : opCode = tftpError
    · rw [if_pos herror]
      exact .error (by simp)
    rw [if_neg herror]
    by_cases hack : opCode = tftpAck
    · rw [if_neg (not_not.mpr hack)]
      by_cases hnumber : blockNum = u.header
      · rw [if_neg (not_not.mpr hnumber)]
        subst hack hnumber
        by_cases hfull : u.transferLen = srv.blkSize
        · rw [if_pos hfull]
          exact .on ⟨payload, rfl⟩ hfull rfl rfl rfl rfl
        · rw [if_neg hfull]
          exact .done ⟨payload, rfl⟩ hfull
      · rw [if_pos hnumber]
        exact hagain
    · rw [if_pos hack]
      exact .error (by simp)

end Client

/-! ## Every run -/

/-- The two sides, with the client as the sender. -/
def UploadNet.exchange (net : UploadNet) (blockNum : Nat) : Exchange :=
  ⟨blockNum, net.taken, net.sent.map Packet.index, net.acks⟩

/-- A packet is the block at its place. -/
structure Packet.Genuine (srv : Server) (p : Packet) : Prop where
  first : 1 ≤ p.index
  last : p.index ≤ srv.blocks
  number : p.number = p.index % 2 ^ 16
  data : p.data = srv.block p.index

structure UploadNet.Sound (srv : Server) (net : UploadNet) : Prop where
  sent : ∀ p ∈ net.sent, p.Genuine srv
  taken : net.taken ≤ srv.blocks
  stored : net.stored = srv.file.take (net.taken * srv.blkSize)
  finished : net.taken = srv.blocks → net.finished = true
  client : ∀ u, net.client = .running u → Uploading srv u ∧ (net.exchange u.blockNum).InStep
  done : net.client = .returned .success → net.taken = srv.blocks

section Runs

variable {srv : Server} {net net' : UploadNet} {u : Uploader} {event : Event}

theorem Uploading.genuine (h : Uploading srv u) : (u.packet srv.file).Genuine srv :=
  ⟨h.first, h.last, rfl, h.data⟩

theorem take_blocks (hblk : 0 < srv.blkSize) :
    srv.file.take (srv.blocks * srv.blkSize) = srv.file := by
  apply List.take_of_length_le
  have hdiv := Nat.div_add_mod srv.file.length srv.blkSize
  have hmod := Nat.mod_lt srv.file.length hblk
  rw [Server.blocks, Nat.succ_mul, Nat.mul_comm]
  omega

/-- The packet that the server takes is the next block. -/
theorem UploadNet.Sound.take (hblk : 0 < srv.blkSize) (hfew : srv.blocks < 2 ^ 16)
    (h : net.Sound srv) {p : Packet} (hp : p ∈ net.sent)
    (hnumber : p.number = (net.taken + 1) % 2 ^ 16) (hopen : net.finished = false) :
    UploadNet.Sound srv { net with
      taken := net.taken + 1
      stored := net.stored ++ p.data
      finished := p.data.length < srv.blkSize
      acks := p.number :: net.acks } := by
  have hgenuine := h.sent p hp
  have hlast := hgenuine.last
  have htaken : net.taken < srv.blocks := by
    have hle := h.taken
    have hnot : net.taken ≠ srv.blocks := fun hall => by
      have := h.finished hall
      simp [hopen] at this
    omega
  have hindex : p.index = net.taken + 1 := by
    have hgiven := hgenuine.number
    rw [hnumber, Nat.mod_eq_of_lt (by omega), Nat.mod_eq_of_lt (by omega)] at hgiven
    exact hgiven.symm
  have hnum : p.number = net.taken + 1 := by rw [hnumber, Nat.mod_eq_of_lt (by omega)]
  have hdata : p.data = srv.block (net.taken + 1) := by rw [hgenuine.data, hindex]
  exact {
    sent := h.sent
    taken := htaken
    stored := by rw [h.stored, hdata, take_block]
    finished := by
      intro hall
      have hlength := length_block srv net.taken
      simp only at hall
      have hend := Nat.lt_mul_div_succ srv.file.length hblk
      simp only [hdata, decide_eq_true_eq, hlength]
      rw [← Server.blocks, ← hall, Nat.mul_comm, Nat.succ_mul] at hend
      omega
    client := by
      intro u hu
      obtain ⟨hup, hinStep⟩ := h.client u hu
      refine ⟨hup, ?_⟩
      have hdata' : net.taken + 1 ∈ net.sent.map Packet.index :=
        List.mem_map.mpr ⟨p, hp, hindex⟩
      have := hinStep.take hdata'
      rwa [UploadNet.exchange, hnum]
    done := by
      intro hdone
      have := h.done hdone
      omega }

/-- The client writes its next packet. -/
theorem UploadNet.Sound.next (h : net.Sound srv) (hup : Uploading srv u)
    (hinStep : (Exchange.mk u.blockNum net.taken (u.blockNum :: net.sent.map Packet.index)
      net.acks).InStep) :
    (net.next srv.file (.running u)).Sound srv where
  sent p hp := by
    cases hp with
    | head => exact hup.genuine
    | tail _ hp => exact h.sent p hp
  taken := h.taken
  stored := h.stored
  finished := h.finished
  client u' hu' := by
    cases hu'
    exact ⟨hup, hinStep⟩
  done hdone := by cases hdone

/-- The client returns. -/
theorem UploadNet.Sound.leave (h : net.Sound srv) {status : TftpStatus}
    (hdone : status = .success → net.taken = srv.blocks) :
    (net.next srv.file (.returned status)).Sound srv where
  sent := h.sent
  taken := h.taken
  stored := h.stored
  finished := h.finished
  client u hu := by cases hu
  done hreturned := by
    cases hreturned
    exact hdone rfl

/-- A turn of the client, with an acknowledgement that the server has sent or none. -/
theorem UploadNet.Sound.turn (hblk : 0 < srv.blkSize) (hfew : srv.blocks < 2 ^ 16)
    (h : net.Sound srv) (hclient : net.client = .running u)
    (hfrom : ∀ opCode ack payload, event = .datagram opCode ack payload → ack ∈ net.acks) :
    (net.next srv.file (uploadTurn srv.blkSize u event)).Sound srv := by
  obtain ⟨hup, hinStep⟩ := h.client u hclient
  have hfirst := hup.first
  have hlast := hup.last
  have hptr := hup.ptr
  have hsize := hup.size
  have hlen := hup.len
  have hheader : u.header = u.blockNum := Nat.mod_eq_of_lt (by omega)
  have hstep : u.blockNum * srv.blkSize = (u.blockNum - 1) * srv.blkSize + srv.blkSize := by
    rw [← Nat.succ_mul, Nat.succ_eq_add_one, Nat.sub_add_cancel hfirst]
  have hshape := uploadTurn_shape srv u event
  generalize uploadTurn srv.blkSize u event = outcome at hshape
  cases hshape with
  | again => exact h.next ⟨hfirst, hlast, hptr, hsize, hlen⟩ hinStep.send
  | error hstatus =>
    exact h.leave fun hsuccess => absurd hsuccess hstatus
  | @on u' hevent hfull hnum hptr' hsize' hlen' =>
    -- the block is acknowledged, and there is another one
    obtain ⟨payload, hevent⟩ := hevent
    have hack := hfrom _ _ _ hevent
    rw [hheader] at hack
    rw [Nat.mod_eq_of_lt (by omega)] at hnum
    have hmore : u.blockNum < srv.blocks := lt_blocks_of_le_length hblk (by omega)
    have hup' : Uploading srv u' := by
      refine ⟨by omega, by omega, ?_, by omega, hlen'⟩
      rw [hptr', hnum, Nat.add_sub_cancel, hfull]
      omega
    have hadvance := hinStep.advance hack
    refine h.next hup' ?_
    rw [hnum]
    exact hadvance
  | done hevent hshort =>
    -- the last block is acknowledged
    obtain ⟨payload, hevent⟩ := hevent
    have hack := hfrom _ _ _ hevent
    rw [hheader] at hack
    have htaken : u.blockNum ≤ net.taken := hinStep.acks_le _ hack
    have hend : srv.blocks ≤ u.blockNum := by
      refine Nat.succ_le_of_lt ((Nat.div_lt_iff_lt_mul hblk).mpr ?_)
      omega
    have hle := h.taken
    exact h.leave fun _ => Nat.le_antisymm hle (hend.trans htaken)

theorem UploadNet.Sound.step (hblk : 0 < srv.blkSize) (hfew : srv.blocks < 2 ^ 16)
    (h : net.Sound srv) {move : UploadMove} (hstep : UploadNet.Step srv net move net') :
    net'.Sound srv := by
  cases hstep with
  | take hp hnumber hopen => exact h.take hblk hfew hp hnumber hopen
  | deliver hclient hack =>
    refine h.turn hblk hfew hclient fun opCode ack payload hevent => ?_
    cases hevent
    exact hack
  | silence hclient =>
    refine h.turn hblk hfew hclient fun opCode ack payload hevent => ?_
    cases hevent
  | failure hclient =>
    refine h.turn hblk hfew hclient fun opCode ack payload hevent => ?_
    cases hevent

theorem sound_start (srv : Server) : ((uploads srv).init net) → net.Sound srv := by
  rintro rfl
  have hup : Uploading srv ⟨1, 0, srv.file.length, min srv.blkSize srv.file.length, 3⟩ :=
    ⟨Nat.le_refl 1, Nat.succ_le_succ (Nat.zero_le _), by simp, by simp, rfl⟩
  exact {
    sent := by
      intro p hp
      cases hp with
      | head => exact hup.genuine
      | tail _ hp => cases hp
    taken := Nat.zero_le _
    stored := by
      show [] = _
      simp [UploadNet.next, tftpUpload, uploadHead]
    finished := by
      intro hall
      cases hall
    client := by
      intro u hu
      cases hu
      exact ⟨hup, ⟨by simp [UploadNet.next, UploadNet.exchange, tftpUpload, uploadHead, Uploader.packet],
        by simp [UploadNet.next, UploadNet.exchange, tftpUpload, uploadHead], Nat.zero_le _, Nat.le_refl _⟩⟩
    done := by
      intro hdone
      cases hdone }

/-- In every run over a network that loses, repeats and reorders packets, the server has the
beginning of the buffer, and the whole buffer if the upload has succeeded. -/
theorem upload_whole (srv : Server) (hblk : 0 < srv.blkSize) (hfew : srv.blocks < 2 ^ 16)
    (hreach : (uploads srv).Reach Machine.anyStep net) :
    net.stored <+: srv.file ∧ (net.client = .returned .success → net.stored = srv.file) := by
  have hsound : net.Sound srv := by
    apply hreach.rule
    case start => exact fun net => sound_start srv
    case next => exact fun net move net' h _ hstep => h.step hblk hfew hstep
  refine ⟨?_, fun hdone => ?_⟩
  · rw [hsound.stored]
    exact List.take_prefix _ _
  · rw [hsound.stored, hsound.done hdone, take_blocks hblk]

def smallUpload : Server := ⟨[1, 2, 3], 2⟩

/-- Three bytes in blocks of two. The first packet is lost, and the acknowledgement before it comes
again. -/
theorem upload_whole_short : ([1, 2, 3] : List Byte) = smallUpload.file := by
  let first : Packet := ⟨1, 1, [1, 2]⟩
  let last : Packet := ⟨2, 2, [3]⟩
  have hpath : Machine.Path (uploads smallUpload) Machine.anyStep
      ⟨.running ⟨1, 0, 3, 2, 3⟩, 0, [], false, [first], [0]⟩
      [.silence, .take first, .deliver 0, .deliver 1, .take last, .deliver 2]
      ⟨.returned .success, 2, [1, 2, 3], true, [last, first, first, first], [2, 1, 0]⟩ := by
    have hsilence : UploadNet.Step smallUpload
        ⟨.running ⟨1, 0, 3, 2, 3⟩, 0, [], false, [first], [0]⟩ .silence
        ⟨.running ⟨1, 0, 3, 2, 2⟩, 0, [], false, [first, first], [0]⟩ :=
      .silence (u := ⟨1, 0, 3, 2, 3⟩) rfl
    have htake : UploadNet.Step smallUpload
        ⟨.running ⟨1, 0, 3, 2, 2⟩, 0, [], false, [first, first], [0]⟩ (.take first)
        ⟨.running ⟨1, 0, 3, 2, 2⟩, 1, [1, 2], false, [first, first], [1, 0]⟩ :=
      .take (.head _) rfl rfl
    have hagain : UploadNet.Step smallUpload
        ⟨.running ⟨1, 0, 3, 2, 2⟩, 1, [1, 2], false, [first, first], [1, 0]⟩ (.deliver 0)
        ⟨.running ⟨1, 0, 3, 2, 1⟩, 1, [1, 2], false, [first, first, first], [1, 0]⟩ :=
      .deliver (u := ⟨1, 0, 3, 2, 2⟩) rfl (.tail _ (.head _))
    have hnext : UploadNet.Step smallUpload
        ⟨.running ⟨1, 0, 3, 2, 1⟩, 1, [1, 2], false, [first, first, first], [1, 0]⟩ (.deliver 1)
        ⟨.running ⟨2, 2, 1, 1, 3⟩, 1, [1, 2], false, [last, first, first, first], [1, 0]⟩ :=
      .deliver (u := ⟨1, 0, 3, 2, 1⟩) rfl (.head _)
    have htake' : UploadNet.Step smallUpload
        ⟨.running ⟨2, 2, 1, 1, 3⟩, 1, [1, 2], false, [last, first, first, first], [1, 0]⟩
        (.take last)
        ⟨.running ⟨2, 2, 1, 1, 3⟩, 2, [1, 2, 3], true, [last, first, first, first], [2, 1, 0]⟩ :=
      .take (.head _) rfl rfl
    have hdone : UploadNet.Step smallUpload
        ⟨.running ⟨2, 2, 1, 1, 3⟩, 2, [1, 2, 3], true, [last, first, first, first], [2, 1, 0]⟩
        (.deliver 2)
        ⟨.returned .success, 2, [1, 2, 3], true, [last, first, first, first], [2, 1, 0]⟩ :=
      .deliver (u := ⟨2, 2, 1, 1, 3⟩) rfl (.head _)
    exact .cons trivial hsilence <| .cons trivial htake <| .cons trivial hagain <|
      .cons trivial hnext <| .cons trivial htake' <| .cons trivial hdone .nil
  exact (upload_whole smallUpload (by decide) (by decide)
    (Machine.Reach.path (.start rfl) hpath)).2 rfl

end Runs

end EfiCore.Pxe
