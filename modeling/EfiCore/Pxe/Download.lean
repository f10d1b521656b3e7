import EfiCore.Lib.StopAndWait
import EfiCore.Pxe.Tftp
import Mathlib.Data.List.Basic

/-! # Downloads over a network that loses, repeats and reorders packets

A server has a file in blocks, and sends the next block when the one before is acknowledged. The
client gets any packet that was sent, at any time and any number of times, or none. If
`TftpDownload` succeeds then its buffer has the file.
-/

namespace EfiCore.Pxe

open EfiCore.Lib

/-! ## One read -/

section Reads

variable {s : Session} {c c' : Client} {limit pos k : Nat} {memory : Nat → Byte} {arrival : Arrival}

/-- A read with noise that fits writes to the room that it is given. -/
theorem tftpUdpRead_outside (hfits : arrival.noise.length ≤ limit)
    (h : k < pos ∨ pos + limit ≤ k) :
    (tftpUdpRead limit pos memory arrival).memory k = memory k := by
  have hnoise : putBytes memory pos arrival.noise k = memory k :=
    putBytes_of_out (by omega)
  cases hevent : arrival.event with
  | timeout => simpa [tftpUdpRead, hevent] using hnoise
  | failed => simpa [tftpUdpRead, hevent] using hnoise
  | datagram opCode blockNum payload =>
    by_cases hfits : payload.length ≤ limit
    · have hout : k < pos ∨ pos + payload.length ≤ k := by omega
      simpa [tftpUdpRead, hevent, hfits, putBytes_of_out hout] using hnoise
    · simpa [tftpUdpRead, hevent, hfits] using hnoise

/-- The memory after a read of the client. -/
def Client.afterRead (c : Client) (arrival : Arrival) : Nat → Byte :=
  (tftpUdpRead c.saveLen c.bufferPtr c.memory arrival).memory

/-- A block that the client takes. -/
structure Takes (s : Session) (c : Client) (arrival : Arrival) (payload : List Byte) : Prop where
  next : ∃ opCode blockNum, arrival.event = .datagram opCode blockNum payload ∧
    blockNum % s.numbers = (c.lastBlock + 1) % s.numbers
  fits : payload.length ≤ c.saveLen

/-- The client after a block, before it looks at its length. -/
def Client.taken (s : Session) (c : Client) (arrival : Arrival) : Client :=
  { c with
    lastBlock := (c.lastBlock + 1) % s.numbers
    blockNum := (c.lastBlock + 1) % s.numbers
    memory := c.afterRead arrival }

/-- A turn tries again, returns an error, or takes the next block. -/
inductive TurnShape (s : Session) (c : Client) (arrival : Arrival) : Outcome → Prop
  | again {blockNum : Nat} : blockNum = c.blockNum ∨ blockNum = c.lastBlock →
      TurnShape s c arrival
        (tryAgain s { c with blockNum := blockNum, memory := c.afterRead arrival })
  | error {status : TftpStatus} : status ≠ .success →
      TurnShape s c arrival (.returned status s.room (c.afterRead arrival))
  | take {payload : List Byte} : Takes s c arrival payload →
      TurnShape s c arrival (accept s payload.length (c.taken s arrival))

theorem lockStepTurn_shape (s : Session) (c : Client) (arrival : Arrival) :
    TurnShape s c arrival (lockStepTurn s c arrival) := by
  cases hevent : arrival.event with
  | timeout =>
    have hturn : lockStepTurn s c arrival =
        tryAgain s { c with blockNum := c.blockNum, memory := c.afterRead arrival } := by
      simp [lockStepTurn, sendAckAndGetData, tftpUdpRead, Client.afterRead, hevent]
    rw [hturn]
    exact .again (.inl rfl)
  | failed =>
    have hturn : lockStepTurn s c arrival = .returned .other s.room (c.afterRead arrival) := by
      simp [lockStepTurn, sendAckAndGetData, tftpUdpRead, Client.afterRead, hevent]
    rw [hturn]
    exact .error (by simp)
  | datagram opCode blockNum payload =>
    by_cases hdata : opCode = if s.bigBlkNum then tftpData8 else tftpData
    · have hnoError : opCode ≠ tftpError := by
        rw [hdata]
        split <;> decide
      by_cases hresend : blockNum % s.numbers = c.lastBlock
      · have hturn : lockStepTurn s c arrival =
            tryAgain s { c with
              blockNum := blockNum % s.numbers
              memory := c.afterRead arrival } := by
          by_cases hfits : payload.length ≤ c.saveLen <;>
            simp [lockStepTurn, sendAckAndGetData, tftpUdpRead, Client.afterRead, hevent, hfits,
              hnoError, ← hdata, hresend]
        rw [hturn]
        exact .again (.inr hresend)
      by_cases hnext : blockNum % s.numbers = (c.lastBlock + 1) % s.numbers
      · by_cases hfits : payload.length ≤ c.saveLen
        · have hturn : lockStepTurn s c arrival =
              accept s payload.length (c.taken s arrival) := by
            rw [hnext] at hresend
            simp [lockStepTurn, sendAckAndGetData, tftpUdpRead, Client.afterRead, Client.taken,
              hevent, hfits, hnoError, ← hdata, hresend, hnext]
          rw [hturn]
          exact .take ⟨⟨opCode, blockNum, hevent, hnext⟩, hfits⟩
        · have hturn : lockStepTurn s c arrival =
              .returned .bufferTooSmall s.room (c.afterRead arrival) := by
            rw [hnext] at hresend
            simp [lockStepTurn, sendAckAndGetData, tftpUdpRead, Client.afterRead, hevent, hfits,
              ← hdata, hresend, hnext]
          rw [hturn]
          exact .error (by simp)
      · have hturn : lockStepTurn s c arrival =
            .returned .protocolError s.room (c.afterRead arrival) := by
          by_cases hfits : payload.length ≤ c.saveLen <;>
            simp [lockStepTurn, sendAckAndGetData, tftpUdpRead, Client.afterRead, hevent, hfits,
              hnoError, ← hdata, hresend, hnext]
        rw [hturn]
        exact .error (by simp)
    · -- another kind of packet
      have hturn : ∃ status, status ≠ .success ∧
          lockStepTurn s c arrival = .returned status s.room (c.afterRead arrival) := by
        by_cases hfits : payload.length ≤ c.saveLen
        · by_cases herror : opCode = tftpError
          · refine ⟨.other, by simp, ?_⟩
            simp [lockStepTurn, sendAckAndGetData, tftpUdpRead, Client.afterRead, hevent, hfits,
              herror]
          · refine ⟨.protocolError, by simp, ?_⟩
            simp [lockStepTurn, sendAckAndGetData, tftpUdpRead, Client.afterRead, hevent, hfits,
              herror, hdata]
        · refine ⟨.protocolError, by simp, ?_⟩
          simp [lockStepTurn, sendAckAndGetData, tftpUdpRead, Client.afterRead, hevent, hfits,
            hdata]
      obtain ⟨status, hstatus, hturn⟩ := hturn
      rw [hturn]
      exact .error hstatus

end Reads

/-! ## The network -/

/-- A server with a file, in blocks. -/
structure Server where
  file : List Byte
  blkSize : Nat

/-- Block `k`, counted from 1. -/
def Server.block (srv : Server) (k : Nat) : List Byte :=
  (srv.file.drop ((k - 1) * srv.blkSize)).take srv.blkSize

/-- The number of blocks. The last one is short, and may be empty. -/
def Server.blocks (srv : Server) : Nat := srv.file.length / srv.blkSize + 1

/-- The client, the block that the server is at, and what was sent. -/
structure Net where
  client : Outcome
  current : Nat
  sent : List Nat
  acks : List Nat

/-- The client goes on: before its next read it sends an acknowledgement. -/
def Net.next (net : Net) (client : Outcome) : Net :=
  match client with
  | .running c => { net with client := client, acks := c.blockNum :: net.acks }
  | .returned .. => { net with client := client }

inductive Move where
  | answer (ack : Nat)
  | deliver (noise : List Byte) (k : Nat)
  | silence (noise : List Byte)
  | failure (noise : List Byte)

/-- A data packet of the server. -/
def Server.packet (srv : Server) (s : Session) (k : Nat) : Event :=
  .datagram (if s.bigBlkNum then tftpData8 else tftpData) (k % s.numbers) (srv.block k)

/-- Any acknowledgement and any packet that was sent may arrive. The server goes on at an
acknowledgement of the block that it is at, and lets the others pass. Packets arrive whole, and the
noise of a read keeps to its room. -/
inductive Net.Step (s : Session) (srv : Server) : Net → Move → Net → Prop
  | answer {net : Net} {ack : Nat} : ack ∈ net.acks → ack = net.current % s.numbers →
      net.current < srv.blocks →
      Net.Step s srv net (.answer ack)
        { net with current := net.current + 1, sent := (net.current + 1) :: net.sent }
  | deliver {net : Net} {c : Client} {noise : List Byte} {k : Nat} : net.client = .running c →
      noise.length ≤ c.saveLen → k ∈ net.sent →
      Net.Step s srv net (.deliver noise k)
        (net.next (lockStepTurn s c ⟨noise, srv.packet s k⟩))
  | silence {net : Net} {c : Client} {noise : List Byte} : net.client = .running c →
      noise.length ≤ c.saveLen →
      Net.Step s srv net (.silence noise) (net.next (lockStepTurn s c ⟨noise, .timeout⟩))
  | failure {net : Net} {c : Client} {noise : List Byte} : net.client = .running c →
      noise.length ≤ c.saveLen →
      Net.Step s srv net (.failure noise) (net.next (lockStepTurn s c ⟨noise, .failed⟩))

/-- The server has sent its reply to the request, and the client has got it. -/
def Net.start (reply : FirstReply) (client : Outcome) : Net :=
  match reply with
  | .oack .. => Net.next ⟨client, 0, [], []⟩ client
  | .datagram .. => Net.next ⟨client, 1, [1], []⟩ client

/-- Every run of a download. -/
def downloads (srv : Server) (room : Nat) (memory : Nat → Byte) (reply : FirstReply) :
    Machine Net Move where
  init net := net = Net.start reply (tftpDownload false room memory reply).2
  step := Net.Step (tftpDownload false room memory reply).1 srv

/-- A reply of the server: its block size in an OACK packet, or the first block of 512 bytes. -/
def Server.Greets (srv : Server) (room : Nat) : FirstReply → Prop
  | .oack bigBlkNum blkSize =>
    (bigBlkNum = none ∨ bigBlkNum = some 8) ∧ blkSize.getD 512 = srv.blkSize
  | .datagram opCode blockNum payload =>
    opCode = tftpData ∧ blockNum = 1 ∧ payload = srv.block 1 ∧ srv.blkSize = 512 ∧
      payload.length ≤ room

/-! ## What the client has -/

/-- The client and the server have the same idea of the transfer. -/
structure Agreed (s : Session) (srv : Server) : Prop where
  packetSize : s.packetSize = srv.blkSize
  buffer : s.dontUseBuffer = false
  room : s.room < 2 ^ 64
  large : 512 ≤ srv.blkSize
  few : srv.blocks < s.numbers

/-- The blocks up to the last one are in the buffer. -/
structure Downloading (s : Session) (srv : Server) (c : Client) : Prop where
  blockNum : c.blockNum = c.lastBlock
  more : c.lastBlock < srv.blocks
  ptr : c.bufferPtr = c.lastBlock * srv.blkSize
  size : c.lastBlock * srv.blkSize + c.bufferSize = s.room
  saveLen : c.saveLen = min srv.blkSize c.bufferSize
  got : bytesAt c.memory 0 (c.lastBlock * srv.blkSize) =
    srv.file.take (c.lastBlock * srv.blkSize)

/-- The file is in the buffer. -/
structure Whole (srv : Server) (size : Nat) (memory : Nat → Byte) : Prop where
  length : size = srv.file.length
  bytes : bytesAt memory 0 size = srv.file

theorem Whole.of_length {srv : Server} {size : Nat} {memory : Nat → Byte}
    (hlength : size = srv.file.length) (hbytes : bytesAt memory 0 srv.file.length = srv.file) :
    Whole srv size memory := by
  subst hlength
  exact ⟨rfl, hbytes⟩

def Outcome.Right (s : Session) (srv : Server) : Outcome → Prop
  | .running c => Downloading s srv c
  | .returned status size memory => status = .success → Whole srv size memory

section Blocks

variable {s : Session} {srv : Server} {c : Client} {arrival : Arrival} {n : Nat}

theorem length_block (srv : Server) (n : Nat) :
    (srv.block (n + 1)).length = min srv.blkSize (srv.file.length - n * srv.blkSize) := by
  rw [Server.block, Nat.add_sub_cancel, List.length_take, List.length_drop]

theorem le_length_of_lt_blocks (hblk : 0 < srv.blkSize) (h : n < srv.blocks) :
    n * srv.blkSize ≤ srv.file.length := by
  have hle : n ≤ srv.file.length / srv.blkSize := Nat.le_of_lt_succ h
  exact (Nat.le_div_iff_mul_le hblk).mp hle

theorem lt_blocks_of_le_length (hblk : 0 < srv.blkSize) (h : n * srv.blkSize ≤ srv.file.length) :
    n < srv.blocks :=
  Nat.lt_succ_of_le ((Nat.le_div_iff_mul_le hblk).mpr h)

theorem take_block (srv : Server) (n : Nat) :
    srv.file.take (n * srv.blkSize) ++ srv.block (n + 1) =
      srv.file.take ((n + 1) * srv.blkSize) := by
  rw [Server.block, Nat.add_sub_cancel, Nat.succ_mul, List.take_add]

/-- What a read leaves alone is what the client has. -/
theorem got_afterRead (h : Downloading s srv c) (hnoise : arrival.noise.length ≤ c.saveLen) :
    bytesAt (c.afterRead arrival) 0 (c.lastBlock * srv.blkSize) =
      srv.file.take (c.lastBlock * srv.blkSize) := by
  rw [← h.got]
  refine bytesAt_congr fun i hi => ?_
  have hptr := h.ptr
  exact tftpUdpRead_outside hnoise (by omega)

theorem Downloading.tryAgain (h : Downloading s srv c)
    (hnoise : arrival.noise.length ≤ c.saveLen) {blockNum : Nat}
    (hblockNum : blockNum = c.blockNum ∨ blockNum = c.lastBlock) :
    (tryAgain s { c with blockNum := blockNum, memory := c.afterRead arrival }).Right s srv := by
  have hsame : blockNum = c.lastBlock := by
    have := h.blockNum
    omega
  unfold Pxe.tryAgain
  split
  · intro hsuccess
    cases hsuccess
  · exact ⟨hsame, h.more, h.ptr, h.size, h.saveLen, got_afterRead h hnoise⟩

/-- What a block that is taken leaves in the memory. -/
theorem Takes.bytes {payload : List Byte} (h : Takes s c arrival payload) :
    bytesAt (c.afterRead arrival) c.bufferPtr payload.length = payload := by
  obtain ⟨⟨opCode, blockNum, hevent, _⟩, hfits⟩ := h
  simp only [Client.afterRead, tftpUdpRead, hevent, if_pos hfits]
  exact bytesAt_putBytes _ _ _

/-- The client with the next block, `n` bytes, in its buffer. -/
def Client.holding (c : Client) (arrival : Arrival) (n : Nat) : Client :=
  { c with
    lastBlock := c.lastBlock + 1
    blockNum := c.lastBlock + 1
    bufferPtr := c.bufferPtr + n
    bufferSize := c.bufferSize - n
    memory := c.afterRead arrival }

theorem accept_eq (hbuffer : s.dontUseBuffer = false) (hfew : c.lastBlock + 1 < s.numbers) :
    accept s n (c.taken s arrival) = loopHead s n (c.holding arrival n) := by
  simp [accept, hbuffer, Client.taken, Client.holding, Nat.mod_eq_of_lt hfew]

/-- The next block, and either there is a further one or the file is complete. -/
theorem Downloading.accept (hagreed : Agreed s srv) (h : Downloading s srv c)
    (hnoise : arrival.noise.length ≤ c.saveLen)
    (htakes : Takes s c arrival (srv.block (c.lastBlock + 1))) :
    (accept s (srv.block (c.lastBlock + 1)).length (c.taken s arrival)).Right s srv := by
  have hlarge := hagreed.large
  have hroom := hagreed.room
  have hfew := hagreed.few
  have hmore := h.more
  have hsize := h.size
  have hptr := h.ptr
  have hsave := h.saveLen
  have hfits := htakes.fits
  have hlength := length_block srv c.lastBlock
  have hpos : 0 < srv.blkSize := by omega
  have hstart := le_length_of_lt_blocks hpos hmore
  have hbytes : bytesAt (c.afterRead arrival) 0
      (c.lastBlock * srv.blkSize + (srv.block (c.lastBlock + 1)).length) =
        srv.file.take ((c.lastBlock + 1) * srv.blkSize) := by
    have hblock := htakes.bytes
    rw [hptr] at hblock
    rw [bytesAt_add, got_afterRead h hnoise, Nat.zero_add, hblock, take_block]
  have hsucc : (c.lastBlock + 1) * srv.blkSize = c.lastBlock * srv.blkSize + srv.blkSize :=
    Nat.succ_mul _ _
  rw [accept_eq hagreed.buffer (by omega)]
  by_cases hfull : (srv.block (c.lastBlock + 1)).length = srv.blkSize
  · -- a full block
    rw [hfull, ← hsucc] at hbytes
    rw [hfull, loopHead, if_pos ⟨hlarge, hagreed.packetSize.symm⟩]
    exact {
      blockNum := rfl
      more := by
        have hnext : (c.lastBlock + 1) * srv.blkSize ≤ srv.file.length := by omega
        exact lt_blocks_of_le_length hpos hnext
      ptr := by
        simp only [Client.holding]
        omega
      size := by
        simp only [Client.holding]
        omega
      saveLen := by
        simp only [Client.holding, hagreed.packetSize]
        split <;> omega
      got := hbytes }
  · -- a short one, which is the last
    have hshort : (srv.block (c.lastBlock + 1)).length =
        srv.file.length - c.lastBlock * srv.blkSize := by omega
    have hend : c.lastBlock * srv.blkSize + (srv.block (c.lastBlock + 1)).length =
        srv.file.length := by omega
    rw [hend, List.take_of_length_le (by omega)] at hbytes
    have hnoMore : ¬(512 ≤ (srv.block (c.lastBlock + 1)).length ∧
        (srv.block (c.lastBlock + 1)).length = s.packetSize) := by
      rw [hagreed.packetSize]
      exact fun hmatch => hfull hmatch.2
    have hcount : (s.room + 2 ^ 64 -
        (c.holding arrival (srv.block (c.lastBlock + 1)).length).bufferSize) % 2 ^ 64 =
          srv.file.length := by
      simp only [Client.holding]
      omega
    rw [loopHead, if_neg hnoMore, hagreed.buffer]
    intro _
    exact .of_length hcount hbytes

end Blocks

/-! ## Every run -/

section Runs

variable {s : Session} {srv : Server} {net net' : Net} {c c' : Client} {arrival : Arrival}
  {replyLen : Nat}

theorem tryAgain_running (h : tryAgain s c = .running c') :
    c'.lastBlock = c.lastBlock ∧ c'.blockNum = c.blockNum := by
  unfold tryAgain at h
  split at h
  · cases h
  · cases h
    exact ⟨rfl, rfl⟩

theorem loopHead_running (h : loopHead s replyLen c = .running c') :
    c'.lastBlock = c.lastBlock ∧ c'.blockNum = c.blockNum := by
  unfold loopHead at h
  split at h
  · cases h
    exact ⟨rfl, rfl⟩
  · split at h <;> cases h

/-- The two sides, with the client as the receiver. -/
def Net.exchange (net : Net) (lastBlock : Nat) : Exchange :=
  ⟨net.current, lastBlock, net.sent, net.acks⟩

structure Net.Sound (s : Session) (srv : Server) (net : Net) : Prop where
  current_le : net.current ≤ srv.blocks
  sent_le : ∀ k ∈ net.sent, k ≤ srv.blocks
  client : net.client.Right s srv
  inStep : ∀ c, net.client = .running c → (net.exchange c.lastBlock).InStep

theorem Net.Sound.next {client : Outcome} (h : net.Sound s srv) (hright : client.Right s srv)
    (hinStep : ∀ c, client = .running c →
      ((net.exchange c.lastBlock).acknowledge c.blockNum).InStep) :
    (net.next client).Sound s srv := by
  cases client with
  | running c =>
    refine ⟨h.current_le, h.sent_le, hright, fun c' hc' => ?_⟩
    cases hc'
    exact hinStep c rfl
  | returned status size memory =>
    exact ⟨h.current_le, h.sent_le, hright, fun c' hc' => by cases hc'⟩

/-- A turn of the client, with a packet that the server has sent or none. -/
theorem Net.Sound.turn (hagreed : Agreed s srv) (h : net.Sound s srv)
    (hclient : net.client = .running c) (hnoise : arrival.noise.length ≤ c.saveLen)
    (hfrom : ∀ opCode blockNum payload, arrival.event = .datagram opCode blockNum payload →
      ∃ k ∈ net.sent, arrival.event = srv.packet s k) :
    (net.next (lockStepTurn s c arrival)).Sound s srv := by
  have hdownloading : Downloading s srv c := by
    have := h.client
    rwa [hclient] at this
  have hinStep := h.inStep c hclient
  have hshape := lockStepTurn_shape s c arrival
  generalize lockStepTurn s c arrival = outcome at hshape
  cases hshape with
  | again hblockNum =>
    refine h.next (hdownloading.tryAgain hnoise hblockNum) fun c' hc' => ?_
    obtain ⟨hlast, hnum⟩ := tryAgain_running hc'
    rw [hlast, hnum]
    have hsame := hdownloading.blockNum
    refine hinStep.acknowledge ?_
    simp only [Net.exchange]
    omega
  | error hstatus =>
    refine h.next (fun hsuccess => absurd hsuccess hstatus) fun c' hc' => ?_
    cases hc'
  | @take payload htakes =>
    -- numbers of the file do not come round, so it is the next block
    obtain ⟨opCode, blockNum, hevent, hnumber⟩ := htakes.next
    obtain ⟨k, hk, hpacket⟩ := hfrom _ _ _ hevent
    have hfew := hagreed.few
    have hle := h.sent_le k hk
    have hmore := hdownloading.more
    rw [hevent, Server.packet, Event.datagram.injEq] at hpacket
    obtain ⟨-, rfl, rfl⟩ := hpacket
    rw [Nat.mod_mod, Nat.mod_eq_of_lt (by omega), Nat.mod_eq_of_lt (by omega)] at hnumber
    subst hnumber
    refine h.next (hdownloading.accept hagreed hnoise htakes) fun c' hc' => ?_
    rw [accept_eq hagreed.buffer (by omega)] at hc'
    obtain ⟨hlast, hnum⟩ := loopHead_running hc'
    rw [hlast, hnum]
    exact hinStep.take hk

theorem Net.Sound.step (hagreed : Agreed s srv) (h : net.Sound s srv) {move : Move}
    (hstep : Net.Step s srv net move net') : net'.Sound s srv := by
  cases hstep with
  | answer hack hnumber hmore =>
    refine ⟨hmore, ?_, h.client, fun c hc => ?_⟩
    · intro k hk
      cases hk with
      | head => exact hmore
      | tail _ hk => exact h.sent_le k hk
    · have hinStep := h.inStep c hc
      have hfew := hagreed.few
      rw [Nat.mod_eq_of_lt (by omega)] at hnumber
      rw [hnumber] at hack
      exact hinStep.advance hack
  | deliver hclient hnoise hk =>
    exact h.turn hagreed hclient hnoise fun _ _ _ _ => ⟨_, hk, rfl⟩
  | silence hclient hnoise =>
    refine h.turn hagreed hclient hnoise fun _ _ _ hevent => ?_
    cases hevent
  | failure hclient hnoise =>
    refine h.turn hagreed hclient hnoise fun _ _ _ hevent => ?_
    cases hevent

/-- A client that has returned stays as it is. -/
theorem Net.Step.returned {move : Move} {status : TftpStatus} {size : Nat} {memory : Nat → Byte}
    (h : Net.Step s srv net move net') (hclient : net.client = .returned status size memory) :
    net'.client = .returned status size memory := by
  cases h with
  | answer => exact hclient
  | deliver hrunning => rw [hclient] at hrunning; cases hrunning
  | silence hrunning => rw [hclient] at hrunning; cases hrunning
  | failure hrunning => rw [hclient] at hrunning; cases hrunning

/-- The invariant where the first acknowledgement is sent. -/
theorem Net.Sound.begin {sent : List Nat} {current : Nat} {client : Outcome}
    (hcurrent : current ≤ srv.blocks) (hsent : ∀ k ∈ sent, k ≤ srv.blocks)
    (hright : client.Right s srv)
    (hinStep : ∀ c, client = .running c → ((⟨current, c.lastBlock, sent, [c.blockNum]⟩ : Exchange)).InStep) :
    (Net.next ⟨client, current, sent, []⟩ client).Sound s srv := by
  cases client with
  | running c =>
    refine ⟨hcurrent, hsent, hright, fun c' hc' => ?_⟩
    cases hc'
    exact hinStep c rfl
  | returned status size memory => exact ⟨hcurrent, hsent, hright, fun c' hc' => by cases hc'⟩

end Runs

/-! ## Downloads -/

section Downloads

variable {srv : Server} {room : Nat} {memory memory' : Nat → Byte} {reply : FirstReply} {net : Net}
  {size : Nat}

theorem tftpDownload_oack {bigBlkNum blkSize : Option Nat}
    (hbig : bigBlkNum = none ∨ bigBlkNum = some 8) :
    tftpDownload false room memory (.oack bigBlkNum blkSize) =
      (⟨bigBlkNum.isSome, blkSize.getD 512, false, room⟩,
        lockStepReceive ⟨bigBlkNum.isSome, blkSize.getD 512, false, room⟩ 0 0 memory) := by
  simp only [tftpDownload, if_pos hbig]

theorem tftpDownload_data {payload : List Byte} :
    tftpDownload false room memory (.datagram tftpData 1 payload) =
      (⟨false, payload.length, false, room⟩,
        lockStepReceive ⟨false, payload.length, false, room⟩ payload.length 1
          (putBytes memory 0 payload)) := by
  simp [tftpDownload]

/-- The first acknowledgement after an OACK packet. -/
theorem oack_running {s : Session} (hagreed : Agreed s srv) (memory : Nat → Byte) :
    ∃ c, lockStepReceive s 0 0 memory = .running c ∧ Downloading s srv c ∧ c.lastBlock = 0 := by
  have hroom := hagreed.room
  have hgo : 512 ≤ s.packetSize ∧ s.packetSize = s.packetSize := by
    rw [hagreed.packetSize]
    exact ⟨hagreed.large, rfl⟩
  rw [lockStepReceive, loopHead, if_pos hgo, hagreed.buffer]
  refine ⟨_, rfl, ?_, rfl⟩
  exact {
    blockNum := rfl
    more := Nat.succ_pos _
    ptr := by simp
    size := by
      simp only [Bool.false_eq_true, if_false]
      omega
    saveLen := by
      simp only [Bool.false_eq_true, if_false, hagreed.packetSize]
      split <;> omega
    got := by simp [bytesAt_zero] }

/-- And after a first block that is full. -/
theorem data_running {s : Session} (hagreed : Agreed s srv)
    (hfull : (srv.block 1).length = srv.blkSize) (hfits : srv.blkSize ≤ s.room)
    (memory : Nat → Byte) :
    ∃ c, lockStepReceive s srv.blkSize 1 (putBytes memory 0 (srv.block 1)) = .running c ∧
      Downloading s srv c ∧ c.lastBlock = 1 := by
  have hroom := hagreed.room
  have hlarge := hagreed.large
  have hlength := length_block srv 0
  have hone : 1 * srv.blkSize ≤ srv.file.length := by
    rw [Nat.zero_add] at hlength
    omega
  have hgo : 512 ≤ s.packetSize ∧ s.packetSize = s.packetSize := by
    rw [hagreed.packetSize]
    exact ⟨hagreed.large, rfl⟩
  have hgot : bytesAt (putBytes memory 0 (srv.block 1)) 0 (1 * srv.blkSize) =
      srv.file.take (1 * srv.blkSize) := by
    have hblock : srv.block 1 = srv.file.take (1 * srv.blkSize) := by simp [Server.block]
    have hread := bytesAt_putBytes memory 0 (srv.block 1)
    rw [hfull] at hread
    rw [← hblock, Nat.one_mul, hread]
  rw [lockStepReceive, loopHead, if_pos hgo, hagreed.buffer]
  refine ⟨_, rfl, ?_, rfl⟩
  exact {
    blockNum := rfl
    more := lt_blocks_of_le_length (by omega) hone
    ptr := by simp
    size := by
      simp only [Bool.false_eq_true, if_false]
      omega
    saveLen := by
      simp only [Bool.false_eq_true, if_false, hagreed.packetSize]
      split <;> omega
    got := hgot }

/-- A first block that is short is the file. -/
theorem data_short {s : Session} (hbuffer : s.dontUseBuffer = false) (hroom : s.room < 2 ^ 64)
    (hpacket : s.packetSize = (srv.block 1).length) (hshort : (srv.block 1).length < 512)
    (hblk : srv.blkSize = 512) (hfits : (srv.block 1).length ≤ s.room) (memory : Nat → Byte) :
    ∃ size memory', Whole srv size memory' ∧
      lockStepReceive s (srv.block 1).length 1 (putBytes memory 0 (srv.block 1)) =
        .returned .success size memory' := by
  have hlength := length_block srv 0
  rw [Nat.zero_add, Nat.zero_mul] at hlength
  have hall : srv.block 1 = srv.file := by
    simp only [Server.block, Nat.sub_self, Nat.zero_mul, List.drop_zero]
    exact List.take_of_length_le (by omega)
  have hstop : ¬(512 ≤ s.packetSize ∧ s.packetSize = s.packetSize) := by omega
  rw [lockStepReceive, loopHead, if_neg hstop, hbuffer]
  refine ⟨_, _, ?_, rfl⟩
  have hread := bytesAt_putBytes memory 0 (srv.block 1)
  rw [hall] at hread hfits ⊢
  simp only [Bool.false_eq_true, if_false]
  exact .of_length (by omega) hread

/-- Every state of a run is sound if the one is where the first acknowledgement is sent. -/
theorem downloads_sound {s : Session} {c : Client} (hagreed : Agreed s srv)
    (hreply : tftpDownload false room memory reply = (s, .running c))
    (hstart : (Net.start reply (.running c)).Sound s srv)
    (hreach : (downloads srv room memory reply).Reach Machine.anyStep net) : net.Sound s srv := by
  apply hreach.rule
  case start =>
    rintro _ rfl
    rw [hreply]
    exact hstart
  case next =>
    intro net move net' hsound _ hstep
    rw [downloads, hreply] at hstep
    exact hsound.step hagreed hstep

theorem Net.Sound.whole {s : Session} (h : net.Sound s srv)
    (hdone : net.client = .returned .success size memory') : Whole srv size memory' := by
  have hright := h.client
  rw [hdone] at hright
  exact hright rfl

/-- In every run over a network that loses, repeats and reorders packets, a download that succeeds
has the file in the buffer, and its length. -/
theorem download_whole (srv : Server) (room : Nat) (memory : Nat → Byte) (reply : FirstReply)
    (hlarge : 512 ≤ srv.blkSize) (hroom : room < 2 ^ 64) (hgreets : srv.Greets room reply)
    (hfew : srv.blocks < (tftpDownload false room memory reply).1.numbers)
    (hreach : (downloads srv room memory reply).Reach Machine.anyStep net)
    (hdone : net.client = .returned .success size memory') : Whole srv size memory' := by
  cases reply with
  | oack bigBlkNum blkSize =>
    obtain ⟨hbig, hblk⟩ := hgreets
    rw [tftpDownload_oack hbig] at hfew
    have hagreed : Agreed ⟨bigBlkNum.isSome, blkSize.getD 512, false, room⟩ srv :=
      ⟨hblk, rfl, hroom, hlarge, hfew⟩
    obtain ⟨c, hc, hdownloading, hlast⟩ := oack_running hagreed memory
    have hreply : tftpDownload false room memory (.oack bigBlkNum blkSize) =
        (⟨bigBlkNum.isSome, blkSize.getD 512, false, room⟩, .running c) := by
      rw [tftpDownload_oack hbig, hc]
    refine (downloads_sound hagreed hreply ?_ hreach).whole hdone
    rw [Net.start]
    refine .begin (Nat.zero_le _) (by simp) hdownloading fun c' hc' => ?_
    cases hc'
    rw [hdownloading.blockNum, hlast]
    exact ⟨by simp, by simp, Nat.le_refl _, Nat.zero_le _⟩
  | datagram opCode blockNum payload =>
    obtain ⟨rfl, rfl, rfl, hblk, hfits⟩ := hgreets
    rw [tftpDownload_data] at hfew
    have hlength := length_block srv 0
    rw [Nat.zero_add, Nat.zero_mul] at hlength
    by_cases hfull : (srv.block 1).length = srv.blkSize
    · have hagreed : Agreed ⟨false, (srv.block 1).length, false, room⟩ srv :=
        ⟨hfull, rfl, hroom, hlarge, hfew⟩
      obtain ⟨c, hc, hdownloading, hlast⟩ := data_running hagreed hfull (hfull ▸ hfits) memory
      rw [← hfull] at hc
      have hreply : tftpDownload false room memory (.datagram tftpData 1 (srv.block 1)) =
          (⟨false, (srv.block 1).length, false, room⟩, .running c) := by
        rw [tftpDownload_data, hc]
      refine (downloads_sound hagreed hreply ?_ hreach).whole hdone
      rw [Net.start]
      refine .begin (Nat.succ_pos _) (by simp [Server.blocks]) hdownloading fun c' hc' => ?_
      cases hc'
      rw [hdownloading.blockNum, hlast]
      exact ⟨by simp, by simp, Nat.le_refl _, Nat.le_succ _⟩
    · -- the file is one packet, and the client has returned
      obtain ⟨size', memory'', hwhole, hreturned⟩ := data_short
        (s := ⟨false, (srv.block 1).length, false, room⟩) rfl hroom rfl (by omega) hblk hfits memory
      have hclient : net.client = .returned .success size' memory'' := by
        apply hreach.rule
        case start =>
          rintro _ rfl
          rw [tftpDownload_data, Net.start, hreturned]
          rfl
        case next =>
          intro net move net' hclient _ hstep
          exact hstep.returned hclient
      rw [hdone] at hclient
      cases hclient
      exact hwhole

def fullBlock : List Byte := List.replicate 512 7

@[simp] theorem length_fullBlock : fullBlock.length = 512 := List.length_replicate

/-- A server with a file of a full block and three bytes, the session with it, and its client. -/
def shortServer : Server := ⟨fullBlock ++ [1, 2, 3], 512⟩

def shortSession : Session := ⟨false, 512, false, 600⟩

def shortClient : Client := ⟨0, 0, 0, 600, 512, 3, fun _ => 0⟩

/-- The client with the first block in its buffer. -/
def halfwayClient (retries : Nat) (memory : Nat → Byte) : Client :=
  ⟨1, 1, 512, 88, 88, retries, memory⟩

theorem shortDownload : tftpDownload false 600 (fun _ => 0) (.oack none none) =
    (shortSession, .running shortClient) := by
  simp [tftpDownload, lockStepReceive, loopHead, shortSession, shortClient]

theorem shortServer_first : shortServer.packet shortSession 1 = .datagram 3 1 fullBlock := by
  simp [Server.packet, Server.block, shortServer, shortSession, Session.numbers]

theorem shortServer_last : shortServer.packet shortSession 2 = .datagram 3 2 [1, 2, 3] := by
  simp [Server.packet, Server.block, shortServer, shortSession, Session.numbers]

theorem shortTurn_first :
    lockStepTurn shortSession shortClient ⟨[], shortServer.packet shortSession 1⟩ =
      .running (halfwayClient 3
        (shortClient.afterRead ⟨[], shortServer.packet shortSession 1⟩)) := by
  rw [Client.afterRead, shortServer_first]
  simp [lockStepTurn, sendAckAndGetData, tftpUdpRead, accept, loopHead, Session.numbers,
    shortSession, shortClient, halfwayClient]

theorem shortTurn_silence (memory : Nat → Byte) :
    lockStepTurn shortSession (halfwayClient 3 memory) ⟨[8], .timeout⟩ =
      .running (halfwayClient 2 (putBytes memory 512 [8])) := by
  simp [lockStepTurn, sendAckAndGetData, tftpUdpRead, tryAgain, halfwayClient]

/-- The first block once more. -/
theorem shortTurn_repeated (memory : Nat → Byte) :
    lockStepTurn shortSession (halfwayClient 2 memory) ⟨[9], shortServer.packet shortSession 1⟩ =
      .running (halfwayClient 1 (putBytes memory 512 [9])) := by
  rw [shortServer_first]
  simp [lockStepTurn, sendAckAndGetData, tftpUdpRead, tryAgain, Session.numbers, shortSession,
    halfwayClient]

theorem shortTurn_last (memory : Nat → Byte) :
    lockStepTurn shortSession (halfwayClient 1 memory) ⟨[], shortServer.packet shortSession 2⟩ =
      .returned .success 515
        ((halfwayClient 1 memory).afterRead ⟨[], shortServer.packet shortSession 2⟩) := by
  rw [Client.afterRead, shortServer_last]
  simp [lockStepTurn, sendAckAndGetData, tftpUdpRead, accept, loopHead, Session.numbers,
    shortSession, halfwayClient]

theorem shortMachine : downloads shortServer 600 (fun _ => 0) (.oack none none) =
    ⟨(· = ⟨.running shortClient, 0, [], [0]⟩), Net.Step shortSession shortServer⟩ := by
  rw [downloads, shortDownload]
  rfl

/-- A file of two blocks. The acknowledgement of the first one is lost, and the first one comes
again before the second. -/
theorem download_whole_short : ∃ memory, Whole shortServer 515 memory := by
  have hblocks : shortServer.blocks = 2 := by
    simp [Server.blocks, shortServer]
  have hfew : shortServer.blocks <
      (tftpDownload false 600 (fun _ => 0) (.oack none none)).1.numbers := by
    rw [shortDownload, hblocks]
    decide
  let m1 := shortClient.afterRead ⟨[], shortServer.packet shortSession 1⟩
  let m2 := putBytes m1 512 [8]
  let m3 := putBytes m2 512 [9]
  let m4 := (halfwayClient 1 m3).afterRead ⟨[], shortServer.packet shortSession 2⟩
  have hstart : (downloads shortServer 600 (fun _ => 0) (.oack none none)).init
      ⟨.running shortClient, 0, [], [0]⟩ := by
    rw [shortMachine]
  have hpath : Machine.Path (downloads shortServer 600 (fun _ => 0) (.oack none none))
      Machine.anyStep ⟨.running shortClient, 0, [], [0]⟩
      [.answer 0, .deliver [] 1, .silence [8], .answer 1, .deliver [9] 1, .deliver [] 2]
      ⟨.returned .success 515 m4, 2, [2, 1], [1, 1, 1, 0]⟩ := by
    rw [shortMachine]
    have hdeliver : Net.Step shortSession shortServer ⟨.running shortClient, 1, [1], [0]⟩
        (.deliver [] 1) ⟨.running (halfwayClient 3 m1), 1, [1], [1, 0]⟩ := by
      have hstep := @Net.Step.deliver shortSession shortServer
        ⟨.running shortClient, 1, [1], [0]⟩ shortClient [] 1 rfl (Nat.zero_le _) (.head _)
      rwa [shortTurn_first] at hstep
    have hsilence : Net.Step shortSession shortServer
        ⟨.running (halfwayClient 3 m1), 1, [1], [1, 0]⟩ (.silence [8])
        ⟨.running (halfwayClient 2 m2), 1, [1], [1, 1, 0]⟩ := by
      have hstep := @Net.Step.silence shortSession shortServer
        ⟨.running (halfwayClient 3 m1), 1, [1], [1, 0]⟩ _ [8] rfl (by simp [halfwayClient])
      rwa [shortTurn_silence] at hstep
    have hrepeat : Net.Step shortSession shortServer
        ⟨.running (halfwayClient 2 m2), 2, [2, 1], [1, 1, 0]⟩ (.deliver [9] 1)
        ⟨.running (halfwayClient 1 m3), 2, [2, 1], [1, 1, 1, 0]⟩ := by
      have hstep := @Net.Step.deliver shortSession shortServer
        ⟨.running (halfwayClient 2 m2), 2, [2, 1], [1, 1, 0]⟩ _ [9] 1 rfl
        (by simp [halfwayClient]) (.tail _ (.head _))
      rwa [shortTurn_repeated] at hstep
    have hlast : Net.Step shortSession shortServer
        ⟨.running (halfwayClient 1 m3), 2, [2, 1], [1, 1, 1, 0]⟩ (.deliver [] 2)
        ⟨.returned .success 515 m4, 2, [2, 1], [1, 1, 1, 0]⟩ := by
      have hstep := @Net.Step.deliver shortSession shortServer
        ⟨.running (halfwayClient 1 m3), 2, [2, 1], [1, 1, 1, 0]⟩ _ [] 2 rfl
        (Nat.zero_le _) (.head _)
      rwa [shortTurn_last] at hstep
    refine .cons trivial (.answer (.head _) rfl ?_) <| .cons trivial hdeliver <|
      .cons trivial hsilence <| .cons trivial (.answer (.head _) rfl ?_) <|
      .cons trivial hrepeat <| .cons trivial hlast .nil
    all_goals simp [hblocks]
  exact ⟨m4, download_whole shortServer 600 (fun _ => 0) (.oack none none) (by decide)
    (by decide) ⟨.inl rfl, rfl⟩ hfew (Machine.Reach.path (.start hstart) hpath) rfl⟩

end Downloads

/-! ## Any server -/

def Outcome.memory : Outcome → Nat → Byte
  | .running c => c.memory
  | .returned _ _ memory => memory

section AnyServer

variable {s : Session} {c c' : Client} {arrival : Arrival} {memory : Nat → Byte} {outcome : Outcome}

/-- The reads of a call, one after the other. -/
def lockStepRun (s : Session) : Outcome → List Arrival → Outcome
  | .running c, arrival :: arrivals => lockStepRun s (lockStepTurn s c arrival) arrivals
  | outcome, _ => outcome

/-- What the function may write to: the caller's buffer, or one packet of the temporary one. -/
def Session.limit (s : Session) : Nat := if s.dontUseBuffer then s.packetSize else s.room

/-- The room of the next read is inside of that. -/
structure Confined (s : Session) (c : Client) : Prop where
  large : 512 ≤ s.packetSize
  tries : 1 ≤ c.retries
  window : c.saveLen ≤ s.packetSize
  rest : if s.dontUseBuffer then c.bufferPtr = 0
    else c.bufferPtr + c.bufferSize = s.room ∧ c.saveLen ≤ c.bufferSize

def Outcome.Confined (s : Session) (outcome : Outcome) : Prop :=
  ∀ c, outcome = .running c → Pxe.Confined s c

/-- Each read of a call keeps to the room that it gets. -/
def ReadsKeep (s : Session) : Outcome → List Arrival → Prop
  | .running c, arrival :: arrivals =>
    arrival.noise.length ≤ c.saveLen ∧ ReadsKeep s (lockStepTurn s c arrival) arrivals
  | _, _ => True

/-- The reads that are left, where the bytes are kept. -/
def Client.budget (s : Session) (c : Client) : Nat :=
  numAckRetries * (c.bufferSize / s.packetSize) + c.retries

theorem Confined.room_le (h : Confined s c) : c.bufferPtr + c.saveLen ≤ s.limit := by
  have hrest := h.rest
  have hwindow := h.window
  unfold Session.limit
  split at hrest <;> rename_i hbuffer
  · rw [if_pos hbuffer]
    omega
  · rw [if_neg hbuffer]
    omega

theorem Confined.tryAgain (h : Confined s c) {blockNum : Nat} {memory : Nat → Byte} :
    (tryAgain s { c with blockNum, memory }).Confined s := by
  intro c' hc'
  have htries := h.tries
  unfold Pxe.tryAgain at hc'
  split at hc' <;> cases hc'
  rename_i hmore
  exact ⟨h.large, by simp only at hmore ⊢; omega, h.window, h.rest⟩

theorem Confined.loopHead {n : Nat}
    (hrest : if s.dontUseBuffer then c.bufferPtr = 0 else c.bufferPtr + c.bufferSize = s.room) :
    (loopHead s n c).Confined s := by
  intro c' hc'
  unfold Pxe.loopHead at hc'
  split at hc'
  · rename_i hgo
    obtain ⟨hlarge, hsame⟩ := hgo
    cases hc'
    refine ⟨hsame ▸ hlarge, (by decide : 1 ≤ numAckRetries), ?_, ?_⟩
    · simp only
      split <;> omega
    · simp only
      split
      · rename_i hbuffer
        rwa [if_pos hbuffer] at hrest
      · rename_i hbuffer
        rw [if_neg hbuffer] at hrest
        refine ⟨hrest, ?_⟩
        split <;> omega
  · split at hc' <;> cases hc'

theorem Confined.turn (h : Confined s c) (arrival : Arrival) :
    (lockStepTurn s c arrival).Confined s := by
  have hshape := lockStepTurn_shape s c arrival
  generalize lockStepTurn s c arrival = outcome at hshape
  cases hshape with
  | again => exact h.tryAgain
  | error =>
    intro c' hc'
    cases hc'
  | @take payload htakes =>
    have hrest := h.rest
    have hfits := htakes.fits
    unfold accept
    apply Confined.loopHead
    by_cases hbuffer : s.dontUseBuffer = true
    · rw [if_pos hbuffer] at hrest ⊢
      rw [if_pos hbuffer]
      exact hrest
    · rw [if_neg hbuffer] at hrest ⊢
      rw [if_neg hbuffer]
      simp only [Client.taken]
      omega

/-- Each turn uses up one of the reads that are left. -/
theorem Confined.turn_budget (h : Confined s c) (hbuffer : s.dontUseBuffer = false)
    (hturn : lockStepTurn s c arrival = .running c') : c'.budget s < c.budget s := by
  have hshape := lockStepTurn_shape s c arrival
  have htries := h.tries
  have hlarge := h.large
  rw [hturn] at hshape
  generalize hout : Outcome.running c' = outcome at hshape
  cases hshape with
  | again =>
    unfold Pxe.tryAgain at hout
    split at hout
    · cases hout
    · cases hout
      simp only [Client.budget]
      omega
  | error => cases hout
  | @take payload htakes =>
    have hfits := htakes.fits
    have hrest := h.rest
    rw [hbuffer] at hrest
    simp only [Bool.false_eq_true, if_false] at hrest
    unfold Pxe.accept Pxe.loopHead at hout
    split at hout
    · rename_i hgo
      cases hout
      simp only [hbuffer, Client.taken, Client.budget, Bool.false_eq_true, if_false]
      -- a full packet
      have hretries : numAckRetries = 3 := rfl
      have hquotient : (c.bufferSize - payload.length) / s.packetSize + 1 =
          c.bufferSize / s.packetSize := by
        rw [hgo.2, ← Nat.add_div_right _ (by omega), Nat.sub_add_cancel (by omega)]
      rw [hretries]
      omega
    · split at hout <;> cases hout

theorem lockStepRun_returned {status : TftpStatus} {size : Nat} (arrivals : List Arrival) :
    lockStepRun s (.returned status size memory) arrivals = .returned status size memory := by
  cases arrivals <;> rfl

theorem lockStepRun_confined (arrivals : List Arrival) (h : outcome.Confined s) :
    (lockStepRun s outcome arrivals).Confined s := by
  induction arrivals generalizing outcome with
  | nil => cases outcome <;> exact h
  | cons arrival arrivals ih =>
    cases outcome with
    | running c => exact ih ((h c rfl).turn arrival)
    | returned => exact h

theorem lockStepRun_ends (hbuffer : s.dontUseBuffer = false) (arrivals : List Arrival)
    (h : Confined s c) (hbudget : c.budget s ≤ arrivals.length) :
    ∃ status size memory', lockStepRun s (.running c) arrivals = .returned status size memory' := by
  induction arrivals generalizing c with
  | nil =>
    have htries := h.tries
    simp only [Client.budget, List.length_nil] at hbudget
    omega
  | cons arrival arrivals ih =>
    rw [lockStepRun]
    have hturn := h.turn arrival
    cases houtcome : lockStepTurn s c arrival with
    | running c' =>
      rw [houtcome] at hturn
      have hless := h.turn_budget hbuffer houtcome
      rw [List.length_cons] at hbudget
      exact ih (hturn c' rfl) (by omega)
    | returned status size memory' =>
      exact ⟨status, size, memory', lockStepRun_returned arrivals⟩

/-- Only the read of a turn writes. -/
theorem lockStepTurn_memory (s : Session) (c : Client) (arrival : Arrival) :
    (lockStepTurn s c arrival).memory = c.afterRead arrival := by
  have hshape := lockStepTurn_shape s c arrival
  generalize lockStepTurn s c arrival = outcome at hshape
  cases hshape with
  | again =>
    unfold Pxe.tryAgain
    split <;> rfl
  | error => rfl
  | take =>
    unfold accept loopHead
    split
    · split <;> rfl
    · split
      · rfl
      · rfl

theorem lockStepRun_kept (arrivals : List Arrival) (h : outcome.Confined s)
    (hkeep : ReadsKeep s outcome arrivals) {k : Nat} (hk : s.limit ≤ k) :
    (lockStepRun s outcome arrivals).memory k = outcome.memory k := by
  induction arrivals generalizing outcome with
  | nil => cases outcome <;> rfl
  | cons arrival arrivals ih =>
    cases outcome with
    | running c =>
      obtain ⟨hnoise, hrest⟩ := hkeep
      have hroom := (h c rfl).room_le
      have houtside : c.afterRead arrival k = c.memory k :=
        tftpUdpRead_outside hnoise (.inr (by omega))
      rw [lockStepRun, ih ((h c rfl).turn arrival) hrest, lockStepTurn_memory, houtside]
      rfl
    | returned => rfl

theorem lockStepReceive_confined {offset lastBlock : Nat} (hroom : s.room < 2 ^ 64)
    (hoffset : offset ≤ s.room) : (lockStepReceive s offset lastBlock memory).Confined s := by
  apply Confined.loopHead
  split
  · rfl
  · simp only
    omega

theorem lockStepReceive_memory {offset lastBlock : Nat} :
    (lockStepReceive s offset lastBlock memory).memory = memory := by
  unfold lockStepReceive loopHead
  split
  · rfl
  · split <;> rfl

/-- Whatever arrives, the room that `LockStepReceive` gives to a read lies in the buffer (or in one
packet, where the data are thrown away), so that reads which keep to their rooms write to nothing
behind it; and where the data are kept it reads at most three times for each packet that has room,
and three times more. -/
theorem lockStepReceive_bounded (s : Session) (offset lastBlock : Nat) (memory : Nat → Byte)
    (arrivals : List Arrival) (hroom : s.room < 2 ^ 64) (hoffset : offset ≤ s.room) :
    (∀ n c, lockStepRun s (lockStepReceive s offset lastBlock memory) (arrivals.take n) =
      .running c → c.bufferPtr + c.saveLen ≤ s.limit) ∧
    (ReadsKeep s (lockStepReceive s offset lastBlock memory) arrivals → ∀ k, s.limit ≤ k →
      (lockStepRun s (lockStepReceive s offset lastBlock memory) arrivals).memory k = memory k) ∧
    (s.dontUseBuffer = false →
      numAckRetries * ((s.room - offset) / s.packetSize + 1) ≤ arrivals.length →
      ∃ status size memory', lockStepRun s (lockStepReceive s offset lastBlock memory) arrivals =
        .returned status size memory') := by
  have hsize : (s.room + 2 ^ 64 - offset) % 2 ^ 64 = s.room - offset := by omega
  have hbegin := @lockStepReceive_confined s memory offset lastBlock hroom hoffset
  refine ⟨fun n c hrun => ?_, fun hkeep k hk => ?_, fun hbuffer hmany => ?_⟩
  · exact (lockStepRun_confined (arrivals.take n) hbegin c hrun).room_le
  · rw [lockStepRun_kept arrivals hbegin hkeep hk, lockStepReceive_memory]
  · cases hcall : lockStepReceive s offset lastBlock memory with
    | returned status size memory' =>
      exact ⟨status, size, memory', lockStepRun_returned arrivals⟩
    | running c =>
      refine lockStepRun_ends hbuffer arrivals (hbegin c hcall) ?_
      have hbudget : c.budget s = numAckRetries * ((s.room - offset) / s.packetSize + 1) := by
        rw [lockStepReceive, loopHead, hbuffer] at hcall
        split at hcall
        · cases hcall
          simp only [Client.budget, Bool.false_eq_true, if_false]
          rw [hsize, Nat.mul_succ]
        · cases hcall
      omega

/-- One read of a small transfer, at which nothing arrives but noise. -/
theorem lockStepReceive_bounded_short :
    (lockStepRun shortSession (lockStepReceive shortSession 0 0 fun _ => 0)
      [⟨[9], .timeout⟩]).memory 600 = 0 :=
  (lockStepReceive_bounded shortSession 0 0 (fun _ => 0) [⟨[9], .timeout⟩] (by decide)
    (by decide)).2.1 ⟨by decide, trivial⟩ 600 (Nat.le_refl 600)

end AnyServer

end EfiCore.Pxe
