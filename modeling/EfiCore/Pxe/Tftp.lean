import EfiCore.Lib.Memory
import EfiCore.Types

/-! # The TFTP client (`pxe_bc_mtftp.c`)

`LockStepReceive` and the loop of `TftpUpload` as functions of what each `TftpUdpRead` meets. The
values of the options of an OACK packet are taken as `FindOption` and `AtoU` find them.
-/

namespace EfiCore.Pxe

open EfiCore.Lib

abbrev numAckRetries : Nat := 3

/-- `TFTP_DATA`, `TFTP_ACK`, `TFTP_ERROR` and `TFTP_DATA8` -/
abbrev tftpData : Nat := 3
abbrev tftpAck : Nat := 4
abbrev tftpError : Nat := 5
abbrev tftpData8 : Nat := 8

/-- The statuses that the client tells apart. -/
inductive TftpStatus where
  | success
  | timeout
  | bufferTooSmall
  | protocolError
  | other
  deriving DecidableEq

/-- How a read ends: with a datagram that passed the filters, or without one. A datagram is whole:
`UdpRead` counts the bytes of the fragments that it gets and takes a repeated one for a new one, so
the event is for datagrams whose fragments come together and once. -/
inductive Event where
  | timeout
  | failed
  | datagram (opCode blockNum : Nat) (payload : List Byte)

/-- One read. `noise` is what fragments of other datagrams have left in the buffer before. Nothing
here keeps it to the room of the read. -/
structure Arrival where
  noise : List Byte
  event : Event

/-- What a read gives back. -/
structure Reading where
  status : TftpStatus
  opCode : Nat
  blockNum : Nat
  replyLen : Nat
  memory : Nat → Byte

/-- `TftpUdpRead`, with room for `limit` bytes at `pos`. -/
def tftpUdpRead (limit pos : Nat) (memory : Nat → Byte) (arrival : Arrival) : Reading :=
  let memory := putBytes memory pos arrival.noise
  match arrival.event with
  | .timeout => ⟨.timeout, 0, 0, limit, memory⟩
  | .failed => ⟨.other, 0, 0, limit, memory⟩
  | .datagram opCode blockNum payload =>
    if payload.length ≤ limit then
      ⟨if opCode = tftpError then .other else .success, opCode, blockNum, payload.length,
        putBytes memory pos payload⟩
    else ⟨.bufferTooSmall, opCode, blockNum, limit, memory⟩

/-- What stays the same during a transfer. -/
structure Session where
  bigBlkNum : Bool
  packetSize : Nat
  dontUseBuffer : Bool
  /-- `*BufferSizePtr` -/
  room : Nat

/-- The number of different block numbers. -/
def Session.numbers (s : Session) : Nat := if s.bigBlkNum then 2 ^ 64 else 2 ^ 16

/-- `SendAckAndGetData`, behind the acknowledgement of `blockNum`. -/
def sendAckAndGetData (s : Session) (limit pos blockNum : Nat) (memory : Nat → Byte)
    (arrival : Arrival) : Reading :=
  let r := tftpUdpRead limit pos memory arrival
  match r.status with
  | .success | .bufferTooSmall =>
    if r.opCode = (if s.bigBlkNum then tftpData8 else tftpData) then
      { r with blockNum := r.blockNum % s.numbers }
    else { r with status := .protocolError, blockNum := blockNum }
  | _ => { r with blockNum := blockNum }

/-- The variables of `LockStepReceive` before it acknowledges `blockNum`. -/
structure Client where
  lastBlock : Nat
  blockNum : Nat
  bufferPtr : Nat
  bufferSize : Nat
  saveLen : Nat
  retries : Nat
  memory : Nat → Byte

/-- After a read, the function reads again or returns with `*BufferSizePtr`. -/
inductive Outcome where
  | running (c : Client)
  | returned (status : TftpStatus) (size : Nat) (memory : Nat → Byte)

/-- The head of the outer loop, and the end of the function behind it. -/
def loopHead (s : Session) (replyLen : Nat) (c : Client) : Outcome :=
  if 512 ≤ replyLen ∧ replyLen = s.packetSize then
    .running { c with
      saveLen := if c.bufferSize < s.packetSize then c.bufferSize else replyLen
      retries := numAckRetries }
  else if s.dontUseBuffer then
    .returned .success ((c.bufferSize + 2 ^ 64 - s.packetSize) % 2 ^ 64) c.memory
  else .returned .success ((s.room + 2 ^ 64 - c.bufferSize) % 2 ^ 64) c.memory

/-- A turn of the inner loop that ends with `EFI_TIMEOUT`. -/
def tryAgain (s : Session) (c : Client) : Outcome :=
  if c.retries = 1 then .returned .timeout s.room c.memory
  else .running { c with retries := c.retries - 1 }

/-- A block is in the buffer. -/
def accept (s : Session) (replyLen : Nat) (c : Client) : Outcome :=
  loopHead s replyLen
    (if s.dontUseBuffer then { c with bufferSize := (c.bufferSize + replyLen) % 2 ^ 64 }
    else { c with bufferPtr := c.bufferPtr + replyLen, bufferSize := c.bufferSize - replyLen })

/-- A turn of the inner loop of `LockStepReceive`. -/
def lockStepTurn (s : Session) (c : Client) (arrival : Arrival) : Outcome :=
  let r := sendAckAndGetData s c.saveLen c.bufferPtr c.blockNum c.memory arrival
  let c := { c with blockNum := r.blockNum, memory := r.memory }
  match r.status with
  | .success | .bufferTooSmall =>
    -- a resend counts as a timeout
    if c.blockNum = c.lastBlock then tryAgain s c
    else
      let c := { c with lastBlock := (c.lastBlock + 1) % s.numbers }
      if c.blockNum ≠ c.lastBlock then .returned .protocolError s.room c.memory
      else if r.status = .success then accept s r.replyLen c
      else .returned .bufferTooSmall s.room c.memory
  | .timeout => tryAgain s c
  | status => .returned status s.room c.memory

/-- `LockStepReceive` begins. -/
def lockStepReceive (s : Session) (offset lastBlock : Nat) (memory : Nat → Byte) : Outcome :=
  loopHead s s.packetSize
    { lastBlock := lastBlock
      blockNum := lastBlock
      bufferPtr := if s.dontUseBuffer then 0 else offset
      bufferSize :=
        if s.dontUseBuffer then s.packetSize else (s.room + 2 ^ 64 - offset) % 2 ^ 64
      saveLen := 0
      retries := 0
      memory := memory }

/-- The reply to the request: the values of the two options in an OACK packet, or a data packet. -/
inductive FirstReply where
  | oack (bigBlkNum blkSize : Option Nat)
  | datagram (opCode blockNum : Nat) (payload : List Byte)

/-- `TftpDownload` from the reply on, with what the reads have left in the buffer. -/
def tftpDownload (dontUseBuffer : Bool) (room : Nat) (memory : Nat → Byte) (reply : FirstReply) :
    Session × Outcome :=
  match reply with
  | .oack bigBlkNum blkSize =>
    let s : Session := ⟨bigBlkNum.isSome, blkSize.getD 512, dontUseBuffer, room⟩
    if bigBlkNum = none ∨ bigBlkNum = some 8 then (s, lockStepReceive s 0 0 memory)
    else (s, .returned .protocolError room memory)
  | .datagram opCode blockNum payload =>
    let s : Session := ⟨false, payload.length, dontUseBuffer, room⟩
    if opCode ≠ tftpData ∨ blockNum ≠ 1 then (s, .returned .protocolError room memory)
    else (s, lockStepReceive s payload.length 1 (putBytes memory 0 payload))

/-! ## Uploads -/

/-- The variables of the loop of `TftpUpload` before it writes a packet. -/
structure Uploader where
  blockNum : Nat
  bufferPtr : Nat
  transferSize : Nat
  transferLen : Nat
  retries : Nat

inductive UploadOutcome where
  | running (u : Uploader)
  | returned (status : TftpStatus)

/-- The head of the outer loop. -/
def uploadHead (packetSize : Nat) (u : Uploader) : UploadOutcome :=
  .running { u with transferLen := min packetSize u.transferSize, retries := numAckRetries }

/-- The number of the packet that is being sent. -/
def Uploader.header (u : Uploader) : Nat := u.blockNum % 2 ^ 16

/-- A turn of the inner loop of `TftpUpload`, with the reply. -/
def uploadTurn (packetSize : Nat) (u : Uploader) (event : Event) : UploadOutcome :=
  let tryAgain : UploadOutcome :=
    if u.retries = 1 then .returned .timeout else .running { u with retries := u.retries - 1 }
  match event with
  | .timeout => tryAgain
  | .failed => .returned .other
  | .datagram opCode blockNum payload =>
    if 512 < payload.length then .returned .bufferTooSmall
    else if opCode = tftpError then .returned .other
    else if opCode ≠ tftpAck then .returned .protocolError
    else if blockNum ≠ u.header then tryAgain
    else
      let u' := { u with
        blockNum := (u.blockNum + 1) % 2 ^ 64
        bufferPtr := u.bufferPtr + u.transferLen
        transferSize := u.transferSize - u.transferLen }
      if u.transferLen = packetSize then uploadHead packetSize u' else .returned .success

/-- The loop of `TftpUpload` begins. -/
def tftpUpload (packetSize room : Nat) : UploadOutcome :=
  uploadHead packetSize ⟨1, 0, room, 0, 0⟩

end EfiCore.Pxe
