import EfiCore.Lib.Run

/-! # Stop-and-wait transfers

A sender has numbered blocks and sends the next one when the last one is acknowledged. The network
may lose, repeat and reorder both kinds of messages: what has been sent once may arrive at any time
after, any number of times. Numbers are unbounded here; a protocol with numbers of a fixed width
has to show that its numbers do not come round within a transfer.
-/

namespace EfiCore.Lib

/-- How far the two sides are, and the messages that were sent. -/
structure Exchange where
  /-- The block that the sender waits for an acknowledgement of. -/
  sending : Nat
  /-- The blocks that the receiver has taken. -/
  taken : Nat
  data : List Nat
  acks : List Nat

namespace Exchange

variable {e : Exchange} {k : Nat}

/-- The sender has sent what it is at (again). -/
def send (e : Exchange) : Exchange := { e with data := e.sending :: e.data }

/-- The sender goes on to the next block. -/
def advance (e : Exchange) : Exchange :=
  { e with sending := e.sending + 1, data := (e.sending + 1) :: e.data }

/-- The receiver takes the next block, and acknowledges it. -/
def take (e : Exchange) : Exchange :=
  { e with taken := e.taken + 1, acks := (e.taken + 1) :: e.acks }

/-- The receiver acknowledges a block that it has (again). -/
def acknowledge (e : Exchange) (k : Nat) : Exchange := { e with acks := k :: e.acks }

/-- The sender is at the block that the receiver waits for, or one behind. -/
structure InStep (e : Exchange) : Prop where
  data_le : ∀ k ∈ e.data, k ≤ e.sending
  acks_le : ∀ k ∈ e.acks, k ≤ e.taken
  taken_le : e.taken ≤ e.sending
  sending_le : e.sending ≤ e.taken + 1

theorem InStep.send (h : e.InStep) : e.send.InStep where
  data_le k hk := by
    cases hk with
    | head => exact Nat.le_refl _
    | tail _ hk => exact h.data_le k hk
  acks_le := h.acks_le
  taken_le := h.taken_le
  sending_le := h.sending_le

/-- An acknowledgement of the block that the sender is at can only have been sent for it. -/
theorem InStep.advance (h : e.InStep) (hk : e.sending ∈ e.acks) : e.advance.InStep where
  data_le k hk := by
    cases hk with
    | head => exact Nat.le_refl _
    | tail _ hk => exact Nat.le_succ_of_le (h.data_le k hk)
  acks_le := h.acks_le
  taken_le := Nat.le_succ_of_le h.taken_le
  sending_le := Nat.succ_le_succ (h.acks_le _ hk)

/-- A block that is the next for the receiver is the one that the sender is at. -/
theorem InStep.take (h : e.InStep) (hk : e.taken + 1 ∈ e.data) : e.take.InStep where
  data_le := h.data_le
  acks_le k hk := by
    cases hk with
    | head => exact Nat.le_refl _
    | tail _ hk => exact Nat.le_succ_of_le (h.acks_le k hk)
  taken_le := h.data_le _ hk
  sending_le := Nat.le_succ_of_le h.sending_le

theorem InStep.acknowledge (h : e.InStep) (hk : k ≤ e.taken) : (e.acknowledge k).InStep where
  data_le := h.data_le
  acks_le j hj := by
    cases hj with
    | head => exact hk
    | tail _ hj => exact h.acks_le j hj
  taken_le := h.taken_le
  sending_le := h.sending_le

end Exchange

end EfiCore.Lib
