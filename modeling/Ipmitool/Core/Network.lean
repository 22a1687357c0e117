import Ipmitool.Core.Types

/-! # The outside world of a transport

What a transport observes and what it does to its surroundings: the outcomes of its receives and
sends, the readings of the clock, the random numbers it draws, the packets it sends and the bytes it
hands to the serial-over-LAN input handler. The outcomes still to come are lists, consumed from the
front. A receive that finds the list empty times out; the clock that runs out of readings stands
still; a send without a recorded outcome succeeds. -/

namespace Ipmitool.Core.Network

open Ipmitool.Core.Types

/-- Sixteen random bytes, as `lanplus_rand` is asked for them. -/
abbrev Block := { l : List UInt8 // l.length = 16 }

def zeroBlock : Block := ⟨List.replicate 16 0, by decide⟩

/-- The surroundings of a transport. A receive outcome is a datagram, or `none` for a timeout or a
socket error; `connects` is the descriptor that connecting the socket yields, if it succeeds. -/
structure Net where
  inbox : List (Option (List UInt8)) := []
  clock : List ℤ := []
  now : ℤ := 0
  sendFails : List Bool := []
  entropy : List Block := []
  connects : Option ℕ := some 3
  sent : List (List UInt8) := []
  output : List (List UInt8) := []

/-- The next receive outcome. -/
def Net.recv (n : Net) : Option (List UInt8) × Net :=
  match n.inbox with
  | [] => (none, n)
  | d :: rest => (d, { n with inbox := rest })

/-- `time(NULL)`. -/
def Net.time (n : Net) : ℤ × Net :=
  match n.clock with
  | [] => (n.now, n)
  | t :: rest => (t, { n with clock := rest, now := t })

/-- Send a packet; `false` if the send fails. -/
def Net.send (n : Net) (packet : List UInt8) : Bool × Net :=
  match n.sendFails with
  | [] => (true, { n with sent := n.sent ++ [packet] })
  | b :: rest => (!b, { n with sendFails := rest, sent := n.sent ++ [packet] })

/-- `lanplus_rand`: the pool is seeded by `setup`, so a draw does not fail. -/
def Net.rand (n : Net) : Block × Net :=
  match n.entropy with
  | [] => (zeroBlock, n)
  | b :: rest => (b, { n with entropy := rest })

section
variable (n : Net)

@[simp] theorem Net.time_inbox : n.time.2.inbox = n.inbox := by
  unfold Net.time; split <;> rfl

@[simp] theorem Net.time_sendFails : n.time.2.sendFails = n.sendFails := by
  unfold Net.time; split <;> rfl

theorem Net.send_sendFails (p : List UInt8) : (n.send p).2.sendFails <:+ n.sendFails := by
  unfold Net.send
  split
  · exact List.suffix_rfl
  · rename_i h; rw [h]; exact List.suffix_cons _ _

@[simp] theorem Net.send_inbox (p : List UInt8) : (n.send p).2.inbox = n.inbox := by
  unfold Net.send; split <;> rfl

@[simp] theorem Net.rand_sendFails : n.rand.2.sendFails = n.sendFails := by
  unfold Net.rand; split <;> rfl

end

end Ipmitool.Core.Network
