import Skiff.Value.Error

/-!
# Channels

A queue between tasks. A sender makes an offer, which is accepted when there is room in the
buffer or when a receiver takes the value directly; until then the sender waits. Nothing can be
offered to a closed channel, but what has been accepted can still be received, and a sender that
closing has woken up may find that there is room by now. Which of these it goes by is drawn when it
begins to wait.
-/

namespace Skiff

/-- What may end a send that waits: room in the buffer, the closing of the channel, or the token of
the thread. -/
inductive Branch where
  | room
  | closing
  | token
  deriving DecidableEq, Repr

namespace Branch

/-- What the numbers of each thread begin with. -/
def firstDraw : UInt32 := 1406868647

/-- The number that is drawn after another one. -/
def nextDraw (draw : UInt32) : UInt32 :=
  let draw := draw ^^^ (draw <<< 13)
  let draw := draw ^^^ (draw >>> 17)
  draw ^^^ (draw <<< 5)

/-- The order in which a send looks for what may end it. The first number says whether the first two
change places, and the second one with which the last does. -/
def order (first second : UInt32) : List Branch :=
  let branches := if first < 0x80000000 then #[closing, room, token] else #[room, closing, token]
  (branches.swapIfInBounds 2 (second.toNat * 3 / 0x100000000)).toList

end Branch

structure Channel where
  capacity : Nat
  /-- The values that were accepted and not yet received, the oldest first. -/
  buffer : List Value := []
  /-- The offers that wait, by ticket, the oldest first. -/
  offers : List (Nat × Value) := []
  /-- How many offers were ever made. -/
  tickets : Nat := 0
  closed : Bool := false
  deriving Inhabited

namespace Channel

/-- Whether an offer is still waiting. -/
def isWaiting (channel : Channel) (ticket : Nat) : Bool :=
  channel.offers.any fun offer => offer.1 == ticket

/-- Takes an offer back. -/
def withdraw (channel : Channel) (ticket : Nat) : Channel :=
  { channel with offers := channel.offers.filter fun offer => offer.1 != ticket }

/-- Accepts an offer. -/
def commit (channel : Channel) (ticket : Nat) : Channel :=
  let accepted := channel.offers.filter fun offer => offer.1 == ticket
  { channel.withdraw ticket with buffer := channel.buffer ++ accepted.map Prod.snd }

/-- Whether what may end a send has come. -/
def isReady (channel : Channel) (cancelled : Bool) : Branch → Bool
  | .room => channel.buffer.length < channel.capacity
  | .closing => channel.closed
  | .token => cancelled

/-- Accepts the oldest offer if there is room for it and the channel is open. -/
def settle (channel : Channel) : Channel :=
  match channel.offers with
  | [] => channel
  | (ticket, _) :: _ =>
    if channel.isReady false .room && !channel.closed then channel.commit ticket else channel

/-- Makes an offer, and gives its ticket. -/
def offer (channel : Channel) (value : Value) : Channel × Nat :=
  (({ channel with
      offers := channel.offers ++ [(channel.tickets, value)]
      tickets := channel.tickets + 1 } : Channel).settle, channel.tickets)

/-- Takes the oldest accepted value, or accepts the oldest offer to an open channel and takes
it. -/
def take? (channel : Channel) : Option (Value × Channel) :=
  match channel.buffer, channel.offers with
  | value :: rest, _ => some (value, ({ channel with buffer := rest } : Channel).settle)
  | [], (ticket, value) :: _ =>
    if channel.closed then none else some (value, channel.withdraw ticket)
  | [], [] => none

/-- A short text about a channel. -/
def describe (channel : Channel) : String := s!"Channel(closed={channel.closed})"

def close (channel : Channel) : Channel := { channel with closed := true }

end Channel

end Skiff
