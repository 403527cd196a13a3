import Mathlib.Data.List.Perm.Lattice
import Skiff.Concurrent.Channel

/-!
# What may happen at a channel

Tasks that use a channel look at it and act on it at different moments. A send first finds the
channel open, which makes an offer of its value, and later takes whatever is possible by then: its
value is accepted into the buffer, handed to a receiver, or taken back because the channel has been
closed or the task has been told to stop. A step is one such act, with nothing said about whose turn
it is or which of the possible acts is chosen. However the acts follow one another, values come out
as they went in, and each offer ends once.
-/

namespace Skiff

open List Branch

namespace Channel

/-- What happens at a channel. -/
inductive Event where
  /-- A send found the channel open and offers its value. -/
  | offered (ticket : Nat) (value : Value)
  /-- A send found the channel closed. -/
  | refused
  /-- A value that was offered is accepted: its send succeeds. -/
  | committed (ticket : Nat) (value : Value)
  /-- A value that was offered is accepted and received at once. -/
  | handed (ticket : Nat) (value : Value)
  /-- A send ends without success, as the channel is closed or its task told to stop. -/
  | gaveUp (ticket : Nat) (value : Value)
  | received (value : Value)
  /-- A receiver found the channel closed and without values, and gives nothing. -/
  | drained
  /-- A task that sends or receives has been told to stop. -/
  | stopped
  | closed
  deriving DecidableEq

namespace Event

/-- The offer that an event accepts. -/
def commit? : Event → Option (Nat × Value)
  | committed ticket value | handed ticket value => some (ticket, value)
  | _ => none

/-- The value that a receiver gets by an event. -/
def received? : Event → Option Value
  | handed _ value | received value => some value
  | _ => none

/-- The offer that begins with an event. -/
def offer? : Event → Option (Nat × Value)
  | offered ticket value => some (ticket, value)
  | _ => none

/-- The offer that ends with an event. -/
def end? : Event → Option (Nat × Value)
  | committed ticket value | handed ticket value | gaveUp ticket value => some (ticket, value)
  | _ => none

end Event

/-- One act of a task at a channel. -/
inductive Step (channel : Channel) : Event → Channel → Prop where
  | offer (isOpen : channel.closed = false) (value : Value) :
      Step channel (.offered channel.tickets value)
        { channel with
          offers := channel.offers ++ [(channel.tickets, value)], tickets := channel.tickets + 1 }
  | refuse (isClosed : channel.closed = true) : Step channel .refused channel
  | commit {ticket : Nat} {value : Value} (waits : (ticket, value) ∈ channel.offers)
      (room : channel.buffer.length < channel.capacity) :
      Step channel (.committed ticket value)
        { channel with
          buffer := channel.buffer ++ [value], offers := (channel.withdraw ticket).offers }
  | hand {ticket : Nat} {value : Value} (waits : (ticket, value) ∈ channel.offers)
      (empty : channel.buffer = []) : Step channel (.handed ticket value) (channel.withdraw ticket)
  | giveUp {ticket : Nat} {value : Value} (waits : (ticket, value) ∈ channel.offers) :
      Step channel (.gaveUp ticket value) (channel.withdraw ticket)
  | receive {value : Value} {rest : List Value} (buffer : channel.buffer = value :: rest) :
      Step channel (.received value) { channel with buffer := rest }
  | drain (isClosed : channel.closed = true) (empty : channel.buffer = []) :
      Step channel .drained channel
  | stop : Step channel .stopped channel
  | close : Step channel .closed channel.close

/-- Acts one after the other, in any order. -/
inductive Moves : Channel → List Event → Channel → Prop where
  | done (channel : Channel) : Moves channel [] channel
  | step {channel next last : Channel} {event : Event} {log : List Event}
      (first : Step channel event next) (rest : Moves next log last) :
        Moves channel (event :: log) last

/-- The values whose sends succeed, in the order in which they are accepted. -/
def commits (log : List Event) : List Value := (log.filterMap Event.commit?).map Prod.snd

/-- The values that receivers get, in order. -/
def receipts (log : List Event) : List Value := log.filterMap Event.received?

theorem commits_cons (event : Event) (log : List Event) :
    commits (event :: log) = commits [event] ++ commits log := by
  simp only [commits, ← map_append, ← filterMap_append, singleton_append]

theorem receipts_cons (event : Event) (log : List Event) :
    receipts (event :: log) = receipts [event] ++ receipts log := by
  simp only [receipts, ← filterMap_append, singleton_append]

variable {channel next last : Channel} {event : Event} {log before after : List Event}

/-- A run up to an event and from it on. -/
theorem Moves.split (moves : Moves channel (before ++ event :: after) last) :
    ∃ middle next, Moves channel before middle ∧ Step middle event next ∧
      Moves next after last := by
  induction before generalizing channel with
  | nil =>
    cases moves with
    | step first rest => exact ⟨channel, _, .done channel, first, rest⟩
  | cons head before ih =>
    cases moves with
    | step first rest =>
      obtain ⟨middle, next, early, here, late⟩ := ih rest
      exact ⟨middle, next, .step first early, here, late⟩

/-! ## The order of values -/

theorem Step.buffer (step : Step channel event next) :
    channel.buffer ++ commits [event] = receipts [event] ++ next.buffer := by
  cases step with
  | commit => rfl
  | @hand ticket value _ empty =>
    show channel.buffer ++ [value] = [value] ++ channel.buffer
    rw [empty, nil_append, append_nil]
  | receive buffer => exact (append_nil _).trans buffer
  | _ => exact append_nil _

/-- What was in the buffer and what is accepted is what is received and what is left. -/
theorem Moves.buffer (moves : Moves channel log last) :
    channel.buffer ++ commits log = receipts log ++ last.buffer := by
  induction moves with
  | done channel => simp [commits, receipts]
  | @step channel next last event log first rest ih =>
    rw [commits_cons, receipts_cons, ← append_assoc, first.buffer, append_assoc, ih,
      append_assoc]

theorem Moves.capacity (moves : Moves channel log last)
    (fits : channel.buffer.length ≤ channel.capacity) :
    last.capacity = channel.capacity ∧ last.buffer.length ≤ channel.capacity := by
  induction moves with
  | done channel => exact ⟨rfl, fits⟩
  | @step channel next last event log first rest ih =>
    have kept : next.capacity = channel.capacity := by cases first <;> rfl
    have still : next.buffer.length ≤ next.capacity := by
      cases first with
      | commit _ room =>
        show (channel.buffer ++ [_]).length ≤ channel.capacity
        rwa [length_append]
      | receive buffer =>
        rw [buffer, length_cons] at fits
        exact Nat.le_of_succ_le fits
      | _ => exact fits
    rw [← kept]
    exact ih still

/-! ## Offers -/

/-- Offers that wait have tickets of their own. -/
structure Numbered (channel : Channel) : Prop where
  nodup : (channel.offers.map Prod.fst).Nodup
  issued : ∀ offer ∈ channel.offers, offer.1 < channel.tickets

variable {value : Value}

/-- Of the offers that wait, withdrawing takes one away. -/
theorem Numbered.perm_withdraw (numbered : channel.Numbered) {ticket : Nat}
    (waits : (ticket, value) ∈ channel.offers) :
    channel.offers.Perm ((ticket, value) :: (channel.withdraw ticket).offers) := by
  have nodup := numbered.nodup
  unfold withdraw
  generalize channel.offers = offers at waits nodup
  induction offers with
  | nil => cases waits
  | cons offer offers ih =>
    rw [map_cons, nodup_cons] at nodup
    by_cases here : offer.1 = ticket
    · have others : ∀ other ∈ offers, other.1 ≠ ticket := fun other member same =>
        nodup.1 (here ▸ same ▸ mem_map_of_mem member)
      have found : offer = (ticket, value) := by
        rcases mem_cons.1 waits with same | later
        · exact same.symm
        · exact absurd rfl (others _ later)
      have kept : offers.filter (fun other => other.1 != ticket) = offers :=
        filter_eq_self.2 fun other member => by simpa using others other member
      simp [found, kept]
    · have later : (ticket, value) ∈ offers := by
        rcases mem_cons.1 waits with same | later
        · exact absurd (congrArg Prod.fst same.symm) here
        · exact later
      have apart : (offer.1 != ticket) = true := by simpa using here
      rw [filter_cons, if_pos apart]
      exact ((ih later nodup.2).cons offer).trans (.swap ..)

theorem Numbered.withdraw (numbered : channel.Numbered) (ticket : Nat) :
    (channel.withdraw ticket).Numbered where
  nodup := numbered.nodup.sublist (filter_sublist.map _)
  issued offer member := numbered.issued offer (mem_filter.1 member).1

theorem Step.numbered (step : Step channel event next) (numbered : channel.Numbered) :
    next.Numbered := by
  cases step with
  | offer isOpen value =>
    constructor
    · rw [map_append, nodup_append]
      refine ⟨numbered.nodup, by simp, fun ticket member other new => ?_⟩
      obtain ⟨offer, waits, rfl⟩ := mem_map.1 member
      have issued := numbered.issued offer waits
      simp only [map_cons, map_nil, mem_singleton] at new
      omega
    · intro offer member
      rcases mem_append.1 member with old | new
      · exact Nat.lt_succ_of_lt (numbered.issued offer old)
      · rw [mem_singleton.1 new]
        exact Nat.lt_succ_self _
  | commit | hand | giveUp =>
    have := numbered.withdraw
    exact ⟨(this _).nodup, (this _).issued⟩
  | _ => exact ⟨numbered.nodup, numbered.issued⟩

theorem Step.offers (step : Step channel event next) (numbered : channel.Numbered) :
    (channel.offers ++ event.offer?.toList).Perm (event.end?.toList ++ next.offers) := by
  cases step with
  | offer => exact .refl _
  | commit waits | hand waits | giveUp waits =>
    simpa [Event.offer?, Event.end?] using numbered.perm_withdraw waits
  | _ => simp [Event.offer?, Event.end?, Channel.close]

/-- Each offer ends once, or still waits. -/
theorem Moves.offers (moves : Moves channel log last) (numbered : channel.Numbered) :
    (channel.offers ++ log.filterMap Event.offer?).Perm
      (log.filterMap Event.end? ++ last.offers) := by
  induction moves with
  | done channel => simp
  | @step channel next last event log first rest ih =>
    have offer_cons : (event :: log).filterMap Event.offer?
        = event.offer?.toList ++ log.filterMap Event.offer? := by
      cases found : event.offer? <;> simp [found]
    have end_cons : (event :: log).filterMap Event.end?
        = event.end?.toList ++ log.filterMap Event.end? := by
      cases found : event.end? <;> simp [found]
    have here := (first.offers numbered).append_right (log.filterMap Event.offer?)
    have later := (ih (first.numbered numbered)).append_left event.end?.toList
    rw [offer_cons, end_cons]
    simpa only [append_assoc] using here.trans (by simpa only [append_assoc] using later)

/-! ## After a channel is closed -/

theorem Step.of_closed (step : Step channel event next) (isClosed : channel.closed = true) :
    next.closed = true ∧ event.offer? = none ∧ (∀ offer ∈ event.commit?, offer ∈ channel.offers)
      ∧ next.offers ⊆ channel.offers := by
  cases step with
  | offer isOpen => rw [isClosed] at isOpen; cases isOpen
  | commit waits | hand waits =>
    refine ⟨isClosed, rfl, ?_, filter_sublist.subset⟩
    rintro offer ⟨⟩
    exact waits
  | giveUp => exact ⟨isClosed, rfl, nofun, filter_sublist.subset⟩
  | close => exact ⟨rfl, rfl, nofun, Subset.refl _⟩
  | _ => exact ⟨isClosed, rfl, nofun, Subset.refl _⟩

/-- Nothing more is offered to a closed channel, and only what waited when it was closed can still
be accepted. -/
theorem Moves.of_closed (moves : Moves channel log last) (isClosed : channel.closed = true) :
    log.filterMap Event.offer? = [] ∧ log.filterMap Event.commit? ⊆ channel.offers := by
  induction moves with
  | done => exact ⟨rfl, nil_subset _⟩
  | @step channel next last event log first rest ih =>
    obtain ⟨stays, noOffer, known, fewer⟩ := first.of_closed isClosed
    obtain ⟨noOffers, knowns⟩ := ih stays
    refine ⟨by rw [filterMap_cons, noOffer]; exact noOffers, fun offer member => ?_⟩
    obtain ⟨event', inLog, found⟩ := mem_filterMap.1 member
    rcases mem_cons.1 inLog with rfl | later
    · exact known offer found
    · exact fewer (knowns (mem_filterMap.2 ⟨event', later, found⟩))

/-! ## The operations of a channel -/

/-- What tasks do to a channel is made of such steps: an offer to an open channel, a sender that
finds room or gives up, a receiver that gets a value or finds the channel drained, and the closing
of the channel. -/
structure Follows (channel : Channel) : Prop where
  offer : channel.closed = false → ∀ value, ∃ log,
    Moves channel (.offered channel.tickets value :: log) (channel.offer value).1
  commit : ∀ ticket, channel.isWaiting ticket = true → channel.isReady false .room = true →
    ∃ value, Moves channel [.committed ticket value] (channel.commit ticket)
  withdraw : ∀ ticket, channel.isWaiting ticket = true →
    ∃ value, Moves channel [.gaveUp ticket value] (channel.withdraw ticket)
  take : ∀ value rest, channel.take? = some (value, rest) →
    ∃ log, receipts log = [value] ∧ Moves channel log rest
  drain : channel.take? = none → channel.closed = true → Moves channel [.drained] channel
  close : Moves channel [.closed] channel.close

section
variable (numbered : channel.Numbered)
include numbered

theorem Numbered.moves_commit {ticket : Nat} (waiting : channel.isWaiting ticket = true)
    (room : channel.isReady false .room = true) :
    ∃ value, Moves channel [.committed ticket value] (channel.commit ticket) := by
  obtain ⟨⟨ticket', value⟩, waits, same⟩ := any_eq_true.1 waiting
  obtain rfl : ticket' = ticket := by simpa using same
  have one : channel.offers.filter (·.1 == ticket') = [(ticket', value)] := by
    have rest : (channel.withdraw ticket').offers.filter (·.1 == ticket') = [] := by
      simp [Channel.withdraw, filter_filter]
    have perm := (numbered.perm_withdraw waits).filter (·.1 == ticket')
    rw [filter_cons_of_pos (by simp), rest] at perm
    exact perm_singleton.1 perm
  have step : Step channel (.committed ticket' value) _ := .commit waits (of_decide_eq_true room)
  refine ⟨value, .step step ?_⟩
  rw [Channel.commit, one]
  exact .done _

theorem Numbered.moves_settle : ∃ log, receipts log = [] ∧ Moves channel log channel.settle := by
  unfold Channel.settle
  split
  · exact ⟨[], rfl, .done channel⟩
  · rename_i ticket value rest offers
    split
    · rename_i both
      have waiting : channel.isWaiting ticket = true := by simp [Channel.isWaiting, offers]
      obtain ⟨value, moves⟩ := numbered.moves_commit waiting (Bool.and_eq_true_iff.1 both).1
      exact ⟨_, rfl, moves⟩
    · exact ⟨[], rfl, .done channel⟩

theorem Numbered.moves_take? (took : channel.take? = some (value, last)) :
    ∃ log, receipts log = [value] ∧ Moves channel log last := by
  unfold Channel.take? at took
  split at took
  · rename_i first rest buffer
    obtain ⟨rfl, rfl⟩ := Prod.mk.inj (Option.some.inj took)
    have step : Step channel (.received first) _ := .receive buffer
    obtain ⟨log, none, moves⟩ := (step.numbered numbered).moves_settle
    exact ⟨.received first :: log, by rw [receipts_cons, none]; rfl, .step step moves⟩
  · rename_i ticket first rest empty offers
    split at took
    · cases took
    · obtain ⟨rfl, rfl⟩ := Prod.mk.inj (Option.some.inj took)
      exact ⟨[.handed ticket first], rfl, .step (.hand (by simp [offers]) empty) (.done _)⟩
  · cases took

theorem Numbered.follows : channel.Follows where
  offer isOpen value := by
    have step := Step.offer isOpen value
    obtain ⟨log, _, moves⟩ := (step.numbered numbered).moves_settle
    exact ⟨log, .step step moves⟩
  commit _ := numbered.moves_commit
  withdraw ticket waiting := by
    obtain ⟨⟨ticket', value⟩, waits, same⟩ := any_eq_true.1 waiting
    obtain rfl : ticket' = ticket := by simpa using same
    exact ⟨value, .step (.giveUp waits) (.done _)⟩
  take value rest took := numbered.moves_take? took
  drain none isClosed := by
    have empty : channel.buffer = [] := by
      cases buffer : channel.buffer with
      | nil => rfl
      | cons value rest => simp [Channel.take?, buffer] at none
    exact .step (.drain isClosed empty) (.done _)
  close := .step .close (.done _)

end

theorem numbered_new (capacity : Nat) : ({ capacity } : Channel).Numbered :=
  ⟨nodup_nil, nofun⟩

theorem Moves.numbered (moves : Moves channel log last) (numbered : channel.Numbered) :
    last.Numbered := by
  induction moves with
  | done => exact numbered
  | step first _ ih => exact ih (first.numbered numbered)

/-- However tasks use a channel: the values that are received are a start of those that were
accepted, in the same order, and what is left is in the buffer, which is never longer than the
capacity. Each offer is accepted once, taken back once, or waits. Once a receiver has found the
channel closed and drained, nothing more is offered, and whatever is received later had been offered
before the channel was closed and was still waiting at that moment. -/
theorem values_pass_in_order {capacity : Nat} (moves : Moves { capacity } log channel) :
    receipts log ++ channel.buffer = commits log
      ∧ channel.buffer.length ≤ capacity
      ∧ (log.filterMap Event.offer?).Perm (log.filterMap Event.end? ++ channel.offers)
      ∧ (∀ before after, log = before ++ .drained :: after →
        ∃ middle, Moves { capacity } before middle ∧ after.filterMap Event.offer? = []
          ∧ after.filterMap Event.commit? ⊆ middle.offers
          ∧ receipts after ++ channel.buffer = commits after)
      ∧ channel.Follows := by
  have numbered := numbered_new capacity
  refine ⟨moves.buffer.symm, (moves.capacity (Nat.zero_le _)).2, moves.offers numbered, ?_,
    (moves.numbered numbered).follows⟩
  rintro before after rfl
  obtain ⟨middle, next, early, here, late⟩ := moves.split
  cases here with
  | drain isClosed empty =>
    obtain ⟨noOffer, known⟩ := late.of_closed isClosed
    have order := late.buffer
    rw [empty, nil_append] at order
    exact ⟨middle, early, noOffer, known, order.symm⟩

/-- A send that waits while the channel is closed and drained. -/
def lateLog : List Event :=
  [.offered 0 (.int 1), .committed 0 (.int 1), .offered 1 (.int 2), .closed, .received (.int 1),
    .drained, .committed 1 (.int 2), .received (.int 2)]

theorem moves_lateLog :
    Moves { capacity := 1 } lateLog { capacity := 1, tickets := 2, closed := true } := by
  refine .step (.offer rfl _) (.step (.commit (.head _) (by decide)) (.step (.offer rfl _) ?_))
  refine .step .close (.step (.receive rfl) (.step (.drain rfl rfl) ?_))
  exact .step (.commit (.head _) (by decide)) (.step (.receive rfl) (.done _))

theorem values_pass_in_order_lateLog :
    Moves { capacity := 1 } lateLog { capacity := 1, tickets := 2, closed := true }
      ∧ receipts lateLog = commits lateLog ∧ receipts lateLog = [.int 1, .int 2] :=
  ⟨moves_lateLog, by simpa using (values_pass_in_order moves_lateLog).1, rfl⟩

/-- A send succeeds, and its value is received, after a receiver has found the channel closed and
drained: its sender looks again only then. It looks for room first if it is the third that its
thread waits in, and gives up if it is the first. -/
theorem late_value_received :
    ∃ middle : Channel, Moves { capacity := 1 } (lateLog.take 5) middle
      ∧ ((((({ capacity := 1 } : Channel).offer (.int 1)).1.offer (.int 2)).1.close).take?
        = some (.int 1, middle))
      ∧ middle.closed = true ∧ middle.take? = none
      ∧ (Branch.order (nextDraw^[5] firstDraw) (nextDraw^[6] firstDraw)).find?
        (middle.isReady false) = some .room
      ∧ (Branch.order (nextDraw^[1] firstDraw) (nextDraw^[2] firstDraw)).find?
        (middle.isReady false) = some .closing
      ∧ (middle.commit 1).take? = some
        (.int 2, { capacity := 1, tickets := 2, closed := true }) := by
  refine ⟨{ capacity := 1, offers := [(1, .int 2)], tickets := 2, closed := true }, ?_,
    rfl, rfl, rfl, by decide, by decide, rfl⟩
  refine .step (.offer rfl _) (.step (.commit (.head _) (by decide)) (.step (.offer rfl _) ?_))
  exact .step .close (.step (.receive rfl) (.done _))

end Channel

end Skiff
