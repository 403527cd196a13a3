import Skiff.Proofs.Heap.Collections
import Skiff.Machine.Native

/-!
# Corresponding machines

Two machines correspond if their threads, heaps and worlds do. What is said about threads and tasks
depends on what is to be shown, so it is left open here. Channels, routines and host functions
correspond through the values that they hold.
-/

namespace Skiff

variable {link : Link}

/-- Channels with related values in them. -/
structure ChannelRel (rel : Value → Value → Prop) (channel channel' : Channel) : Prop where
  capacity : channel.capacity = channel'.capacity
  buffer : List.Forall₂ rel channel.buffer channel'.buffer
  offers : List.Forall₂ (fun offer offer' => offer.1 = offer'.1 ∧ rel offer.2 offer'.2)
    channel.offers channel'.offers
  tickets : channel.tickets = channel'.tickets
  closed : channel.closed = channel'.closed

/-- Results of routines that correspond. -/
inductive OutcomeRel (link : Link) :
    Option (Except String Value) → Option (Except String Value) → Prop where
  | running : OutcomeRel link none none
  | value {value value' : Value} (same : ValueRel link value value') :
      OutcomeRel link (some (.ok value)) (some (.ok value'))
  | failed (message : String) : OutcomeRel link (some (.error message)) (some (.error message))

structure RoutineRel (link : Link) (routine routine' : Routine) : Prop where
  token : routine.token = routine'.token
  result : OutcomeRel link routine.result routine'.result

/-- What host functions work on. -/
def hostFrames (link : Link) (core : Heap → Heap → Prop) :
    Frames (Heap × Array String) (Heap × Array String) where
  state shared shared' := HeapRel link core shared.1 shared'.1 ∧ shared.2 = shared'.2
  failure e e' := e = e' ∧ e.isFault = false
  limit _ := False

/-- A host function that looks at functions and cells only through a link. -/
def HostFunction.Respects (host : HostFunction) (link : Link) : Prop :=
  ∀ {args args' : List Value}, List.Forall₂ (ValueRel link) args args' →
    ∀ {named named' : Dict Value}, DictRel link named named' →
      ∀ core, Sim (hostFrames link core) (ValueRel link) (host.run args named)
        (host.run args' named')

/-- A host function that neither invents functions nor tells them apart. -/
def HostFunction.Parametric (host : HostFunction) : Prop :=
  ∀ link : Link, link.Faithful → host.Respects link

structure WorldRel (link : Link) (task : Task → Task → Prop) (world world' : World) : Prop where
  tokens : world.tokens = world'.tokens
  channels : List.Forall₂ (ChannelRel (ValueRel link)) world.channels.toList world'.channels.toList
  routines : List.Forall₂ (RoutineRel link) world.routines.toList world'.routines.toList
  budgets : world.budgets = world'.budgets
  tasks : List.Forall₂ task world.tasks.toList world'.tasks.toList
  hosts : world.hosts = world'.hosts
  transcript : world.transcript = world'.transcript
  clock : world.clock = world'.clock
  parametric : ∀ host ∈ world.hosts, host.Parametric

/-! ## More functions -/

theorem ChannelRel.default {rel : Value → Value → Prop} : ChannelRel rel default default :=
  ⟨rfl, .nil, .nil, rfl, rfl⟩

theorem ChannelRel.mono {rel wider : Value → Value → Prop} {channel channel' : Channel}
    (implied : ∀ {value value'}, rel value value' → wider value value')
    (same : ChannelRel rel channel channel') : ChannelRel wider channel channel' :=
  { same with
    buffer := same.buffer.imp fun _ _ => implied
    offers := same.offers.imp fun _ _ offer => ⟨offer.1, implied offer.2⟩ }

section
variable {wider : Link} (within : link.Within wider)
include within

theorem OutcomeRel.mono {outcome outcome' : Option (Except String Value)}
    (same : OutcomeRel link outcome outcome') : OutcomeRel wider outcome outcome' := by
  cases same with
  | running => exact .running
  | value same => exact .value (same.mono within)
  | failed message => exact .failed message

theorem RoutineRel.mono {routine routine' : Routine} (same : RoutineRel link routine routine') :
    RoutineRel wider routine routine' :=
  ⟨same.token, same.result.mono within⟩

theorem WorldRel.mono {task wide : Task → Task → Prop} {world world' : World}
    (tasks : ∀ {first second}, task first second → wide first second)
    (same : WorldRel link task world world') : WorldRel wider wide world world' :=
  { same with
    channels := same.channels.imp fun _ _ => .mono (.mono within)
    routines := same.routines.imp fun _ _ => .mono within
    tasks := same.tasks.imp fun _ _ => tasks }

end

/-! ## Machines -/

/-- What is said about the functions and cells of two machines, and, given these, about their
threads and tasks. -/
structure ThreadLink where
  core : Heap → Heap → Prop
  thread : Heap → Heap → Thread → Thread → Prop
  task : Heap → Heap → Task → Task → Prop

/-- Threads, heaps and worlds that correspond. -/
structure MachineRel (link : Link) (threads : ThreadLink) (machine machine' : Machine) : Prop where
  core : threads.core machine.heap.core machine'.heap.core
  thread : threads.thread machine.heap.core machine'.heap.core machine.thread machine'.thread
  heap : HeapRel link (fun _ _ => True) machine.heap machine'.heap
  world : WorldRel link (threads.task machine.heap.core machine'.heap.core) machine.world
    machine'.world

/-- Heaps may change together as long as their functions and cells stay. -/
theorem MachineRel.withHeap {threads : ThreadLink} {thread thread' : Thread}
    {heap heap' next next' : Heap} {world world' : World}
    (same : MachineRel link threads ⟨thread, heap, world⟩ ⟨thread', heap', world'⟩)
    (nexts : HeapRel link (HeapRel.Still heap heap') next next') :
    MachineRel link threads ⟨thread, next, world⟩ ⟨thread', next', world'⟩ := by
  obtain ⟨cores, sameThread, _, worlds⟩ := same
  obtain ⟨still, still'⟩ := nexts.core
  rw [← still, ← still'] at cores sameThread worlds
  exact ⟨cores, sameThread, nexts.data, worlds⟩

end Skiff
