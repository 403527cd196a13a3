import Skiff.Proofs.Machine.Alone

/-!
# Worlds of corresponding machines

Channels, routines, tasks and host functions of corresponding machines do the same.
-/

namespace Skiff

/-- Corresponding machines, without limits that only one of them has. -/
def machineFrames (link : Link) (threads : ThreadLink) : Frames Machine Machine where
  state := MachineRel link threads
  failure := Eq
  limit _ := False

/-- What threads have to agree in. -/
structure ThreadLink.Agrees (threads : ThreadLink) (link : Link) : Prop where
  faithful : link.Faithful
  known (value : Value) : link.handle value
  token {core core' : Heap} {thread thread' : Thread} :
    threads.thread core core' thread thread' → thread.token = thread'.token
  budget {core core' : Heap} {thread thread' : Thread} :
    threads.thread core core' thread thread' → thread.budget = thread'.budget
  config {core core' : Heap} {thread thread' : Thread} :
    threads.thread core core' thread thread' → thread.config = thread'.config
  draws {core core' : Heap} {thread thread' : Thread} :
    threads.thread core core' thread thread' → thread.draws = thread'.draws
  setDraws (draws : UInt32) {core core' : Heap} {thread thread' : Thread} :
    threads.thread core core' thread thread' →
      threads.thread core core' { thread with draws } { thread' with draws }
  spawn {core core' : Heap} {thread thread' : Thread} {callee callee' : Value}
    {args args' : List Value} (token routine : Nat) :
    threads.core core core' → threads.thread core core' thread thread' →
      ValueRel link callee callee' → callee.isCallable = true →
      List.Forall₂ (ValueRel link) args args' →
      threads.task core core' (spawnedTask thread core token routine callee args)
        (spawnedTask thread' core' token routine callee' args')

namespace ThreadLink

/-- Corresponding machines as a way to speak of computations. -/
def logic (threads : ThreadLink) (link : Link) : Logic link.bond :=
  (machineFrames link threads).logic link.bond (fun _ => rfl)
    fun {machine _} same => ⟨same.heap, machine.heap.inside_whole⟩

variable {link : Link} {threads : ThreadLink}

theorem modifyWorld {change change' : World → World}
    (changes : ∀ {task world world'}, WorldRel link task world world' →
      WorldRel link task (change world) (change' world')) :
    (threads.logic link).holds (fun _ _ => True) (Exec.modifyWorld change)
      (Exec.modifyWorld change') := by
  rintro ⟨thread, heap, world⟩ ⟨thread', heap', world'⟩ ⟨cores, sameThread, heaps, worlds⟩
  exact .ok trivial ⟨cores, sameThread, heaps, changes worlds⟩

theorem newChannel (known : ∀ value, link.handle value) (capacity : Nat) :
    (threads.logic link).holds link.bond.Values (Exec.newChannel capacity)
      (Exec.newChannel capacity) := by
  refine Sim.bind .get fun {machine machine'} states => ?_
  rw [forall₂_size states.world.channels]
  refine Sim.bind (modifyWorld fun worlds => { worlds with channels := ?_ }) fun _ =>
    .pure (Link.values (.handle rfl (known _)))
  exact forall₂_push worlds.channels ⟨rfl, .nil, .nil, rfl, rfl⟩

namespace Agrees

variable (agrees : threads.Agrees link)
include agrees

theorem charge (count : Nat) :
    (threads.logic link).holds (fun _ _ => True) (Exec.charge count) (Exec.charge count) := by
  refine Sim.bind (modifyWorld fun worlds => { worlds with }) fun _ => ?_
  refine Sim.bind .get fun {machine machine'} states => ?_
  rw [agrees.budget states.thread]
  cases machine'.thread.budget with
  | none => exact .pure trivial
  | some id =>
    refine Sim.bind (?_ : Sim _ Eq _ _) ?_
    · rintro ⟨thread, heap, world⟩ ⟨thread', heap', world'⟩ ⟨cores, sameThread, heaps, worlds⟩
      have budgets : world.budgets = world'.budgets := worlds.budgets
      refine .ok ?_ ⟨cores, sameThread, heaps, { worlds with budgets := ?_ }⟩
      · rw [budgets]
      · dsimp only
        rw [budgets]
    · rintro enough _ rfl
      split
      · exact .throw rfl
      · exact .pure trivial

theorem spawns {callee callee' : Value} {args args' : List Value}
    (callees : link.bond.Values callee callee') (sames : link.bond.Args args args') :
    (threads.logic link).holds link.bond.Values (Exec.spawn callee args)
      (Exec.spawn callee' args') := by
  unfold Exec.spawn
  rw [callees.same.isCallable_eq]
  split
  · unfold RuntimeError.ofArgument
    rw [callees.same.type_eq]
    exact Sim.throw_bind rfl
  · rename_i callable
    rintro ⟨thread, heap, world⟩ ⟨thread', heap', world'⟩ ⟨cores, sameThread, heaps, worlds⟩
    have tokens : world.tokens = world'.tokens := worlds.tokens
    have token : thread.token = thread'.token := agrees.token sameThread
    have count : world.routines.size = world'.routines.size := forall₂_size worlds.routines
    have size : world.tokens.tokens.size = world'.tokens.tokens.size := by rw [tokens]
    refine .ok ?_
      ⟨cores, sameThread, heaps, { worlds with tokens := ?_, routines := ?_, tasks := ?_ }⟩
    · rw [count]
      exact Link.values (.handle rfl (agrees.known _))
    · dsimp only
      rw [tokens, token]
    · exact forall₂_push worlds.routines ⟨size, .running⟩
    · refine forall₂_push worlds.tasks ?_
      have spawned := agrees.spawn world'.tokens.tokens.size world'.routines.size cores sameThread
        callees.same (callees.same.isCallable_eq.trans (by simpa using callable))
        (Bond.same_all sames.sames)
      rw [← size, ← count] at spawned
      rw [← count]
      simp only [← size]
      exact spawned

theorem callHost (ref : Nat) {args args' : List Value} {named named' : Dict Value}
    (sames : link.bond.Args args args') (names : link.bond.Dicts named named') :
    (threads.logic link).holds link.bond.Values (Exec.callHost ref args named)
      (Exec.callHost ref args' named') := by
  rintro ⟨thread, heap, world⟩ ⟨thread', heap', world'⟩ same
  have hosts : world.hosts = world'.hosts := same.world.hosts
  have lines : world.transcript = world'.transcript := same.world.transcript
  unfold Exec.callHost
  dsimp only
  rw [← hosts, ← lines]
  cases found : world.hosts[ref]? with
  | none => exact .error rfl same
  | some host =>
    have member : host ∈ world.hosts := Array.mem_of_getElem? found
    have results := same.world.parametric host member link agrees.faithful
      (Bond.same_all sames.sames) names.same (HeapRel.Still heap heap') (heap, world.transcript)
      (heap', world.transcript) ⟨same.heap.still, rfl⟩
    dsimp only
    generalize host.run args named (heap, world.transcript) = left,
      host.run args' named' (heap', world.transcript) = right at results
    cases results with
    | @ok _ _ shared shared' values states =>
      obtain ⟨next, lines⟩ := shared
      obtain ⟨next', lines'⟩ := shared'
      obtain ⟨cores, sameThread, heaps, worlds⟩ := same.withHeap states.1
      exact .ok (Link.values values)
        ⟨cores, sameThread, heaps, { worlds with transcript := states.2, hosts := rfl }⟩
    | @error _ _ shared shared' failures states =>
      obtain ⟨next, lines⟩ := shared
      obtain ⟨next', lines'⟩ := shared'
      obtain ⟨cores, sameThread, heaps, worlds⟩ := same.withHeap states.1
      exact .error failures.1
        ⟨cores, sameThread, heaps, { worlds with transcript := states.2, hosts := rfl }⟩
    | limit reached => exact reached.elim

/-- The laws for heaps and worlds. -/
theorem native : (threads.logic link).Native where
  faithful := agrees.faithful
  lawful := Realm.whole_lawful
  known := agrees.known
  clock states := states.world.clock
  maxReserve states := congrArg Config.maxReserve (agrees.config states.thread)
  draws states := agrees.draws states.thread
  setDraws draws := by
    rintro ⟨thread, heap, world⟩ ⟨thread', heap', world'⟩ ⟨cores, sameThread, heaps, worlds⟩
    exact .ok trivial ⟨cores, agrees.setDraws draws sameThread, heaps, worlds⟩
  onHeap {_ _ _ action action'} sim := by
    rintro ⟨thread, heap, world⟩ ⟨thread', heap', world'⟩ same
    have results := sim heap heap' ⟨same.heap.still, heap.inside_whole⟩
    unfold Exec.onHeap
    dsimp only
    generalize action heap = left, action' heap' = right at results
    cases results with
    | ok values states => exact .ok values (same.withHeap states.same)
    | error failures states => exact .error failures.1 (same.withHeap states.same)
    | limit reached => exact reached.elim
  charge := agrees.charge
  isCancelled := Sim.bind .get fun states => .pure (by
    rw [states.world.tokens, agrees.token states.thread])
  cancel _ := modifyWorld fun worlds => { worlds with tokens := by rw [worlds.tokens] }
  channel {ref} _ := Sim.bind .get fun states => .pure (.mono Link.values
    (forall₂_getD states.world.channels ref .default))
  setChannel ref _ _ same := modifyWorld fun worlds => { worlds with
    channels := forall₂_setIfInBounds worlds.channels ref (same.mono fun both => both.same) }
  newChannel := newChannel agrees.known
  routine ref := Sim.bind .get fun states => .pure
    ⟨forall₂_getD states.world.routines ref ⟨rfl, .running⟩, fun _ => Value.inside_whole _⟩
  spawn := agrees.spawns
  callHost := agrees.callHost

end Agrees

end ThreadLink

end Skiff
