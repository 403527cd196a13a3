import Skiff.Proofs.Realm.Run

/-!
# Read-only views

A value leads to others: a container to its elements, a function to the variables that it captured,
a channel to what lies in it. What a moment sees are the values that its threads lead to. An array
or map that no moment sees but through read-only views stays as it is for good.
-/

namespace Skiff

open List Array Heap

open Relation (ReflTransGen)

/-- A value leads to another one. -/
inductive Value.Gives (heap : Heap) (world : World) : Value → Value → Prop where
  | item {ref : Nat} {value : Value} (member : value ∈ (heap.array ref).toList) :
      Gives heap world (.array ref) value
  | viewedItem {ref : Nat} {value : Value} (member : value ∈ (heap.array ref).toList) :
      Gives heap world (.immutableArray ref) value
  | entry {ref : Nat} {entry : String × Value} (member : entry ∈ (heap.map ref).entries.toList) :
      Gives heap world (.map ref) entry.2
  | viewedEntry {ref : Nat} {entry : String × Value}
      (member : entry ∈ (heap.map ref).entries.toList) :
        Gives heap world (.immutableMap ref) entry.2
  | error {inner : Value} : Gives heap world (.error inner) inner
  | cell {ref : Nat} : Gives heap world (.cell ref) (heap.cell ref)
  | captured {ref cell : Nat} (member : cell ∈ (heap.function ref).free) :
      Gives heap world (.function ref) (.cell cell)
  | overArray {ref source : Nat} {iterator : Iterator}
      (found : heap.iterators[ref]? = some iterator)
      (along : iterator.source = .array source) :
        Gives heap world (.iterator ref) (.immutableArray source)
  | overMap {ref source : Nat} {keys : Array String} {iterator : Iterator}
      (found : heap.iterators[ref]? = some iterator) (along : iterator.source = .map source keys) :
      Gives heap world (.iterator ref) (.immutableMap source)
  | currentKey {ref : Nat} {iterator : Iterator} {place : Value × Value}
      (found : heap.iterators[ref]? = some iterator) (here : iterator.current = some place) :
      Gives heap world (.iterator ref) place.1
  | currentValue {ref : Nat} {iterator : Iterator} {place : Value × Value}
      (found : heap.iterators[ref]? = some iterator) (here : iterator.current = some place) :
      Gives heap world (.iterator ref) place.2
  | result {ref : Nat} (name : (heap.method ref).name = .result) :
      Gives heap world (.method ref) (.routine (heap.method ref).target)
  | exchange {ref : Nat} (name : (heap.method ref).name ∈ [MethodName.send, .recv, .close]) :
      Gives heap world (.method ref) (.channel (heap.method ref).target)
  | content {ref : Nat} {value : Value}
      (member : value ∈ (world.channels.getD ref default).values) :
      Gives heap world (.channel ref) value
  | outcome {ref : Nat} : Gives heap world (.routine ref) (world.routines.getD ref default).value

/-- A value that leads to no storage. -/
def Value.isPlain : Value → Bool
  | .error inner => inner.isPlain
  | .array _ | .immutableArray _ | .map _ | .immutableMap _ | .function _ | .iterator _ | .method _
  | .routine _ | .channel _ | .cell _ => false
  | .undefined | .bool _ | .int _ | .float _ | .char _ | .string _ | .bytes _ | .time _ | .builtin _
  | .host .. => true

/-- What a thread that waits will get its value from. -/
def Waiting.roots : Waiting → List Value
  | .send ref _ _ | .receive ref => [.channel ref]
  | .result ref => [.routine ref]
  | .finish _ _ => []

def Stage.roots : Stage → List Value
  | .starting callee args => callee :: args
  | .waiting on _ => on.roots
  | .ended (.ok value) => [value]
  | .ready | .ended (.error _) => []

/-- What a thread holds. -/
def Thread.roots (thread : Thread) : List Value :=
  thread.stack.toList ++ thread.globals.toList ++ thread.program.constants.toList
    ++ (thread.function :: thread.program.main :: thread.frames.toList.map (·.function)).map
      .function

/-- What a task that is not done holds. -/
def Task.roots (task : Task) : List Value :=
  if task.state = .done then []
  else task.thread.roots ++ task.state.stage.roots ++ task.stage.roots

namespace Moment

/-- What all threads hold. -/
def roots (moment : Moment) : List Value :=
  moment.machine.thread.roots ++ moment.stage.roots
    ++ moment.machine.world.tasks.toList.flatMap Task.roots
    ++ moment.away.elim [] fun away => away.thread.roots ++ away.stage.roots

/-- A value can be come by. -/
def Sees (moment : Moment) (value : Value) : Prop :=
  ∃ root ∈ moment.roots,
    ReflTransGen (Value.Gives moment.machine.heap moment.machine.world) root value

/-- There is an array, and nothing through which it could be changed can be come by. -/
structure SealsArray (moment : Moment) (ref : Nat) : Prop where
  there : ref < moment.machine.heap.arrays.size
  unseen : ¬ moment.Sees (.array ref)

structure SealsMap (moment : Moment) (ref : Nat) : Prop where
  there : ref < moment.machine.heap.maps.size
  unseen : ¬ moment.Sees (.map ref)

/-- What may occur is what is seen, and what is new. -/
def realm (moment : Moment) : Realm where
  size _ := True
  count _ := True
  array ref := moment.Sees (.array ref) ∨ moment.Sees (.immutableArray ref) ∨
    moment.machine.heap.arrays.size ≤ ref
  map ref := moment.Sees (.map ref) ∨ moment.Sees (.immutableMap ref) ∨
    moment.machine.heap.maps.size ≤ ref
  openArray ref := moment.Sees (.array ref) ∨ moment.machine.heap.arrays.size ≤ ref
  openMap ref := moment.Sees (.map ref) ∨ moment.machine.heap.maps.size ≤ ref
  items := moment.machine.heap.array
  entries := moment.machine.heap.map
  cell ref := moment.Sees (.cell ref) ∨ moment.machine.heap.cells.size ≤ ref
  function ref := moment.Sees (.function ref) ∨ moment.machine.heap.functions.size ≤ ref
  iterator ref := moment.Sees (.iterator ref) ∨ moment.machine.heap.iterators.size ≤ ref
  method ref := moment.Sees (.method ref) ∨ moment.machine.heap.methods.size ≤ ref
  routine ref := moment.Sees (.routine ref) ∨ moment.machine.world.routines.size ≤ ref
  channel ref := moment.Sees (.channel ref) ∨ moment.machine.world.channels.size ≤ ref
  shownCells := True
  newFunctions := True
  table _ := True

theorem realm_free (moment : Moment) : moment.realm.Free where
  size _ := trivial
  smaller _ _ := trivial
  count _ := trivial
  fewer _ _ := trivial
  message _ := trivial
  shownCells := trivial
  newFunctions := trivial
  table _ := trivial

end Moment

/-- A function of the host that changes only what it is given a way to change, and gives nothing but
what it is given or has made. -/
def HostFunction.Fair (host : HostFunction) : Prop := ∀ realm :
    Realm, realm.Free → host.Within realm

/-! ## What is seen may occur -/

section
variable {realm : Realm} {heap : Heap} {world : World} {value other : Value}

theorem Value.Inside.gives (inside : value.Inside realm) (free : realm.Free)
    (kept : heap.Inside realm) (around : world.Inside realm (Task.Inside realm))
    (gives : value.Gives heap world other) : other.Inside realm := by
  cases gives with
  | item member => exact kept.items inside.1 _ member
  | viewedItem member => exact kept.items inside _ member
  | entry member => exact (kept.entries inside.1 _ member).2
  | viewedEntry member => exact (kept.entries inside _ member).2
  | error => exact inside
  | cell => exact kept.cells inside.2
  | captured member => exact ⟨free.shownCells, (kept.functions inside).free _ member⟩
  | overArray found along =>
    have source := (kept.iterators inside found).source
    rw [along] at source
    exact source
  | overMap found along =>
    have source := (kept.iterators inside found).source
    rw [along] at source
    exact source.1
  | currentKey found here => exact ((kept.iterators inside found).current _ here).1
  | currentValue found here => exact ((kept.iterators inside found).current _ here).2
  | result name =>
    have method := kept.methods inside
    unfold Method.Inside at method
    rw [name] at method
    exact method
  | exchange name =>
    have method := kept.methods inside
    unfold Method.Inside at method
    simp only [mem_cons, not_mem_nil, or_false] at name
    rcases name with name | name | name <;> rw [name] at method <;> exact method
  | content member => exact around.channels inside _ member
  | outcome => exact around.routines inside

theorem Stage.Inside.roots {stage : Stage} (inside : stage.Inside realm) :
    ∀ root ∈ stage.roots, root.Inside realm := by
  intro root member
  cases stage with
  | starting callee args =>
    rcases mem_cons.1 member with rfl | later
    · exact inside.known
    · exact inside.others root later
  | ready => exact absurd member not_mem_nil
  | waiting on direct =>
    cases on with
    | send | receive | result =>
      rw [mem_singleton.1 member]
      exact inside
    | finish => exact absurd member not_mem_nil
  | ended result =>
    cases result with
    | ok value =>
      rw [mem_singleton.1 member]
      exact inside
    | error e => exact absurd member not_mem_nil

theorem Thread.Inside.roots {thread : Thread} (inside : thread.Inside realm) :
    ∀ root ∈ thread.roots, root.Inside realm := by
  intro root member
  simp only [Thread.roots, List.mem_append, List.map_cons, List.mem_cons, List.map_map,
    List.mem_map, Function.comp] at member
  rcases member with ((slot | global) | constant) | (rfl | rfl | ⟨frame, member, rfl⟩)
  · exact inside.stack (Array.mem_def.2 slot)
  · exact inside.globals (Array.mem_def.2 global)
  · exact inside.constants (mem_def.2 constant)
  · exact inside.function
  · exact inside.main
  · exact (inside.frames (mem_def.2 member)).function

theorem Task.Inside.roots {task : Task} (inside : task.state ≠ .done → task.Inside realm) :
    ∀ root ∈ task.roots, root.Inside realm := by
  intro root member
  unfold Task.roots at member
  split at member
  · exact absurd member not_mem_nil
  · rename_i undone
    have inside := inside undone
    rcases mem_append.1 member with member | later
    · rcases mem_append.1 member with held | waited
      · exact inside.thread.roots root held
      · exact inside.state.stage.roots root waited
    · exact inside.stage.roots root later

theorem Moment.Inside.sees {moment : Moment} (inside : moment.Inside realm) (free : realm.Free)
    (sees : moment.Sees value) : value.Inside realm := by
  obtain ⟨root, held, path⟩ := sees
  have start : root.Inside realm := by
    simp only [Moment.roots, List.mem_append, List.mem_flatMap] at held
    rcases held with ((thread | stage) | ⟨task, member, held⟩) | behind
    · exact inside.machine.thread.roots root thread
    · exact inside.stage.roots root stage
    · exact Task.Inside.roots (inside.machine.world.tasks (mem_def.2 member)) root held
    · cases away : moment.away with
      | none =>
        rw [away] at behind
        exact absurd behind not_mem_nil
      | some main =>
        rw [away] at behind
        obtain ⟨thread, stage⟩ := inside.away away
        rcases mem_append.1 behind with held | waited
        · exact thread.roots root held
        · exact stage.roots root waited
  clear held
  induction path with
  | refl => exact start
  | tail _ gives ih => exact ih.gives free inside.machine.heap inside.machine.world gives

end

/-! ## A moment is inside of its realm -/

namespace Moment

variable {moment later : Moment} {value other : Value}

theorem Sees.gives (sees : moment.Sees value)
    (gives : value.Gives moment.machine.heap moment.machine.world other) : moment.Sees other := by
  obtain ⟨root, held, path⟩ := sees
  exact ⟨root, held, path.tail gives⟩

theorem sees_root (held : value ∈ moment.roots) : moment.Sees value := ⟨value, held, .refl⟩

/-- What is seen may occur, by its own definition. -/
theorem Sees.inside (sees : moment.Sees value) : value.Inside moment.realm := by
  induction value with
  | array ref => exact ⟨.inl sees, .inl sees⟩
  | immutableArray ref => exact .inr (.inl sees)
  | map ref => exact ⟨.inl sees, .inl sees⟩
  | immutableMap ref => exact .inr (.inl sees)
  | error inner ih => exact ih (sees.gives .error)
  | function ref | iterator ref | method ref | routine ref | channel ref => exact .inl sees
  | cell ref => exact ⟨trivial, .inl sees⟩
  | _ => trivial

theorem inside_of_isPlain (plain : value.isPlain = true) : value.Inside moment.realm := by
  induction value with
  | error inner ih => exact ih plain
  | array | immutableArray | map | immutableMap | function | iterator | method | routine | channel
  | cell => cases plain
  | _ => trivial

theorem getD_of_size_le {α : Type} {items : Array α} {place : Nat} (beyond : items.size ≤ place)
    (default : α) : items.getD place default = default := by
  rw [Array.getD_eq_getD_getElem?, Array.getElem?_eq_none beyond]
  rfl

theorem heap_inside (moment : Moment) : moment.machine.heap.Inside moment.realm where
  items {ref} seen value member := by
    rcases seen with seen | seen | new
    · exact (seen.gives (.item member)).inside
    · exact (seen.gives (.viewedItem member)).inside
    · rw [array, getD_of_size_le new] at member
      exact absurd member not_mem_nil
  entries {ref} seen entry member := by
    refine ⟨trivial, ?_⟩
    rcases seen with seen | seen | new
    · exact (seen.gives (.entry member)).inside
    · exact (seen.gives (.viewedEntry member)).inside
    · rw [Heap.map, getD_of_size_le new] at member
      exact absurd member List.not_mem_nil
  cells {ref} seen := by
    rcases seen with seen | new
    · exact (seen.gives .cell).inside
    · rw [cell, getD_of_size_le new]
      trivial
  functions {ref} seen := by
    refine ⟨?_, trivial⟩
    intro cell member
    rcases seen with seen | new
    · exact .inl (seen.gives (.captured member))
    · rw [function, getD_of_size_le new] at member
      exact absurd member (not_mem_empty _)
  iterators {ref iterator} seen found := by
    rcases seen with seen | new
    · refine ⟨?_, ?_⟩
      · cases source : iterator.source with
        | array ref => exact .inr (.inl (seen.gives (.overArray found source)))
        | map ref keys =>
          exact ⟨.inr (.inl (seen.gives (.overMap found source))), fun _ _ => trivial⟩
        | bytes | chars => trivial
      · intro place here
        exact ⟨(seen.gives (.currentKey found here)).inside,
          (seen.gives (.currentValue found here)).inside⟩
    · rw [Array.getElem?_eq_none new] at found
      cases found
  methods {ref} seen := by
    rcases seen with seen | new
    · unfold Method.Inside
      cases name : (moment.machine.heap.method ref).name with
      | result => exact .inl (seen.gives (.result name))
      | send | recv | close => exact .inl (seen.gives (.exchange (by rw [name]; decide)))
      | wait | abort => trivial
    · rw [method, getD_of_size_le new]
      trivial
  table := trivial
  sealedArray _ := rfl
  sealedMap _ := rfl
  freshArray new := ⟨.inr (.inr new), .inr new⟩
  freshMap new := ⟨.inr (.inr new), .inr new⟩
  freshCell new := .inr new
  freshIterator new := .inr new
  freshMethod new := .inr new
  freshFunction _ new := .inr new

/-- A thread that holds what is seen. -/
theorem thread_inside {thread : Thread} (held : ∀ root ∈ thread.roots, moment.Sees root) :
    thread.Inside moment.realm := by
  have roots {value : Value} (member : value ∈ thread.roots) : value.Inside moment.realm :=
    (held value member).inside
  have function {ref : Nat} (member : Value.function ref ∈ thread.roots) :
      moment.realm.function ref :=
    .inl (held _ member)
  refine ⟨?_, ?_, ?_, ?_, function (by simp [Thread.roots]), function (by simp [Thread.roots]),
    trivial, trivial, trivial, trivial⟩
  case refine_4 =>
    intro frame member
    have among : Value.function frame.function ∈ thread.roots := by
      simp only [Thread.roots, List.map_cons, List.map_map, List.mem_append, List.mem_cons,
        List.mem_map]
      exact .inr (.inr (.inr ⟨frame, Array.mem_def.1 member, rfl⟩))
    exact ⟨function among, trivial⟩
  all_goals
    intro value member
    exact roots (by simp [Thread.roots, mem_def.1 member])

theorem stage_inside {stage : Stage} (held : ∀ root ∈ stage.roots, moment.Sees root) :
    stage.Inside moment.realm := by
  cases stage with
  | starting callee args =>
    exact ⟨(held callee (mem_cons_self ..)).inside,
      fun arg member => (held arg (mem_cons_of_mem _ member)).inside, trivial⟩
  | ready => trivial
  | waiting on direct =>
    cases on with
    | send | receive | result => exact .inl (held _ (mem_singleton.2 rfl))
    | finish => trivial
  | ended result =>
    cases result with
    | ok value => exact (held value (mem_singleton.2 rfl)).inside
    | error e =>
      cases e with
      | argumentType => exact .inl fun _ => trivial
      | argumentCount | tooFewArguments | sliceOrder => exact ⟨trivial, trivial⟩
      | _ => trivial

theorem task_inside {task : Task} (undone : task.state ≠ .done)
    (held : ∀ root ∈ task.roots, moment.Sees root) : task.Inside moment.realm := by
  unfold Task.roots at held
  rw [if_neg undone] at held
  have stage : task.state.stage.Inside moment.realm :=
    stage_inside fun root member => held root (by simp [member])
  refine ⟨thread_inside fun root member => held root (by simp [member]), ?_, ?_⟩
  · cases state : task.state with
    | waiting on direct =>
      rw [state] at stage
      exact stage
    | ready | done => trivial
  · intro callee args start
    have call : task.stage.Inside moment.realm :=
      stage_inside fun root member => held root (by simp [member])
    unfold Task.stage at call
    rw [start] at call
    exact call

theorem inside_realm (moment : Moment)
    (hosts : ∀ host ∈ moment.machine.world.hosts, host.Fair) : moment.Inside moment.realm := by
  have root {value : Value} (member : value ∈ moment.roots) : moment.Sees value := sees_root member
  refine ⟨⟨?_, moment.heap_inside, ?_⟩, ?_, ?_⟩
  · exact thread_inside fun value member => root (by simp [roots, member])
  · refine ⟨?_, ?_, ?_, ?_, .inr, .inr⟩
    · intro ref seen value member
      rcases seen with seen | new
      · exact (seen.gives (.content member)).inside
      · rw [getD_of_size_le new] at member
        exact absurd member not_mem_nil
    · intro ref seen
      rcases seen with seen | new
      · exact (seen.gives .outcome).inside
      · rw [getD_of_size_le new]
        trivial
    · intro task member undone
      apply task_inside undone
      intro value held
      apply root
      simp only [roots, List.mem_append, List.mem_flatMap]
      exact .inl (.inr ⟨task, Array.mem_def.1 member, held⟩)
    · intro host member
      exact hosts host member moment.realm moment.realm_free
  · exact stage_inside fun value member => root (by simp [roots, member])
  · intro away same
    have behind {value : Value} (member : value ∈ away.thread.roots ++ away.stage.roots) :
        moment.Sees value := by
      apply root
      simp only [roots, same, List.mem_append]
      exact .inr member
    exact ⟨thread_inside fun value member => behind (List.mem_append_left _ member),
      stage_inside fun value member => behind (List.mem_append_right _ member)⟩

/-- The values that the host may give to a run: those that can be come by, and those that lead to no
others. -/
def Offers (moment : Moment) (value : Value) : Prop := moment.Sees value ∨ value.isPlain = true

/-- Everything that may occur at a later moment may occur now. -/
theorem inside_later (hosts : ∀ host ∈ moment.machine.world.hosts, host.Fair)
    (reached : ReflTransGen (Later Offers) moment later) : later.Inside moment.realm := by
  induction reached with
  | refl => exact moment.inside_realm hosts
  | tail _ step ih =>
    refine ih.later moment.realm_free ?_ step
    intro value offered
    rcases offered with seen | plain
    · exact ih.sees moment.realm_free seen
    · exact inside_of_isPlain plain

end Moment

/-! ## Views are read-only for good -/

/-- A value stands for a read-only view. -/
def Heap.Views (heap : Heap) (value : Value) : Prop :=
  ∃ ref, heap.resolve value = .immutableArray ref ∨ heap.resolve value = .immutableMap ref

namespace Heap

variable {heap : Heap} {value : Value}

theorem setIndex_view (views : heap.Views value) (index item : Value) :
    ∃ e, setIndex value index item heap = .error e heap := by
  unfold setIndex
  obtain ⟨ref, same | same⟩ := views <;> rw [same] <;> exact ⟨_, rfl⟩

theorem delete_view (views : heap.Views value) (key : Value) :
    ∃ e, delete value key heap = .error e heap := by
  cases value with
  | map other => obtain ⟨ref, same | same⟩ := views <;> cases same
  | _ => exact ⟨_, rfl⟩

theorem splice_view (views : heap.Views value) (args : List Value) :
    ∃ e, splice (value :: args) heap = .error e heap := by
  cases value with
  | array other => obtain ⟨ref, same | same⟩ := views <;> cases same
  | _ => exact ⟨_, rfl⟩

end Heap

namespace Moment

variable {moment later : Moment}

theorem SealsArray.kept {ref : Nat} (inside : later.Inside moment.realm)
    (sealed : moment.SealsArray ref) :
    later.SealsArray ref ∧ later.machine.heap.array ref = moment.machine.heap.array ref := by
  have closed : ¬ moment.realm.openArray ref := by
    rintro (seen | new)
    · exact sealed.unseen seen
    · exact absurd sealed.there (Nat.not_lt_of_le new)
  refine ⟨⟨?_, ?_⟩, inside.machine.heap.sealedArray closed⟩
  · by_contra beyond
    exact closed (inside.machine.heap.freshArray (Nat.le_of_not_lt beyond)).2
  · intro seen
    exact closed (inside.sees moment.realm_free seen).2

theorem SealsMap.kept {ref : Nat} (inside : later.Inside moment.realm)
    (sealed : moment.SealsMap ref) :
    later.SealsMap ref ∧ later.machine.heap.map ref = moment.machine.heap.map ref := by
  have closed : ¬ moment.realm.openMap ref := by
    rintro (seen | new)
    · exact sealed.unseen seen
    · exact absurd sealed.there (Nat.not_lt_of_le new)
  refine ⟨⟨?_, ?_⟩, inside.machine.heap.sealedMap closed⟩
  · by_contra beyond
    exact closed (inside.machine.heap.freshMap (Nat.le_of_not_lt beyond)).2
  · intro seen
    exact closed (inside.sees moment.realm_free seen).2

/-- Storage of which a moment sees only read-only views is as it is at every later moment, and no
way to change it is ever seen again. Whatever tries to change it through a view fails and leaves the
heap as it is. -/
theorem views_read_only (hosts : ∀ host ∈ moment.machine.world.hosts, host.Fair)
    (reached : ReflTransGen (Later Offers) moment later) :
    (∀ ref, moment.SealsArray ref →
      later.SealsArray ref ∧ later.machine.heap.array ref = moment.machine.heap.array ref) ∧
    (∀ ref, moment.SealsMap ref →
      later.SealsMap ref ∧ later.machine.heap.map ref = moment.machine.heap.map ref) ∧
    ∀ value, later.machine.heap.Views value →
      (∀ index item, ∃ e, setIndex value index item later.machine.heap
        = .error e later.machine.heap) ∧
      (∀ key, ∃ e, delete value key later.machine.heap = .error e later.machine.heap) ∧
      ∀ args, ∃ e, splice (value :: args) later.machine.heap = .error e later.machine.heap := by
  have inside := inside_later hosts reached
  refine ⟨fun ref sealed => sealed.kept inside, fun ref sealed => sealed.kept inside, ?_⟩
  intro value views
  exact ⟨setIndex_view views, delete_view views, splice_view views⟩

/-- A machine that is about to run, with a read-only view of an array in a global variable. -/
def viewing : Moment where
  machine := {
    thread := {
      program := {}
      config := {}
      stack := #[.undefined, .undefined]
      globals := #[.immutableArray 0]
      frames := #[{ function := 0, ip := 0, base := 0 }]
      function := 0
      code := ⟨#[Opcode.getGlobal.byte, 0, 0]⟩
      token := 0 }
    heap := { arrays := #[#[.int 1]], functions := #[{ code := ⟨#[Opcode.getGlobal.byte, 0, 0]⟩ }] }
    world := { hosts := #[{ name := "nothing", run := fun _ _ => pure .undefined }] } }
  stage := .ready

/-- Nothing but the view and what it leads to is ever come by. -/
theorem viewing_sealsArray : viewing.SealsArray 0 := by
  have known (value : Value) (sees : viewing.Sees value) :
      value ∈ [.undefined, .immutableArray 0, .function 0, .int 1] := by
    obtain ⟨root, held, path⟩ := sees
    induction path with
    | refl =>
      simp [viewing, roots, Thread.roots, Stage.roots] at held ⊢
      tauto
    | tail _ gives ih =>
      simp only [mem_cons, not_mem_nil, or_false] at ih
      rcases ih with rfl | rfl | rfl | rfl
      · cases gives
      · cases gives with
        | viewedItem member =>
          rw [mem_singleton.1 member]
          simp
      · cases gives with
        | captured member => simp [viewing, function] at member
      · cases gives
  refine ⟨Nat.one_pos, ?_⟩
  intro sees
  simpa using known _ sees

theorem viewing_read_only :
    (after none (Exec.proceed 0 .ready viewing.machine)).machine.heap.array 0 = #[.int 1] := by
  have step : Later Offers viewing _ := .next (.proceed viewing : Next 0 viewing _)
  have kept := views_read_only (by
    intro host member realm free args named known names
    rw [mem_singleton.1 member]
    exact Keeps.pure trivial) (.single step)
  exact (kept.1 0 viewing_sealsArray).2

end Moment

end Skiff
