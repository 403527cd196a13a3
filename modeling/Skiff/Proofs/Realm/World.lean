import Skiff.Machine.Schedule
import Skiff.Proofs.Realm.Heap

/-!
# Worlds inside of a realm

What channels hold and what routines give may occur, functions of the host give what may occur for
what may occur, and tasks are able to go on.
-/

namespace Skiff

/-- What a channel holds. -/
def Channel.values (channel : Channel) : List Value := channel.buffer ++ channel.offers.map Prod.snd

/-- A function of the host that gives what may occur for what may occur. -/
def HostFunction.Within (realm : Realm) (host : HostFunction) : Prop :=
  ∀ {args : List Value} {named : Dict Value}, (∀ arg ∈ args, arg.Inside realm) →
    named.Inside realm →
    Keeps (fun state : Heap × Array String => state.1.Inside realm) (RuntimeError.Ordinary realm)
      (Value.Inside realm) (host.run args named)

/-- A world in which channels and routines hold what may occur, hosts respect the realm, and all
tasks are able to go on. -/
structure World.Inside (realm : Realm) (able : Task → Prop) (world : World) : Prop where
  channels {ref : Nat} :
    realm.channel ref → ∀ value ∈ (world.channels.getD ref default).values, value.Inside realm
  routines {ref : Nat} : realm.routine ref → (world.routines.getD ref default).value.Inside realm
  tasks {task : Task} : task ∈ world.tasks → task.state ≠ .done → able task
  hosts {host : HostFunction} : host ∈ world.hosts → host.Within realm
  freshChannel {ref : Nat} : world.channels.size ≤ ref → realm.channel ref
  freshRoutine {ref : Nat} : world.routines.size ≤ ref → realm.routine ref

variable {realm : Realm} {able : Task → Prop} {world : World}

namespace World.Inside

section
variable (inside : world.Inside realm able)
include inside

theorem setChannel {ref : Nat} {channel : Channel}
    (known : realm.channel ref → ∀ value ∈ channel.values, value.Inside realm) :
    World.Inside realm able
      { world with channels := world.channels.setIfInBounds ref channel } := by
  refine { inside with channels := ?_, freshChannel := ?_ }
  · intro other seen
    exact getD_setIfInBounds_of (motive := fun channel : Channel =>
      ∀ value ∈ channel.values, value.Inside realm)
      (inside.channels seen) fun same => known (same ▸ seen)
  · intro other new
    rw [Array.size_setIfInBounds] at new
    exact inside.freshChannel new

theorem newChannel (capacity : Nat) :
    World.Inside realm able { world with channels := world.channels.push { capacity } } := by
  refine { inside with channels := ?_, freshChannel := ?_ }
  · intro other seen
    exact getD_push_of (motive := fun channel : Channel =>
      ∀ value ∈ channel.values, value.Inside realm)
      (fun _ _ member => absurd member List.not_mem_nil) (inside.channels seen)
  · intro other new
    exact inside.freshChannel (size_le_of_push new)

/-- What does not concern values may change. -/
theorem congr {after : World} (channels : after.channels = world.channels)
    (routines : after.routines = world.routines) (tasks : after.tasks = world.tasks)
    (hosts : after.hosts = world.hosts) : after.Inside realm able := by
  exact ⟨channels ▸ inside.channels, routines ▸ inside.routines, tasks ▸ inside.tasks,
    hosts ▸ inside.hosts, channels ▸ inside.freshChannel, routines ▸ inside.freshRoutine⟩

/-- A routine that has just begun, or ended with what may occur. -/
theorem setRoutine {ref : Nat} {routine : Routine}
    (known : realm.routine ref → routine.value.Inside realm) (tokens : CancelTokens) :
    World.Inside realm able
      { world with routines := world.routines.setIfInBounds ref routine, tokens } := by
  refine { inside with routines := ?_, freshRoutine := ?_ }
  · intro other seen
    exact getD_setIfInBounds_of (motive := fun routine : Routine => routine.value.Inside realm)
      (inside.routines seen) fun same => known (same ▸ seen)
  · intro other new
    rw [Array.size_setIfInBounds] at new
    exact inside.freshRoutine new

theorem spawn {task : Task} (known : able task) (token : Nat) (tokens : CancelTokens) :
    World.Inside realm able
      { world with
        tokens, routines := world.routines.push { token }, tasks := world.tasks.push task } := by
  refine { inside with routines := ?_, tasks := ?_, freshRoutine := ?_ }
  · intro other seen
    exact getD_push_of (motive := fun routine : Routine => routine.value.Inside realm)
      (fun _ => trivial) (inside.routines seen)
  · intro other member undone
    rcases Array.mem_push.1 member with old | rfl
    · exact inside.tasks old undone
    · exact known
  · intro other new
    exact inside.freshRoutine (size_le_of_push new)

end

end World.Inside

end Skiff
