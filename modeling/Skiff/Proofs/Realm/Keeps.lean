
/-!
# Computations that keep a property of the state

A computation with a state, which is kept when it fails, leads from good states to good states, and
gives good results or fails in a good way. There is one law for each way to put computations
together.
-/

namespace Skiff

variable {ε σ α β : Type}

/-- A result with a good state, and a good value or a good failure. -/
inductive Kept (state : σ → Prop) (failure : ε → Prop) (good : α → Prop) :
    EStateM.Result ε σ α → Prop where
  | ok {value : α} {s : σ} (holds : good value) (kept : state s) :
    Kept state failure good (.ok value s)
  | error {e : ε} {s : σ} (holds : failure e) (kept : state s) :
      Kept state failure good (.error e s)

/-- From a good state a computation leads to a good state again. -/
def Keeps (state : σ → Prop) (failure : ε → Prop) (good : α → Prop)
    (action : EStateM ε σ α) : Prop :=
  ∀ s, state s → Kept state failure good (action s)

variable {action : EStateM ε σ α} {state : σ → Prop} {failure : ε → Prop} {good : α → Prop}
  {next : α → EStateM ε σ β}

theorem Kept.bind {good' : β → Prop} {s : σ} (first : Kept state failure good (action s))
    (rest : ∀ value, good value → Keeps state failure good' (next value)) :
    Kept state failure good' ((action >>= next) s) := by
  simp only [Bind.bind, EStateM.bind]
  generalize action s = result at first
  cases first with
  | ok holds kept => exact rest _ holds _ kept
  | error holds kept => exact .error holds kept

namespace Keeps

variable {good' : β → Prop}

theorem pure {value : α} (holds : good value) : Keeps state failure good (Pure.pure value) :=
  fun _ kept => .ok holds kept

theorem throw {e : ε} (holds : failure e) :
    Keeps state failure good (MonadExcept.throw e) :=
  fun _ kept => .error holds kept

/-- One computation after another. -/
theorem bind (first : Keeps state failure good action)
    (rest : ∀ value, good value → Keeps state failure good' (next value)) :
    Keeps state failure good' (action >>= next) :=
  fun _ kept => (first _ kept).bind rest

/-- What is done with the state that there is. -/
theorem get_bind {next : σ → EStateM ε σ α}
    (rest : ∀ s, state s → Kept state failure good (next s s)) :
    Keeps state failure good (MonadState.get >>= next) :=
  fun s kept => rest s kept

theorem read_bind {next : σ → EStateM ε σ α}
    (rest : ∀ s, state s → Keeps state failure good (next s)) :
    Keeps state failure good (MonadState.get >>= next) :=
  fun s kept => rest s kept s kept

end Keeps

end Skiff
