import Mathlib
import Skiff.Value.Error

/-!
# Computations side by side

Two computations with states correspond if, from corresponding states, they give corresponding
values or fail in corresponding ways, and leave corresponding states behind. The first of them may
also reach a limit that the second does not have.
-/

namespace Skiff

/-- Faults of byte code, as opposed to failures of what it says. -/
def RuntimeError.isFault : RuntimeError → Bool
  | stackUnderflow | opcode _ | codeEnd | constantIndex _ | functionConstant _ | freeIndex _
  | builtinIndex _ | iteratorExpected | outsideBuffer => true
  | _ => false

/-- What has to be said about the states, failures and limits of two computations. -/
structure Frames (σ σ' : Type) where
  state : σ → σ' → Prop
  failure : RuntimeError → RuntimeError → Prop
  limit : RuntimeError → Prop

variable {σ σ' α β γ δ : Type}

/-- Results that correspond. -/
inductive ResultRel (frames : Frames σ σ') (rel : α → β → Prop) :
    EStateM.Result RuntimeError σ α → EStateM.Result RuntimeError σ' β → Prop where
  | ok {result : α} {result' : β} {state : σ} {state' : σ'} (same : rel result result')
      (states : frames.state state state') :
        ResultRel frames rel (.ok result state) (.ok result' state')
  | error {e e' : RuntimeError} {state : σ} {state' : σ'} (same : frames.failure e e')
      (states : frames.state state state') :
        ResultRel frames rel (.error e state) (.error e' state')
  | limit {e : RuntimeError} {state : σ} {other : EStateM.Result RuntimeError σ' β}
      (reached : frames.limit e) : ResultRel frames rel (.error e state) other

/-- Computations that correspond. -/
def Sim (frames : Frames σ σ') (rel : α → β → Prop) (action : EStateM RuntimeError σ α)
    (action' : EStateM RuntimeError σ' β) : Prop :=
  ∀ state state', frames.state state state' → ResultRel frames rel (action state) (action' state')

variable {next : α → EStateM RuntimeError σ γ} {next' : β → EStateM RuntimeError σ' δ}
  {action : EStateM RuntimeError σ α} {action' : EStateM RuntimeError σ' β}

/-- Going on from results that correspond. -/
theorem ResultRel.bind {frames : Frames σ σ'} {rel : α → β → Prop} {rel' : γ → δ → Prop} {state : σ}
    {state' : σ'} (results : ResultRel frames rel (action state) (action' state'))
    (then_ : ∀ {result result'}, rel result result' →
      Sim frames rel' (next result) (next' result')) :
    ResultRel frames rel' ((action >>= next) state) ((action' >>= next') state') := by
  simp only [Bind.bind, EStateM.bind]
  generalize action state = left, action' state' = right at results
  cases results with
  | ok same states => exact then_ same _ _ states
  | error same states => exact .error same states
  | limit reached => exact .limit reached

namespace Sim

variable {frames : Frames σ σ'} {rel : α → β → Prop} {rel' : γ → δ → Prop}

theorem pure {result : α} {result' : β} (same : rel result result') :
    Sim frames rel (Pure.pure result) (Pure.pure result') :=
  fun _ _ states => .ok same states

variable {e e' : RuntimeError}

theorem throw (same : frames.failure e e') :
    Sim frames rel (MonadExcept.throw e) (MonadExcept.throw e') :=
  fun _ _ states => .error same states

theorem throw_bind (same : frames.failure e e') :
    Sim frames rel' (MonadExcept.throw e >>= next) (MonadExcept.throw e' >>= next') :=
  fun _ _ states => .error same states

/-- One computation after another. -/
theorem bind (first : Sim frames rel action action')
    (then_ : ∀ {result result'}, rel result result' →
    Sim frames rel' (next result) (next' result')) :
    Sim frames rel' (action >>= next) (action' >>= next') :=
  fun _ _ states => (first _ _ states).bind then_

theorem get : Sim frames frames.state MonadState.get MonadState.get :=
  fun _ _ states => .ok states states

end Sim

end Skiff
