/-!
# Computations with a state

Parsing, compiling and running are computations that change a state and may fail. Each of them is
told by what its first step does: a step that succeeds is left behind, and one that fails is the
end.
-/

namespace Skiff

variable {ε σ α β : Type} {action : EStateM ε σ α} {next : α → EStateM ε σ β}
  {s t u : σ} {value : α} {result : β} {error : ε}

theorem bind_ok (run : action s = .ok value u) : (action >>= next) s = next value u := by
  change EStateM.bind action next s = _
  rw [EStateM.bind, run]

theorem bind_error (run : action s = .error error t) : (action >>= next) s = .error error t := by
  change EStateM.bind action next s = _
  rw [EStateM.bind, run]

-- What follows is put as equations, which `simp` takes as they are.

theorem get_bind {next : σ → EStateM ε σ β} : (get >>= next) s = next s s := rfl

theorem bind_eq_ok : ((action >>= next) s = .ok result t) =
    ∃ value u, action s = .ok value u ∧ next value u = .ok result t := by
  apply propext
  cases run : action s with
  | ok value u =>
    rw [bind_ok run]
    exact ⟨fun done => ⟨value, u, rfl, done⟩, by rintro ⟨_, _, ⟨⟩, done⟩; exact done⟩
  | error e u =>
    rw [bind_error run]
    simp

theorem bind_eq_error : ((action >>= next) s = .error error t) =
    (action s = .error error t ∨ ∃ value u, action s = .ok value u ∧
      next value u = .error error t) := by
  apply propext
  cases run : action s with
  | ok value u =>
    rw [bind_ok run]
    exact ⟨fun failed =>
      .inr ⟨value, u, rfl, failed⟩, by rintro (⟨⟨⟩⟩ | ⟨_, _, ⟨⟩, failed⟩); exact failed⟩
  | error e u =>
    rw [bind_error run]
    simp

theorem pure_eq_ok {value : β} :
    ((pure value : EStateM ε σ β) s = .ok result t) = (value = result ∧ s = t) :=
  EStateM.Result.ok.injEq ..

theorem get_eq_ok : ((get : EStateM ε σ σ) s = .ok u t) = (s = u ∧ s = t) :=
  EStateM.Result.ok.injEq ..

end Skiff
