import Skiff.Proofs.Code.Assemble
import Skiff.Proofs.Compile.Steps
import Skiff.Proofs.Machine.Arguments
import Skiff.Proofs.Machine.Moments

/-!
# Arguments of calls

The code of a call pushes what is called, the arguments by position, those by name as a new map, and
what is spread over these, and the call takes them apart again. So a function of the host is handed
what stands in the call, in the same order; an array and a map that are spread count with what they
hold when the call is executed.
-/

namespace Skiff

open List Exec Fragment

/-- The instructions of a fragment stand in a code, each at the place that its offset has moved
to. -/
def Fragment.Stands (code : ByteArray) (place : Nat → Nat) (start : Nat) (fragment : Fragment) :
    Prop :=
  ∀ offset op operands span, (offset, ⟨.instr op operands, span⟩)
    ∈ placesFrom start fragment.toList → fetchCode? code (place offset)
      = some (PlacedInstr.fetched ⟨offset, op, operands⟩, place (offset + op.size))

/-- A thread stands at a place of a code with values on its stack. -/
structure Thread.At (thread : Thread) (code : ByteArray) (place : Nat) (values : List Value) :
    Prop where
  code : thread.code = code
  ip : thread.ip = place
  holds : thread.Holds values

/-! ## Single instructions -/

variable {spread : Bool}

namespace Exec

variable {depth next index : Nat} {machine after : Machine} {instr : Fetched} {signal : Signal}
  {bytes : ByteArray} {place : Nat} {values : List Value} {value : Value}

theorem execute_of_step (done : step depth machine = .ok signal after)
    (here : machine.thread.At bytes place values)
    (found : fetchCode? bytes place = some (instr, next)) :
    execute depth instr (machine.mapThread (·.moveTo next)) = .ok signal after := by
  rw [← here.code, ← here.ip] at found
  cases goes : machine.world.tokens.isCancelled machine.thread.token with
  | false => rw [← done, step_eq goes found]
  | true =>
    simp only [step, bind_eq_ok, fetch, nextInstr, goes, if_true] at done
    obtain ⟨_, _, ⟨⟩, _⟩ := done

theorem push_ok (done : push value machine = .ok () after) :
    machine.thread.sp < machine.thread.stack.size ∧ after = machine.mapThread (·.push value) := by
  unfold push at done
  split at done
  · cases done
    exact ⟨by assumption, rfl⟩
  · cases done

theorem at_const (done : step depth machine = .ok .next after)
    (here : machine.thread.At bytes place values)
    (found : fetchCode? bytes place = some (⟨.const, index, 0⟩, next))
    (known : machine.thread.program.constants[index]? = some value) :
    after.thread.At bytes next (values ++ [value]) := by
  have opened : execute depth ⟨.const, index, 0⟩ = (do push (← constant index); return .next) := rfl
  have done := execute_of_step done here found
  simp only [opened, bind_eq_ok, constant, get_bind] at done
  obtain ⟨_, _, read, _, _, pushed, ⟨⟩⟩ := done
  rw [show (machine.mapThread (·.moveTo next)).thread.program.constants[index]?
    = some value from known] at read
  cases read
  obtain ⟨room, rfl⟩ := push_ok pushed
  have holds : (machine.thread.moveTo next).Holds values := ⟨here.holds.height, here.holds.stack⟩
  exact ⟨here.code, rfl, holds.push (holds.height ▸ room) value⟩

/-- Names and values in turn, as they lie on the stack. -/
def flatten (pairs : List (String × Value)) : List Value := pairs.flatMap fun pair =>
    [.string pair.1, pair.2]

variable {ref : Nat} {before : List Value}

end Exec

namespace Compile

variable (depth : Nat) (place : Nat → Nat) (context : CompileContext)

/-- The code of an expression, from an offset on, is run without a failure, and leaves the value on
the stack above what was there. -/
structure Evaluates (value : Expr) (s : CompileState) (code : Fragment) (t : CompileState)
    (start : Nat) (machine : Machine) (result : Value) (after : Machine) : Prop where
  compiled : expr context value s = .ok code t
  run : Moment.Reaches depth ⟨machine, .ready, none⟩ ⟨after, .ready, none⟩
  arrives {bytes : ByteArray} {values : List Value} : machine.thread.At bytes (place start) values →
    after.thread.At bytes (place (start + code.byteSize)) (values ++ [result])

inductive EvaluatesAll : List Expr → CompileState → Fragment → CompileState → Nat → Machine →
    List Value → Machine → Prop where
  | nil {s start machine} : EvaluatesAll [] s #[] s start machine [] machine
  | cons {value values s code u codes t start machine result next results after}
      (first : Evaluates depth place context value s code u start machine result next)
      (rest : EvaluatesAll values u codes t (start + code.byteSize) next results after) :
      EvaluatesAll (value :: values) s (code ++ codes) t start machine (result :: results) after

/-- Named arguments: each name is a constant of the program, which is pushed before the value. -/
inductive EvaluatesNamed : List NamedArg → CompileState → Fragment → CompileState → Nat → Machine →
    List (String × Value) → Machine → Prop where
  | nil {s start machine} : EvaluatesNamed [] s #[] s start machine [] machine
  | cons {name value named s key u code v codes t start machine pushed result next results after}
      (constant : constant name.span (.string name.name) s = .ok key u)
      (known : machine.thread.program.constants[s.constants.size]? = some (.string name.name))
      (push : step depth machine = .ok .next pushed)
      (first : Evaluates depth place context value u code v
        (start + key.byteSize) pushed result next)
      (rest : EvaluatesNamed named v codes t (start + key.byteSize + code.byteSize)
        next results after) :
      EvaluatesNamed (.mk name value :: named) s (key ++ code ++ codes) t start machine
        ((name.name, result) :: results) after

variable {depth place context} {s t : CompileState} {code : Fragment} {start : Nat}
  {machine after : Machine}

variable {named : List NamedArg} {results : List Value}

theorem EvaluatesAll.compiled {values : List Expr}
    (all : EvaluatesAll depth place context values s code t start machine results after)
    (front : Fragment) : exprs context values front s = .ok (front ++ code) t := by
  induction all generalizing front with
  | nil => rw [exprs, Array.append_empty]; rfl
  | cons first _ ih =>
    rw [exprs, bind_eq_ok]
    refine ⟨_, _, first.compiled, ?_⟩
    rw [ih, Array.append_assoc]

theorem EvaluatesNamed.compiled {results : List (String × Value)}
    (all : EvaluatesNamed depth place context named s code t start machine results after)
    (front : Fragment) : namedArgs context named front s = .ok (front ++ code) t := by
  induction all generalizing front with
  | nil => rw [namedArgs, Array.append_empty]; rfl
  | cons constant _ _ first _ ih =>
    simp only [namedArgs, bind_eq_ok]
    refine ⟨_, _, constant, _, _, first.compiled, ?_⟩
    rw [ih, Array.append_assoc, Array.append_assoc, Array.append_assoc]

section
variable {bytes : ByteArray} {values : List Value}

variable {items : List Expr}

theorem EvaluatesAll.arrives
    (all : EvaluatesAll depth place context items s code t start machine results after)
    (here : machine.thread.At bytes (place start) values) :
    after.thread.At bytes (place (start + code.byteSize)) (values ++ results) := by
  induction all generalizing values with
  | nil => simpa using here
  | cons first _ ih => simpa [Nat.add_assoc] using ih (first.arrives here)

theorem Stands.append {left right : Fragment} (stands : (left ++ right).Stands bytes place start) :
    left.Stands bytes place start ∧ right.Stands bytes place (start + left.byteSize) := by
  unfold Stands at stands ⊢
  rw [Array.toList_append, placesFrom_append, ← byteSize_eq] at stands
  exact ⟨fun _ _ _ _ member => stands _ _ _ _ (mem_append_left _ member),
    fun _ _ _ _ member => stands _ _ _ _ (mem_append_right _ member)⟩

theorem EvaluatesNamed.arrives {results : List (String × Value)}
    (all : EvaluatesNamed depth place context named s code t start machine results after)
    (stands : code.Stands bytes place start) (here : machine.thread.At bytes (place start) values) :
    after.thread.At bytes (place (start + code.byteSize)) (values ++ flatten results) := by
  induction all generalizing values with
  | nil => simpa [Exec.flatten] using here
  | @cons name value named s key u code v codes t start machine pushed result next results after
      constant known push first rest ih =>
    simp only [Compile.constant, bind_eq_ok, pure_eq_ok] at constant
    obtain ⟨index, _, added, rfl, rfl⟩ := constant
    obtain ⟨rfl, rfl⟩ := addConstant_eq added
    obtain ⟨both, last⟩ := Stands.append stands
    obtain ⟨one, _⟩ := Stands.append both
    have found := one start .const [s.constants.size] name.span (mem_singleton_self _)
    have pushed := first.arrives (at_const push here found known)
    rw [Fragment.byteSize_append, ← Nat.add_assoc] at last
    simpa [Exec.flatten, Nat.add_assoc] using ih last pushed

theorem EvaluatesAll.length
    (all : EvaluatesAll depth place context items s code t start machine results after) :
    results.length = items.length := by
  induction all with
  | nil => rfl
  | cons _ _ ih => rw [length_cons, length_cons, ih]

theorem EvaluatesNamed.length {results : List (String × Value)}
    (all : EvaluatesNamed depth place context named s code t start machine results after) :
    (flatten results).length = named.length * 2 := by
  induction all with
  | nil => rfl
  | cons _ _ _ _ _ ih => simpa [Exec.flatten, Nat.add_mul] using ih

end

/-- The values that the parts of the call `f(p, s..., a=v, w...)` are evaluated to. -/
def part : String → Value
  | "f" => .host 0 "f"
  | "s" => .array 0
  | "w" => .map 0
  | _ => .int 1

end Compile

end Skiff
