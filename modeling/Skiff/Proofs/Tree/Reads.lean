import Mathlib.Logic.Basic
import Skiff.Proofs.Stateful
import Skiff.Proofs.Tree.Nodes
import Skiff.Tree.Parser

/-!
# Conditions on parsers

What is known while a construct is read: how many tokens are left, where they stand, how deep their
braces are nested, and how many errors have been recorded. A parser is described by what it makes of
a state of which all this is known. It gives a value and a state with properties, or it fails, and
then enough is still known to go on behind the error.
-/

namespace Skiff

/-- How deep braces are nested behind a token, if they are nested so deep before it. A brace that
closes nothing is passed over. -/
def Kind.nest (kind : Kind) (depth : Nat) : Nat :=
  if kind = .mark .leftBrace then depth + 1
  else if kind = .mark .rightBrace then depth - 1
  else depth

theorem Kind.le_nest {kind : Kind} (other : kind ≠ .mark .rightBrace) (depth : Nat) :
    depth ≤ kind.nest depth := by
  unfold nest
  rw [if_neg other]
  split
  · exact Nat.le_succ _
  · exact Nat.le_refl _

theorem Kind.pred_le_nest (kind : Kind) (depth : Nat) : depth - 1 ≤ kind.nest depth := by
  unfold nest
  split
  · omega
  · split <;> omega

/-- How deep braces are nested in tokens at most. -/
def deepest : (depth : Nat) → List Token → Nat
  | depth, [] => depth
  | depth, token :: rest => max depth (deepest (token.kind.nest depth) rest)

theorem le_deepest (depth : Nat) (tokens : List Token) : depth ≤ deepest depth tokens := by
  cases tokens with
  | nil => exact Nat.le_refl _
  | cons token rest => exact Nat.le_max_left _ _

/-- The stream ends with the end of the file, which takes no space. -/
def Stream.Closed (stream : Stream) : Prop :=
  (stream.rest.getLastD stream.next).kind = .endOfFile ∧
    (stream.rest.getLastD stream.next).span.stop ≤ (stream.rest.getLastD stream.next).span.start

namespace ParseState

/-- The tokens that are left. -/
def tokens (state : ParseState) : List Token := state.stream.next :: state.stream.rest

/-- The state behind the next token. -/
def advance (state : ParseState) : ParseState := { state with stream := state.stream.advance.2 }

end ParseState

namespace Parse

/-! ## What parsers make of a state -/

section
variable {α β : Type} {parser : Parse α} {next : α → Parse β} {state after : ParseState} {value : α}
  {error : ParseError}

theorem discard_of_ok (run : parser state = .ok value after) :
    discard parser state = .ok () after := by
  change EStateM.map (fun _ => ()) parser state = _
  rw [EStateM.map, run]

theorem discard_of_error (run : parser state = .error error after) :
    discard parser state = .error error after := by
  change EStateM.map (fun _ => ()) parser state = _
  rw [EStateM.map, run]

end

/-- From a state, a parser gives a value and a state with a property, or it fails in a state with
another one. -/
inductive Reads {α : Type} (fallen : ParseState → Prop) (state : ParseState) (parser : Parse α)
    (post : α → ParseState → Prop) : Prop where
  | ok {value : α} {after : ParseState} (run : parser state = .ok value after)
      (holds : post value after) : Reads fallen state parser post
  | failed {error : ParseError} {after : ParseState} (run : parser state = .error error after)
      (holds : fallen after) : Reads fallen state parser post

namespace Reads

variable {α β : Type} {fallen fallen' : ParseState → Prop} {state after : ParseState}
  {parser : Parse α} {post post' : α → ParseState → Prop} {next : α → Parse β}
  {final : β → ParseState → Prop} {value : α}

theorem mono (reads : Reads fallen state parser post)
    (fails : ∀ state, fallen state → fallen' state)
    (holds : ∀ value state, post value state → post' value state) :
    Reads fallen' state parser post' := by
  cases reads with
  | ok run given => exact .ok run (holds _ _ given)
  | failed run given => exact .failed run (fails _ given)

theorem imp (reads : Reads fallen state parser post)
    (holds : ∀ value state, post value state → post' value state) :
      Reads fallen state parser post' :=
  reads.mono (fun _ => id) holds

theorem pure (holds : post value state) : Reads fallen state (pure value) post := .ok rfl holds

/-- A parser of which is known what it does. -/
theorem step (run : parser state = .ok value after) (rest : Reads fallen after (next value) final) :
    Reads fallen state (parser >>= next) final := by
  cases rest with
  | ok run' holds => exact .ok ((bind_ok run).trans run') holds
  | failed run' holds => exact .failed ((bind_ok run).trans run') holds

theorem bind (reads : Reads fallen state parser post)
    (rest : ∀ value after, post value after → Reads fallen after (next value) final) :
    Reads fallen state (parser >>= next) final := by
  cases reads with
  | ok run holds => exact step run (rest _ _ holds)
  | failed run holds => exact .failed (bind_error run) holds

theorem map {build : α → β} (reads : Reads fallen state parser post)
    (holds : ∀ value state, post value state → final (build value) state) :
    Reads fallen state (build <$> parser) final := by
  rw [← bind_pure_comp]
  exact reads.bind fun value after given => pure (holds value after given)

/-- A part that is read unless something else comes next. -/
theorem optional {missing : Bool} {rest : Option α → Parse β} (holds : Option α → ParseState → Prop)
    (reads : missing = false → Reads fallen state parser fun value => holds (some value))
    (absent : missing = true → holds none state)
    (continued : ∀ part after, holds part after → Reads fallen after (rest part) final) :
    Reads fallen state
      (if missing = true then Pure.pure none >>= rest else (some <$> parser) >>= rest) final := by
  cases missing with
  | true => exact continued none state (absent rfl)
  | false => exact ((reads rfl).map fun _ _ given => given).bind continued

/-- A failure that is caught. -/
theorem attempt {next : Option α → Parse β} (reads : Reads fallen state parser post)
    (done : ∀ value after, post value after → Reads fallen' after (next (some value)) final)
    (lost : ∀ after, fallen after → Reads fallen' after (next none) final) :
    Reads fallen' state (Parse.attempt parser >>= next) final := by
  cases reads with
  | @ok value after run holds =>
    have caught : Parse.attempt parser state = .ok (some value) after := by rw [Parse.attempt, run]
    exact step caught (done _ _ holds)
  | @failed error after run holds =>
    have caught : Parse.attempt parser state = .ok none after := by rw [Parse.attempt, run]
    exact step caught (lost _ holds)

end Reads

/-! ## Single tokens -/

theorem next_eq (state : ParseState) : next state = .ok state.stream.next state := rfl

theorem nextKind_eq (state : ParseState) : nextKind state = .ok state.stream.next.kind state := rfl

theorem isNext_eq (kind : Kind) (state : ParseState) :
    isNext kind state = .ok (state.stream.next.kind == kind) state := rfl

theorem isNextMark_eq (mark : Mark) (state : ParseState) :
    isNextMark mark state = .ok (state.stream.next.kind == .mark mark) state := rfl

theorem isSecond_eq (kind : Kind) (state : ParseState) :
    isSecond kind state = .ok (state.stream.second.kind == kind) state := rfl

section
variable (state : ParseState)
include state

theorem tooManyErrors_eq :
    tooManyErrors state = .ok (decide (maxParseErrors ≤ state.errors.size)) state := rfl

theorem atListEnd_eq :
    atListEnd state = .ok (state.stream.next.kind == .endOfFile
      || state.stream.next.kind == .mark .rightBrace) state := rfl

theorem atStmtEnd_eq :
    atStmtEnd state = .ok (state.stream.next.newlineBefore
      || state.stream.next.kind == .mark .semicolon || state.stream.next.kind == .mark .rightBrace
      || state.stream.next.kind == .endOfFile) state := rfl

theorem advance_eq : advance state = .ok state.stream.next state.advance := by
  have same : state.stream.advance.1 = state.stream.next := by
    unfold Stream.advance
    split <;> rfl
  rw [← same]
  rfl

theorem skip_eq : discard advance state = .ok () state.advance := rfl

end

section
variable {kind : Kind} {state : ParseState}

theorem isNext_true (found : state.stream.next.kind = kind) :
    isNext kind state = .ok true state := by
  rw [isNext_eq, found, beq_self_eq_true]

theorem isNext_false (missing : state.stream.next.kind ≠ kind) :
    isNext kind state = .ok false state := by
  rw [isNext_eq, beq_eq_false_iff_ne.2 missing]

theorem expect_eq (found : state.stream.next.kind = kind) :
    expect kind state = .ok state.stream.next state.advance :=
  (bind_ok (isNext_true found)).trans (advance_eq state)

theorem expect_missing (missing : state.stream.next.kind ≠ kind) :
    ∃ error, expect kind state = .error error { state with errors := state.errors.push error } :=
  ⟨_, bind_ok (isNext_false missing)⟩

theorem accept_eq (found : state.stream.next.kind = kind) :
    accept kind state = .ok true state.advance :=
  bind_ok (isNext_true found)

theorem accept_missing (missing : state.stream.next.kind ≠ kind) :
    accept kind state = .ok false state :=
  bind_ok (isNext_false missing)

end

/-! ## What is known of a state -/

/-- How many errors there may be behind an expression or a statement with a number of blocks open
around it. -/
def roof (limit level : Nat) : Nat := maxParseErrors - 1 + (limit - level)

theorem roof_anti (limit : Nat) {level level' : Nat} (le : level ≤ level') :
    roof limit level' ≤ roof limit level := by
  unfold roof
  omega

/-- What does not change while a construct is read. -/
structure Reading where
  layout : Layout
  /-- How many tokens are left at most. -/
  total : Nat
  /-- How deep braces are nested at most. -/
  limit : Nat
  /-- The offset behind which the construct stands. -/
  low : Nat
  /-- How many braces around the construct are open. -/
  base : Nat
  /-- How many errors there are at most, unless reading fails. -/
  errors : Nat

/-- A state with a number of tokens behind the next one at most, all of which stand behind an
offset. -/
structure Reading.At (reading : Reading) (count lo : Nat) (state : ParseState) : Prop where
  closed : state.stream.Closed
  few : state.stream.rest.length ≤ count
  all : state.stream.rest.length ≤ reading.total
  low : reading.low ≤ lo
  row : ∃ hi, Row reading.layout lo hi (state.tokens.map fun token => .leaf token.span)
  named : ∀ token ∈ state.tokens, token.kind = .ident → reading.layout.holds token.span token.text
  deep : ∃ depth, reading.base ≤ depth ∧ deepest depth state.tokens ≤ reading.limit
  errors : state.errors.size ≤ reading.errors
  roomy : roof reading.limit reading.base ≤ reading.errors

/-- The state behind a failure, which has been recorded. -/
def Reading.Fallen (reading : Reading) (state : ParseState) : Prop :=
  ∃ lo, ({ reading with errors := reading.errors + 1 } : Reading).At reading.total lo state

/-- The state behind some nodes. -/
def Reading.Passes (reading : Reading) (count lo : Nat) (nodes : List Node) (state : ParseState) :
    Prop :=
  ∃ hi, Row reading.layout lo hi nodes ∧ reading.At count hi state

variable {reading : Reading} {count count' lo lo' : Nat} {state : ParseState} {nodes : List Node}

namespace Reading

theorem At.mono (here : reading.At count lo state) (more : count ≤ count') :
    reading.At count' lo state :=
  { here with few := Nat.le_trans here.few more }

/-- One token that has not been read may stay unread. -/
theorem At.pred (here : reading.At (count - 1) lo state) : reading.At count lo state :=
  here.mono (Nat.sub_le _ _)

theorem At.base_le (here : reading.At count lo state) : reading.base ≤ reading.limit := by
  obtain ⟨depth, low, deep⟩ := here.deep
  exact Nat.le_trans low (Nat.le_trans (le_deepest _ _) deep)

theorem At.endOfFile (here : reading.At 0 lo state) : state.stream.next.kind = .endOfFile := by
  have empty : state.stream.rest = [] := List.eq_nil_of_length_eq_zero (by have := here.few; omega)
  simpa [Stream.Closed, empty] using here.closed.1

section
variable (here : reading.At count lo state)
include here

/-- The next token starts behind the offset, and what is left behind its own start. -/
theorem At.next : state.stream.next.span.Laid reading.layout lo state.stream.next.span.stop ∧
    reading.At count state.stream.next.span.start state := by
  obtain ⟨hi, row⟩ := here.row
  cases row with
  | cons laid placed rest =>
    exact ⟨{ laid with before := Nat.le_refl _ }, { here with
      low := Nat.le_trans here.low laid.after
      row := ⟨hi, .cons { laid with after := Nat.le_refl _ } placed rest⟩ }⟩

theorem At.fallen (error : ParseError) :
    reading.Fallen { state with errors := state.errors.push error } := by
  refine ⟨lo, { here with
    few := here.all
    errors := ?_
    roomy := Nat.le_succ_of_le here.roomy }⟩
  rw [Array.size_push]
  exact Nat.succ_le_succ here.errors

/-- Behind the next token braces may be nested less deep, or deeper. -/
theorem At.step (base : Nat)
    (nest : ∀ depth, reading.base ≤ depth → base ≤ state.stream.next.kind.nest depth)
    (roomy : roof reading.limit base ≤ reading.errors) :
    ∃ hi, Row reading.layout lo hi [.leaf state.stream.next.span] ∧
      ({ reading with base } : Reading).At (count - 1) hi state.advance := by
  obtain ⟨closed, few, all, start, ⟨last, row⟩, named, ⟨depth, low, deep⟩, errors, -⟩ := here
  obtain ⟨⟨next, rest⟩, found⟩ := state
  cases row with
  | cons laid placed later =>
    cases rest with
    | nil =>
      obtain ⟨isEnd, empty⟩ := closed
      have same : next.kind.nest depth = depth := by
        rw [show next.kind = .endOfFile from isEnd]
        rfl
      refine ⟨next.span.stop, .cons { laid with before := Nat.le_refl _ } placed
        (.nil (Nat.le_refl _)), ⟨isEnd, empty⟩, Nat.zero_le _, Nat.zero_le _,
        Nat.le_trans start (Nat.le_trans laid.after laid.order),
        ⟨_, .cons { laid with after := empty } placed later⟩, ?_, ⟨depth, ?_, deep⟩, errors, roomy⟩
      · intro token member isName
        obtain rfl := List.mem_singleton.1 member
        cases isEnd.symm.trans isName
      · have := nest depth low
        rwa [same] at this
    | cons first others =>
      refine ⟨_, .cons laid placed (.nil (Nat.le_refl _)), ?_, Nat.le_sub_one_of_lt few,
        Nat.le_of_succ_le all, Nat.le_trans start laid.le, ⟨last, later⟩,
        fun token member => named token (List.mem_cons_of_mem _ member),
        ⟨next.kind.nest depth, nest depth low, ?_⟩, errors, roomy⟩
      · simp only [Stream.Closed, List.getLastD_cons] at closed
        exact closed
      · exact Nat.le_trans (Nat.le_max_right _ _) deep

/-- Only a closing brace makes the nesting less deep. -/
theorem At.advance (other : state.stream.next.kind ≠ .mark .rightBrace) :
    ∃ hi, Row reading.layout lo hi [.leaf state.stream.next.span] ∧
      reading.At (count - 1) hi state.advance :=
  here.step _ (fun depth low => Nat.le_trans low (Kind.le_nest other depth)) here.roomy

theorem At.skip (other : state.stream.next.kind ≠ .mark .rightBrace) :
    reading.At (count - 1) lo state.advance := by
  obtain ⟨hi, row, behind⟩ := here.advance other
  obtain ⟨last, later⟩ := behind.row
  exact { behind with
    low := here.low
    row := ⟨last, later.widen row.le (Nat.le_refl _)⟩ }

end

theorem Passes.pred (passes : reading.Passes (count - 1) lo nodes state) :
    reading.Passes count lo nodes state := by
  obtain ⟨hi, row, here⟩ := passes
  exact ⟨hi, row, here.pred⟩

theorem Passes.skip (passes : reading.Passes count lo nodes state)
    (other : state.stream.next.kind ≠ .mark .rightBrace) :
    reading.Passes count lo nodes state.advance := by
  obtain ⟨hi, row, here⟩ := passes
  exact ⟨hi, row, (here.skip other).pred⟩

end Reading

/-! ## Rules for single tokens -/

namespace Reads

variable {α β : Type} {next : Token → Parse β} {decide : Bool → Parse β} {skipped : Unit → Parse β}
  {final : β → ParseState → Prop} {kind : Kind} {fallen : ParseState → Prop}

section
variable (here : reading.At count lo state)
include here

theorem unexpected (expected : Expected) {post : α → ParseState → Prop} :
    Reads reading.Fallen state (unexpected expected) post :=
  .failed rfl (here.fallen _)

theorem fail (error : ParseError) {post : α → ParseState → Prop} :
    Reads reading.Fallen state (fail error) post :=
  .failed rfl (here.fallen _)

theorem fail_bind (error : ParseError) {next : α → Parse β} :
    Reads reading.Fallen state (Parse.fail error >>= next) final :=
  .failed rfl (here.fallen _)

theorem advance (other : state.stream.next.kind ≠ .mark .rightBrace)
    (rest : ∀ hi, Row reading.layout lo hi [.leaf state.stream.next.span] →
      reading.At (count - 1) hi state.advance →
        Reads fallen state.advance (next state.stream.next) final) :
    Reads fallen state (Parse.advance >>= next) final := by
  obtain ⟨hi, row, behind⟩ := here.advance other
  exact step (advance_eq state) (rest hi row behind)

theorem skip (other : state.stream.next.kind ≠ .mark .rightBrace)
    (rest : reading.At (count - 1) lo state.advance →
    Reads fallen state.advance (skipped ()) final) :
    Reads fallen state (discard Parse.advance >>= skipped) final :=
  step (skip_eq state) (rest (here.skip other))

theorem expect (other : kind ≠ .mark .rightBrace) (rest : ∀ hi, state.stream.next.kind = kind →
      Row reading.layout lo hi [.leaf state.stream.next.span] →
      reading.At (count - 1) hi state.advance → Reads reading.Fallen state.advance
        (next state.stream.next) final) :
    Reads reading.Fallen state (Parse.expect kind >>= next) final := by
  by_cases found : state.stream.next.kind = kind
  · obtain ⟨hi, row, behind⟩ := here.advance (found ▸ other)
    exact step (expect_eq found) (rest hi found row behind)
  · obtain ⟨error, run⟩ := expect_missing found
    exact .failed (bind_error run) (here.fallen error)

theorem skipExpect (other : kind ≠ .mark .rightBrace)
    (rest : reading.At (count - 1) lo state.advance → Reads reading.Fallen state.advance
    (skipped ()) final) :
    Reads reading.Fallen state (discard (Parse.expect kind) >>= skipped) final := by
  by_cases found : state.stream.next.kind = kind
  · exact step (discard_of_ok (expect_eq found)) (rest (here.skip (found ▸ other)))
  · obtain ⟨error, run⟩ := expect_missing found
    exact .failed (bind_error (discard_of_error run)) (here.fallen error)

theorem accept (other : kind ≠ .mark .rightBrace)
    (found : state.stream.next.kind = kind → reading.At (count - 1) lo state.advance →
      Reads fallen state.advance (decide true) final)
    (missing : state.stream.next.kind ≠ kind → Reads fallen state (decide false) final) :
    Reads fallen state (Parse.accept kind >>= decide) final := by
  by_cases isThere : state.stream.next.kind = kind
  · exact step (accept_eq isThere) (found isThere (here.skip (isThere ▸ other)))
  · exact step (accept_missing isThere) (missing isThere)

end

end Reads

end Parse

end Skiff
