import Mathlib.Data.Nat.Digits.Defs
import Mathlib.Data.String.Basic
import Skiff.Proofs.Compile.Texts
import Skiff.Proofs.Realm.Sealed

/-!
# The limits of strings and byte sequences

The realm in which everything may occur but strings and byte sequences beyond the limit. The texts
of failures are short, because the numbers in them are. What would be too long is rejected where it
would arise, so nothing that is too long is ever come by.
-/

namespace Skiff

open String Nat

open Relation (ReflTransGen)

/-- All values but long strings and byte sequences. -/
def Realm.short : Realm where
  size size := size ≤ maxTextSize
  count count := count < 2 ^ 64
  array _ := True
  map _ := True
  openArray _ := True
  openMap _ := True
  items _ := #[]
  entries _ := .empty
  cell _ := True
  function _ := True
  iterator _ := True
  method _ := True
  routine _ := True
  channel _ := True
  shownCells := True
  newFunctions := True
  table _ := True

/-! ## The texts of failures -/

theorem utf8Len_le (chars : List Char) : utf8Len chars ≤ 4 * chars.length := by
  induction chars with
  | nil => exact le_refl _
  | cons c rest ih =>
    have one := c.utf8Size_le_four
    rw [utf8Len_cons, List.length_cons]
    omega

theorem utf8ByteSize_le (text : String) : text.utf8ByteSize ≤ 4 * text.length := by
  rw [← length_toList, ← text.ofList_toList, utf8ByteSize_ofList, toList_ofList]
  exact utf8Len_le _

variable {text : String} {n : Nat} {e : RuntimeError}

theorem utf8ByteSize_toString_le (small : n < 2 ^ 64) : (toString n).utf8ByteSize ≤ 80 := by
  have digits : (Nat.repr n).length ≤ 20 :=
    Nat.repr_length n 20 (by decide) (Nat.lt_trans small (by decide))
  exact Nat.le_trans (utf8ByteSize_le _) (Nat.mul_le_mul_left 4 digits)

theorem utf8ByteSize_name_le (type : ValueType) : type.name.utf8ByteSize ≤ 64 := by
  cases type <;> decide

theorem utf8ByteSize_text_le (op : Operator) : op.text.utf8ByteSize ≤ 64 := by
  cases op <;> decide

theorem size_append_le {left right : String} {m : Nat} (first : left.utf8ByteSize ≤ m)
    (second : right.utf8ByteSize ≤ n) : (left ++ right).utf8ByteSize ≤ m + n := by
  rw [String.utf8ByteSize_append]
  exact Nat.add_le_add first second

theorem utf8ByteSize_toString_int_le {i : Int} (small : i.natAbs < 2 ^ 64) :
    (toString i).utf8ByteSize ≤ 81 := by
  cases i with
  | ofNat n => exact le_trans (utf8ByteSize_toString_le small) (by decide)
  | negSucc n =>
    exact size_append_le (show "-".utf8ByteSize ≤ 1 by decide) (utf8ByteSize_toString_le small)

/-- The texts of failures are short, unless the host has made them. -/
theorem size_message_le (inside : e.Inside .short) : e.message.utf8ByteSize ≤ maxTextSize := by
  have type := utf8ByteSize_name_le
  have lower {size : Nat} (le : size ≤ 1024) : size ≤ maxTextSize := le_trans le (by decide)
  have front {left right : String} {m n : Nat} (first : left.utf8ByteSize ≤ m)
      (second : right.utf8ByteSize ≤ n) (sum : m + n ≤ 1024) :
      (left ++ right).utf8ByteSize ≤ maxTextSize :=
    lower (le_trans (size_append_le first second) sum)
  have number {n : Nat} (small : n < 2 ^ 64) := utf8ByteSize_toString_le small
  cases e with
  | host message => exact inside
  | operator op left right =>
    exact front (size_append_le (size_append_le (size_append_le (size_append_le (le_refl _)
      (type left)) (le_refl _)) (utf8ByteSize_text_le op)) (le_refl _)) (type right) (by decide)
  | unaryOperator op operand =>
    have short : op.text.utf8ByteSize ≤ 64 := by cases op <;> decide
    exact front (size_append_le (le_refl _) short) (type operand) (by decide)
  | argumentCount want got | tooFewArguments want got | sliceOrder want got =>
    exact front (size_append_le (size_append_le (le_refl _) (number inside.1)) (le_refl _))
      (number inside.2) (by decide)
  | argumentType name expected found =>
    rcases inside with any | ⟨short, short'⟩
    · exact any _
    · exact front (size_append_le (size_append_le (size_append_le (size_append_le (le_refl _) short)
        (le_refl _)) short') (le_refl _)) (type found) (by decide)
  | indexType found | notIndexable found | notAssignable found | notSliceable found
  | notCallable found | notIterable found => exact front (le_refl _) (type found) (by decide)
  | constantIndex index | functionConstant index | freeIndex index | builtinIndex index =>
    exact front (le_refl _) (number inside) (by decide)
  | opcode byte =>
    exact front (le_refl _) (number (lt_trans byte.toNat_lt (by decide))) (by decide)
  | negativeShift amount =>
    have small : amount.toInt.natAbs < 2 ^ 64 := by
      have low := amount.le_toInt
      have high := amount.toInt_lt
      omega
    exact front (le_refl _) (utf8ByteSize_toString_int_le small) (by decide)
  | _ => exact lower (by decide)

theorem Realm.short_free : Realm.short.Free where
  size le := le
  smaller le small := le_trans le small
  count small := small
  fewer le small := lt_of_le_of_lt le small
  message := size_message_le
  shownCells := trivial
  newFunctions := trivial
  table _ := trivial

/-! ## What is too long is rejected -/

theorem Compile.literal_tooLong (long : maxTextSize < text.utf8ByteSize) (span : Span)
    (s : CompileState) : literal span (.string text) s = .error ⟨.stringLimit, span⟩ s := by
  refine bind_error ?_
  rw [limit, decide_eq_false (Nat.not_le_of_lt long)]
  rfl

theorem Value.ofText_tooLong (long : maxTextSize < text.utf8ByteSize) :
    Value.ofText text = .error .stringLimit := if_pos long

namespace Heap

variable {heap : Heap} {left right : Value}

theorem binary_tooLong (string : heap.resolve left = .string text)
    (long : maxTextSize < text.utf8ByteSize + (heap.text right).utf8ByteSize) :
    binary .add left right heap = .error .stringLimit heap := by
  have concat : Value.concat text (heap.text right) = .error .stringLimit := if_pos long
  have scalar : heap.scalarOperator .add (.string text) right = .error .stringLimit := by
    cases right with
    | string other =>
      show (Value.concat text other).map some = _
      rw [show Value.concat text other = .error .stringLimit from concat]
      rfl
    | _ =>
      simp only [scalarOperator, concat]
      rfl
  unfold binary
  simp only [string, scalar]

theorem binary_bytes_tooLong {a b : ByteArray} (first : heap.resolve left = .bytes a)
    (second : heap.resolve right = .bytes b) (long : maxTextSize < a.size + b.size) :
    binary .add left right heap = .error .bytesLimit heap := by
  have scalar : heap.scalarOperator .add (.bytes a) (.bytes b) = .error .bytesLimit := if_pos long
  unfold binary
  simp only [first, second, scalar]

theorem format_tooLong {format : String} {args : List Value}
    (long : maxTextSize < (heap.render format args).utf8ByteSize) :
    heap.format (.string format :: args) = .error .stringLimit := Value.ofText_tooLong long

end Heap

namespace Exec

variable {machine : Machine} {args : List Value} {value : Value}

/-- A conversion that fails does so whether or not there is a value to take its place. -/
theorem convertOr_error {convert : Value → Exec (Option Value)}
    (fails : convert value machine = .error e machine) (few : args.length ≤ 1) :
    convertOr (value :: args) convert machine = .error e machine := by
  have failed (other : Value) : (do return (← convert value).getD other : Exec Value) machine
      = .error e machine := bind_error fails
  cases args with
  | nil => exact failed .undefined
  | cons other rest =>
    cases rest with
    | nil => exact failed other
    | cons => exact absurd few (by simp)

theorem string_tooLong (shown : machine.heap.toText? value = some text)
    (long : maxTextSize < text.utf8ByteSize) (few : args.length ≤ 1) :
    callBuiltin .string (value :: args) machine = .error .stringLimit machine := by
  apply convertOr_error _ few
  simp only [bind_assoc, get_bind, pure_bind, shown, Value.ofText_tooLong long]
  rfl

theorem bytes_tooLong {count : Int64} (long : maxTextSize < count.toInt.toNat)
    (few : args.length ≤ 1) :
    callBuiltin .bytes (.int count :: args) machine = .error .bytesLimit machine := by
  apply convertOr_error _ few
  have fails : zeroBytes count machine = .error .bytesLimit machine := by
    show (if maxTextSize < count.toInt.toNat then throw RuntimeError.bytesLimit else _ : Exec Value)
      machine = _
    rw [if_pos long]
    rfl
  exact bind_error fails

end Exec

/-! ## Nothing is too long -/

/-- What an iterator runs over has no key that is too long. -/
def IterSource.Limited : IterSource → Prop
  | .map _ keys => ∀ key ∈ keys, key.utf8ByteSize ≤ maxTextSize
  | .array _ | .bytes _ | .chars _ => True

/-- A value that is no string or byte sequence beyond the limit and has no key beyond it. -/
def Value.Limited (heap : Heap) : Value → Prop
  | .string text => text.utf8ByteSize ≤ maxTextSize
  | .bytes b => b.size ≤ maxTextSize
  | .map ref | .immutableMap ref =>
    ∀ entry ∈ (heap.map ref).entries.toList, entry.1.utf8ByteSize ≤ maxTextSize
  | .iterator ref => ∀ iterator, heap.iterators[ref]? = some iterator → iterator.source.Limited
  | _ => True

theorem Value.Inside.limited {value : Value} {heap : Heap} (inside : value.Inside .short)
    (kept : heap.Inside .short) : value.Limited heap := by
  cases value with
  | string text => exact inside
  | bytes b => exact inside
  | map ref | immutableMap ref =>
    intro entry member
    have inside := @Heap.Inside.entries _ _ kept ref trivial entry member
    exact inside.1
  | iterator ref =>
    intro iterator found
    have source := (kept.iterators inside found).source
    cases along : iterator.source with
    | map ref keys =>
      rw [along] at source
      exact source.2
    | array | bytes | chars => trivial
  | _ => trivial

/-- What the host supplies to a program and to the machine that runs it is within the limits: names
in its tree and in the texts of modules, the values in modules and globals, and what host functions
give. -/
structure Supplied (imports : Imports) (script : Script) (state : CompileState) (config : Config)
    (globals : Array Value) (world : World) : Prop where
  names : script.All (Expr.NamesFit maxTextSize)
  imports : Compile.ImportsShort .short maxTextSize imports.modules imports.files
  state : state.Inside .short
  room : config.stackSize < 2 ^ 64
  globals : ∀ value ∈ globals, value.Inside .short
  world : world.Inside .short (Task.Inside .short)

section
variable {imports : Imports} {script : Script} {state after : CompileState} {program : Program}
  {made : Program × Heap} {config : Config} {globals : Array Value} {world : World}
  {moment : Moment}

theorem Supplied.load (supplied : Supplied imports script state config globals world)
    (compiled : Compile.program imports script state = .ok program after)
    (either : made = (program, after.heap) ∨ made = program.merge after.heap) :
    (Machine.load made.1 config globals made.2 world).Inside .short := by
  have free := Realm.short_free
  obtain ⟨constants, kept, main⟩ := Compile.inside_program free le_rfl compiled supplied.imports
    supplied.names supplied.state
  rcases either with rfl | rfl
  · exact Machine.inside_load free constants main supplied.room supplied.globals kept supplied.world
  · obtain ⟨constants, kept, main⟩ := Program.inside_merge free constants kept main
    exact Machine.inside_load free constants main supplied.room supplied.globals kept supplied.world

/-- Whatever a program that has been compiled does, merged or not, and whatever the host does
with values within the limits: no string, byte sequence or key beyond them is ever come by.
Literals, sums, conversions and formats that would be too long are rejected and change nothing. -/
theorem Moment.texts_limited (supplied : Supplied imports script state config globals world)
    (compiled : Compile.program imports script state = .ok program after)
    (either : made = (program, after.heap) ∨ made = program.merge after.heap)
    (reached : ReflTransGen (Later fun _ value => value.Inside .short)
      ⟨Machine.load made.1 config globals made.2 world, .ended (.ok .undefined), none⟩ moment) :
    (∀ value, moment.Sees value → value.Limited moment.machine.heap) ∧
    (∀ span text s, maxTextSize < text.utf8ByteSize →
      Compile.literal span (.string text) s = .error ⟨.stringLimit, span⟩ s) ∧
    (∀ heap left text right, Heap.resolve heap left = .string text →
      maxTextSize < text.utf8ByteSize + (heap.text right).utf8ByteSize →
      Heap.binary .add left right heap = .error .stringLimit heap) ∧
    (∀ heap left right a b, Heap.resolve heap left = .bytes a → heap.resolve right = .bytes b →
      maxTextSize < a.size + b.size → Heap.binary .add left right heap = .error .bytesLimit heap) ∧
    (∀ heap format args, maxTextSize < (Heap.render heap format args).utf8ByteSize →
      heap.format (.string format :: args) = .error .stringLimit) ∧
    (∀ machine value text args, args.length ≤ 1 → machine.heap.toText? value = some text →
      maxTextSize < text.utf8ByteSize →
      Exec.callBuiltin .string (value :: args) machine = .error .stringLimit machine) ∧
    ∀ machine count args, args.length ≤ 1 → maxTextSize < (Int64.toInt count).toNat →
      Exec.callBuiltin .bytes (.int count :: args) machine = .error .bytesLimit machine := by
  have inside : moment.Inside .short := by
    induction reached with
    | refl =>
      exact ⟨supplied.load compiled either, trivial, fun none =>
        absurd none.symm (Option.some_ne_none _)⟩
    | tail _ step ih => exact ih.later Realm.short_free (fun _ known => known) step
  refine ⟨?_, ?_, ?_, ?_, ?_, ?_, ?_⟩
  · intro value sees
    exact (inside.sees Realm.short_free sees).limited inside.machine.heap
  · intro span text s long
    exact Compile.literal_tooLong long span s
  · intro heap left text right string long
    exact Heap.binary_tooLong string long
  · intro heap left right a b first second long
    exact Heap.binary_bytes_tooLong first second long
  · intro heap format args long
    exact Heap.format_tooLong long
  · intro machine value text args few shown long
    exact Exec.string_tooLong shown long few
  · intro machine count args few long
    exact Exec.bytes_tooLong long few

end

/-- A sum of a literal and the value of a key, which is the name of a field as well. -/
def keyScript : Script where
  stmts := [.expr {}
    (.binary {} (.strict .add) (.select {} (.map {} [.mk "key" {} (.literal {} (.string "a"))])
    ⟨"key", {}⟩) (.literal {} (.string "b")))]
  span := {}

theorem supplied_keyScript : Supplied {} keyScript { table := .withBuiltins } {} #[] {} := by
  have nothing (name : String) : (Imports.modules {}).get? name = none := Dict.get?_eq _ name
  have heap : Heap.Inside .short {} := by
    refine ⟨?_, ?_, fun _ => trivial, ?_, ?_, fun _ => trivial, trivial, absurd trivial,
      absurd trivial,
      fun _ => ⟨trivial, trivial⟩, fun _ => ⟨trivial, trivial⟩, fun _ => trivial, fun _ => trivial,
      fun _ => trivial, fun _ _ => trivial⟩
    · exact fun _ _ member => absurd member List.not_mem_nil
    · exact fun _ _ member => absurd member List.not_mem_nil
    · exact fun _ => ⟨fun _ member => absurd member (Array.not_mem_empty _), Nat.two_pow_pos 64⟩
    · intro ref iterator _ found
      cases found
  refine ⟨?_, ⟨?_, ?_, ?_⟩, ⟨?_, heap, ?_⟩, by decide, ?_, ?_⟩
  · refine ⟨⟨trivial, ⟨?_, ⟨?_, trivial, trivial⟩⟩, trivial⟩, trivial⟩
    · exact (by decide : "key".utf8ByteSize ≤ maxTextSize)
    · intro key span value member
      cases List.mem_singleton.1 member
      exact (by decide : "key".utf8ByteSize ≤ maxTextSize)
  · intro name text found
    rw [nothing] at found
    cases found
  · intro name entries found
    rw [nothing] at found
    cases found
  · intro files path text same
    cases same
  · exact fun member => absurd member (Array.not_mem_empty _)
  · exact fun member => absurd member List.not_mem_nil
  · exact fun _ member => absurd member (Array.not_mem_empty _)
  · exact ⟨fun _ _ member => absurd member List.not_mem_nil, fun _ => trivial,
      fun member => absurd member (Array.not_mem_empty _),
      fun member => absurd member (Array.not_mem_empty _), fun _ => trivial, fun _ => trivial⟩

theorem texts_limited_keyScript : ∃ program after,
    Compile.program {} keyScript { table := .withBuiltins } = .ok program after ∧
      ∀ value, ((Machine.load program {} #[] after.heap {}).runStart 0).Sees value →
        value.Limited after.heap := by
  obtain ⟨program, after, compiled⟩ : ∃ program after,
      Compile.program {} keyScript { table := .withBuiltins } = .ok program after := ⟨_, _, rfl⟩
  refine ⟨program, after, compiled, ?_⟩
  exact (Moment.texts_limited supplied_keyScript compiled (.inl rfl) (.single (.run .kept 0))).1

/-- A map with one key. -/
def entryScript (key : String) : Script where
  stmts := [.expr {} (.map {} [.mk key {} (.literal {} (.bool true))])]
  span := {}

theorem program_entryScript (key : String) : ∃ program after,
    Compile.program {} (entryScript key) { table := .withBuiltins } = .ok program after ∧
    program.constants[0]? = some (.string key) ∧
    fetchCode? (after.heap.function program.main).code 0 = some (⟨.const, 0, 0⟩, 3) := by
  have spelled {code : ByteArray} {rest : List UInt8}
      (bytes : code.data.toList = 0 :: 0 :: 0 :: rest) :
      fetchCode? code 0 = some (⟨.const, 0, 0⟩, 3) := by
    rw [ByteArray.ext (Array.ext' bytes : code.data = ⟨0 :: 0 :: 0 :: rest⟩)]
    rfl
  exact ⟨_, _, rfl, rfl, spelled rfl⟩

theorem Exec.step_const {main index next : Nat} {machine : Machine} {value : Value}
    (goes : machine.world.tokens.isCancelled machine.thread.token = false)
    (found : fetchCode? machine.thread.code machine.thread.ip = some (⟨.const, index, 0⟩, next))
    (known : machine.thread.program.constants[index]? = some value)
    (room : machine.thread.sp < machine.thread.stack.size) :
    step main machine = .ok .next (machine.mapThread fun thread =>
      (thread.moveTo next).push value) := by
  have read : constant index (machine.mapThread (·.moveTo next)) =
      .ok value (machine.mapThread (·.moveTo next)) := by
    rw [constant, get_bind,
      show (machine.mapThread (·.moveTo next)).thread.program.constants[index]?
        = some value from known]
    rfl
  rw [step_eq goes found]
  exact (bind_ok read).trans (bind_ok (if_pos room))

theorem Thread.mem_push {thread : Thread} {value : Value} (room : thread.sp < thread.stack.size) :
    value ∈ (thread.push value).stack := Array.mem_setIfInBounds room

theorem le_utf8ByteSize_replicate (count : Nat) :
    count ≤ (ofList (List.replicate count 'a')).utf8ByteSize := by
  induction count with
  | zero => exact Nat.zero_le _
  | succ count ih =>
    rw [utf8ByteSize_ofList] at ih ⊢
    exact Nat.succ_le_succ ih

/-- The key of a map is not held to the limit as a literal is: one that is too long is accepted, and
the first instruction of the program puts it on the stack, though the host has supplied nothing. -/
theorem long_key_on_stack : ∃ key program after moment,
    Compile.program {} (entryScript key) { table := .withBuiltins } = .ok program after ∧
    Moment.Reaches 0 ((Machine.load program {} #[] after.heap {}).runStart 0) moment ∧
    .string key ∈ moment.machine.thread.stack ∧
      ¬ (Value.string key).Limited moment.machine.heap := by
  -- The key stays a variable from here on, for nothing of this length can be evaluated.
  obtain ⟨key, long⟩ : ∃ key : String, maxTextSize < key.utf8ByteSize :=
    ⟨_, le_utf8ByteSize_replicate (maxTextSize + 1)⟩
  obtain ⟨program, after, compiled, known, found⟩ := program_entryScript key
  have room : 0 < (Array.replicate (Config.stackSize {}) Value.undefined).size :=
    Nat.lt_of_lt_of_eq (Nat.succ_pos _) Array.size_replicate.symm
  refine ⟨key, program, after, _, compiled,
    .single (.of_step (Exec.step_const rfl found known room)), ?_, Nat.not_le.2 long⟩
  exact Thread.mem_push room

end Skiff
