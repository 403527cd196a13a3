import Skiff.Proofs.Heap.Bond
import Skiff.Value.Collection
import Skiff.Value.Convert
import Skiff.Value.Format
import Skiff.Value.Index
import Skiff.Value.Iterator

/-!
# Operators, elements and slices

Every operation on values does the same on corresponding heaps, gives what may occur for what may
occur, and never fails by a fault of byte code. In particular none of them changes an array or a map
of which only read-only views are around.
-/

namespace Skiff

open Heap Value

variable {bond : Bond} {core : Heap → Heap → Prop} {realm : Realm} {heap heap' : Heap}

theorem ordinary_ofArgument {name expected : String} (found : Value)
    (short : name.utf8ByteSize ≤ 64 ∧ expected.utf8ByteSize ≤ 64) :
    (RuntimeError.ofArgument name expected found).Ordinary realm :=
  ⟨.inr short, rfl⟩

/-! ## Operators -/

variable {value value' left right index index' : Value}

namespace Bond.Values

theorem negate (values : bond.Values value value') :
    bond.Outcomes bond.Values value.negate value'.negate := by
  cases values.same using ValueRel.kinds with
  | int n => exact .ok ⟨.int _, trivial⟩
  | float x => exact .ok ⟨.float _, trivial⟩
  | _ => exact .error ⟨trivial, rfl⟩

theorem complement (values : bond.Values value value') :
    bond.Outcomes bond.Values value.complement value'.complement := by
  cases values.same using ValueRel.kinds with
  | int n => exact .ok ⟨.int _, trivial⟩
  | _ => exact .error ⟨trivial, rfl⟩

end Bond.Values

/-- What an operator gives without new storage: a value without references, or a failure that is no
fault. -/
def Scalar (realm : Realm) : Except RuntimeError (Option Value) → Prop
  | .ok (some value) => value.isData = true ∧ value.Inside realm
  | .ok none => True
  | .error e => e.Ordinary realm

theorem scalar_compare? (op : Operator) (less lessEq greater greaterEq : Bool) :
    Scalar realm (.ok (op.compare? less lessEq greater greaterEq)) := by
  cases op <;> first | exact And.intro rfl trivial | trivial

theorem scalar_intOperator (op : Operator) (a b : Int64) :
    Scalar realm (intOperator op a b) := by
  have int (n : Int64) : Scalar realm (.ok (some (.int n))) := And.intro rfl trivial
  cases op with
  | quo | rem | shl | shr =>
    simp only [intOperator]
    split
    · exact And.intro trivial rfl
    · exact int _
  | less | lessEq | greater | greaterEq => exact scalar_compare? ..
  | _ => exact int _

theorem scalar_floatOperator (op : Operator) (a b : Double) :
    Scalar realm (.ok (floatOperator op a b)) := by
  cases op <;> first | exact And.intro rfl trivial | exact scalar_compare? .. | trivial

theorem scalar_charOfInt? (code : Int) : Scalar realm (.ok (charOfInt? code)) := by
  unfold charOfInt?
  cases Literal.charOfCode? (code % 0x100000000).toNat with
  | none => trivial
  | some c => exact And.intro rfl trivial

theorem scalar_concat (lawful : realm.Lawful) (a b : String) :
    Scalar realm ((concat a b).map some) := by
  unfold concat
  split
  · exact And.intro trivial rfl
  · refine And.intro rfl (lawful.size ?_)
    rw [String.utf8ByteSize_append]
    exact Nat.le_of_not_lt ‹_›

theorem scalar_scalarOperator (lawful : realm.Lawful) (heap : Heap) (op : Operator)
    (left right : Value) : Scalar realm (heap.scalarOperator op left right) := by
  unfold scalarOperator
  split
  · exact scalar_intOperator ..
  · exact scalar_floatOperator ..
  · exact scalar_floatOperator ..
  · exact scalar_floatOperator ..
  · split
    · exact scalar_charOfInt? _
    · exact scalar_compare? ..
  · split
    · exact scalar_charOfInt? _
    · exact scalar_charOfInt? _
    · exact scalar_compare? ..
  · split
    · exact And.intro rfl trivial
    · exact scalar_compare? ..
  · split
    · exact scalar_concat lawful ..
    · exact scalar_compare? ..
  · split
    · exact scalar_concat lawful ..
    · trivial
  · split
    · split
      · exact And.intro trivial rfl
      · refine And.intro rfl (lawful.size ?_)
        rw [ByteArray.size_append]
        exact Nat.le_of_not_lt ‹_›
    · trivial
  · split
    · exact And.intro rfl trivial
    · exact And.intro rfl trivial
    · trivial
  · split
    · exact And.intro rfl trivial
    · exact scalar_compare? ..
  · trivial

/-- Only the text of the right operand is read from the heap. -/
theorem scalarOperator_congr (op : Operator) (texts : heap.text right = heap'.text right) :
    heap.scalarOperator op left right = heap'.scalarOperator op left right := by
  unfold scalarOperator
  split <;> first | rfl | simp only [texts]

variable {ref : Nat} {link : Link}

theorem HeapRel.scalarOperator_eq (same : HeapRel link core heap heap') (op : Operator)
    {left left' right right' : Value} (lefts : ValueRel link left left')
    (rights : ValueRel link right right') :
    heap.scalarOperator op left right = heap'.scalarOperator op left' right' := by
  have texts := same.text_eq rights
  cases lefts with
  | data _ | handle _ _ =>
    cases rights with
    | data _ | handle _ _ => exact scalarOperator_congr op texts
    | error _ | function _ | cell _ =>
      unfold scalarOperator
      cases left <;> first | rfl | simp only [texts]
  | error _ | function _ | cell _ => rfl

/-- An array in its mutable or immutable form. -/
def Value.arrayRef? : Value → Option Nat
  | .array ref | .immutableArray ref => some ref
  | _ => none

theorem ValueRel.arrayRef?_eq (values : ValueRel link value value') :
    value.arrayRef? = value'.arrayRef? := by
  cases values <;> rfl

theorem Value.Inside.arrayRef? (inside : value.Inside realm)
    (isArray : value.arrayRef? = some ref) : realm.array ref := by
  cases value with
  | array ref =>
    cases isArray
    exact inside.1
  | immutableArray ref =>
    cases isArray
    exact inside
  | _ => cases isArray

/-- The right operand of an operator: behind a string it is taken as it is. -/
def Heap.rightOperand (heap : Heap) (op : Operator) (left right : Value) : Value :=
  match left, op with
  | .string _, .add => right
  | _, _ => heap.resolve right

/-- A binary operator joins arrays, and is computed without new storage otherwise. -/
theorem Heap.binary_eq (op : Operator) (left right : Value) (heap : Heap) :
    Heap.binary op left right heap =
      let left := heap.resolve left
      let right := heap.rightOperand op left right
      match left.arrayRef?, right.arrayRef?, op with
      | some a, some b, .add =>
        let (value, heap) := heap.newArray (heap.array a ++ heap.array b)
        .ok value heap
      | _, _, _ =>
        match heap.scalarOperator op left right with
        | .ok (some value) => .ok value heap
        | .ok none => .error (.operator op left.type right.type) heap
        | .error e => .error e heap := by
  unfold Heap.binary Heap.rightOperand
  generalize heap.resolve left = left, heap.resolve right = resolved
  cases left <;> cases op <;> first | rfl | (cases resolved <;> rfl)

namespace Bond

theorem Heaps.rightOperand (heaps : bond.Heaps core heap heap') (op : Operator)
    {left' right' : Value} (lefts : bond.Values left left') (rights : bond.Values right right') :
    bond.Values (heap.rightOperand op left right) (heap'.rightOperand op left' right') := by
  have resolved := heaps.resolve rights
  unfold Heap.rightOperand
  cases lefts.same with
  | data _ | handle _ _ => split <;> assumption
  | error _ | function _ | cell _ => exact resolved

theorem binary (lawful : bond.realm.Lawful) (op : Operator) {left' right' : Value}
    (lefts : bond.Values left left') (rights : bond.Values right right') :
    Sim (bond.heapFrames core) bond.Values (Heap.binary op left right)
      (Heap.binary op left' right') := by
  intro heap heap' heaps
  rw [binary_eq, binary_eq]
  replace lefts := heaps.resolve lefts
  replace rights := heaps.rightOperand op lefts rights
  have scalar := scalar_scalarOperator lawful heap' op (heap'.resolve left')
    (heap'.rightOperand op (heap'.resolve left') right')
  simp only [← lefts.same.arrayRef?_eq, ← rights.same.arrayRef?_eq, lefts.same.type_eq,
    rights.same.type_eq, heaps.same.scalarOperator_eq op lefts.same rights.same]
  generalize heap'.scalarOperator op (heap'.resolve left')
    (heap'.rightOperand op (heap'.resolve left') right') = computed at scalar
  split
  · rename_i isArray isArray'
    obtain ⟨values, heaps⟩ := heaps.newArray (forall₂_append
      (heaps.array (lefts.inside.arrayRef? isArray))
        (heaps.array (rights.inside.arrayRef? isArray')))
    exact .ok values heaps
  · cases computed with
    | error e => exact .error ⟨rfl, scalar⟩ heaps
    | ok value? =>
      cases value? with
      | none => exact .error ⟨rfl, trivial, rfl⟩ heaps
      | some value => exact .ok ⟨.data scalar.1, scalar.2⟩ heaps

/-! ## Elements -/

theorem Heaps.methodValue (heaps : bond.Heaps core heap heap') {name? : Option MethodName}
    {target : Nat} (known : ∀ ref, bond.link.handle (.method ref))
    (inside : ∀ name ∈ name?, (Method.mk name target).Inside bond.realm) :
    bond.Values (heap.methodValue name? target).1 (heap'.methodValue name? target).1 ∧
      bond.Heaps core (heap.methodValue name? target).2 (heap'.methodValue name? target).2 := by
  cases name? with
  | none => exact ⟨⟨.undefined, trivial⟩, heaps⟩
  | some name => exact heaps.newMethod known (inside name rfl)

/-- An element that is chosen in the same way from corresponding arrays. -/
theorem Items.element {items items' : Array Value} (sames : bond.Items items items')
    (place? : Option Nat) :
    bond.Values (place?.elim .undefined fun place => items.getD place .undefined)
      (place?.elim .undefined fun place => items'.getD place .undefined) := by
  cases place? with
  | none => exact ⟨.undefined, trivial⟩
  | some place => exact sames.getD place

end Bond

/-- A value without what an index is not asked for. -/
def Value.plain : Value → Value
  | .error _ => .error .undefined
  | .function _ => .function 0
  | .cell _ => .cell 0
  | value => value

theorem ValueRel.plain_eq (values : ValueRel link value value') : value.plain = value'.plain := by
  cases values <;> rfl

theorem Heap.getIndex_plain (value index : Value) (heap : Heap) :
    Heap.getIndex value index heap = Heap.getIndex value index.plain heap := by
  unfold Heap.getIndex
  cases index with
  | error _ | function _ | cell _ => cases heap.resolve value <;> rfl
  | _ => rfl

theorem Heap.getIndex_error (inner : Value) (other : index ≠ .string "value")
    (heap : Heap) : Heap.getIndex (.error inner) index heap = .error .errorIndex heap := by
  unfold Heap.getIndex
  rw [resolve_of_type (by simp [type])]
  split <;> simp_all

theorem inside_ofRoutine? (seen : realm.routine ref) (text : String) :
    ∀ name ∈ MethodName.ofRoutine? text, (Method.mk name ref).Inside realm := by
  intro name found
  unfold MethodName.ofRoutine? at found
  split at found <;> cases found <;> first | exact seen | trivial

theorem inside_ofChannel? (seen : realm.channel ref) (text : String) :
    ∀ name ∈ MethodName.ofChannel? text, (Method.mk name ref).Inside realm := by
  intro name found
  unfold MethodName.ofChannel? at found
  split at found <;> cases found <;> exact seen

namespace Bond

section
variable (heaps : bond.Heaps core heap heap')
include heaps

theorem Heaps.getIndex_error {inner inner' : Value} (inners : bond.Values inner inner') :
    ResultRel (bond.heapFrames core) bond.Values (Heap.getIndex (.error inner) index heap)
      (Heap.getIndex (.error inner') index heap') := by
  by_cases named : index = .string "value"
  · subst named
    exact .ok inners heaps
  · rw [Heap.getIndex_error _ named, Heap.getIndex_error _ named]
    exact .error ⟨rfl, trivial, rfl⟩ heaps

theorem Heaps.getIndex_data (data : value.isData = true) (inside : value.Inside bond.realm) :
    ResultRel (bond.heapFrames core) bond.Values (Heap.getIndex value index heap)
      (Heap.getIndex value index heap') := by
  unfold Heap.getIndex
  cases value with
  | array ref | immutableArray ref =>
    have seen : bond.realm.array ref := by first | exact inside | exact inside.1
    cases index with
    | int i =>
      simp only [Heap.resolve, ← heaps.same.size_array ref]
      exact .ok ((heaps.array seen).element _) heaps
    | _ => exact .error ⟨rfl, trivial, rfl⟩ heaps
  | bytes b =>
    cases index with
    | int i =>
      refine .ok ?_ heaps
      cases indexIn? i b.size with
      | none => exact ⟨.undefined, trivial⟩
      | some place => exact ⟨.int _, trivial⟩
    | _ => exact .error ⟨rfl, trivial, rfl⟩ heaps
  | string s =>
    cases index with
    | int i =>
      refine .ok ?_ heaps
      split
      · cases s.toList[i.toInt.toNat]? with
        | none => exact ⟨.undefined, trivial⟩
        | some c => exact ⟨.char c, trivial⟩
      · exact ⟨.undefined, trivial⟩
    | _ => exact .error ⟨rfl, trivial, rfl⟩ heaps
  | map ref | immutableMap ref =>
    have seen : bond.realm.map ref := by first | exact inside | exact inside.1
    cases index with
    | string key =>
      refine .ok ?_ heaps
      have found := (heaps.map seen).get? key
      generalize (heap.map ref).get? key = left, (heap'.map ref).get? key = right at found
      cases found with
      | none => exact ⟨.undefined, trivial⟩
      | some found => exact found
    | _ => exact .error ⟨rfl, trivial, rfl⟩ heaps
  | undefined => exact .ok ⟨.undefined, trivial⟩ heaps
  | bool _ | int _ | float _ | char _ | time _ => exact .error ⟨rfl, trivial, rfl⟩ heaps
  | _ => exact absurd data Bool.false_ne_true

end

theorem Heaps.getIndex_handle (faithful : bond.link.Faithful) (heaps : bond.Heaps core heap heap')
    (handle : value.isHandle = true) (known : bond.link.handle value)
    (inside : value.Inside bond.realm) :
    ResultRel (bond.heapFrames core) bond.Values (Heap.getIndex value index heap)
      (Heap.getIndex value index heap') := by
  unfold Heap.getIndex
  cases value with
  | routine ref =>
    cases index with
    | string name =>
      obtain ⟨methods, heaps⟩ := heaps.methodValue
        (fun method => faithful.routineMethod method known) (inside_ofRoutine? inside name)
      exact .ok methods heaps
    | _ => exact .error ⟨rfl, trivial, rfl⟩ heaps
  | channel ref =>
    cases index with
    | string name =>
      obtain ⟨methods, heaps⟩ := heaps.methodValue
        (fun method => faithful.channelMethod method known) (inside_ofChannel? inside name)
      exact .ok methods heaps
    | _ => exact .error ⟨rfl, trivial, rfl⟩ heaps
  | builtin _ | host _ _ | method _ | iterator _ => exact .error ⟨rfl, trivial, rfl⟩ heaps
  | _ => exact absurd handle Bool.false_ne_true

end Bond

theorem Heap.getIndex_of_resolve {resolved : Value} (index : Value)
    (resolves : heap.resolve value = resolved) (plain : resolved.type ≠ .cell) :
    Heap.getIndex value index heap = Heap.getIndex resolved index heap := by
  unfold Heap.getIndex
  rw [resolves, resolve_of_type plain]

theorem Heap.getIndex_cell (index : Value) (resolves : heap.resolve value = .cell ref) :
    Heap.getIndex value index heap = .error (.notIndexable .cell) heap := by
  unfold Heap.getIndex
  rw [resolves]
  rfl

namespace Bond

theorem getIndex (faithful : bond.link.Faithful) (values : bond.Values value value')
    (indexes : bond.Values index index') :
    Sim (bond.heapFrames core) bond.Values (Heap.getIndex value index)
      (Heap.getIndex value' index') := by
  intro heap heap' heaps
  obtain ⟨resolved, inside⟩ := heaps.resolve values
  rw [getIndex_plain value, getIndex_plain value', indexes.same.plain_eq]
  generalize index'.plain = index
  generalize left : heap.resolve value = object, right : heap'.resolve value' = object'
    at resolved inside
  rcases resolved.cell_or with ⟨ref, ref', _, rfl, rfl⟩ | ⟨plain, plain'⟩
  · rw [getIndex_cell index left, getIndex_cell index right]
    exact .error ⟨rfl, trivial, rfl⟩ heaps
  · rw [getIndex_of_resolve index left plain, getIndex_of_resolve index right plain']
    cases resolved with
    | error inners => exact heaps.getIndex_error ⟨inners, inside⟩
    | cell _ => exact absurd rfl plain
    | function _ => exact .error ⟨rfl, trivial, rfl⟩ heaps
    | data data => exact heaps.getIndex_data data inside
    | handle handle known => exact heaps.getIndex_handle faithful handle known inside

/-- What can be changed by an index, once resolved, and how. -/
theorem setIndex {item item' : Value} (values : bond.Values value value')
    (indexes : bond.Values index index') (items : bond.Values item item') :
    Sim (bond.heapFrames core) (fun _ _ => True) (Heap.setIndex value index item)
      (Heap.setIndex value' index' item') := by
  intro heap heap' heaps
  obtain ⟨resolved, inside⟩ := heaps.resolve values
  obtain ⟨indexes, key⟩ := indexes
  unfold Heap.setIndex
  generalize heap.resolve value = object, heap'.resolve value' = object' at resolved inside
  cases resolved using ValueRel.kinds with
  | array ref =>
    cases indexes using ValueRel.kinds with
    | int i =>
      simp only [← heaps.same.size_array ref]
      cases indexIn? i (heap.array ref).size with
      | none => exact .error ⟨rfl, trivial, rfl⟩ heaps
      | some place =>
        exact .ok trivial (heaps.modifyArray inside.2
          (forall₂_setIfInBounds (heaps.array inside.1) place items))
    | _ => exact .error ⟨rfl, trivial, rfl⟩ heaps
  | map ref =>
    cases indexes using ValueRel.kinds with
    | string name =>
      exact .ok trivial (heaps.modifyMap inside.2 ((heaps.map inside.1).insert key items))
    | _ => exact .error ⟨rfl, trivial, rfl⟩ heaps
  | _ => exact .error ⟨rfl, trivial, rfl⟩ heaps

/-! ## Slices -/

theorem sliceBound (size default : Nat) (values : bond.Values value value') :
    bond.Outcomes Eq (Heap.sliceBound size default value)
      (Heap.sliceBound size default value') := by
  cases values.same using ValueRel.kinds with
  | undefined | int _ => exact .ok rfl
  | _ => exact .error ⟨trivial, rfl⟩

end Bond

theorem lt_of_sliceBound_low {size start : Nat} (bound : Heap.sliceBound size 0 value = .ok start) :
    start < 2 ^ 63 := by
  cases value with
  | undefined =>
    cases bound
    decide
  | int i =>
    have small : i.toInt < 2 ^ 63 := i.toInt_lt
    simp only [Heap.sliceBound, Except.ok.injEq] at bound
    split at bound <;> omega
  | _ => cases bound

namespace Bond

variable {low low' high high' : Value}

/-- The bounds of a slice are in order, or what they are is told. -/
theorem sliceBounds (lawful : bond.realm.Lawful) (size : Nat) (lows : bond.Values low low')
    (highs : bond.Values high high') :
    bond.Outcomes Eq (Heap.sliceBounds size low high) (Heap.sliceBounds size low' high') := by
  obtain ⟨starts, noStart⟩ := (sliceBound size 0 lows).eq
  obtain ⟨stops, noStop⟩ := (sliceBound size size highs).eq
  rw [Heap.sliceBounds, Heap.sliceBounds, starts, stops]
  cases start : Heap.sliceBound size 0 low with
  | error e => exact .error (noStart e start)
  | ok first =>
    cases stop : Heap.sliceBound size size high with
    | error e => exact .error (noStop e stop)
    | ok last =>
      have small := lt_of_sliceBound_low start
      simp only [bind, Except.bind]
      split
      · exact .error ⟨⟨lawful.count (by omega), lawful.count (by omega)⟩, rfl⟩
      · exact .ok rfl

theorem getSlice (lawful : bond.realm.Lawful) (values : bond.Values value value')
    (lows : bond.Values low low') (highs : bond.Values high high') :
    Sim (bond.heapFrames core) bond.Values (Heap.getSlice value low high)
      (Heap.getSlice value' low' high') := by
  intro heap heap' heaps
  obtain ⟨resolved, inside⟩ := heaps.resolve values
  have bounds (size : Nat) := (sliceBounds lawful size lows highs).eq
  unfold Heap.getSlice
  generalize heap.resolve value = object, heap'.resolve value' = object' at resolved inside
  cases resolved using ValueRel.kinds with
  | array ref | immutableArray ref =>
    have seen : bond.realm.array ref := by first | exact inside | exact inside.1
    simp only [← heaps.same.size_array ref, bounds]
    cases found : Heap.sliceBounds (heap.array ref).size low high with
    | error e => exact .error ⟨rfl, (bounds _).2 e found⟩ heaps
    | ok range =>
      obtain ⟨news, heaps⟩ := heaps.newArray (forall₂_extract (heaps.array seen) _ _)
      exact .ok news heaps
  | string s =>
    simp only [bounds]
    cases found : Heap.sliceBounds s.length low high with
    | error e => exact .error ⟨rfl, (bounds _).2 e found⟩ heaps
    | ok range =>
      refine .ok ⟨.string _, lawful.smaller ?_ inside⟩ heaps
      rw [String.utf8ByteSize_ofList, ← String.utf8Len_toList]
      exact String.utf8Len_le_of_sublist ((List.take_sublist _ _).trans (List.drop_sublist _ _))
  | bytes b =>
    simp only [bounds]
    cases found : Heap.sliceBounds b.size low high with
    | error e => exact .error ⟨rfl, (bounds _).2 e found⟩ heaps
    | ok range =>
      refine .ok ⟨.bytes _, lawful.smaller ?_ inside⟩ heaps
      rw [ByteArray.size_extract]
      omega
  | _ => exact .error ⟨rfl, trivial, rfl⟩ heaps

end Bond

end Skiff
