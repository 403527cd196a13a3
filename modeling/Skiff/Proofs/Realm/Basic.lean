import Skiff.Machine.Basic
import Skiff.Proofs.Heap.Sim
import Skiff.Proofs.Realm.Keeps

/-!
# What may occur in a machine

A realm says which values may occur: how long strings may be, and which references there may be,
with those arrays and maps of which only read-only views are around. A heap lies inside of a realm
if from what may occur only such things can be reached that may occur as well. What is made new may
always occur.
-/

namespace Skiff

/-- What may occur. -/
structure Realm where
  /-- The sizes of strings and byte sequences. -/
  size : Nat → Prop
  /-- The numbers that failures tell. -/
  count : Nat → Prop
  /-- The arrays and maps that are seen, and those of them that can be changed. -/
  array : Nat → Prop
  map : Nat → Prop
  openArray : Nat → Prop
  openMap : Nat → Prop
  /-- What the arrays and maps hold that cannot be changed. -/
  items : Nat → Array Value
  entries : Nat → Dict Value
  cell : Nat → Prop
  function : Nat → Prop
  iterator : Nat → Prop
  method : Nat → Prop
  routine : Nat → Prop
  channel : Nat → Prop
  /-- Whether cells may be met as values. -/
  shownCells : Prop
  /-- Whether new functions may occur, and what all functions of a heap have to be. -/
  newFunctions : Prop
  table : Array Function → Prop

/-- A value that may occur. -/
def Value.Inside (realm : Realm) : Value → Prop
  | .string s => realm.size s.utf8ByteSize
  | .bytes b => realm.size b.size
  | .array ref => realm.array ref ∧ realm.openArray ref
  | .immutableArray ref => realm.array ref
  | .map ref => realm.map ref ∧ realm.openMap ref
  | .immutableMap ref => realm.map ref
  | .error inner => inner.Inside realm
  | .function ref => realm.function ref
  | .iterator ref => realm.iterator ref
  | .method ref => realm.method ref
  | .routine ref => realm.routine ref
  | .channel ref => realm.channel ref
  | .cell ref => realm.shownCells ∧ realm.cell ref
  | .undefined | .bool _ | .int _ | .float _ | .char _ | .time _ | .builtin _ | .host .. => True

/-- Entries whose keys and values may occur. -/
def Dict.Inside (realm : Realm) (dict : Dict Value) : Prop :=
  ∀ entry ∈ dict.entries.toList, realm.size entry.1.utf8ByteSize ∧ entry.2.Inside realm

/-- What an iterator runs over may be read. -/
def IterSource.Inside (realm : Realm) : IterSource → Prop
  | .array ref => realm.array ref
  | .map ref keys => realm.map ref ∧ ∀ key ∈ keys, realm.size key.utf8ByteSize
  | .bytes _ | .chars _ => True

/-- An iterator whose source may be read, and that stands at what may occur. -/
structure Iterator.Inside (realm : Realm) (iterator : Iterator) : Prop where
  source : iterator.source.Inside realm
  current : ∀ place ∈ iterator.current, place.1.Inside realm ∧ place.2.Inside realm

/-- A method that gives nothing that may not occur. -/
def Method.Inside (realm : Realm) (method : Method) : Prop :=
  match method.name with
  | .result => realm.routine method.target
  | .send | .recv | .close => realm.channel method.target
  | .wait | .abort => True

/-- A function whose variables may be seen. -/
structure Function.Inside (realm : Realm) (function : Function) : Prop where
  free : ∀ cell ∈ function.free, realm.cell cell
  params : realm.count function.params

/-- From what may occur nothing else is reached, and what cannot be changed is as it was. -/
structure Heap.Inside (realm : Realm) (heap : Heap) : Prop where
  items {ref : Nat} : realm.array ref → ∀ value ∈ (heap.array ref).toList, value.Inside realm
  entries {ref : Nat} : realm.map ref → (heap.map ref).Inside realm
  cells {ref : Nat} : realm.cell ref → (heap.cell ref).Inside realm
  functions {ref : Nat} : realm.function ref → (heap.function ref).Inside realm
  iterators {ref : Nat} {iterator : Iterator} :
    realm.iterator ref → heap.iterators[ref]? = some iterator → iterator.Inside realm
  methods {ref : Nat} : realm.method ref → (heap.method ref).Inside realm
  table : realm.table heap.functions
  sealedArray {ref : Nat} : ¬ realm.openArray ref → heap.array ref = realm.items ref
  sealedMap {ref : Nat} : ¬ realm.openMap ref → heap.map ref = realm.entries ref
  freshArray {ref : Nat} : heap.arrays.size ≤ ref → realm.array ref ∧ realm.openArray ref
  freshMap {ref : Nat} : heap.maps.size ≤ ref → realm.map ref ∧ realm.openMap ref
  freshCell {ref : Nat} : heap.cells.size ≤ ref → realm.cell ref
  freshIterator {ref : Nat} : heap.iterators.size ≤ ref → realm.iterator ref
  freshMethod {ref : Nat} : heap.methods.size ≤ ref → realm.method ref
  freshFunction {ref : Nat} : realm.newFunctions → heap.functions.size ≤ ref → realm.function ref

/-- What is waited for may occur. -/
def Waiting.Inside (realm : Realm) : Waiting → Prop
  | .send ref _ _ | .receive ref => realm.channel ref
  | .result ref => realm.routine ref
  | .finish _ _ => True

/-- A failure whose text is as long as strings may be, given the numbers and texts in it. -/
def RuntimeError.Inside (realm : Realm) : RuntimeError → Prop
  | argumentCount want got | tooFewArguments want got => realm.count want ∧ realm.count got
  | sliceOrder low high => realm.count low ∧ realm.count high
  | argumentType name expected _ =>
    (∀ size, realm.size size) ∨ name.utf8ByteSize ≤ 64 ∧ expected.utf8ByteSize ≤ 64
  | constantIndex index | functionConstant index | freeIndex index | builtinIndex index =>
    realm.count index
  | host message => realm.size message.utf8ByteSize
  | _ => True

/-- A failure that is no fault of byte code. -/
def RuntimeError.Ordinary (realm : Realm) (e : RuntimeError) : Prop :=
  e.Inside realm ∧ e.isFault = false

/-- Short strings and small numbers may occur, and with a long one every shorter one. -/
structure Realm.Lawful (realm : Realm) : Prop where
  size {size : Nat} : size ≤ maxTextSize → realm.size size
  smaller {size larger : Nat} : size ≤ larger → realm.size larger → realm.size size
  count {count : Nat} : count < 2 ^ 64 → realm.count count
  fewer {count more : Nat} : count ≤ more → realm.count more → realm.count count
  message {e : RuntimeError} : e.Inside realm → realm.size e.message.utf8ByteSize

end Skiff
