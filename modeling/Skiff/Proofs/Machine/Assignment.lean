import Skiff.Proofs.Heap.Reach
import Skiff.Proofs.Heap.Sequence
import Skiff.Proofs.Machine.Arguments

/-!
# Assignments through selectors

An assignment follows all selectors but the last one from a variable to a container, and writes one
element or entry of it. Nothing else changes, and nothing at all if a selector leads nowhere.
-/

namespace Skiff

open List Array

/-- Where values are stored: elements of arrays and entries of maps. -/
inductive Place where
  | element (ref index : Nat)
  | entry (ref : Nat) (key : String)
  deriving DecidableEq

namespace Dict

variable {α : Type}

theorem get?_insert (dict : Dict α) (key other : String) (value : α) :
    (dict.insert key value).get? other = if other = key then some value else dict.get? other := by
  rw [get?_eq, get?_eq, toList_insert]
  generalize dict.entries.toList = entries
  induction entries with
  | nil => grind [insertEntry]
  | cons entry rest ih => grind [insertEntry]

theorem keys_insert (dict : Dict α) (key : String) (value : α) :
    dict.keys.toList <+: (dict.insert key value).keys.toList := by
  simp only [keys, toList_map, toList_insert]
  generalize dict.entries.toList = entries
  induction entries with
  | nil => exact nil_prefix
  | cons entry rest ih =>
    by_cases here : entry.1 = key
    · simp [insertEntry, here]
    · simpa [insertEntry, here] using ih

end Dict

namespace Heap

/-- What is stored in a place. -/
def at? (heap : Heap) : Place → Option Value
  | .element ref index => (heap.array ref)[index]?
  | .entry ref key => (heap.map ref).get? key

/-- What a selector of a value leads to. -/
def select? (heap : Heap) (value selector : Value) : Option Value :=
  match heap.resolve value, selector with
  | .array ref, .int i | .immutableArray ref, .int i =>
    if 0 ≤ i.toInt then heap.at? (.element ref i.toInt.toNat) else none
  | .map ref, .string key | .immutableMap ref, .string key => heap.at? (.entry ref key)
  | .error inner, .string key => if key = "value" then some inner else none
  | _, _ => none

/-- What several selectors lead to, one after the other. -/
def follow? (heap : Heap) (target : Value) (path : List Value) : Option Value :=
  path.foldlM heap.select? target

/-- The place of a container that a selector names, if it can be written: elements have to be there,
entries do not. -/
def place? (heap : Heap) (container selector : Value) : Option Place :=
  match heap.resolve container, selector with
  | .array ref, .int i =>
    if 0 ≤ i.toInt ∧ i.toInt < (heap.array ref).size then some
      (.element ref i.toInt.toNat) else none
  | .map ref, .string key => some (.entry ref key)
  | _, _ => none

/-- A place holds a value, and nothing else has changed; the keys of maps keep their order. -/
structure Written (heap heap' : Heap) (place : Place) (value : Value) : Prop where
  places (other : Place) : heap'.at? other = if other = place then some value else heap.at? other
  keys (ref : Nat) : (heap.map ref).keys.toList <+: (heap'.map ref).keys.toList
  rest : heap' = { heap with arrays := heap'.arrays, maps := heap'.maps }

/-- Methods have been made that nothing refers to yet. -/
def MoreMethods (heap heap' : Heap) : Prop :=
  ∃ methods, heap' = { heap with methods := heap.methods ++ methods }

variable {heap heap' : Heap} {container selector value target item : Value}
  {place : Place} {ref : Nat}

namespace MoreMethods

theorem refl (heap : Heap) : heap.MoreMethods heap := ⟨#[], by rw [append_empty]⟩

theorem trans {last : Heap} (first : heap.MoreMethods heap') (second : heap'.MoreMethods last) :
    heap.MoreMethods last := by
  obtain ⟨methods, rfl⟩ := first
  obtain ⟨methods', rfl⟩ := second
  exact ⟨methods ++ methods', by rw [Array.append_assoc]⟩

theorem methodValue (name? : Option MethodName) (target : Nat) (heap : Heap) :
    ((heap.methodValue name? target).1.isLeaf = true) ∧
      heap.MoreMethods (heap.methodValue name? target).2 := by
  cases name? with
  | none => exact ⟨rfl, .refl heap⟩
  | some name => exact ⟨rfl, #[⟨name, target⟩], by rw [append_singleton]; rfl⟩

end MoreMethods

/-! ## Following selectors -/

/-- What a selection gives, with what the selectors lead to. If that is nothing, it gives a value
without parts or fails, and nothing changes but for methods. -/
inductive Selects (heap : Heap) : Option Value → EStateM.Result RuntimeError Heap Value → Prop where
  | found (item : Value) : Selects heap (some item) (.ok item heap)
  | leaf {item : Value} {heap' : Heap} (isLeaf : item.isLeaf = true)
      (more : heap.MoreMethods heap') : Selects heap none (.ok item heap')
  | failed {e : RuntimeError} {heap' : Heap} (more : heap.MoreMethods heap') :
    Selects heap none (.error e heap')

theorem Selects.later {result : EStateM.Result RuntimeError Heap Value}
    (selects : heap'.Selects none result)
    (more : heap.MoreMethods heap') : heap.Selects none result := by
  cases selects with
  | leaf isLeaf more' => exact .leaf isLeaf (more.trans more')
  | failed more' => exact .failed (more.trans more')

theorem selects_getD (heap : Heap) (found : Option Value) :
    heap.Selects found (.ok (found.getD .undefined) heap) := by
  cases found with
  | none => exact .leaf rfl (.refl heap)
  | some item => exact .found item

theorem getIndex_item (items : Array Value) (index : Int64) :
    (indexIn? index items.size).elim .undefined (fun place => items.getD place .undefined) =
      (if 0 ≤ index.toInt then items[index.toInt.toNat]? else none).getD .undefined := by
  have same := elim_indexIn? items.toList index
  rw [length_toList] at same
  simp only [List.getD_eq_getElem?_getD, getElem?_toList, elementOf] at same
  simp only [getD_eq_getD_getElem?, same]
  split <;> rfl

theorem getIndex_selects (heap : Heap) (value selector : Value) :
    heap.Selects (heap.select? value selector) (getIndex value selector heap) := by
  unfold select? getIndex
  generalize heap.resolve value = object
  cases object with
  | array ref | immutableArray ref =>
    cases selector with
    | int i =>
      dsimp only [at?]
      rw [getIndex_item]
      exact selects_getD heap _
    | _ => exact .failed (.refl heap)
  | map ref | immutableMap ref =>
    cases selector with
    | string key => exact selects_getD heap _
    | _ => exact .failed (.refl heap)
  | bytes b =>
    cases selector with
    | int i =>
      dsimp only
      cases indexIn? i b.size <;> exact .leaf rfl (.refl heap)
    | _ => exact .failed (.refl heap)
  | string s =>
    cases selector with
    | int i =>
      dsimp only
      split
      · cases s.toList[i.toInt.toNat]? <;> exact .leaf rfl (.refl heap)
      · exact .leaf rfl (.refl heap)
    | _ => exact .failed (.refl heap)
  | routine ref | channel ref =>
    cases selector with
    | string name => exact .leaf (MoreMethods.methodValue ..).1 (MoreMethods.methodValue ..).2
    | _ => exact .failed (.refl heap)
  | error inner =>
    cases selector with
    | string key =>
      dsimp only
      by_cases named : key = "value"
      · subst named
        exact .found inner
      · rw [if_neg named]
        change heap.Selects none (getIndex (.error inner) (.string key) heap)
        rw [getIndex_error inner fun same => named (Value.string.inj same)]
        exact .failed (.refl heap)
    | _ => exact .failed (.refl heap)
  | undefined => exact .leaf rfl (.refl heap)
  | _ => exact .failed (.refl heap)

theorem select?_leaf (isLeaf : value.isLeaf = true) : heap.select? value selector = none := by
  cases value <;> first | rfl | cases isLeaf

/-- Selectors in a row lead to what they lead to in the heap as it is, or away from all
containers. -/
theorem foldlM_getIndex (path : List Value) (target : Value) (heap : Heap) :
    heap.Selects (heap.follow? target path) (path.foldlM getIndex target heap) := by
  induction path generalizing target heap with
  | nil => exact .found target
  | cons selector path ih =>
    have selects := heap.getIndex_selects target selector
    simp only [follow?, foldlM_cons, Bind.bind, EStateM.bind]
    generalize heap.select? target selector = found,
      getIndex target selector heap = result at selects
    cases selects with
    | found item => exact ih item heap
    | failed more => exact .failed more
    | @leaf item heap' isLeaf more =>
      cases path with
      | nil => exact .leaf isLeaf more
      | cons next path =>
        have later := ih item heap'
        simp only [follow?, foldlM_cons, select?_leaf isLeaf] at later
        exact later.later more

/-! ## Writing -/

theorem getD_modify_self {α : Type} {items : Array α} {place : Nat} {default : α}
    (inside : place < items.size) (change : α → α) :
      (items.modify place change).getD place default = change (items.getD place default) := by
  rw [Array.getD_eq_getD_getElem?, Array.getD_eq_getD_getElem?, Array.getElem?_modify, if_pos rfl,
    Array.getElem?_eq_getElem inside]
  rfl

theorem getD_modify_of_ne {α : Type} {items : Array α} {place other : Nat} {default : α}
    (different : other ≠ place)
    (change : α → α) : (items.modify place change).getD other default = items.getD other default :=
  getD_modify_of (motive := (· = _)) rfl fun same => absurd same different

theorem written_element {index : Nat} (inside : index < (heap.array ref).size) (value : Value) :
    heap.Written (heap.modifyArray ref fun items => items.setIfInBounds index value)
      (.element ref index) value where
  places other := by
    have made : ref < heap.arrays.size := by
      by_contra none
      rw [array, Array.getD_eq_getD_getElem?, Array.getElem?_eq_none
        (Nat.le_of_not_lt none)] at inside
      exact Nat.not_lt_zero _ inside
    cases other with
    | entry ref' key => rfl
    | element ref' index' =>
      simp only [at?, array, modifyArray, Place.element.injEq] at inside ⊢
      by_cases same : ref' = ref
      · subst same
        rw [getD_modify_self made, getElem?_setIfInBounds]
        by_cases here : index = index'
        · subst here
          rw [if_pos rfl, if_pos inside, if_pos ⟨rfl, rfl⟩]
        · rw [if_neg here, if_neg fun both => here both.2.symm]
      · rw [getD_modify_of_ne same, if_neg fun both => same both.1]
  keys ref' := prefix_refl _
  rest := rfl

theorem written_entry (made : ref < heap.maps.size) (key : String) (value : Value) :
    heap.Written (heap.modifyMap ref fun entries => entries.insert key value)
      (.entry ref key) value where
  places other := by
    cases other with
    | element ref' index => rfl
    | entry ref' key' =>
      simp only [at?, map, modifyMap, Place.entry.injEq]
      by_cases same : ref' = ref
      · subst same
        rw [getD_modify_self made, Dict.get?_insert]
        simp
      · rw [getD_modify_of_ne same, if_neg fun both => same both.1]
  keys ref' := by
    simp only [map, modifyMap]
    by_cases same : ref' = ref
    · subst same
      rw [getD_modify_self made]
      exact Dict.keys_insert ..
    · rw [getD_modify_of_ne same]
  rest := rfl

theorem Written.resolve (written : heap.Written heap' place value) (other : Value) :
    heap'.resolve other = heap.resolve other := by
  have follow (fuel : Nat) (other : Value) :
      heap'.derefAll fuel other = heap.derefAll fuel other := by
    rw [written.rest]
    induction fuel generalizing other with
    | zero => rfl
    | succ fuel ih =>
      cases other with
      | cell ref => exact ih _
      | _ => rfl
  cases other with
  | cell ref =>
    rw [Heap.resolve, Heap.resolve, follow, written.rest]
    rfl
  | _ => rfl

theorem select?_of_place (named : heap.place? container selector = some place)
    (same : heap'.resolve container = heap.resolve container) :
      heap'.select? container selector = heap'.at? place := by
  unfold select?
  rw [same]
  unfold place? at named
  generalize heap.resolve container = object at named
  cases object with
  | array ref =>
    cases selector with
    | int i =>
      dsimp only at named ⊢
      split at named <;> cases named
      rename_i inside
      rw [if_pos inside.1]
    | _ => cases named
  | map ref =>
    cases selector with
    | string key =>
      cases named
      rfl
    | _ => cases named
  | _ => cases named

/-- What has been written is found again. -/
theorem Written.getIndex (written : heap.Written heap' place value)
    (named : heap.place? container selector = some place) :
    Heap.getIndex container selector heap' = .ok value heap' := by
  have selects := heap'.getIndex_selects container selector
  rw [select?_of_place named (written.resolve container), written.places, if_pos rfl] at selects
  generalize Heap.getIndex container selector heap' = result at selects
  cases selects
  rfl

/-- What is made of a write, with the place that it is made to. -/
inductive Stores (heap : Heap) (container value : Value) :
    Option Place → EStateM.Result RuntimeError Heap Unit → Prop where
  | stored {place : Place} {heap' : Heap}
      (written : (∀ ref, heap.resolve container = .map ref → ref < heap.maps.size) →
        heap.Written heap' place value) : Stores heap container value (some place) (.ok () heap')
  | refused (e : RuntimeError) : Stores heap container value none (.error e heap)

theorem setIndex_stores (heap : Heap) (container selector value : Value) :
    heap.Stores container value (heap.place? container selector)
      (setIndex container selector value heap) := by
  unfold place? setIndex
  cases object : heap.resolve container with
  | array ref =>
    cases selector with
    | int i =>
      have same : indexIn? i (heap.array ref).size =
          if 0 ≤ i.toInt ∧ i.toInt < (heap.array ref).size then some i.toInt.toNat else none := by
        simp only [indexIn?, Int64.le_iff_toInt_le]
        rfl
      dsimp only
      rw [same]
      split
      next inside =>
        have below : i.toInt.toNat < (heap.array ref).size := by omega
        exact .stored fun _ => written_element below value
      next => exact .refused _
    | _ => exact .refused _
  | map ref =>
    cases selector with
    | string key => exact .stored fun made => written_entry (made ref object) key value
    | _ => exact .refused _
  | _ => exact .refused _

/-- Follows all selectors but the last one, and writes what that one names. -/
def assign (target : Value) (path : List Value) (last value : Value) : HeapM Unit := do
  let container ← path.foldlM getIndex target
  setIndex container last value

theorem place?_leaf (isLeaf : value.isLeaf = true) : heap.place? value selector = none := by
  cases value <;> first | rfl | cases isLeaf

/-- How an assignment ends. -/
theorem assign_cases (target last value : Value) (path : List Value)
    (made : ∀ ref, (heap.follow? target path).map heap.resolve = some (.map ref) →
    ref < heap.maps.size) : (∃ container place heap', heap.follow? target path = some container ∧
        heap.place? container last = some place ∧
        assign target path last value heap = .ok () heap' ∧ heap.Written heap' place value) ∨
      ((heap.follow? target path).bind (heap.place? · last) = none ∧
        ∃ e heap', assign target path last value heap = .error e heap' ∧
          heap.MoreMethods heap') := by
  have selects := foldlM_getIndex path target heap
  simp only [assign, Bind.bind, EStateM.bind]
  generalize heap.follow? target path = found,
    path.foldlM getIndex target heap = result at made selects
  cases selects with
  | found container =>
    have stores := heap.setIndex_stores container last value
    simp only [Option.bind_some]
    generalize named :
      heap.place? container last = place, setIndex container last value heap = result at stores
    cases stores with
    | stored written =>
      exact .inl ⟨container, _, _, rfl, named, rfl, written fun ref same =>
        made ref (by rw [← same]; rfl)⟩
    | refused e => exact .inr ⟨rfl, e, heap, rfl, .refl heap⟩
  | failed more => exact .inr ⟨rfl, _, _, rfl, more⟩
  | @leaf item heap' isLeaf more =>
    have stores := heap'.setIndex_stores item last value
    rw [place?_leaf isLeaf] at stores
    dsimp only
    generalize setIndex item last value heap' = result at stores
    cases stores with
    | refused e => exact .inr ⟨rfl, e, heap', rfl, more⟩

end Heap

/-! ## Assignments of a machine -/

/-- The value of the variable that an instruction assigns through. -/
def Machine.target? (machine : Machine) : Opcode → Nat → Option Value
  | .setGlobalAt, index => some (machine.thread.globals.getD index .undefined)
  | .setLocalAt, index =>
    if machine.thread.base + index < machine.thread.stack.size then
      some (machine.heap.deref (machine.thread.stack.getD (machine.thread.base + index) .undefined))
    else none
  | .setFreeAt, index =>
    (machine.heap.function machine.thread.function).free[index]?.map machine.heap.cell
  | _, _ => none

namespace Exec

variable {machine : Machine} {op : Opcode} {index : Nat} {target value last : Value}
  {below path : List Value}

theorem onHeap_bind {α β : Type} (action : HeapM α) (next : α → HeapM β) :
    onHeap (action >>= next) = onHeap action >>= fun result => onHeap (next result) := by
  funext machine
  simp only [onHeap, Bind.bind, EStateM.bind]
  cases action machine.heap <;> rfl

theorem foldlM_onHeap (path : List Value) (target : Value) :
    path.foldlM (fun container selector => onHeap (Heap.getIndex container selector)) target =
      onHeap (path.foldlM Heap.getIndex target) := by
  induction path generalizing target with
  | nil => rfl
  | cons selector path ih => simp only [foldlM_cons, ih, onHeap_bind]

theorem becomes_assignAt (target : Value) :
    Becomes machine (below ++ value :: (path ++ [last])) (assignAt target (path.length + 1))
      (onHeap (Heap.assign target path last value)) below := by
  have length : (path ++ [last]).length = path.length + 1 := length_append ..
  have stack : below ++ value :: (path ++ [last]) = (below ++ [value]) ++ (path ++ [last]) := by
    simp
  rw [stack, assignAt, ← length]
  refine (becomes_popMany (path ++ [last])).bind ?_
  rw [pure_bind]
  refine becomes_pop.bind ?_
  rw [pure_bind, getLast?_concat]
  dsimp only
  rw [dropLast_concat, foldlM_onHeap, ← onHeap_bind]
  exact .refl _

theorem execute_target (starts : machine.target? op index = some target) (depth count : Nat) :
    execute depth ⟨op, index, count⟩ machine
      = (do assignAt target count; return .next : Exec Signal) machine := by
  cases op with
  | setGlobalAt =>
    cases starts
    rfl
  | setLocalAt =>
    obtain ⟨inside, same⟩ := Option.ite_none_right_eq_some.1 starts
    have slot : localSlot index machine = .ok (machine.thread.base + index) machine :=
      congrFun (if_pos inside) machine
    rw [← Option.some.inj same]
    exact bind_ok slot
  | setFreeAt =>
    obtain ⟨cell, found, rfl⟩ := Option.map_eq_some_iff.1 starts
    have free : freeCell index machine = .ok cell machine := by
      simp only [freeCell, get_bind, found]
      rfl
    exact bind_ok free
  | _ => cases starts

/-- An assignment through selectors writes the place that the last one names in the container that
the others lead to, and nothing else, or it fails and changes nothing. -/
theorem assignment_exact (starts : machine.target? op index = some target)
    (holds : machine.thread.Holds (below ++ value :: (path ++ [last])))
    (made : ∀ ref, (machine.heap.follow? target path).map machine.heap.resolve = some (.map ref) →
      ref < machine.heap.maps.size) (depth : Nat) :
    ∃ thread, machine.thread.Beside thread ∧ thread.Holds below ∧
      ((∃ container place heap', machine.heap.follow? target path = some container ∧
          machine.heap.place? container last = some place ∧
          execute depth ⟨op, index, path.length + 1⟩ machine = .ok .next
            ⟨thread, heap', machine.world⟩ ∧
          machine.heap.Written heap' place value ∧
          Heap.getIndex container last heap' = .ok value heap') ∨
        ((machine.heap.follow? target path).bind (machine.heap.place? · last) = none ∧
          ∃ e methods, execute depth ⟨op, index, path.length + 1⟩ machine =
            .error e ⟨thread, { machine.heap with methods := machine.heap.methods ++ methods },
              machine.world⟩)) := by
  obtain ⟨thread, beside, held, run⟩ :=
    becomes_assignAt target machine.thread ⟨rfl, rfl⟩ holds
  refine ⟨thread, beside, held, ?_⟩
  rw [execute_target starts]
  simp only [Bind.bind, EStateM.bind, run, onHeap]
  rcases Heap.assign_cases target last value path made with
    ⟨container, place, heap', found, named, assigned, written⟩ | ⟨none, e, heap', failed,
      methods, rfl⟩
  · exact .inl ⟨container, place, heap', found, named, by rw [assigned]; rfl, written,
      written.getIndex named⟩
  · exact .inr ⟨none, e, methods, by rw [failed]⟩

/-- The container that is written may be one that the selectors have led through. -/
theorem assignment_exact_cycle :
    let heap : Heap := { arrays := #[#[.map 0]], maps := #[Dict.empty.insert "self" (.array 0)] }
    let thread : Thread := { (default : Thread) with
      stack := #[.int 7, .int 0, .string "self", .int 0], sp := 4, globals := #[.array 0] }
    ∃ thread' heap', execute 0 ⟨.setGlobalAt, 0, 3⟩ ⟨thread, heap, default⟩ = .ok .next
      ⟨thread', heap', default⟩ ∧ heap.Written heap' (.element 0 0) (.int 7) := by
  intro heap thread
  have found : heap.follow? (.array 0) [.int 0, .string "self"] = some (.array 0) := by
    decide +kernel
  have starts : Machine.target? ⟨thread, heap, default⟩ .setGlobalAt 0 = some (.array 0) := rfl
  have holds : thread.Holds ([] ++ .int 7 :: ([.int 0, .string "self"] ++ [.int 0])) :=
    ⟨rfl, prefix_refl _⟩
  have made (ref : Nat)
      (same : (heap.follow? (.array 0) [.int 0, .string "self"]).map heap.resolve =
      some (.map ref)) : ref < heap.maps.size := by
    rw [found] at same
    cases same
  obtain ⟨thread', -, -, ⟨container, place, heap', found', named, run, written, -⟩ | ⟨none, -⟩⟩ :=
    assignment_exact starts holds made 0
  · cases found.symm.trans found'
    cases named
    exact ⟨thread', heap', run, written⟩
  · rw [show Heap.follow? _ _ _ = _ from found] at none
    cases none

end Exec

end Skiff
