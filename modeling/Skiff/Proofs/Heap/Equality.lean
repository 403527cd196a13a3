import Skiff.Proofs.Heap.Dict
import Skiff.Proofs.Heap.Reach
import Skiff.Proofs.Machine.Arguments

/-!
# Equality of values

Two values are equal if they are the same number, scalar or object, or containers of one kind that
share their storage or hold equal values in the same places or under the same keys. Containers are
opened only down to a depth. At each depth equality is symmetric and transitive, whatever lies on
the heap.
-/

namespace Skiff

open List Option

namespace Double

variable {x y z : Double}

theorem sameNumber_self (number : x.isNaN = false) : x.sameNumber x = true := by
  simp [sameNumber, number]

theorem sameNumber_iff : x.sameNumber y = true ↔ x.isNaN = false ∧ y.isNaN = false ∧
    (x = y ∨ x.bits &&& magnitudeMask = 0 ∧ y.bits &&& magnitudeMask = 0) := by
  have zeros : (x.bits ||| y.bits) &&& magnitudeMask = 0 ↔
      x.bits &&& magnitudeMask = 0 ∧ y.bits &&& magnitudeMask = 0 := by
    simp only [← UInt64.toBitVec_inj, UInt64.toBitVec_and, UInt64.toBitVec_or, UInt64.toBitVec_zero,
      BitVec.and_or_distrib_right, BitVec.or_eq_zero_iff]
  simp [sameNumber, zeros, and_assoc]

theorem sameNumber_symm (same : x.sameNumber y = true) : y.sameNumber x = true := by
  rw [sameNumber_iff] at same ⊢
  exact ⟨same.2.1, same.1, same.2.2.imp Eq.symm And.symm⟩

theorem sameNumber_trans (first : x.sameNumber y = true) (second : y.sameNumber z = true) :
    x.sameNumber z = true := by
  rw [sameNumber_iff] at first second ⊢
  obtain ⟨number, _, rfl | zeros⟩ := first
  · exact second
  · obtain ⟨_, number', rfl | zeros'⟩ := second
    · exact ⟨number, number', .inr zeros⟩
    · exact ⟨number, number', .inr ⟨zeros.1, zeros'.2⟩⟩

end Double

namespace Dict

variable {α : Type} {dict other : Dict α} {key : String}

/-- A key that is there once has the value it stands with. -/
theorem get?_of_mem {item : α} (member : (key, item) ∈ dict.entries.toList) :
    dict.get? key = some item := by
  have unique : (dict.entries.toList.find? fun entry => entry.1 == key) = some (key, item) := by
    obtain ⟨before, after, split⟩ := append_of_mem member
    have distinct := dict.distinct
    rw [split, map_append, nodup_append] at distinct
    rw [split, find?_append, find?_eq_none.2, none_or, find?_cons_of_pos]
    · exact beq_self_eq_true key
    · intro entry earlier same
      exact distinct.2.2 _ (mem_map_of_mem earlier) _ (mem_cons_self ..) (beq_iff_eq.1 same)
  rw [get?_eq, unique, map_some]

theorem get?_eq_some_iff {value : α} :
    dict.get? key = some value ↔ (key, value) ∈ dict.entries.toList := by
  refine ⟨fun found => ?_, get?_of_mem⟩
  rw [get?_eq] at found
  obtain ⟨entry, here, rfl⟩ := map_eq_some_iff.1 found
  have same : entry.1 = key := by simpa using find?_some here
  exact same ▸ mem_of_find?_eq_some here

theorem isSome_get?_iff :
    (dict.get? key).isSome = true ↔ key ∈ dict.entries.toList.map Prod.fst := by
  simp [isSome_iff_exists, get?_eq_some_iff]

/-- Of two dictionaries of one size, both have the keys of one if the other has them. -/
theorem isSome_get?_eq (size : dict.size = other.size)
    (has : ∀ key, (dict.get? key).isSome = true → (other.get? key).isSome = true) (key : String) :
    (dict.get? key).isSome = (other.get? key).isSome := by
  have keys : dict.entries.toList.map Prod.fst ⊆ other.entries.toList.map Prod.fst :=
    fun key member => isSome_get?_iff.1 (has key (isSome_get?_iff.2 member))
  have length :
      (other.entries.toList.map Prod.fst).length ≤ (dict.entries.toList.map Prod.fst).length := by
    simpa [Dict.size] using size.ge
  have perm := (List.subperm_of_subset dict.distinct keys).perm_of_length_le length
  rw [Bool.eq_iff_iff, isSome_get?_iff, isSome_get?_iff, perm.mem_iff]

theorem size_eq (same : ∀ key, (dict.get? key).isSome = (other.get? key).isSome) :
    dict.size = other.size := by
  have perm := (perm_ext_iff_of_nodup dict.distinct other.distinct).2 fun key => by
    rw [← isSome_get?_iff, same, isSome_get?_iff]
  simpa [Dict.size] using perm.length_eq

end Dict

def Container.isMap : Container → Bool
  | .array _ => false
  | .map _ => true

/-- Whether a value is equal to nothing but itself. -/
def Value.isAlone : Value → Bool
  | .float _ | .host .. | .error _ | .array _ | .immutableArray _ | .map _ | .immutableMap _ =>
    false
  | _ => true

namespace Heap

/-- What a container holds in a place or under a key. -/
def lookUp (heap : Heap) : Container → Nat ⊕ String → Option Value
  | .array ref, .inl place => (heap.array ref)[place]?
  | .map ref, .inr key => (heap.map ref).get? key
  | _, _ => none

/-- Equality of values, of which containers are opened down to a depth. -/
inductive Same (heap : Heap) : Nat → Value → Value → Prop where
  | alone {depth : Nat} {value : Value} (isAlone : value.isAlone = true) :
    Same heap depth value value
  | float {depth : Nat} {x y : Double} (same : x.sameNumber y = true) :
    Same heap depth (.float x) (.float y)
  | host {depth index : Nat} {name name' : String} :
    Same heap depth (.host index name) (.host index name')
  | error {depth : Nat} {left right : Value} (inside : Same heap depth left right) :
      Same heap depth (.error left) (.error right)
  | shared {depth : Nat} {left right : Value} {container : Container}
      (here : left.container? = some container)
      (there : right.container? = some container) : Same heap depth left right
  | contents {depth : Nat} {left right : Value} {container other : Container}
      (here : left.container? = some container) (there : right.container? = some other)
      (kind : container.isMap = other.isMap)
      (places : ∀ place, (heap.lookUp container place).isSome = (heap.lookUp other place).isSome)
      (items : ∀ place x y, heap.lookUp container place = some x →
        heap.lookUp other place = some y → Same heap depth x y) : Same heap (depth + 1) left right

variable {heap : Heap} {left mid right value : Value} {fuel a b : Nat} {container other : Container}

theorem Same.symm (same : heap.Same fuel left right) : heap.Same fuel right left := by
  induction same with
  | alone isAlone => exact .alone isAlone
  | float same => exact .float (Double.sameNumber_symm same)
  | host => exact .host
  | error _ ih => exact .error ih
  | shared here there => exact .shared there here
  | contents here there kind places _ ih =>
    exact .contents there here kind.symm (fun place => (places place).symm)
      fun place x y left right =>
      ih place y x right left

theorem Same.trans (first : heap.Same fuel left mid) (second : heap.Same fuel mid right) :
    heap.Same fuel left right := by
  induction first generalizing right with
  | alone isAlone => exact second
  | float same =>
    cases second with
    | alone isAlone => cases isAlone
    | float same' => exact .float (Double.sameNumber_trans same same')
    | shared here | contents here => cases here
  | host =>
    cases second with
    | alone isAlone => cases isAlone
    | host => exact .host
    | shared here | contents here => cases here
  | error _ ih =>
    cases second with
    | alone isAlone => cases isAlone
    | error inside => exact .error (ih inside)
    | shared here | contents here => cases here
  | shared here there =>
    cases second with
    | alone isAlone => exact .shared here there
    | float _ | host | error _ => cases there
    | shared here' there' => exact .shared here (there'.trans (here'.symm.trans there))
    | contents here' there' kind places items =>
      exact .contents (here.trans (there.symm.trans here')) there' kind places items
  | @contents _ _ _ container middle here there kind places items ih =>
    cases second with
    | alone isAlone => exact .contents here there kind places items
    | float _ | host | error _ => cases there
    | shared here' there' =>
      exact .contents here (there'.trans (here'.symm.trans there)) kind places items
    | contents here' there' kind' places' items' =>
      cases there.symm.trans here'
      refine .contents here there' (kind.trans kind')
        (fun place => (places place).trans (places' place)) ?_
      intro place x z left right
      obtain ⟨y, found⟩ : ∃ y, heap.lookUp middle place = some y := by
        rw [← isSome_iff_exists, ← places place, left]
        rfl
      exact ih place x y left found (items' place y z found right)

/-! ## The comparison -/

theorem equalFrom_value (here : left.container? = some container)
    (there : right.container? = some other) :
    heap.equalFrom fuel left right = heap.equalFrom fuel container.value other.value := by
  cases left with
  | array ref | immutableArray ref | map ref | immutableMap ref =>
    cases here
    cases right with
    | array ref | immutableArray ref | map ref | immutableMap ref =>
      cases there
      rw [equalFrom.eq_def]
      symm
      rw [equalFrom.eq_def]
      rfl
    | _ => cases there
  | _ => cases here

theorem all_zip_iff {α : Type} {xs ys : List α} {equal : α → α → Bool} :
    ((xs.zip ys).all fun pair => equal pair.1 pair.2) = true ↔
      ∀ (place : Nat) x y, xs[place]? = some x → ys[place]? = some y → equal x y = true := by
  rw [List.all_eq_true]
  constructor
  · intro all place x y left right
    exact all (x, y) (mem_of_getElem? (getElem?_zip_eq_some.2 ⟨left, right⟩))
  · intro all pair member
    obtain ⟨place, found⟩ := mem_iff_getElem?.1 member
    obtain ⟨left, right⟩ := getElem?_zip_eq_some.1 found
    exact all place pair.1 pair.2 left right

theorem size_eq_iff {α : Type} {xs ys : Array α} :
    xs.size = ys.size ↔ ∀ place : Nat, xs[place]?.isSome = ys[place]?.isSome := by
  have inside (xs : Array α) (place : Nat) : xs[place]?.isSome = decide (place < xs.size) := by
    rw [Bool.eq_iff_iff, decide_eq_true_iff, isSome_getElem?]
  simp only [inside, decide_eq_decide]
  exact ⟨fun same place => by rw [same], eq_of_forall_lt_iff⟩

theorem equalFrom_arrays (apart : a ≠ b) : heap.equalFrom (fuel + 1) (.array a) (.array b) = true ↔
    (∀ place : Nat, (heap.array a)[place]?.isSome = (heap.array b)[place]?.isSome) ∧
    ∀ (place : Nat) x y, (heap.array a)[place]? = some x → (heap.array b)[place]? = some y →
      heap.equalFrom fuel x y = true := by
  simp only [equalFrom, beq_eq_false_iff_ne.2 apart, Bool.false_or, Bool.and_eq_true, beq_iff_eq]
  rw [size_eq_iff]
  refine and_congr_right fun _ => ?_
  simp only [← Array.getElem?_toList]
  exact all_zip_iff

theorem equalFrom_maps (apart : a ≠ b) : heap.equalFrom (fuel + 1) (.map a) (.map b) = true ↔
    (∀ key, ((heap.map a).get? key).isSome = ((heap.map b).get? key).isSome) ∧
    ∀ key x y, (heap.map a).get? key = some x → (heap.map b).get? key = some y →
      heap.equalFrom fuel x y = true := by
  simp only [equalFrom, beq_eq_false_iff_ne.2 apart, Bool.false_or, Bool.and_eq_true, beq_iff_eq,
    List.all_eq_true, Prod.forall, ← Dict.get?_eq_some_iff]
  constructor
  · rintro ⟨size, all⟩
    have here {key : String} {x : Value} (found : (heap.map a).get? key = some x) :
        ∃ y, (heap.map b).get? key = some y ∧ heap.equalFrom fuel x y = true := by
      have equal := all key x found
      split at equal
      · exact ⟨_, ‹_›, equal⟩
      · cases equal
    refine ⟨Dict.isSome_get?_eq size fun key found => ?_, fun key x y left right => ?_⟩
    · obtain ⟨x, found⟩ := Option.isSome_iff_exists.1 found
      obtain ⟨y, found', -⟩ := here found
      rw [found']
      rfl
    · obtain ⟨y', found, equal⟩ := here left
      cases found.symm.trans right
      exact equal
  · rintro ⟨keys, all⟩
    refine ⟨Dict.size_eq keys, fun key x left => ?_⟩
    obtain ⟨y, right⟩ := Option.isSome_iff_exists.1 ((keys key).symm.trans (left ▸ rfl))
    rw [right]
    exact all key x y left right

/-- Containers that share no storage are compared by what they hold, one level less deep. -/
theorem equalFrom_succ_iff (here : left.container? = some container)
    (there : right.container? = some other)
    (apart : container ≠ other) : heap.equalFrom (fuel + 1) left right = true ↔
      container.isMap = other.isMap ∧
      (∀ place, (heap.lookUp container place).isSome = (heap.lookUp other place).isSome) ∧
      ∀ place x y, heap.lookUp container place = some x → heap.lookUp other place = some y →
        heap.equalFrom fuel x y = true := by
  rw [equalFrom_value here there]
  cases container with
  | array a =>
    cases other with
    | array b =>
      simpa [lookUp, Container.value, Container.isMap] using equalFrom_arrays
        (mt (congrArg _) apart)
    | map b => simp [Container.value, equalFrom, Container.isMap]
  | map a =>
    cases other with
    | array b => simp [Container.value, equalFrom, Container.isMap]
    | map b =>
      simpa [lookUp, Container.value, Container.isMap] using equalFrom_maps (mt (congrArg _) apart)

theorem equalFrom_zero (here : left.container? = some container)
    (there : right.container? = some other)
    (apart : container ≠ other) : heap.equalFrom 0 left right = false := by
  rw [equalFrom_value here there]
  cases container <;> cases other <;> simp_all [Container.value, equalFrom]

theorem equalFrom_shared (here : left.container? = some container)
    (there : right.container? = some container) : heap.equalFrom fuel left right = true := by
  rw [equalFrom_value here there]
  cases container with
  | array ref | map ref =>
    rw [equalFrom.eq_def]
    exact Bool.or_eq_true_iff.2 (.inl (beq_self_eq_true ref))

theorem equalFrom_cases (equal : heap.equalFrom fuel left right = true) :
    heap.Same fuel left right ∨ (∃ inner other, left = .error inner ∧ right = .error other ∧
      heap.equalFrom fuel inner other = true) ∨
    ∃ here there, left.container? = some here ∧ right.container? = some there := by
  rw [equalFrom.eq_def] at equal
  split at equal
  case h_4 => exact .inl (.float equal)
  case h_7 =>
    obtain rfl := ByteArray.ext (eq_of_beq equal)
    exact .inl (.alone rfl)
  case h_8 inner other => exact .inr (.inl ⟨inner, other, rfl, rfl, equal⟩)
  case h_12 =>
    obtain rfl := beq_iff_eq.1 equal
    exact .inl .host
  case h_18 | h_19 | h_20 | h_21 | h_22 | h_23 | h_24 | h_25 => exact .inr (.inr ⟨_, _, rfl, rfl⟩)
  case h_26 => cases equal
  case h_1 => exact .inl (.alone rfl)
  all_goals
    obtain rfl := eq_of_beq equal
    exact .inl (.alone rfl)

/-- By induction on the depth, and in it on the nesting of errors. -/
theorem Same.of_equalFrom (equal : heap.equalFrom fuel left right = true) :
    heap.Same fuel left right := by
  induction fuel generalizing left right with
  | zero | succ fuel ih =>
    induction left generalizing right with
    | error inner inside =>
      rcases equalFrom_cases equal with same | ⟨_, other, same, rfl, equal⟩ | ⟨_, _, here, _⟩
      · exact same
      · cases same
        exact .error (inside equal)
      · cases here
    | _ =>
      rcases equalFrom_cases equal with same | ⟨_, _, same, _⟩ | ⟨container, other, here, there⟩
      · exact same
      · cases same
      · by_cases apart : container = other
        · exact .shared here (apart ▸ there)
        · first
          | exact absurd ((equalFrom_zero here there apart).symm.trans equal) Bool.false_ne_true
          | obtain ⟨kind, places, items⟩ := (equalFrom_succ_iff here there apart).1 equal
            exact .contents here there kind places fun place x y left right =>
              ih (items place x y left right)

theorem equalFrom_alone (isAlone : value.isAlone = true) :
    heap.equalFrom fuel value value = true := by
  cases value with
  | float _ | host _ _ | error _ | array _ | immutableArray _ | map _ | immutableMap _ =>
    cases isAlone
  | undefined => rw [equalFrom]
  | bytes bytes =>
    rw [equalFrom]
    exact beq_self_eq_true bytes.data
  | _ =>
    rw [equalFrom]
    exact beq_self_eq_true _

/-- A value is equal to itself, unless it is a number that is not. -/
theorem equalFrom_self (numbers : ∀ x, heap.Reaches value (.float x) → x.isNaN = false) :
    heap.equalFrom fuel value value = true := by
  induction value with
  | float x =>
    rw [equalFrom]
    exact Double.sameNumber_self (numbers x .refl)
  | error inner ih =>
    rw [equalFrom]
    exact ih fun x reach => numbers x (.head (mem_singleton_self _) reach)
  | array ref | immutableArray ref | map ref | immutableMap ref => exact equalFrom_shared rfl rfl
  | host index name =>
    rw [equalFrom]
    exact beq_self_eq_true _
  | _ => exact equalFrom_alone rfl

theorem equalFrom_iff : heap.equalFrom fuel left right = true ↔ heap.Same fuel left right := by
  refine ⟨.of_equalFrom, fun same => ?_⟩
  induction same with
  | alone isAlone => exact equalFrom_alone isAlone
  | float same =>
    rw [equalFrom]
    exact same
  | host =>
    rw [equalFrom]
    exact beq_self_eq_true _
  | error _ ih =>
    rw [equalFrom]
    exact ih
  | shared here there => exact equalFrom_shared here there
  | @contents _ _ _ container other here there kind places _ ih =>
    by_cases apart : container = other
    · exact equalFrom_shared here (apart ▸ there)
    · exact (equalFrom_succ_iff here there apart).2 ⟨kind, places, ih⟩

end Heap

theorem Exec.becomes_compare {origin : Machine} {before : List Value} {left right : Value}
    (test : Heap → Value → Value → Bool) :
    Becomes origin (before ++ [left, right])
      (do
        let right ← pop
        let left ← pop
        push (.bool (test (← get).heap left right))
        return Signal.next)
      (pure .next) (before ++ [.bool (test origin.heap left right)]) := by
  intro thread beside holds
  have room : before.length < origin.thread.stack.size := by
    have length : (before ++ [left, right]).length ≤ origin.thread.stack.size :=
      beside.2 ▸ holds.stack.length_le
    rw [length_append, length_cons] at length
    omega
  rw [← singleton_append, ← append_assoc] at holds
  refine becomes_pop.bind (becomes_pop.bind ?_) thread beside holds
  exact fun thread beside holds =>
    (becomes_push room _).bind (.refl (pure () >>= fun _ => pure Signal.next)) thread beside holds

/-- Equality is a matter of numbers, identities and contents; it is symmetric and transitive, and
reflexive where nothing is reached that is not a number. The machine answers with it, and for
inequality with its negation. -/
theorem equality_laws (heap : Heap) (left mid right : Value) :
    (heap.equal left right = true ↔ heap.Same heap.depth left right) ∧
    heap.equal left right = heap.equal right left ∧
    (heap.equal left mid = true → heap.equal mid right = true → heap.equal left right = true) ∧
    ((∀ x, heap.Reaches left (.float x) → x.isNaN = false) → heap.equal left left = true) ∧
    ∀ (origin : Machine) (before : List Value) (depth : Nat) (instr : Fetched), origin.heap = heap →
      Exec.Becomes origin (before ++ [left, right]) (Exec.execute depth { instr with op := .equal })
        (pure .next) (before ++ [.bool (heap.equal left right)]) ∧
      Exec.Becomes origin (before ++ [left, right])
        (Exec.execute depth { instr with op := .notEqual })
        (pure .next) (before ++ [.bool (!heap.equal left right)]) := by
  refine ⟨Heap.equalFrom_iff, ?_, fun first second => ?_, Heap.equalFrom_self, ?_⟩
  · rw [Bool.eq_iff_iff, Heap.equal, Heap.equal, Heap.equalFrom_iff, Heap.equalFrom_iff]
    exact ⟨.symm, .symm⟩
  · exact Heap.equalFrom_iff.2 ((Heap.equalFrom_iff.1 first).trans (Heap.equalFrom_iff.1 second))
  · rintro origin before depth instr rfl
    exact ⟨Exec.becomes_compare Heap.equal, Exec.becomes_compare fun heap left right =>
      !heap.equal left right⟩

end Skiff
