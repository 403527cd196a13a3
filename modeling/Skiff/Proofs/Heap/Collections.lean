import Skiff.Proofs.Heap.Operations

/-!
# Collections and texts

Iteration, the builtin operations on arrays and maps, conversions and formatted texts do the same
on corresponding heaps, and give what may occur for what may occur.
-/

namespace Skiff

open List Heap

variable {bond : Bond} {core : Heap → Heap → Prop} {realm : Realm} {heap heap' : Heap}
  {value value' : Value}

/-! ## Iteration -/

variable {link : Link} {source : IterSource} {dict : Dict Value}

theorem HeapRel.iterSource?_eq (same : HeapRel link core heap heap')
    (values : ValueRel link value value') : heap.iterSource? value = heap'.iterSource? value' := by
  have resolved := same.resolve values
  unfold Heap.iterSource?
  generalize heap.resolve value = object, heap'.resolve value' = object' at resolved
  cases resolved using ValueRel.kinds with
  | map ref | immutableMap ref => simp only [(same.map ref).keys_eq]
  | _ => rfl

theorem Heap.Inside.iterSource? (inside : heap.Inside realm) (known : value.Inside realm)
    (found : heap.iterSource? value = some source) : source.Inside realm := by
  have resolved := inside.resolve known
  unfold Heap.iterSource? at found
  generalize heap.resolve value = object at resolved found
  cases object with
  | array ref | immutableArray ref =>
    cases found
    first | exact resolved | exact resolved.1
  | map ref | immutableMap ref =>
    have seen : realm.map ref := by first | exact resolved | exact resolved.1
    cases found
    exact ⟨seen, (inside.entries seen).keys⟩
  | bytes _ | string _ =>
    cases found
    trivial
  | _ => cases found

namespace Bond

theorem iterate (faithful : bond.link.Faithful) (values : bond.Values value value') :
    Sim (bond.heapFrames core) bond.Values (Heap.iterate value) (Heap.iterate value') := by
  intro heap heap' heaps
  unfold Heap.iterate
  rw [← heaps.same.iterSource?_eq values.same, (heaps.resolve values).same.type_eq]
  cases found : heap.iterSource? value with
  | none => exact .error ⟨rfl, trivial, rfl⟩ heaps
  | some source =>
    have started : Iterator.Inside bond.realm { source } :=
      ⟨heaps.inside.iterSource? values.inside found, fun _ none =>
        absurd none.symm (Option.some_ne_none _)⟩
    obtain ⟨iterators, heaps⟩ := heaps.newIterator faithful ⟨rfl, rfl, .none⟩ started
    exact .ok iterators heaps

end Bond

theorem nextKey_rel {dict' : Dict Value} (dicts : DictRel link dict dict') (keys : Array String)
    (pos : Nat) : (nextKey dict keys pos).1 = (nextKey dict' keys pos).1 ∧
      CurrentRel link (nextKey dict keys pos).2 (nextKey dict' keys pos).2 := by
  fun_induction nextKey dict keys pos with
  | case1 pos inside value found =>
    have both := dicts.get? keys[pos]
    rw [found] at both
    generalize right : dict'.get? keys[pos] = value' at both
    cases both with
    | some values =>
      rw [nextKey, dif_pos inside, right]
      exact ⟨rfl, .some (.string _) values⟩
  | case2 pos inside missing ih =>
    have both := dicts.get? keys[pos]
    rw [missing] at both
    generalize right : dict'.get? keys[pos] = value' at both
    cases both with
    | none =>
      rw [nextKey.eq_def dict', dif_pos inside, right]
      exact ih
  | case3 pos outside =>
    rw [nextKey, dif_neg outside]
    exact ⟨rfl, .none⟩

/-- A key that is still there, with its value. -/
theorem inside_nextKey (entries : dict.Inside realm) {keys : Array String}
    (short : ∀ key ∈ keys, realm.size key.utf8ByteSize) (pos : Nat) :
    ∀ place ∈ (nextKey dict keys pos).2, place.1.Inside realm ∧ place.2.Inside realm := by
  fun_induction nextKey dict keys pos with
  | case1 pos inside value found =>
    intro place here
    cases here
    exact ⟨short _ (Array.getElem_mem inside), entries.get? found⟩
  | case2 pos inside missing ih => exact ih
  | case3 pos outside =>
    intro place here
    cases here

theorem HeapRel.elementAt (same : HeapRel link core heap heap') (source : IterSource) (pos : Nat) :
    (heap.elementAt source pos).1 = (heap'.elementAt source pos).1 ∧
      CurrentRel link (heap.elementAt source pos).2 (heap'.elementAt source pos).2 := by
  unfold Heap.elementAt
  cases source with
  | array ref =>
    refine ⟨rfl, ?_⟩
    have found := forall₂_getElem? (same.array ref) pos
    simp only [Array.getElem?_toList] at found
    dsimp only
    generalize (heap.array ref)[pos]? = left, (heap'.array ref)[pos]? = right at found
    cases found with
    | none => exact .none
    | some values => exact .some (.int _) values
  | bytes b =>
    refine ⟨rfl, ?_⟩
    dsimp only
    split
    · exact .some (.int _) (.int _)
    · exact .none
  | chars cs =>
    refine ⟨rfl, ?_⟩
    dsimp only
    cases cs[pos]? with
    | none => exact .none
    | some c => exact .some (.int _) (.char c)
  | map ref keys => exact nextKey_rel (same.map ref) keys pos

theorem Heap.Inside.elementAt (inside : heap.Inside realm) (known : source.Inside realm)
    (pos : Nat) :
    ∀ place ∈ (heap.elementAt source pos).2, place.1.Inside realm ∧ place.2.Inside realm := by
  intro place here
  cases source with
  | array ref =>
    obtain ⟨item, found, rfl⟩ := Option.map_eq_some_iff.1 here
    exact ⟨trivial, inside.items known item (Array.mem_def.1 (Array.mem_of_getElem? found))⟩
  | bytes b =>
    simp only [Heap.elementAt] at here
    split at here
    · cases here
      exact ⟨trivial, trivial⟩
    · cases here
  | chars cs =>
    obtain ⟨c, found, rfl⟩ := Option.map_eq_some_iff.1 here
    exact ⟨trivial, trivial⟩
  | map ref keys => exact inside_nextKey (inside.entries known.1) known.2 pos place here

theorem CurrentRel.isSome_eq {current current' : Option (Value × Value)}
    (currents : CurrentRel link current current') : current.isSome = current'.isSome := by
  cases currents <;> rfl

/-- What an iterator stands at; one that is not there stands at nothing. -/
theorem Heap.Inside.current (inside : heap.Inside realm) {ref : Nat} (seen : realm.iterator ref) :
    ∀ place ∈ (heap.iterator ref).current, place.1.Inside realm ∧ place.2.Inside realm := by
  rw [Heap.iterator, Array.getD_eq_getD_getElem?]
  cases found : heap.iterators[ref]? with
  | none => exact fun _ here => absurd here.symm (Option.some_ne_none _)
  | some iterator => exact (inside.iterators seen found).current

namespace Bond.Heaps

variable (heaps : bond.Heaps core heap heap') {ref : Nat}
include heaps

theorem advance (ref : Nat) :
    (heap.advance ref).1 = (heap'.advance ref).1 ∧
      bond.Heaps core (heap.advance ref).2 (heap'.advance ref).2 := by
  have iterators := heaps.same.iterator ref
  have moved := heaps.same.elementAt (heap'.iterator ref).source (heap'.iterator ref).pos
  unfold Heap.advance
  simp only [iterators.source, iterators.pos]
  refine ⟨moved.2.isSome_eq, heaps.setIterator ⟨rfl, moved.1, moved.2⟩ fun there seen => ?_⟩
  have found : heap.iterators[ref]? = some (heap.iterator ref) := by
    rw [Heap.iterator, Array.getD_eq_getD_getElem?, Array.getElem?_eq_getElem there]
    rfl
  have known := (heaps.inside.iterators seen found).source
  rw [iterators.source] at known
  exact ⟨known, heaps.inside.elementAt known _⟩

/-- Where an iterator stands. -/
theorem current (seen : bond.realm.iterator ref) :
    bond.Values (heap.currentKey ref) (heap'.currentKey ref) ∧
      bond.Values (heap.currentValue ref) (heap'.currentValue ref) := by
  have currents := (heaps.same.iterator ref).current
  have inside := heaps.inside.current seen
  unfold currentKey currentValue
  generalize (heap.iterator ref).current = left, (heap'.iterator ref).current = right
    at currents inside
  cases currents with
  | none => exact ⟨⟨.undefined, trivial⟩, ⟨.undefined, trivial⟩⟩
  | some keys values => exact ⟨⟨keys, (inside _ rfl).1⟩, ⟨values, (inside _ rfl).2⟩⟩

/-! ## Arrays and maps -/

theorem length (values : bond.Values value value') :
    bond.Outcomes Eq (heap.length value) (heap'.length value') := by
  cases values.same using ValueRel.kinds with
  | array ref | immutableArray ref => exact .ok (heaps.same.size_array ref)
  | map ref | immutableMap ref => exact .ok (heaps.same.map ref).size_eq
  | string _ | bytes _ => exact .ok rfl
  | _ => exact .error ⟨.inr (by decide), rfl⟩

end Bond.Heaps

namespace Bond

variable {args args' : List Value}

theorem append (lawful : bond.realm.Lawful) (sames : Forall₂ bond.Values args args') :
    Sim (bond.heapFrames core) bond.Values (Heap.append args) (Heap.append args') := by
  intro heap heap' heaps
  cases sames with
  | nil => exact .error ⟨rfl, ⟨lawful.count (by decide), lawful.count (by decide)⟩, rfl⟩ heaps
  | @cons first first' rest rest' firsts rests =>
    have joined {items items' : Array Value} (fronts : bond.Items items items') :
        ResultRel (bond.heapFrames core) bond.Values
          (.ok (heap.newArray (items ++ rest.toArray)).1 (heap.newArray (items ++ rest.toArray)).2)
          (.ok (heap'.newArray (items' ++ rest'.toArray)).1
            (heap'.newArray (items' ++ rest'.toArray)).2) := by
      have behind : bond.Items rest.toArray rest'.toArray := rests
      obtain ⟨values, heaps⟩ := heaps.newArray (forall₂_append fronts behind)
      exact .ok values heaps
    obtain ⟨same, inside⟩ := firsts
    cases same using ValueRel.kinds with
    | array ref => exact joined (heaps.array inside.1)
    | immutableArray ref => exact joined (heaps.array inside)
    | undefined => exact joined .nil
    | _ => exact .error ⟨rfl, .inr (by decide), rfl⟩ heaps

theorem delete {map map' key key' : Value} (maps : bond.Values map map')
    (keys : bond.Values key key') :
    Sim (bond.heapFrames core) bond.Values (Heap.delete map key) (Heap.delete map' key') := by
  intro heap heap' heaps
  obtain ⟨same, inside⟩ := maps
  cases same using ValueRel.kinds with
  | map ref =>
    cases keys.same using ValueRel.kinds with
    | string key =>
      exact .ok ⟨.undefined, trivial⟩
        (heaps.modifyMap inside.2 ((heaps.map inside.1).erase key))
    | _ => exact .error ⟨rfl, .inr (by decide), rfl⟩ heaps
  | _ => exact .error ⟨rfl, .inr (by decide), rfl⟩ heaps

/-- Where a splice starts and how much it takes, of as much as there is. -/
theorem spliceRange (size : Nat) (sames : Forall₂ bond.Values args args') :
    bond.Outcomes Eq (Heap.spliceStart size args) (Heap.spliceStart size args') ∧
      bond.Outcomes Eq (Heap.spliceCount size args) (Heap.spliceCount size args') := by
  cases sames with
  | nil => exact ⟨.ok rfl, .ok rfl⟩
  | @cons first _ _ _ firsts _ =>
    cases firsts.same using ValueRel.kinds with
    | int n =>
      simp only [Heap.spliceStart, Heap.spliceCount]
      constructor <;> split
      · exact .ok rfl
      · exact .error ⟨trivial, rfl⟩
      · exact .ok rfl
      · exact .error ⟨trivial, rfl⟩
    | _ => exact ⟨.error ⟨.inr (by decide), rfl⟩, .error ⟨.inr (by decide), rfl⟩⟩

theorem splice (lawful : bond.realm.Lawful) (sames : Forall₂ bond.Values args args') :
    Sim (bond.heapFrames core) bond.Values (Heap.splice args) (Heap.splice args') := by
  intro heap heap' heaps
  cases sames with
  | nil => exact .error ⟨rfl, ⟨lawful.count (by decide), lawful.count (by decide)⟩, rfl⟩ heaps
  | @cons first first' rest rest' firsts rests =>
    obtain ⟨same, inside⟩ := firsts
    cases same using ValueRel.kinds with
    | array ref =>
      obtain ⟨starts, noStart⟩ := (spliceRange (heap.array ref).size rests).1.eq
      simp only [Heap.splice, ← heaps.same.size_array ref, starts]
      cases found : Heap.spliceStart (heap.array ref).size rest with
      | error e => exact .error ⟨rfl, noStart e found⟩ heaps
      | ok start =>
        obtain ⟨counts, noCount⟩ :=
          (spliceRange ((heap.array ref).size - start) (forall₂_drop 1 rests)).2.eq
        simp only [counts]
        cases found : Heap.spliceCount ((heap.array ref).size - start) (rest.drop 1) with
        | error e => exact .error ⟨rfl, noCount e found⟩ heaps
        | ok count =>
          have items := heaps.array inside.1
          have left : bond.Items
              ((heap.array ref).extract 0 start ++ (rest.drop 2).toArray
                ++ (heap.array ref).extract (start + count) (heap.array ref).size)
              ((heap'.array ref).extract 0 start ++ (rest'.drop 2).toArray
                ++ (heap'.array ref).extract (start + count) (heap.array ref).size) :=
            forall₂_append (forall₂_append (forall₂_extract items 0 start)
              (forall₂_drop 2 rests)) (forall₂_extract items _ _)
          have changed := @Heaps.modifyArray _ _ _ _ ref heaps inside.2 (fun _ => _)
              (fun _ => _) left
          obtain ⟨values, heaps⟩ := changed.newArray (forall₂_extract items start (start + count))
          exact .ok values heaps
    | _ => exact .error ⟨rfl, .inr (by decide), rfl⟩ heaps

end Bond

/-! ## Conversions and texts -/

section Conversions
variable {link : Link} (values : ValueRel link value value')
include values

theorem toInt?_eq : toInt? value = toInt? value' := by cases values <;> rfl

theorem toFloat?_eq : toFloat? value = toFloat? value' := by cases values <;> rfl

theorem toChar?_eq : toChar? value = toChar? value' := by cases values <;> rfl

theorem toBytes?_eq : toBytes? value = toBytes? value' := by cases values <;> rfl

theorem toTime?_eq : toTime? value = toTime? value' := by cases values <;> rfl

theorem HeapRel.toText?_eq (same : HeapRel link core heap heap') :
    heap.toText? value = heap'.toText? value' := by
  have texts := same.text_eq values
  cases values using ValueRel.kinds with
  | undefined => rfl
  | _ => exact congrArg some texts

theorem HeapRel.formatOne_eq (same : HeapRel link core heap heap') (verb : Char)
    (directive : Directive) :
    heap.formatOne verb directive value = heap'.formatOne verb directive value' := by
  have texts := same.text_eq values
  have types := values.type_eq
  unfold formatOne
  cases values with
  | data _ | handle _ _ => split <;> simp only [texts]
  | error _ | function _ | cell _ => split <;> simp_all

end Conversions

/-- The bytes of a string are as many as its size says. -/
theorem inside_toBytes? (known : value.Inside realm) :
    ∀ bytes ∈ toBytes? value, realm.size bytes.size := by
  intro bytes found
  cases value with
  | bytes b | string s =>
    cases found
    exact known
  | _ => cases found

theorem Bond.ofText (lawful : bond.realm.Lawful) (text : String) :
    bond.Outcomes bond.Values (Value.ofText text) (Value.ofText text) := by
  unfold Value.ofText
  split
  · exact .error ⟨trivial, rfl⟩
  · exact .ok ⟨.string _, lawful.size (Nat.le_of_not_lt ‹_›)⟩

variable {args args' : List Value}

theorem HeapRel.renderFrom_eq (same : HeapRel link core heap heap') (fuel : Nat)
    (format : List Char) (sames : Forall₂ (ValueRel link) args args') (out : String) :
    heap.renderFrom fuel format args out = heap'.renderFrom fuel format args' out := by
  fun_induction renderFrom heap fuel format args out generalizing args' with
  | case1 => rfl
  | case2 => rfl
  | case3 fuel rest args out directive read => simp only [renderFrom, read]
  | case4 fuel rest out directive behind args read ih =>
    simp only [renderFrom, read]
    exact ih sames
  | case5 fuel rest out directive verb behind arg args plain read ih =>
    cases sames with
    | cons first others =>
      rw [ih others, renderFrom]
      simp only [read, same.formatOne_eq first]
  | case6 fuel rest out directive verb behind plain read ih =>
    cases sames with
    | nil =>
      rw [ih .nil, renderFrom]
      simp only [read]
  | case7 fuel c rest args out plain ih =>
    rw [ih sames, renderFrom]
    exact plain

theorem Bond.Heaps.format (heaps : bond.Heaps core heap heap') (lawful : bond.realm.Lawful)
    (sames : Forall₂ bond.Values args args') :
    bond.Outcomes bond.Values (heap.format args) (heap'.format args') := by
  cases sames with
  | nil => exact .error ⟨⟨lawful.count (by decide), lawful.count (by decide)⟩, rfl⟩
  | @cons first _ rest rest' firsts rests =>
    cases firsts.same using ValueRel.kinds with
    | string format =>
      simp only [Heap.format, render, heaps.same.renderFrom_eq _ _ (same_all rests)]
      exact ofText lawful _
    | _ => exact .error ⟨.inr (by decide), rfl⟩

end Skiff
