import Skiff.Proofs.Heap.Nested
import Skiff.Proofs.Realm.Heap
import Skiff.Value.Copy

/-!
# What corresponds and may occur

Two things are said about every operation on values: that it does the same on corresponding heaps,
and that it gives what may occur for what may occur. Both go through an operation in the same way,
so they are shown at once, for a link and a realm that belong together. To say one of them alone,
either everything may occur or everything corresponds to itself only.
-/

namespace Skiff

open List

/-- Which values correspond, and which of them may occur. -/
structure Bond where
  link : Link
  realm : Realm

namespace Bond

/-- Values that correspond and may occur. -/
structure Values (bond : Bond) (value value' : Value) : Prop where
  same : ValueRel bond.link value value'
  inside : value.Inside bond.realm

/-- Cells that correspond and may occur. -/
def Cells (bond : Bond) (ref ref' : Nat) : Prop := bond.link.cell ref ref' ∧ bond.realm.cell ref

/-- Sequences of values that correspond and may occur. -/
def Items (bond : Bond) (items items' : Array Value) : Prop :=
  Forall₂ bond.Values items.toList items'.toList

/-- Dictionaries with the same keys in the same order. -/
def Dicts (bond : Bond) (dict dict' : Dict Value) : Prop :=
  Forall₂ (fun entry entry' => entry.1 = entry'.1 ∧ bond.realm.size entry.1.utf8ByteSize ∧
    bond.Values entry.2 entry'.2) dict.entries.toList dict'.entries.toList

structure Heaps (bond : Bond) (core : Heap → Heap → Prop) (heap heap' : Heap) : Prop where
  same : HeapRel bond.link core heap heap'
  inside : heap.Inside bond.realm

/-- Computations on such heaps fail in the same way, by no fault of byte code, and have no
limits. -/
def heapFrames (bond : Bond) (core : Heap → Heap → Prop) : Frames Heap Heap where
  state := bond.Heaps core
  failure e e' := e = e' ∧ e.Ordinary bond.realm
  limit _ := False

/-- Results without a state: failures are the same, and no faults. -/
inductive Outcomes {α β : Type} (bond : Bond) (rel : α → β → Prop) :
    Except RuntimeError α → Except RuntimeError β → Prop where
  | ok {result : α} {result' : β} (same : rel result result') :
    bond.Outcomes rel (.ok result) (.ok result')
  | error {e : RuntimeError} (ordinary : e.Ordinary bond.realm) :
    bond.Outcomes rel (.error e) (.error e)

variable {bond : Bond} {core : Heap → Heap → Prop} {heap heap' : Heap} {value value' : Value}

/-- Results that are equal can be told by one of them. -/
theorem Outcomes.eq {α : Type} {result result' : Except RuntimeError α}
    (results : bond.Outcomes Eq result result') :
    result' = result ∧ ∀ e, result = .error e → e.Ordinary bond.realm := by
  cases results with
  | ok same => exact ⟨congrArg _ same.symm, by simp⟩
  | error ordinary => exact ⟨rfl, by rintro _ ⟨⟩; exact ordinary⟩

/-! ## Values -/

section Lists
variable {values values' : List Value} (sames : Forall₂ bond.Values values values')
include sames

theorem same_all : Forall₂ (ValueRel bond.link) values values' :=
  sames.imp fun _ _ both => both.same

theorem inside_all : ∀ value ∈ values, value.Inside bond.realm := by
  have both : Forall₂ (fun value value' => value.Inside bond.realm ∧
      ValueRel bond.link value value') values values' :=
    sames.imp fun _ _ both => ⟨both.inside, both.same⟩
  exact ((forall₂_and_left _ _).1 both).1

theorem headD : bond.Values (values.headD .undefined) (values'.headD .undefined) := by
  cases sames with
  | nil => exact ⟨.undefined, trivial⟩
  | cons first _ => exact first

end Lists

theorem Items.empty : bond.Items #[] #[] := .nil

theorem Items.of {items items' : Array Value} (sames : ItemsRel bond.link items items')
    (inside : ∀ value ∈ items.toList, value.Inside bond.realm) : bond.Items items items' :=
  ((forall₂_and_left _ _).2 ⟨inside, sames⟩).imp fun _ _ both => ⟨both.2, both.1⟩

theorem Items.getD {items items' : Array Value} (sames : bond.Items items items') (place : Nat) :
    bond.Values (items.getD place .undefined) (items'.getD place .undefined) :=
  forall₂_getD sames place ⟨.undefined, trivial⟩

theorem Values.immutable (values : bond.Values value value') :
    bond.Values value.immutable value'.immutable := by
  refine ⟨values.same.immutable, ?_⟩
  have inside := values.inside
  cases value with
  | array ref | map ref => exact inside.1
  | _ => exact inside

namespace Dicts

variable {dict dict' : Dict Value}

theorem empty : bond.Dicts .empty .empty := .nil

theorem of (sames : DictRel bond.link dict dict') (inside : dict.Inside bond.realm) :
    bond.Dicts dict dict' :=
  ((forall₂_and_left _ _).2 ⟨inside, sames⟩).imp fun _ _ both =>
    ⟨both.2.1, both.1.1, both.2.2, both.1.2⟩

section
variable (dicts : bond.Dicts dict dict')
include dicts

theorem same : DictRel bond.link dict dict' := dicts.imp fun _ _ entries =>
    ⟨entries.1, entries.2.2.same⟩

theorem inside : dict.Inside bond.realm :=
  ((forall₂_and_left _ _).1 (dicts.imp fun _ _ entries =>
    ⟨⟨entries.2.1, entries.2.2.inside⟩, entries.1⟩)).1

theorem get? (key : String) : Option.Rel bond.Values (dict.get? key) (dict'.get? key) := by
  have found := dicts.same.get? key
  generalize left : dict.get? key = here, dict'.get? key = here' at found ⊢
  cases found with
  | none => exact .none
  | some found => exact .some ⟨found, dicts.inside.get? left⟩

theorem insert {key : String} (short : bond.realm.size key.utf8ByteSize)
    (values : bond.Values value value') :
    bond.Dicts (dict.insert key value) (dict'.insert key value') := by
  unfold Dicts at dicts ⊢
  rw [Dict.toList_insert, Dict.toList_insert]
  generalize dict.entries.toList = entries, dict'.entries.toList = entries' at dicts ⊢
  induction dicts with
  | nil => exact .cons ⟨rfl, short, values⟩ .nil
  | @cons entry entry' _ _ first rest ih =>
    rw [Dict.insertEntry, Dict.insertEntry, ← first.1]
    cases entry.1 == key with
    | false => exact .cons first ih
    | true => exact .cons ⟨rfl, short, values⟩ rest

theorem erase (key : String) : bond.Dicts (dict.erase key) (dict'.erase key) := by
  unfold Dicts at dicts ⊢
  rw [Dict.toList_erase, Dict.toList_erase]
  generalize dict.entries.toList = entries, dict'.entries.toList = entries' at dicts ⊢
  induction dicts with
  | nil => exact .nil
  | @cons entry entry' _ _ first rest ih =>
    rw [filter_cons, filter_cons, ← first.1]
    split
    · exact .cons first ih
    · exact ih

theorem insertAll {more more' : Dict Value} (mores : bond.Dicts more more') :
    bond.Dicts (dict.insertAll more.entries.toList) (dict'.insertAll more'.entries.toList) := by
  unfold Dicts at mores
  generalize more.entries.toList = entries, more'.entries.toList = entries' at mores
  induction mores generalizing dict dict' with
  | nil => exact dicts
  | @cons entry entry' _ _ first _ ih =>
    obtain ⟨key, value⟩ := entry
    obtain ⟨key', value'⟩ := entry'
    obtain ⟨rfl, short, values⟩ := first
    exact ih (dicts.insert short values)

end

end Dicts

/-! ## Heaps -/

namespace Heaps

variable {ref : Nat} (heaps : bond.Heaps core heap heap')
include heaps

theorem array (seen : bond.realm.array ref) : bond.Items (heap.array ref) (heap'.array ref) :=
  .of (heaps.same.array ref) (heaps.inside.items seen)

theorem map (seen : bond.realm.map ref) : bond.Dicts (heap.map ref) (heap'.map ref) :=
  .of (heaps.same.map ref) (heaps.inside.entries seen)

theorem resolve (values : bond.Values value value') :
    bond.Values (heap.resolve value) (heap'.resolve value') :=
  ⟨heaps.same.resolve values.same, heaps.inside.resolve values.inside⟩

theorem deref (values : bond.Values value value') :
    bond.Values (heap.deref value) (heap'.deref value') :=
  ⟨heaps.same.deref values.same, heaps.inside.deref values.inside⟩

theorem cell {ref ref' : Nat} (cells : bond.Cells ref ref') :
    bond.Values (heap.cell ref) (heap'.cell ref') :=
  ⟨heaps.same.cell cells.1, heaps.inside.cells cells.2⟩

theorem newArray {items items' : Array Value} (new : bond.Items items items') :
    bond.Values (heap.newArray items).1 (heap'.newArray items').1 ∧
      bond.Heaps core (heap.newArray items).2 (heap'.newArray items').2 := by
  obtain ⟨same, inside⟩ := heaps
  have fresh := @inside.freshArray
  refine ⟨⟨?_, fresh le_rfl⟩, { same with arrays := forall₂_push same.arrays (same_all new) },
    { inside with
      items := ?_, sealedArray := ?_, freshArray := fun new => fresh (size_le_of_push new) }⟩
  · rw [Heap.newArray, Heap.newArray, forall₂_size same.arrays]
    exact .array _
  · intro ref seen
    exact getD_push_of (motive := fun items : Array Value =>
      ∀ value ∈ items.toList, value.Inside bond.realm) (fun _ => inside_all new) (inside.items seen)
  · intro ref closed
    exact getD_push_of (motive := (· = _)) (fun last => absurd (fresh last.ge).2 closed)
      (inside.sealedArray closed)

theorem newMap {entries entries' : Dict Value} (new : bond.Dicts entries entries') :
    bond.Values (heap.newMap entries).1 (heap'.newMap entries').1 ∧
      bond.Heaps core (heap.newMap entries).2 (heap'.newMap entries').2 := by
  have kept := heaps.inside.newMap new.inside
  refine ⟨⟨?_, kept.1⟩, { heaps.same with maps := forall₂_push heaps.same.maps new.same }, kept.2⟩
  rw [Heap.newMap, Heap.newMap, forall₂_size heaps.same.maps]
  exact .map _

theorem newIterator (faithful : bond.link.Faithful) {iterator iterator' : Iterator}
    (new : IteratorRel bond.link iterator iterator') (known : iterator.Inside bond.realm) :
    bond.Values (heap.newIterator iterator).1 (heap'.newIterator iterator').1 ∧
      bond.Heaps core (heap.newIterator iterator).2 (heap'.newIterator iterator').2 := by
  obtain ⟨same, inside⟩ := heaps
  have fresh := @inside.freshIterator
  refine ⟨⟨?_, fresh le_rfl⟩, { same with iterators := forall₂_push same.iterators new },
    { inside with iterators := ?_, freshIterator := fun new => fresh (size_le_of_push new) }⟩
  · rw [Heap.newIterator, Heap.newIterator, forall₂_size same.iterators]
    exact .handle rfl (faithful.iterator _)
  · intro ref other seen found
    simp only [Heap.newIterator, Array.getElem?_push] at found
    split at found
    · cases found
      exact known
    · exact inside.iterators seen found

theorem newMethod (known : ∀ ref, bond.link.handle (.method ref)) {method : Method}
    (may : method.Inside bond.realm) :
      bond.Values (heap.newMethod method).1 (heap'.newMethod method).1 ∧
      bond.Heaps core (heap.newMethod method).2 (heap'.newMethod method).2 := by
  obtain ⟨same, inside⟩ := heaps
  have fresh := @inside.freshMethod
  refine ⟨⟨?_, fresh le_rfl⟩, { same with methods := congrArg (·.push method) same.methods },
    { inside with methods := ?_, freshMethod := fun new => fresh (size_le_of_push new) }⟩
  · rw [Heap.newMethod, Heap.newMethod, same.methods]
    exact .handle rfl (known _)
  · intro ref seen
    exact getD_push_of (motive := Method.Inside bond.realm) (fun _ => may) (inside.methods seen)

/-- An array that can be changed. -/
theorem modifyArray (can : bond.realm.openArray ref) {change change' : Array Value → Array Value}
    (changed : bond.Items (change (heap.array ref)) (change' (heap'.array ref))) :
    bond.Heaps core (heap.modifyArray ref change) (heap'.modifyArray ref change') := by
  obtain ⟨same, inside⟩ := heaps
  refine ⟨{ same with arrays := forall₂_modify same.arrays ref (same_all changed) },
    { inside with items := ?_, sealedArray := ?_, freshArray := ?_ }⟩
  · intro other seen
    refine getD_modify_of (motive := fun items : Array Value =>
      ∀ value ∈ items.toList, value.Inside bond.realm) (inside.items seen) ?_
    rintro rfl
    exact inside_all changed
  · intro other closed
    exact getD_modify_of (motive := (· = _)) (inside.sealedArray closed) fun same =>
      absurd can (same ▸ closed)
  · intro other new
    simp only [Heap.modifyArray, Array.size_modify] at new
    exact inside.freshArray new

/-- A map that can be changed. -/
theorem modifyMap (can : bond.realm.openMap ref) {change change' : Dict Value → Dict Value}
    (changed : bond.Dicts (change (heap.map ref)) (change' (heap'.map ref))) :
    bond.Heaps core (heap.modifyMap ref change) (heap'.modifyMap ref change') := by
  obtain ⟨same, inside⟩ := heaps
  refine ⟨{ same with maps := forall₂_modify same.maps ref changed.same },
    { inside with entries := ?_, sealedMap := ?_, freshMap := ?_ }⟩
  · intro other seen
    refine getD_modify_of (motive := Dict.Inside bond.realm) (inside.entries seen) ?_
    rintro rfl
    exact changed.inside
  · intro other closed
    exact getD_modify_of (motive := (· = _)) (inside.sealedMap closed) fun same =>
      absurd can (same ▸ closed)
  · intro other new
    simp only [Heap.modifyMap, Array.size_modify] at new
    exact inside.freshMap new

theorem setIterator {iterator iterator' : Iterator} (new : IteratorRel bond.link iterator iterator')
    (known : ref < heap.iterators.size → bond.realm.iterator ref → iterator.Inside bond.realm) :
    bond.Heaps core (heap.setIterator ref iterator) (heap'.setIterator ref iterator') := by
  obtain ⟨same, inside⟩ := heaps
  refine ⟨{ same with iterators := forall₂_setIfInBounds same.iterators ref new },
    { inside with iterators := ?_, freshIterator := ?_ }⟩
  · intro other old seen found
    simp only [Heap.setIterator, Array.getElem?_setIfInBounds] at found
    split at found
    · rename_i same
      subst same
      split at found
      · cases found
        exact known ‹_› seen
      · cases found
    · exact inside.iterators seen found
  · intro other new
    simp only [Heap.setIterator, Array.size_setIfInBounds] at new
    exact inside.freshIterator new

end Heaps

/-! ## Copies -/

/-- Copies of a value in two heaps, and the heaps with them. -/
def Copies (bond : Bond) (core : Heap → Heap → Prop) (copied copied' : Value × Heap) : Prop :=
  bond.Values copied.1 copied'.1 ∧ bond.Heaps core copied.2 copied'.2

/-- One level of a copy, given the copies of what lies in containers. -/
theorem copyFrom_level {fuel : Nat}
    (inner : ∀ {less}, fuel = less + 1 → ∀ {heap heap'}, bond.Heaps core heap heap' →
      ∀ {value value'}, bond.Values value value' →
        bond.Copies core (Heap.copyFrom less heap.reach value heap)
          (Heap.copyFrom less heap'.reach value' heap'))
    (heaps : bond.Heaps core heap heap') {cells cells' : Nat}
    (reach : ∀ {ref ref'}, bond.link.cell ref ref' → cells = cells')
    (values : bond.Values value value') :
    bond.Copies core (Heap.copyFrom fuel cells value heap)
      (Heap.copyFrom fuel cells' value' heap') := by
  obtain ⟨same, inside⟩ := values
  have kept {value value' : Value} (same : ValueRel bond.link value value')
      (inside : value.Inside bond.realm) : bond.Copies core (value, heap) (value', heap') :=
    ⟨⟨same, inside⟩, heaps⟩
  induction cells generalizing cells' value value' with
  | zero | succ cells ih =>
    -- Errors lie inside the value, so they are left to an induction over it.
    induction same using ValueRel.kinds with
    | array ref same | immutableArray ref same =>
      have seen : bond.realm.array ref := by first | exact inside | exact inside.1
      cases fuel with
      | zero => simpa [Heap.copyFrom] using kept same inside
      | succ less =>
        rw [Heap.copyFrom, Heap.copyFrom]
        suffices both : _ ∧ _ from Heaps.newArray both.2 both.1
        refine rel_foldl (P := fun (done done' : Array Value × Heap) =>
          bond.Items done.1 done'.1 ∧
          bond.Heaps core done.2 done'.2) ?_ ⟨.empty, heaps⟩ (heaps.array seen)
        rintro done done' ⟨dones, heaps⟩ item item' same
        obtain ⟨copies, heaps⟩ := inner rfl heaps same
        exact ⟨forall₂_push dones copies, heaps⟩
    | map ref same | immutableMap ref same =>
      have seen : bond.realm.map ref := by first | exact inside | exact inside.1
      cases fuel with
      | zero => simpa [Heap.copyFrom] using kept same inside
      | succ less =>
        rw [Heap.copyFrom, Heap.copyFrom]
        suffices both : _ ∧ _ from Heaps.newMap both.2 both.1
        refine rel_foldl (P := fun (done done' : Dict Value × Heap) => bond.Dicts done.1 done'.1 ∧
          bond.Heaps core done.2 done'.2) ?_ ⟨.empty, heaps⟩ (heaps.map seen)
        rintro done done' ⟨dones, heaps⟩ ⟨key, item⟩ ⟨_, item'⟩ ⟨rfl, short, same⟩
        obtain ⟨copies, heaps⟩ := inner rfl heaps same
        exact ⟨dones.insert short copies, heaps⟩
    | error _ ih =>
      rw [Heap.copyFrom, Heap.copyFrom]
      exact ⟨⟨.error (ih inside).1.same, (ih inside).1.inside⟩, (ih inside).2⟩
    | cell cell =>
      obtain rfl := reach cell
      first
      | rw [Heap.copyFrom, Heap.copyFrom]
        exact ih (fun _ => rfl) (heaps.same.cell cell) (heaps.inside.cells inside.2)
      | simpa [Heap.copyFrom] using kept (.cell cell) inside
    | function functions => simpa [Heap.copyFrom] using kept (.function functions) inside
    | _ => simpa [Heap.copyFrom] using kept ‹_› inside

theorem Heaps.copyFrom (heaps : bond.Heaps core heap heap') (fuel : Nat)
    (values : bond.Values value value') :
    bond.Copies core (Heap.copyFrom fuel heap.reach value heap)
      (Heap.copyFrom fuel heap'.reach value' heap') := by
  induction fuel using Nat.strongRecOn generalizing heap heap' value value' with
  | _ fuel ih =>
    exact copyFrom_level (fun one _ _ heaps _ _ => ih _ (by omega) heaps) heaps
      heaps.same.reach values

theorem Heaps.copy (heaps : bond.Heaps core heap heap') (values : bond.Values value value') :
    bond.Copies core (heap.copy value) (heap'.copy value') := by
  rw [Heap.copy, Heap.copy, heaps.same.depth_eq]
  exact heaps.copyFrom _ values

end Bond

end Skiff
