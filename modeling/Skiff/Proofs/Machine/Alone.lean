import Skiff.Proofs.Machine.Logic

/-!
# Corresponding and occurring alone

Where everything may occur, a bond says only what corresponds; where everything corresponds to
itself, it says only what may occur.
-/

namespace Skiff

open List

/-! ## Everything may occur -/

/-- The realm of everything. -/
def Realm.whole : Realm where
  size _ := True
  count _ := True
  array _ := True
  map _ := True
  openArray _ := True
  openMap _ := True
  items _ := #[]
  entries _ := .empty
  cell _ := True
  function _ := True
  iterator _ := True
  method _ := True
  routine _ := True
  channel _ := True
  shownCells := True
  newFunctions := True
  table _ := True

theorem Realm.whole_lawful : Realm.whole.Lawful where
  size _ := trivial
  smaller _ _ := trivial
  count _ := trivial
  fewer _ _ := trivial
  message _ := trivial

theorem Value.inside_whole : (value : Value) → value.Inside .whole
  | .error inner => inner.inside_whole
  | .array _ | .map _ | .cell _ => ⟨trivial, trivial⟩
  | .undefined | .bool _ | .int _ | .float _ | .char _ | .time _ | .builtin _ | .host .. | .string _
  | .bytes _ | .immutableArray _ | .immutableMap _ | .function _ | .iterator _ | .method _
  | .routine _ | .channel _ => trivial

theorem Dict.inside_whole (dict : Dict Value) : dict.Inside .whole :=
  fun entry _ => ⟨trivial, entry.2.inside_whole⟩

theorem Waiting.inside_whole (on : Waiting) : on.Inside .whole := by
  cases on <;> trivial

theorem Heap.inside_whole (heap : Heap) : heap.Inside .whole where
  items _ value _ := value.inside_whole
  entries _ := Dict.inside_whole _
  cells _ := Value.inside_whole _
  functions _ := ⟨fun _ _ => trivial, trivial⟩
  iterators _ _ := by
    refine ⟨?_, fun place _ => ⟨place.1.inside_whole, place.2.inside_whole⟩⟩
    unfold IterSource.Inside
    split
    · trivial
    · exact ⟨trivial, fun _ _ => trivial⟩
    · trivial
    · trivial
  methods _ := by
    unfold Method.Inside
    split <;> trivial
  table := trivial
  sealedArray closed := absurd trivial closed
  sealedMap closed := absurd trivial closed
  freshArray _ := ⟨trivial, trivial⟩
  freshMap _ := ⟨trivial, trivial⟩
  freshCell _ := trivial
  freshIterator _ := trivial
  freshMethod _ := trivial
  freshFunction _ _ := trivial

namespace Link

/-- What corresponds, without a word on what may occur. -/
def bond (link : Link) : Bond := ⟨link, .whole⟩

variable {link : Link}

theorem values {value value' : Value} (same : ValueRel link value value') :
    link.bond.Values value value' :=
  ⟨same, value.inside_whole⟩

theorem args {args args' : List Value} (sames : Forall₂ (ValueRel link) args args') :
    link.bond.Args args args' :=
  ⟨sames.imp fun _ _ => values, trivial⟩

/-! ## Everything corresponds to itself -/

/-- The link of everything with itself. -/
def same : Link where
  function := Eq
  cell := Eq
  handle _ := True

theorem same_faithful : Link.same.Faithful where
  function := by rintro a _ b _ rfl rfl; rfl
  cell := by rintro a _ b _ rfl rfl; rfl
  iterator _ := trivial
  routineMethod _ _ := trivial
  channelMethod _ _ := trivial

end Link

namespace Realm

/-- What may occur, without a word on what corresponds. -/
def bond (realm : Realm) : Bond := ⟨.same, realm⟩

variable {realm : Realm} {value value' : Value}

theorem eq_of_same (values : ValueRel .same value value') : value = value' := by
  induction values with
  | data _ | handle _ _ => rfl
  | error _ ih => rw [ih]
  | function same | cell same => rw [show _ = _ from same]

theorem same_refl (value : Value) : ValueRel .same value value := by
  induction value with
  | error _ ih => exact .error ih
  | function _ => exact .function rfl
  | cell _ => exact .cell rfl
  | _ => first | exact .data rfl | exact .handle rfl trivial

/-- Related elements are the same, so the lists are. -/
theorem eq_of_forall₂ {α : Type} {rel : α → α → Prop}
    (equal : ∀ {item item'}, rel item item' → item = item')
    {items items' : List α} (sames : Forall₂ rel items items') : items = items' :=
  forall₂_eq_eq_eq ▸ sames.imp fun _ _ => equal

theorem values (inside : value.Inside realm) : realm.bond.Values value value :=
  ⟨same_refl value, inside⟩

theorem eq_of_values (values : realm.bond.Values value value') : value = value' :=
  eq_of_same values.same

theorem sames {items : List Value} (inside : ∀ value ∈ items, value.Inside realm) :
    Forall₂ realm.bond.Values items items :=
  forall₂_same.2 fun value member => values (inside value member)

theorem args {args : List Value} (inside : ∀ value ∈ args, value.Inside realm)
    (few : realm.count args.length) : realm.bond.Args args args :=
  ⟨sames inside, few⟩

theorem dictRel_refl (dict : Dict Value) : DictRel .same dict dict :=
  forall₂_same.2 fun entry _ => ⟨rfl, same_refl entry.2⟩

theorem eq_of_dictRel {dict dict' : Dict Value} (same : DictRel .same dict dict') :
    dict = dict' := by
  obtain ⟨⟨entries⟩, _⟩ := dict
  obtain ⟨⟨entries'⟩, _⟩ := dict'
  obtain rfl : entries = entries' :=
    eq_of_forall₂ (fun both => Prod.ext both.1 (eq_of_same both.2)) same
  rfl

theorem heapRel_refl {core : Heap → Heap → Prop} (heap : Heap) (known : core heap.core heap.core) :
    HeapRel .same core heap heap where
  arrays := forall₂_same.2 fun _ _ => forall₂_same.2 fun value _ => same_refl value
  maps := forall₂_same.2 fun dict _ => dictRel_refl dict
  iterators := forall₂_same.2 fun iterator _ => by
    refine ⟨rfl, rfl, ?_⟩
    cases iterator.current with
    | none => exact .none
    | some current => exact .some (same_refl current.1) (same_refl current.2)
  methods := rfl
  cell := by rintro ref _ rfl; exact same_refl _
  reach _ := rfl
  core := known

/-- Heaps that come from one heap and correspond are the same. -/
theorem eq_of_heapRel {heap next next' : Heap}
    (same : HeapRel .same (HeapRel.Still heap heap) next next') : next = next' := by
  obtain ⟨⟨arrays⟩, ⟨maps⟩, cells, functions, ⟨iterators⟩, methods⟩ := next
  obtain ⟨⟨arrays'⟩, ⟨maps'⟩, cells', functions', ⟨iterators'⟩, methods'⟩ := next'
  obtain ⟨sameArrays, sameMaps, sameIterators, rfl, _, _, still, still'⟩ := same
  obtain rfl : arrays = arrays' :=
    eq_of_forall₂ (fun items => Array.toList_inj.1 (eq_of_forall₂ eq_of_same items)) sameArrays
  obtain rfl : maps = maps' := eq_of_forall₂ eq_of_dictRel sameMaps
  obtain rfl : iterators = iterators' := by
    refine eq_of_forall₂ (fun {iterator iterator'} iterators => ?_) sameIterators
    obtain ⟨source, pos, current⟩ := iterator
    obtain ⟨source', pos', current'⟩ := iterator'
    obtain ⟨rfl, rfl, currents⟩ := iterators
    cases currents with
    | none => rfl
    | some keys values => rw [eq_of_same keys, eq_of_same values]
  have cores := still.trans still'.symm
  rw [show cells = cells' from congrArg Heap.cells cores,
    show functions = functions' from congrArg Heap.functions cores]

/-! ## Channels and routines -/

theorem eq_of_channelRel {channel channel' : Channel}
    (same : ChannelRel realm.bond.Values channel channel') : channel = channel' := by
  obtain ⟨capacity, buffer, offers, tickets, closed⟩ := channel
  obtain ⟨capacity', buffer', offers', tickets', closed'⟩ := channel'
  obtain ⟨rfl, buffers, offerings, rfl, rfl⟩ := same
  rw [show buffer = buffer' from eq_of_forall₂ eq_of_values buffers,
    show offers = offers' from eq_of_forall₂
      (fun offer => Prod.ext offer.1 (eq_of_values offer.2)) offerings]

theorem routineRel_refl (routine : Routine) : RoutineRel .same routine routine := by
  refine ⟨rfl, ?_⟩
  cases routine.result with
  | none => exact .running
  | some result =>
    cases result with
    | ok value => exact .value (same_refl value)
    | error message => exact .failed message

end Realm

end Skiff
