import Skiff.Proofs.Machine.Native

/-!
# Instructions of two machines

What instructions do follows from the laws for what they are made of. Left open is only what makes
functions or takes constants, since these may differ in two machines, and where jumps go to.
-/

namespace Skiff

open List Bool Exec

variable {bond : Bond} {logic : Logic bond} {value value' : Value}

/-! ## Lists of values -/

section
variable {values values' : List Value} (sames : Forall₂ bond.Values values values')
include sames

theorem Bond.getLast? : Option.Rel bond.Values values.getLast? values'.getLast? := by
  rw [getLast?_eq_getElem?, getLast?_eq_getElem?, sames.length_eq]
  exact forall₂_getElem? sames _

theorem Bond.dropLast : Forall₂ bond.Values values.dropLast values'.dropLast := by
  rw [dropLast_eq_take, dropLast_eq_take, sames.length_eq]
  exact forall₂_take _ sames

end

/-- The keys of a new map are strings that were on the stack. -/
theorem Bond.mapEntries {values values' : List Value} (sames : Forall₂ bond.Values values values')
    {entries entries' : Dict Value} (dicts : bond.Dicts entries entries') :
    bond.Outcomes bond.Dicts (Exec.mapEntries values entries)
      (Exec.mapEntries values' entries') := by
  match sames with
  | .nil => exact .ok dicts
  | .cons (a := key) (b := key') keys .nil =>
    have alone (key : Value) (entries : Dict Value) :
        Exec.mapEntries [key] entries = .ok entries := by
      cases key <;> rfl
    rw [alone, alone]
    exact .ok dicts
  | .cons (a := key) ⟨same, inside⟩ (.cons items rest) =>
    cases same using ValueRel.kinds with
    | string key => exact mapEntries rest (dicts.insert inside items)
    | _ => exact .error ⟨trivial, rfl⟩

namespace Logic

theorem isFalsy (values : bond.Values value value') :
    logic.holds Eq (Exec.isFalsy value) (Exec.isFalsy value') :=
  logic.readHeap fun heaps => heaps.same.isFalsy_eq values.same

/-- An instruction that does something and goes on. -/
theorem andNext {α β : Type} {rel : α → β → Prop} {action : Exec α} {action' : Exec β}
    (first : logic.holds rel action action') :
    logic.holds bond.Signals (do let _ ← action; return .next) (do let _ ← action'; return .next) :=
  logic.bind first fun _ => logic.pure .next

/-- Instructions that may go to another place. -/
theorem executeJump {depth : Nat} {instr : Fetched} (jumps : instr.op.isJump = true)
    (pop : logic.holds bond.Values pop pop)
    (top : logic.holds bond.Values top top)
    (jump : logic.holds (fun _ _ => True) (jump instr.first) (jump instr.first)) :
    logic.holds bond.Signals (Exec.execute depth instr) (Exec.execute depth instr) := by
  obtain ⟨op, first, second⟩ := instr
  cases op with
  | jump => exact andNext jump
  | jumpFalsy =>
    refine logic.bind pop fun values => logic.bind (isFalsy values) ?_
    rintro falsy _ rfl
    split
    · exact andNext jump
    · exact logic.pure .next
  | jumpAnd =>
    refine logic.bind top fun values => logic.bind (isFalsy values) ?_
    rintro falsy _ rfl
    split
    · exact andNext jump
    · exact andNext pop
  | jumpOr =>
    refine logic.bind top fun values => logic.bind (isFalsy values) ?_
    rintro falsy _ rfl
    split
    · exact andNext pop
    · exact andNext jump
  | _ => cases jumps

namespace Stack

variable (stack : logic.Stack)
include stack

/-! ## Arguments -/

theorem packArgs {params given : Nat} (variadic : Bool) (few : bond.realm.count params)
    (count : bond.realm.count given) :
    logic.holds Eq (Exec.packArgs params variadic given) (Exec.packArgs params variadic given) := by
  unfold Exec.packArgs
  dsimp only
  cases variadic with
  | true =>
    rw [if_pos rfl]
    split
    · exact logic.throw_bind ⟨stack.lawful.fewer (Nat.sub_le _ _) few, count⟩
    · refine logic.bind (stack.popMany _) fun rest => ?_
      refine logic.bind (stack.allocate fun heaps => heaps.newArray rest.sames) fun arrays => ?_
      exact logic.bind (stack.push arrays) fun _ => logic.pure rfl
  | false =>
    rw [if_neg Bool.false_ne_true]
    split
    · exact logic.throw ⟨few, count⟩
    · exact logic.pure rfl

theorem popNamedIf (flags flag : Nat) :
    logic.holds bond.Dicts (Exec.popNamedIf flags flag) (Exec.popNamedIf flags flag) := by
  unfold Exec.popNamedIf
  split
  · exact logic.pure .empty
  · refine logic.bind stack.pop fun {value value'} ⟨same, inside⟩ => ?_
    cases same using ValueRel.kinds with
    | map ref => exact logic.readHeap fun heaps => heaps.map inside.1
    | immutableMap ref => exact logic.readHeap fun heaps => heaps.map inside
    | _ => exact logic.throw (ordinary_ofArgument _ (by decide)).1

theorem popNamed (flags : Nat) :
    logic.holds bond.Dicts (Exec.popNamed flags) (Exec.popNamed flags) :=
  logic.bind (stack.popNamedIf flags _) fun spread =>
    logic.bind (stack.popNamedIf flags _) fun explicit => logic.pure (spread.insertAll explicit)

theorem spreadArgs (flags given : Nat) :
    logic.holds Eq (Exec.spreadArgs flags given) (Exec.spreadArgs flags given) := by
  have spread {ref : Nat} (seen : bond.realm.array ref) : logic.holds Eq
      (do
        let items := (← get).heap.array ref
        items.forM Exec.push
        if given + items.size = 0 then MonadExcept.throw RuntimeError.stackUnderflow
        return given + items.size - 1 : Exec Nat)
      (do
        let items := (← get).heap.array ref
        items.forM Exec.push
        if given + items.size = 0 then MonadExcept.throw RuntimeError.stackUnderflow
        return given + items.size - 1 : Exec Nat) := by
    refine logic.get_bind fun states => ?_
    have heaps := logic.heap states
    refine logic.bind (logic.forM_array (heaps.array seen) stack.push) fun _ => ?_
    rw [heaps.same.size_array ref]
    split
    · exact logic.throw_bind trivial
    · exact logic.pure rfl
  unfold Exec.spreadArgs
  split
  · exact logic.pure rfl
  · refine logic.bind stack.pop fun {value value'} ⟨same, inside⟩ => ?_
    cases same using ValueRel.kinds with
    | array ref => exact spread inside.1
    | immutableArray ref => exact spread inside
    | _ => exact logic.throw (ordinary_ofArgument _ (by decide)).1

/-! ## Values and variables -/

/-- A value is charged for and pushed. -/
theorem pushCharged (values : bond.Values value value') :
    logic.holds (fun _ _ => True) (Exec.pushCharged value) (Exec.pushCharged value') :=
  logic.bind (stack.charge 1) fun _ => stack.push values

theorem slot (index : Nat) : logic.holds bond.Values (Exec.slot index) (Exec.slot index) :=
  logic.get_bind fun states => logic.pure ((stack.stack states).getD index)

theorem shown {ref ref' : Nat} (cells : bond.Cells ref ref') :
    bond.Values (.cell ref) (.cell ref') :=
  ⟨.cell cells.1, stack.shownCells, cells.2⟩

theorem localCell (index : Nat) :
    logic.holds bond.Cells (Exec.localCell index) (Exec.localCell index) := by
  refine logic.bind (stack.localSlot index) ?_
  rintro place _ rfl
  refine logic.bind (stack.slot place) fun {value value'} values => ?_
  have fresh : logic.holds bond.Cells
      (do
        let ref ← Exec.allocate fun heap => heap.newCell value
        Exec.setSlot place (.cell ref)
        return ref)
      (do
        let ref ← Exec.allocate fun heap => heap.newCell value'
        Exec.setSlot place (.cell ref)
        return ref) :=
    logic.bind (stack.newCell values) fun cells =>
      logic.bind (stack.setSlot place (stack.shown cells)) fun _ => logic.pure cells
  obtain ⟨same, inside⟩ := values
  cases same using ValueRel.kinds with
  | cell same => exact logic.pure ⟨same, inside.2⟩
  | _ => exact fresh

theorem captureAll {values values' : Array Value} (sames : bond.Items values values') :
    logic.holds (fun cells cells' => Forall₂ bond.Cells cells.toList cells'.toList)
      (Exec.captureAll values) (Exec.captureAll values') := by
  refine logic.mapM_array sames fun {value value'} values => ?_
  have fresh := stack.newCell values
  obtain ⟨same, inside⟩ := values
  cases same using ValueRel.kinds with
  | cell same => exact logic.pure ⟨same, inside.2⟩
  | _ => exact fresh

theorem assignAt {target target' : Value} (targets : bond.Values target target') (selectors : Nat) :
    logic.holds (fun _ _ => True) (Exec.assignAt target selectors)
      (Exec.assignAt target' selectors) := by
  refine logic.bind (stack.popMany selectors) fun {selectors selectors'} sames => ?_
  refine logic.bind stack.pop fun values => ?_
  have lasts := Bond.getLast? sames.sames
  generalize selectors.toList.getLast? = last, selectors'.toList.getLast? = last' at lasts
  cases lasts with
  | none => exact logic.pure trivial
  | some lasts =>
    refine logic.bind (logic.foldlM (Bond.dropLast sames.sames) ?_ targets) fun containers =>
      stack.onHeap (Bond.setIndex containers lasts values)
    intro selector selector' selectors container container' containers
    exact stack.onHeap (Bond.getIndex stack.faithful containers selectors)

theorem popIterator :
    logic.holds (fun ref ref' => ref = ref' ∧ bond.realm.iterator ref) Exec.popIterator
      Exec.popIterator := by
  refine logic.bind stack.pop fun {value value'} ⟨same, inside⟩ => ?_
  cases same using ValueRel.kinds with
  | iterator ref => exact logic.pure ⟨rfl, inside⟩
  | _ => exact logic.throw trivial

end Stack

namespace Calls

variable (calls : logic.Calls)
include calls

/-! ## Calls -/

theorem callPlain {callee callee' : Value} (callees : bond.Values callee callee') (given : Nat)
    {named named' : Dict Value} (names : bond.Dicts named named') :
    logic.holds bond.Signals (Exec.callPlain callee given named)
      (Exec.callPlain callee' given named') := by
  refine logic.bind (calls.popMany given) fun args => logic.bind calls.pop fun _ => ?_
  refine logic.bind (calls.callNative callees args names) fun replies => ?_
  cases replies with
  | value values => exact andNext (calls.pushCharged values)
  | wait inside => exact logic.pure (.wait inside)

theorem call (given flags : Nat) :
    logic.holds bond.Signals (Exec.call given flags) (Exec.call given flags) := by
  refine logic.bind (calls.popNamed flags) fun {named named'} names => ?_
  refine logic.bind (calls.spreadArgs flags given) ?_
  rintro given _ rfl
  refine logic.get_bind fun {machine machine'} states => ?_
  obtain ⟨sp, few⟩ := calls.sp states
  dsimp only
  rw [← sp]
  split
  · exact logic.throw_bind trivial
  · have callees := (calls.stack states).getD (machine.thread.sp - (given + 1))
    generalize machine.thread.stack.getD (machine.thread.sp - (given + 1)) .undefined = callee,
      machine'.thread.stack.getD (machine.thread.sp - (given + 1)) .undefined = callee' at callees
    have count : bond.realm.count given := calls.lawful.fewer (by omega) few
    have plain := calls.callPlain callees given names
    cases callees.same using ValueRel.kinds with
    | function _ =>
      dsimp only
      rw [names.same.size_eq]
      split
      · exact logic.throw_bind trivial
      · exact andNext (calls.enter true callees count)
    | _ => exact plain

theorem ret (depth : Nat) (hasValue : Bool) :
    logic.holds bond.Signals (Exec.ret depth hasValue) (Exec.ret depth hasValue) := by
  unfold Exec.ret
  split
  · exact logic.bind calls.pop (calls.leave depth)
  · exact calls.leave depth ⟨.undefined, trivial⟩

/-- What a call from outside begins with. -/
theorem start {callee callee' : Value} (callees : bond.Values callee callee')
    {args args' : List Value} (sames : bond.Args args args') :
    logic.holds bond.Starts (Exec.start callee args) (Exec.start callee' args') := by
  have plain : logic.holds bond.Starts (startPlain callee args)
      (startPlain callee' args') := by
    refine logic.bind (calls.callNative callees sames .empty) fun replies => ?_
    cases replies with
    | value values => exact logic.bind (calls.charge 1) fun _ => logic.pure (.value values)
    | wait inside => exact logic.pure (.waiting inside)
  cases callees.same using ValueRel.kinds with
  | function _ =>
    refine logic.bind (calls.push callees) fun _ => ?_
    refine logic.bind (logic.forM sames.sames calls.push) fun _ => ?_
    rw [← sames.sames.length_eq]
    exact logic.bind (calls.enter false callees sames.few) fun _ => logic.pure .running
  | _ => exact plain

/-! ## Instructions -/

/-- Instructions that take no constants and go nowhere else. -/
theorem execute (depth : Nat) {instr : Fetched} (small : bond.realm.count instr.first)
    (stays : instr.op.isJump = false) (plain : instr.op ≠ .const ∧ instr.op ≠ .closure) :
    logic.holds bond.Signals (Exec.execute depth instr) (Exec.execute depth instr) := by
  obtain ⟨op, first, second⟩ := instr
  have lawful := calls.lawful
  have give (b : Bool) : logic.holds bond.Signals (do push (.bool b); return .next)
      (do push (.bool b); return .next) := andNext (calls.push ⟨.bool b, trivial⟩)
  unfold Exec.execute
  cases op <;> dsimp only
  case const => exact absurd rfl plain.1
  case closure => exact absurd rfl plain.2
  case jump | jumpFalsy | jumpAnd | jumpOr => cases stays
  case undefined => exact andNext (calls.push ⟨.undefined, trivial⟩)
  case true_ | false_ => exact give _
  case pop => exact andNext calls.pop
  case binary =>
    cases Operator.ofNumber? first with
    | none => exact logic.throw_bind trivial
    | some op =>
      refine logic.bind calls.pop fun rights => logic.bind calls.pop fun lefts => ?_
      exact logic.bind (calls.onHeap (Bond.binary lawful op lefts rights)) fun values =>
        andNext (calls.pushCharged values)
  case equal | notEqual =>
    refine logic.bind calls.pop fun rights => logic.bind calls.pop fun lefts => ?_
    refine logic.get_bind fun states => ?_
    rw [(logic.heap states).same.equal_eq calls.faithful lefts.same rights.same]
    exact give _
  case negate =>
    exact logic.bind calls.pop fun values => logic.bind (logic.ofExcept values.negate) fun values =>
      andNext (calls.pushCharged values)
  case complement =>
    exact logic.bind calls.pop fun values => logic.bind (logic.ofExcept values.complement)
      fun values => andNext (calls.pushCharged values)
  case not =>
    refine logic.bind calls.pop fun values => logic.bind (isFalsy values) ?_
    rintro falsy _ rfl
    exact give falsy
  case getGlobal => exact logic.bind (calls.global first) fun values => andNext (calls.push values)
  case setGlobal => exact logic.bind calls.pop fun values => andNext (calls.setGlobal first values)
  case setGlobalAt =>
    exact logic.bind (calls.global first) fun targets => andNext (calls.assignAt targets second)
  case getLocal =>
    refine logic.bind (calls.localSlot first) ?_
    rintro place _ rfl
    exact logic.bind (calls.slot place) fun values => logic.get_bind fun states =>
      andNext (calls.push ((logic.heap states).deref values))
  case setLocal =>
    refine logic.bind calls.pop fun values => logic.bind (calls.localSlot first) ?_
    rintro place _ rfl
    refine logic.bind (calls.slot place) fun {held held'} sames => ?_
    have plain := andNext (calls.setSlot place values)
    cases sames.same using ValueRel.kinds with
    | cell same => exact andNext (calls.setCell same values)
    | _ => exact plain
  case defineLocal =>
    refine logic.bind calls.pop fun values => logic.bind (calls.localSlot first) ?_
    rintro place _ rfl
    exact andNext (calls.setSlot place values)
  case setLocalAt =>
    refine logic.bind (calls.localSlot first) ?_
    rintro place _ rfl
    exact logic.bind (calls.slot place) fun values => logic.get_bind fun states =>
      andNext (calls.assignAt ((logic.heap states).deref values) second)
  case localCell =>
    exact logic.bind (calls.localCell first) fun cells => andNext (calls.push (calls.shown cells))
  case getFree =>
    exact logic.bind (calls.freeCell small) fun cells => logic.get_bind fun states =>
      andNext (calls.push ((logic.heap states).cell cells))
  case setFree =>
    exact logic.bind calls.pop fun values => logic.bind (calls.freeCell small) fun cells =>
      andNext (calls.setCell cells.1 values)
  case setFreeAt =>
    exact logic.bind (calls.freeCell small) fun cells => logic.get_bind fun states =>
      andNext (calls.assignAt ((logic.heap states).cell cells) second)
  case freeCell =>
    exact logic.bind (calls.freeCell small) fun cells => andNext (calls.push (calls.shown cells))
  case getBuiltin =>
    have unknown : (RuntimeError.builtinIndex first).Inside bond.realm := small
    cases Builtin.ofNumber? first with
    | none => exact logic.throw_bind unknown
    | some builtin => exact andNext (calls.push ⟨.handle rfl (calls.known _), trivial⟩)
  case array =>
    refine logic.bind (calls.popMany first) fun items => logic.bind (calls.charge 1) fun _ => ?_
    exact logic.bind (calls.allocate fun heaps => heaps.newArray items.sames) fun values =>
      andNext (calls.push values)
  case map =>
    refine logic.bind (calls.popMany first) fun items => ?_
    refine logic.bind (logic.ofExcept (Bond.mapEntries items.sames .empty)) fun entries => ?_
    refine logic.bind (calls.charge 1) fun _ => ?_
    exact logic.bind (calls.allocate fun heaps => heaps.newMap entries) fun values =>
      andNext (calls.push values)
  case error =>
    exact logic.bind calls.pop fun values =>
      andNext (calls.pushCharged ⟨.error values.same, values.inside⟩)
  case immutable =>
    exact logic.bind calls.pop fun values => andNext (calls.pushCharged values.immutable)
  case index =>
    refine logic.bind calls.pop fun indexes => logic.bind calls.pop fun objects => ?_
    exact logic.bind (calls.onHeap (Bond.getIndex calls.faithful objects indexes)) fun values =>
      andNext (calls.push values)
  case slice =>
    refine logic.bind calls.pop fun highs => logic.bind calls.pop fun lows => ?_
    refine logic.bind calls.pop fun objects => ?_
    exact logic.bind (calls.onHeap (Bond.getSlice lawful objects lows highs)) fun values =>
      andNext (calls.pushCharged values)
  case call => exact calls.call first second
  case ret => exact calls.ret depth (first == 1)
  case iterate =>
    refine logic.bind calls.pop fun values => logic.get_bind fun states => ?_
    exact logic.bind (calls.onHeap (Bond.iterate calls.faithful ((logic.heap states).deref values)))
      fun values => andNext (calls.pushCharged values)
  case iterNext =>
    refine logic.bind calls.popIterator ?_
    rintro ref _ ⟨rfl, _⟩
    refine logic.bind (calls.allocate fun heaps => heaps.advance ref) ?_
    rintro more _ rfl
    exact give more
  case iterKey =>
    refine logic.bind calls.popIterator ?_
    rintro ref _ ⟨rfl, seen⟩
    exact logic.get_bind fun states => andNext (calls.push ((logic.heap states).current seen).1)
  case iterValue =>
    refine logic.bind calls.popIterator ?_
    rintro ref _ ⟨rfl, seen⟩
    exact logic.get_bind fun states => andNext (calls.push ((logic.heap states).current seen).2)
  case suspend => exact logic.pure (.halt ⟨.undefined, trivial⟩)

end Calls

end Logic

end Skiff
