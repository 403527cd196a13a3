import Skiff.Proofs.Machine.Logic

/-!
# Calls without byte code

Builtin functions, methods of routines and channels, and functions of the host: whatever is called
without byte code, two machines do the same, and give what may occur for what may occur.
-/

namespace Skiff

open List

/-! ## Channels and routines -/

namespace ChannelRel

variable {rel : Value → Value → Prop} {channel channel' : Channel}

section
variable (same : ChannelRel rel channel channel')
include same

/-- Offers that are chosen by their tickets. -/
theorem filter (chosen : Nat → Bool) :
    Forall₂ (fun offer offer' => offer.1 = offer'.1 ∧ rel offer.2 offer'.2)
      (channel.offers.filter fun offer => chosen offer.1) (channel'.offers.filter fun offer =>
        chosen offer.1) := by
  have offers := same.offers
  generalize channel.offers = left, channel'.offers = right at offers
  induction offers with
  | nil => exact .nil
  | cons first _ ih =>
    simp only [filter_cons, first.1]
    split
    · exact .cons first ih
    · exact ih

theorem withdraw (ticket : Nat) :
    ChannelRel rel (channel.withdraw ticket) (channel'.withdraw ticket) :=
  { same with offers := same.filter (· != ticket) }

theorem commit (ticket : Nat) : ChannelRel rel (channel.commit ticket) (channel'.commit ticket) :=
  { same.withdraw ticket with
    buffer := rel_append same.buffer
      (rel_map (fun _ _ offer => offer.2) (same.filter (· == ticket))) }

theorem isReady_eq (cancelled : Bool) : channel.isReady cancelled = channel'.isReady cancelled := by
  funext branch
  cases branch with
  | room => simp only [Channel.isReady, same.buffer.length_eq, same.capacity]
  | closing => exact same.closed
  | token => rfl

theorem settle : ChannelRel rel channel.settle channel'.settle := by
  have commits := same.commit
  have offers := same.offers
  unfold Channel.settle
  rw [same.isReady_eq, same.closed]
  generalize channel.offers = left, channel'.offers = right at offers
  cases offers with
  | nil => exact same
  | cons first _ =>
    dsimp only
    rw [first.1]
    split
    · exact commits _
    · exact same

theorem offer {value value' : Value} (values : rel value value') :
    ChannelRel rel (channel.offer value).1 (channel'.offer value').1 := by
  refine settle { same with offers := ?_, tickets := congrArg (· + 1) same.tickets }
  exact rel_append same.offers (.cons ⟨same.tickets, values⟩ .nil)

theorem isWaiting_eq (ticket : Nat) : channel.isWaiting ticket = channel'.isWaiting ticket := by
  have offers := same.offers
  unfold Channel.isWaiting
  generalize channel.offers = left, channel'.offers = right at offers
  induction offers with
  | nil => rfl
  | cons first _ ih => rw [any_cons, any_cons, first.1, ih]

theorem take? :
    Option.Rel (fun taken taken' => rel taken.1 taken'.1 ∧ ChannelRel rel taken.2 taken'.2)
      channel.take? channel'.take? := by
  have withdraws := same.withdraw
  obtain ⟨capacity, buffer, offers, tickets, closed⟩ := channel
  obtain ⟨capacity', buffer', offers', tickets', closed'⟩ := channel'
  obtain ⟨rfl, buffers, offerings, rfl, rfl⟩ := same
  cases buffers with
  | cons first rest => exact .some ⟨first, settle ⟨rfl, rest, offerings, rfl, rfl⟩⟩
  | nil =>
    cases offerings with
    | nil => exact .none
    | cons first rest =>
      simp only [Channel.take?, first.1]
      split
      · exact .none
      · exact .some ⟨first.2, withdraws _⟩

theorem close : ChannelRel rel channel.close channel'.close :=
  { same with closed := rfl }

end

end ChannelRel

namespace RoutineRel

variable {link : Link} {routine routine' : Routine}

theorem isDone_eq (same : RoutineRel link routine routine') : routine.isDone = routine'.isDone := by
  have results := same.result
  unfold Routine.isDone
  generalize routine.result = left, routine'.result = right at results
  cases results <;> rfl

theorem value (same : RoutineRel link routine routine') :
    ValueRel link routine.value routine'.value := by
  have results := same.result
  unfold Routine.value
  generalize routine.result = left, routine'.result = right at results
  cases results with
  | running => exact .undefined
  | value same => exact same
  | failed message => exact .error (.string message)

end RoutineRel

namespace Logic.Native

variable {bond : Bond} {logic : Logic bond} (native : logic.Native) {args args' : List Value}

/-! ## Builtin functions -/

section
variable (sames : bond.Args args args')
include sames

include native in
/-- The text of a failure tells how many arguments there are. -/
theorem count_inside {want : Nat} (small : want < 2 ^ 64) :
    (RuntimeError.argumentCount want args.length).Inside bond.realm :=
  ⟨native.lawful.count small, sames.few⟩

include native in
theorem arity {want : Nat} (small : want < 2 ^ 64) :
    logic.holds (fun _ _ => True) (Exec.arity args want) (Exec.arity args' want) := by
  have fails := native.count_inside sames small
  unfold Exec.arity
  rw [← sames.sames.length_eq]
  split
  · exact logic.pure trivial
  · exact logic.throw fails

include native in
theorem testOne {test : Value → Bool}
    (tests : ∀ {value value'}, ValueRel bond.link value value' → test value = test value') :
    logic.holds bond.Values (Exec.testOne args test) (Exec.testOne args' test) := by
  refine logic.bind (native.arity sames (by decide)) fun _ => logic.pure ?_
  rw [tests (Bond.headD sames.sames).same]
  exact ⟨.bool _, trivial⟩

include native in
theorem testType (type : ValueType) :
    logic.holds bond.Values (Exec.testOne args (·.type = type))
      (Exec.testOne args' (·.type = type)) :=
  native.testOne sames fun values => by rw [values.type_eq]

include native in
theorem convertOr {convert : Value → Exec (Option Value)}
    (converts : ∀ {value value'}, bond.Values value value' →
      logic.holds (Option.Rel bond.Values) (convert value) (convert value')) :
    logic.holds bond.Values (Exec.convertOr args convert) (Exec.convertOr args' convert) := by
  have finish {value value' default default' : Value} (values : bond.Values value value')
      (defaults : bond.Values default default') :
      logic.holds bond.Values (do return (← convert value).getD default)
        (do return (← convert value').getD default') := by
    refine logic.bind (converts values) fun found => logic.pure ?_
    cases found with
    | none => exact defaults
    | some found => exact found
  have fails := native.count_inside sames (by decide : 1 < 2 ^ 64)
  unfold Exec.convertOr
  rcases sames.sames with _ | ⟨first, _ | ⟨second, _ | ⟨_, rest⟩⟩⟩
  · exact logic.throw_bind fails
  · exact finish first ⟨.undefined, trivial⟩
  · exact finish first second
  · simp only [length_cons, ← rest.length_eq]
    exact logic.throw_bind fails

include native in
/-- A conversion that needs no heap. -/
theorem convertData {α : Type} {convert : Value → Option α} {make : α → Value}
    (made : ∀ result, (make result).isData = true)
    (inside : ∀ {value result}, value.Inside bond.realm → convert value = some result →
      (make result).Inside bond.realm)
    (converts : ∀ {value value'}, ValueRel bond.link value value' →
      convert value = convert value') :
    logic.holds bond.Values
      (Exec.convertOr args fun value => return (convert value).map make)
      (Exec.convertOr args' fun value => return (convert value).map make) := by
  refine native.convertOr sames fun {value value'} values => logic.pure ?_
  rw [← converts values.same]
  cases found : convert value with
  | none => exact .none
  | some result => exact .some ⟨.data (made result), inside values.inside found⟩

end

include native

theorem zeroBytes (count : Int64) :
    logic.holds bond.Values (Exec.zeroBytes count) (Exec.zeroBytes count) := by
  unfold Exec.zeroBytes
  dsimp only
  split
  · exact logic.throw_bind trivial
  · rename_i fits
    refine logic.bind (native.charge _) fun _ => logic.pure ⟨.bytes _, native.lawful.size ?_⟩
    simpa [ByteArray.size] using fits

omit native in
theorem intArgument {name : String} (short : name.utf8ByteSize ≤ 64) {value value' : Value}
    (values : bond.Values value value') :
    logic.holds Eq (Exec.intArgument name value) (Exec.intArgument name value') := by
  have fails (value : Value) : (RuntimeError.ofArgument name "int" value).Inside bond.realm :=
    (ordinary_ofArgument value ⟨short, by decide⟩).1
  cases values.same using ValueRel.kinds with
  | int n => exact logic.pure rfl
  | _ => exact logic.throw (fails _)

theorem range (sames : bond.Args args args') :
    logic.holds bond.Values (Exec.range args) (Exec.range args') := by
  have finish {start start' stop stop' step step' : Value} (starts : bond.Values start start')
      (stops : bond.Values stop stop') (steps : bond.Values step step') :
      logic.holds bond.Values (Exec.range [start, stop, step])
        (Exec.range [start', stop', step']) := by
    refine logic.pure_bind (logic.bind (intArgument (by decide) starts) ?_)
    rintro start _ rfl
    refine logic.bind (intArgument (by decide) stops) ?_
    rintro stop _ rfl
    refine logic.bind (intArgument (by decide) steps) ?_
    rintro step _ rfl
    dsimp only
    split
    · exact logic.throw_bind trivial
    · refine logic.bind (native.charge _) fun _ => logic.get_bind fun states => ?_
      rw [native.maxReserve states]
      split
      · exact logic.throw_bind trivial
      · refine native.allocate fun heaps => heaps.newArray ?_
        rw [Bond.Items, forall₂_same]
        intro item member
        simp only [rangeItems, Array.toList_map, mem_map] at member
        obtain ⟨place, _, rfl⟩ := member
        exact ⟨.int _, trivial⟩
  have fails := native.count_inside sames (by decide : 2 < 2 ^ 64)
  rcases sames.sames with _ | ⟨first, _ | ⟨second, _ | ⟨third, _ | ⟨_, rest⟩⟩⟩⟩
  · exact logic.throw_bind fails
  · exact logic.throw_bind fails
  · exact finish first second ⟨.int 1, trivial⟩
  · exact finish first second third
  · unfold Exec.range
    simp only [length_cons, ← rest.length_eq]
    exact logic.throw_bind fails

/-- A conversion to bytes; integers say how many. -/
theorem toBytes : ∀ {value value' : Value},
    bond.Values value value' → logic.holds (Option.Rel bond.Values)
      (match value with
        | .int count => do return some (← Exec.zeroBytes count)
        | value => return (Heap.toBytes? value).map .bytes)
      (match value' with
        | .int count => do return some (← Exec.zeroBytes count)
        | value => return (Heap.toBytes? value).map .bytes) := by
  intro value value' values
  have converted : Option.Rel bond.Values ((Heap.toBytes? value).map Value.bytes)
      ((Heap.toBytes? value').map Value.bytes) := by
    rw [← toBytes?_eq values.same]
    cases found : Heap.toBytes? value with
    | none => exact .none
    | some bytes => exact .some ⟨.bytes bytes, inside_toBytes? values.inside bytes found⟩
  cases values.same using ValueRel.kinds with
  | int count => exact logic.bind (native.zeroBytes count) fun zeros => logic.pure (.some zeros)
  | _ => exact logic.pure converted

theorem makeChannel (sames : bond.Args args args') :
    logic.holds bond.Values (Exec.makeChannel args) (Exec.makeChannel args') := by
  have capacities : logic.holds Eq (Exec.channelCapacity args) (Exec.channelCapacity args') := by
    have fails := native.count_inside sames (by decide : 1 < 2 ^ 64)
    rcases sames.sames with _ | ⟨first, _ | ⟨_, rest⟩⟩
    · exact logic.pure rfl
    · rename_i value value'
      cases first.same using ValueRel.kinds with
      | int n =>
        simp only [Exec.channelCapacity]
        split
        · exact logic.pure rfl
        · exact logic.throw (ordinary_ofArgument _ (by decide)).1
      | _ => exact logic.throw (ordinary_ofArgument _ (by decide)).1
    · simp only [Exec.channelCapacity, length_cons, ← rest.length_eq]
      exact logic.throw fails
  refine logic.bind capacities ?_
  rintro capacity _ rfl
  exact native.newChannel capacity

/-- Whatever builtin function is called. -/
theorem callBuiltin (builtin : Builtin) (sames : bond.Args args args') :
    logic.holds bond.Values (Exec.callBuiltin builtin args) (Exec.callBuiltin builtin args') := by
  have first := Bond.headD sames.sames
  have one := native.arity sames (by decide : 1 < 2 ^ 64)
  have read := logic.readHeap (fun heaps => heaps : ∀ {heap heap'},
    bond.Heaps (fun _ _ => True) heap heap' → bond.Heaps (fun _ _ => True) heap heap')
  unfold Exec.callBuiltin
  cases builtin <;> dsimp only
  case len =>
    refine logic.bind one fun _ => logic.bind read fun heaps => ?_
    refine logic.bind (logic.ofExcept (heaps.length first)) ?_
    rintro length _ rfl
    exact logic.pure ⟨.int _, trivial⟩
  case copy => exact logic.bind one fun _ => native.allocate fun heaps => heaps.copy first
  case append => exact native.onHeap (Bond.append native.lawful sames.sames)
  case delete =>
    refine logic.bind (native.arity sames (by decide)) fun _ => native.onHeap (Bond.delete first ?_)
    rcases sames.sames with _ | ⟨_, _ | ⟨second, _⟩⟩
    · exact ⟨.undefined, trivial⟩
    · exact ⟨.undefined, trivial⟩
    · exact second
  case splice => exact native.onHeap (Bond.splice native.lawful sames.sames)
  case typeName =>
    refine logic.bind one fun _ => logic.pure ?_
    rw [← first.same.type_eq]
    refine ⟨.string _, native.lawful.size ?_⟩
    cases (args.headD .undefined).type <;> decide
  case format =>
    exact logic.bind read fun heaps => logic.ofExcept (heaps.format native.lawful sames.sames)
  case range => exact native.range sames
  case string =>
    refine native.convertOr sames fun values => logic.bind read fun heaps => ?_
    rw [heaps.same.toText?_eq values.same]
    split
    · exact logic.bind (logic.ofExcept (Bond.ofText native.lawful _)) fun texts =>
        logic.pure (.some texts)
    · exact logic.pure .none
  case int => exact native.convertData sames (fun _ => rfl) (fun _ _ => trivial) toInt?_eq
  case bool =>
    refine logic.bind one fun _ => logic.bind read fun heaps => logic.pure ?_
    rw [heaps.same.isFalsy_eq first.same]
    exact ⟨.bool _, trivial⟩
  case float => exact native.convertData sames (fun _ => rfl) (fun _ _ => trivial) toFloat?_eq
  case char => exact native.convertData sames (fun _ => rfl) (fun _ _ => trivial) toChar?_eq
  case bytes => exact native.convertOr sames native.toBytes
  case time => exact native.convertData sames (fun _ => rfl) (fun _ _ => trivial) toTime?_eq
  case isIterable => exact native.testOne sames ValueRel.isIterable_eq
  case isCallable => exact native.testOne sames ValueRel.isCallable_eq
  case spawn =>
    obtain ⟨sames, few⟩ := sames
    cases sames with
    | nil => exact logic.throw ⟨native.lawful.count (by decide), native.lawful.count (by decide)⟩
    | cons callees rest =>
      exact native.spawn callees ⟨rest, native.lawful.fewer (Nat.le_succ _) few⟩
  case makeChannel => exact native.makeChannel sames
  all_goals exact native.testType sames _

/-! ## Waiting -/

theorem checkCancelled :
    logic.holds (fun _ _ => True) Exec.checkCancelled Exec.checkCancelled := by
  refine logic.bind native.isCancelled ?_
  rintro cancelled _ rfl
  split
  · exact logic.throw trivial
  · exact logic.pure trivial

theorem draw : logic.holds Eq Exec.draw Exec.draw := by
  refine logic.get_bind fun states => ?_
  rw [native.draws states]
  exact logic.bind (native.setDraws _) fun _ => logic.pure rfl

theorem skipDraws (count : Nat) :
    logic.holds (fun _ _ => True) (Exec.skipDraws count) (Exec.skipDraws count) := by
  induction count with
  | zero => exact logic.pure trivial
  | succ count ih => exact logic.bind native.draw fun _ => ih

/-- What is waited for is there, or not yet. -/
theorem poll {on : Waiting} (inside : on.Inside bond.realm) :
    logic.holds (Option.Rel bond.Values) (Exec.poll on) (Exec.poll on) := by
  have undefined : bond.Values .undefined .undefined := ⟨.undefined, trivial⟩
  have flag (b : Bool) : bond.Values (.bool b) (.bool b) := ⟨.bool b, trivial⟩
  cases on with
  | send ref ticket order =>
    refine logic.bind (native.channel inside) fun {before before'} channels => ?_
    rw [channels.isWaiting_eq]
    split
    · exact logic.pure (.some undefined)
    refine logic.bind native.isCancelled ?_
    rintro cancelled _ rfl
    rw [channels.isReady_eq]
    have withdrawn := native.setChannel ref (channels.withdraw ticket)
    cases order.find? (before'.isReady cancelled) with
    | none => exact logic.pure .none
    | some branch =>
      cases branch with
      | room =>
        exact logic.bind (native.setChannel ref (channels.commit ticket)) fun _ =>
          logic.pure (.some undefined)
      | closing | token => exact logic.bind withdrawn fun _ => logic.throw trivial
  | receive ref =>
    refine logic.bind native.checkCancelled fun _ => ?_
    refine logic.bind (native.channel inside) fun {before before'} channels => ?_
    have taken := channels.take?
    generalize before.take? = left, before'.take? = right at taken
    cases taken with
    | none =>
      dsimp only
      rw [channels.closed]
      refine logic.pure ?_
      split
      · exact .some undefined
      · exact .none
    | some both =>
      exact logic.bind (native.setChannel ref both.2) fun _ => logic.pure (.some both.1)
  | finish ref deadline =>
    refine logic.bind (native.routine ref) fun routines => ?_
    rw [routines.1.isDone_eq]
    split
    · exact logic.pure (.some (flag true))
    · refine logic.bind native.checkCancelled fun _ => ?_
      cases deadline with
      | none => exact logic.pure .none
      | some deadline =>
        refine logic.get_bind fun states => logic.pure ?_
        rw [native.clock states]
        split
        · exact .some (flag false)
        · exact .none
  | result ref =>
    refine logic.bind (native.routine ref) fun routines => ?_
    rw [routines.1.isDone_eq]
    split
    · exact logic.pure (.some ⟨routines.1.value, routines.2 inside⟩)
    · exact logic.bind native.checkCancelled fun _ => logic.pure .none

theorem pollOrWait {on : Waiting} (inside : on.Inside bond.realm) :
    logic.holds bond.Replies (Exec.pollOrWait on) (Exec.pollOrWait on) := by
  refine logic.bind (native.poll inside) fun answers => ?_
  cases answers with
  | none => exact logic.pure (.wait inside)
  | some values => exact logic.pure (.value values)

theorem awaitRoutine (ref : Nat) {on : Waiting} (inside : on.Inside bond.realm) :
    logic.holds bond.Replies (Exec.awaitRoutine ref on) (Exec.awaitRoutine ref on) := by
  refine logic.bind (native.routine ref) fun routines => ?_
  rw [routines.1.isDone_eq]
  exact logic.bind (native.skipDraws _) fun _ => native.pollOrWait inside

/-! ## Methods -/

theorem timeout (sames : bond.Args args args') :
    logic.holds Eq (Exec.timeout args) (Exec.timeout args') := by
  have fails := native.count_inside sames (by decide : 1 < 2 ^ 64)
  rcases sames.sames with _ | ⟨first, _ | ⟨_, rest⟩⟩
  · exact logic.pure rfl
  · rename_i value value'
    cases first.same using ValueRel.kinds with
    | int _ | float _ => exact logic.pure rfl
    | _ => exact logic.throw (ordinary_ofArgument _ (by decide)).1
  · simp only [Exec.timeout, length_cons, ← rest.length_eq]
    exact logic.throw fails

theorem send {ref : Nat} (seen : bond.realm.channel ref) {value value' : Value}
    (values : bond.Values value value') :
    logic.holds bond.Replies (Exec.send ref value) (Exec.send ref value') := by
  refine logic.bind native.checkCancelled fun _ =>
    logic.bind (native.channel seen) fun {before before'} channels => ?_
  rw [channels.closed]
  cases before'.closed with
  | true => exact logic.throw_bind trivial
  | false =>
    refine logic.bind native.draw ?_
    rintro first _ rfl
    refine logic.bind native.draw ?_
    rintro second _ rfl
    refine logic.bind (native.setChannel ref (channels.offer values)) fun _ => ?_
    rw [channels.tickets]
    exact native.pollOrWait seen

theorem callMethod {method : Method} (inside : method.Inside bond.realm)
    (sames : bond.Args args args') :
    logic.holds bond.Replies (Exec.callMethod method args) (Exec.callMethod method args') := by
  have undefined : bond.Replies (.value .undefined) (.value .undefined) :=
    .value ⟨.undefined, trivial⟩
  have none := native.arity sames (by decide : 0 < 2 ^ 64)
  obtain ⟨name, target⟩ := method
  unfold Exec.callMethod
  cases name <;> dsimp only
  case wait =>
    refine logic.bind (native.timeout sames) ?_
    rintro seconds _ rfl
    refine logic.get_bind fun states => ?_
    rw [native.clock states]
    exact native.awaitRoutine target trivial
  case result => exact logic.bind none fun _ => native.awaitRoutine target inside
  case abort =>
    refine logic.bind none fun _ => logic.bind (native.routine target) fun routines => ?_
    rw [routines.1.token]
    exact logic.bind (native.cancel _) fun _ => logic.pure undefined
  case send =>
    exact logic.bind (native.arity sames (by decide)) fun _ =>
      native.send inside (Bond.headD sames.sames)
  case recv =>
    refine logic.bind none fun _ => logic.bind (native.channel inside) fun channels => ?_
    rw [channels.closed]
    exact logic.bind (native.skipDraws _) fun _ => native.pollOrWait inside
  case close =>
    refine logic.bind none fun _ => logic.bind (native.channel inside) fun channels => ?_
    exact logic.bind (native.setChannel target channels.close) fun _ => logic.pure undefined

/-- Whatever is called without byte code. -/
theorem callNative {callee callee' : Value} (callees : bond.Values callee callee')
    (sames : bond.Args args args') {named named' : Dict Value} (names : bond.Dicts named named') :
    logic.holds bond.Replies (Exec.callNative callee args named)
      (Exec.callNative callee' args' named') := by
  have sizes := names.same.size_eq
  obtain ⟨same, inside⟩ := callees
  cases same using ValueRel.kinds with
  | builtin builtin =>
    unfold Exec.callNative
    dsimp only
    rw [sizes]
    split
    · exact logic.throw_bind trivial
    · exact logic.bind (native.callBuiltin builtin sames) fun values => logic.pure (.value values)
  | host ref _ =>
    exact logic.bind (native.callHost ref sames names) fun values => logic.pure (.value values)
  | method ref =>
    unfold Exec.callNative
    dsimp only
    rw [sizes]
    split
    · exact logic.throw_bind trivial
    · refine logic.get_bind fun states => ?_
      have heaps := logic.heap states
      rw [← heaps.same.method ref]
      exact native.callMethod (heaps.inside.methods inside) sames
  | _ => exact logic.throw trivial

end Logic.Native

end Skiff
