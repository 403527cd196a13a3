import Skiff.Code.Tidy
import Skiff.Proofs.Code.Decode
import Skiff.Proofs.Code.SourceMap

/-!
# Tidied code does what the code did

The instructions that remain keep their order, and each has a new place. Following the code and
the tidied code side by side, one is always at a place and the other at the new place of it, so
both show the same instructions and take the same branches.
-/

namespace Skiff

open List Opcode PlacedInstr Nat

/-! ## The parts of tidying on lists -/

theorem contains_jumpTargets (instrs : Array PlacedInstr) (target : Nat) :
    (jumpTargets instrs).contains target = true ↔
      ∃ instr ∈ instrs.toList, instr.target? = some target := by
  have general (list : List PlacedInstr) (targets : Std.HashSet Nat) :
      (list.foldl addTarget targets).contains target = true ↔
      targets.contains target = true ∨ ∃ instr ∈ list, instr.target? = some target := by
    induction list generalizing targets with
    | nil => simp
    | cons instr rest ih =>
      rw [foldl_cons, ih, addTarget]
      cases goal : instr.target? with
      | none => simp [goal]
      | some place =>
        simp only [Std.HashSet.contains_insert, Bool.or_eq_true, beq_iff_eq, mem_cons,
          exists_eq_or_imp, goal, Option.some.injEq]
        tauto
  rw [jumpTargets, ← Array.foldl_toList]
  refine (general instrs.toList {}).trans ?_
  simp

/-- The instructions that remain of a list, of which the first ones are dropped if they stand
behind a return. -/
def keepFrom (isTarget : Nat → Bool) : Bool → List PlacedInstr → List PlacedInstr
  | _, [] => []
  | dead, instr :: rest =>
    if dead && !isTarget instr.pos then keepFrom isTarget true rest
    else instr :: keepFrom isTarget (instr.op == .ret) rest

theorem toList_reachable (targets : Std.HashSet Nat) (instrs : Array PlacedInstr) :
    (reachable targets instrs).toList = keepFrom targets.contains false instrs.toList := by
  have general (list : List PlacedInstr) (kept : Array PlacedInstr) (dead : Bool) :
      (list.foldl (keepInstr targets) (kept, dead)).1.toList
      = kept.toList ++ keepFrom targets.contains dead list := by
    induction list generalizing kept dead with
    | nil => simp [keepFrom]
    | cons instr rest ih =>
      rw [foldl_cons, keepFrom, keepInstr]
      by_cases drop : (dead && !targets.contains instr.pos) = true
      · simp only [drop, if_true]
        exact ih kept true
      · simp only [drop]
        rw [ih]
        simp
  rw [reachable, ← Array.foldl_toList]
  simpa using general instrs.toList #[] false

/-- The new place of an instruction, if the instructions stand one behind the other from `pos`
on. -/
def placeOf? (place : Nat) : Nat → List PlacedInstr → Option Nat
  | _, [] => none
  | pos, instr :: rest =>
    if instr.pos = place then some pos else placeOf? place (pos + instr.size) rest

/-- The number of bytes of instructions. -/
def sizeOfAll (instrs : List PlacedInstr) : Nat := (instrs.map PlacedInstr.size).sum

variable {pos : Nat} {instrs : List PlacedInstr} {instr : PlacedInstr}

variable {code : ByteArray} {place found : Nat} {before after : List PlacedInstr}
  {isTarget : Nat → Bool} {dead : Bool}

theorem placeOf?_eq_none (missing : ∀ instr ∈ instrs, instr.pos ≠ place) :
    placeOf? place pos instrs = none := by
  induction instrs generalizing pos with
  | nil => rfl
  | cons instr rest ih =>
    rw [placeOf?, if_neg (missing instr (mem_cons_self ..))]
    exact ih fun instr member => missing instr (mem_cons_of_mem _ member)

theorem placeOf?_append (fresh : ∀ earlier ∈ before, earlier.pos ≠ instr.pos) :
    placeOf? instr.pos pos (before ++ instr :: after) = some (pos + sizeOfAll before) := by
  induction before generalizing pos with
  | nil => simp [placeOf?, sizeOfAll]
  | cons first before ih =>
    rw [cons_append, placeOf?, if_neg (fresh first (mem_cons_self ..)),
      ih fun earlier member => fresh earlier (mem_cons_of_mem _ member)]
    simp [sizeOfAll, add_assoc]

theorem le_of_placeOf? (here : placeOf? place pos instrs = some found) : pos ≤ found := by
  induction instrs generalizing pos with
  | nil => cases here
  | cons first rest ih =>
    rw [placeOf?] at here
    split at here
    · exact Nat.le_of_eq (Option.some.inj here)
    · exact Nat.le_trans (Nat.le_add_right ..) (ih here)

/-- Different instructions get different places. -/
theorem placeOf?_injective {left right : Nat} (leftFound : placeOf? left pos instrs = some found)
    (rightFound : placeOf? right pos instrs = some found) : left = right := by
  induction instrs generalizing pos with
  | nil => simp [placeOf?] at leftFound
  | cons instr rest ih =>
    have behind (place : Nat) (here : placeOf? place (pos + instr.size) rest = some pos) : False :=
      Nat.not_lt.2 (le_of_placeOf? here) (Nat.lt_add_of_pos_right instr.op.size_pos)
    rw [placeOf?] at leftFound rightFound
    split at leftFound <;> split at rightFound
    · rename_i isLeft isRight
      exact isLeft.symm.trans isRight
    · cases leftFound
      exact (behind _ rightFound).elim
    · cases rightFound
      exact (behind _ leftFound).elim
    · exact ih leftFound rightFound

/-- The map of new places, and the new end. -/
theorem newOffsets_eq (kept : Array PlacedInstr)
    (distinct : (kept.toList.map PlacedInstr.pos).Nodup) :
    (∀ place : Nat, (newOffsets kept).1[place]? = placeOf? place 0 kept.toList) ∧
      (newOffsets kept).2 = sizeOfAll kept.toList := by
  have general (list : List PlacedInstr) (distinct : (list.map PlacedInstr.pos).Nodup)
      (moved : Std.HashMap Nat Nat) (pos : Nat) :
      let result := list.foldl placeInstr (moved, pos)
      (∀ place : Nat, result.1[place]? = (placeOf? place pos list).or moved[place]?) ∧
        result.2 = pos + sizeOfAll list := by
    induction list generalizing moved pos with
    | nil => simp [placeOf?, sizeOfAll]
    | cons instr rest ih =>
      rw [map_cons, nodup_cons] at distinct
      obtain ⟨found, stop⟩ := ih distinct.2 (moved.insert instr.pos pos) (pos + instr.size)
      refine ⟨?_, ?_⟩
      · intro place
        rw [foldl_cons, placeInstr, found, placeOf?]
        by_cases same : instr.pos = place
        · subst same
          have missing : placeOf? instr.pos (pos + instr.size) rest = none := by
            apply placeOf?_eq_none
            intro later member equal
            exact distinct.1 (equal ▸ mem_map_of_mem member)
          simp [missing]
        · rw [if_neg same, Std.HashMap.getElem?_insert, beq_eq_false_iff_ne.2 same]
          simp
      · rw [foldl_cons, placeInstr, stop]
        simp [sizeOfAll, add_assoc]
  have result := general kept.toList distinct {} 0
  rw [newOffsets, ← Array.foldl_toList]
  simpa using result

/-! ## What remains -/

theorem keepFrom_sublist (isTarget : Nat → Bool) (dead : Bool) (instrs : List PlacedInstr) :
    (keepFrom isTarget dead instrs).Sublist instrs := by
  induction instrs generalizing dead with
  | nil => exact .slnil
  | cons instr rest ih =>
    rw [keepFrom]
    split
    · exact .cons _ (ih true)
    · exact .cons_cons _ (ih _)

/-- Whatever a jump leads to remains. -/
theorem mem_keepFrom (member : instr ∈ instrs) (target : isTarget instr.pos = true) :
    instr ∈ keepFrom isTarget dead instrs := by
  induction instrs generalizing dead with
  | nil => cases member
  | cons first rest ih =>
    rw [keepFrom]
    rcases mem_cons.1 member with rfl | member
    · simp [target]
    · split
      · exact ih member
      · exact mem_cons_of_mem _ (ih member)

section
variable (spelled : Spells code pos instrs)
include spelled

/-- What stands behind an instruction other than a return remains with it. -/
theorem keepFrom_next (kept : keepFrom isTarget dead instrs = before ++ instr :: after)
    (goesOn : instr.op ≠ .ret) :
    (instr.pos + instr.size = code.size ∧ after = []) ∨
      ∃ next rest, after = next :: rest ∧ next.pos = instr.pos + instr.size := by
  induction spelled generalizing dead before with
  | stop => simp [keepFrom] at kept
  | @instr pos op rest _ _ later ih =>
    rw [keepFrom] at kept
    split at kept
    · exact ih kept
    · cases before with
      | cons first before =>
        obtain ⟨_, kept⟩ := cons.inj kept
        exact ih kept
      | nil =>
        obtain ⟨rfl, rfl⟩ := cons.inj kept
        have alive : (op == Opcode.ret) = false := beq_eq_false_iff_ne.2 goesOn
        rcases later.eq_nil_or_cons with ⟨ends, rfl⟩ | ⟨next, rest, rfl, place⟩
        · exact .inl ⟨ends, by rw [keepFrom]⟩
        · refine .inr ⟨next, keepFrom isTarget (next.op == .ret) rest, ?_, place⟩
          simp [keepFrom, alive]

theorem Spells.pairwise : (instrs.map PlacedInstr.pos).Pairwise (· < ·) := by
  induction spelled with
  | stop => exact .nil
  | @instr pos op rest _ _ later ih =>
    refine pairwise_cons.2 ⟨?_, ih⟩
    intro place member
    obtain ⟨instr, inside, rfl⟩ := mem_map.1 member
    have := later.le_pos inside
    have := op.size_pos
    show pos < instr.pos
    omega

/-- Instructions never move forward, whichever of them remain. -/
theorem placeOf?_le {newPos : Nat} {kept : List PlacedInstr} (sub : kept.Sublist instrs)
    (before : newPos ≤ pos) :
    (∀ place found, placeOf? place newPos kept = some found → found ≤ place) ∧
      newPos + sizeOfAll kept ≤ code.size := by
  induction spelled generalizing kept newPos with
  | stop =>
    cases sub
    exact ⟨fun _ _ found => by simp [placeOf?] at found, by simpa [sizeOfAll] using before⟩
  | @instr pos op rest _ _ _ ih =>
    cases sub with
    | cons _ sub => exact ih sub (le_trans before (le_add_right _ _))
    | cons_cons _ sub =>
      obtain ⟨places, total⟩ := ih sub (Nat.add_le_add_right before op.size)
      refine ⟨?_, by simpa [sizeOfAll, PlacedInstr.size, add_assoc] using total⟩
      intro place found here
      rw [placeOf?] at here
      split at here
      · rename_i same
        cases here
        exact same ▸ before
      · exact places place found here

end

theorem placeFrom_append (pos : Nat) (left right : List (Opcode × List Nat)) :
    placeFrom pos (left ++ right)
      = placeFrom pos left ++ placeFrom (pos + (left.map (·.1.size)).sum) right := by
  induction left generalizing pos with
  | nil => simp [placeFrom]
  | cons instr left ih => simp [placeFrom, ih, add_assoc]

theorem map_placeFrom (pos : Nat) (instrs : List (Opcode × List Nat)) :
    (placeFrom pos instrs).map (fun instr => (instr.op, instr.operands)) = instrs := by
  induction instrs generalizing pos with
  | nil => rfl
  | cons instr rest ih => rw [placeFrom, map_cons, ih]

/-- The instructions of a code that tidying keeps. -/
def keptInstrs (code : ByteArray) : List PlacedInstr :=
  keepFrom (jumpTargets (decode code)).contains false (decode code).toList

/-- Where a place of a code is found in the tidied one. -/
def newPlace (code : ByteArray) (place : Nat) : Nat :=
  (placeOf? place 0 (keptInstrs code)).getD (sizeOfAll (keptInstrs code))

/-- Whether the instructions that remain never lead to their end. -/
def staysInside (code : ByteArray) : Bool :=
  (keptInstrs code).getLast?.map (·.op) == some .ret
    && !(keptInstrs code).any fun instr =>
      match instr.target? with
      | some target => !(placeOf? target 0 (keptInstrs code)).isSome
      | none => false

/-- An instruction with its jump target, if it has one, at the new place. -/
def movedInstr (code : ByteArray) (instr : PlacedInstr) : Opcode × List Nat :=
  (instr.op, match instr.target? with
    | some target => [newPlace code target]
    | none => instr.operands)

/-- A fetched instruction with its jump target, if it has one, at the new place. -/
def moveFetched (code : ByteArray) (fetched : Fetched) : Fetched :=
  if fetched.op.isJump then { fetched with first := newPlace code fetched.first } else fetched

/-- The instructions of the tidied code: a return is added if they lead to the end. -/
def tidiedInstrs (code : ByteArray) : List (Opcode × List Nat) :=
  (keptInstrs code).map (movedInstr code) ++ if staysInside code then [] else [(.ret, [0])]

/-- The bytes of the instructions that remain. -/
def keptBytes (code : ByteArray) : ByteArray :=
  (keptInstrs code).foldl (fun bytes instr =>
    ((movedInstr code instr).1.encode (movedInstr code instr).2).foldl ByteArray.push bytes)
    ByteArray.empty

theorem toList_keptBytes (code : ByteArray) :
    (keptBytes code).data.toList = encodeAll ((keptInstrs code).map (movedInstr code)) := by
  have general (list : List PlacedInstr) (done : ByteArray) :
      (list.foldl (fun bytes instr =>
        ((movedInstr code instr).1.encode (movedInstr code instr).2).foldl ByteArray.push bytes)
        done).data.toList
      = done.data.toList ++ encodeAll (list.map (movedInstr code)) := by
    induction list generalizing done with
    | nil => simp [encodeAll]
    | cons instr rest ih =>
      rw [foldl_cons, ih, toList_foldl_push]
      simp [encodeAll]
  simpa [keptBytes] using general (keptInstrs code) ByteArray.empty

/-- The source map with the entries of the instructions that remain, at their new places. -/
def movedMap (code : ByteArray) (map : SourceMap) : SourceMap :=
  map.entries.toList.foldl (fun moved (offset, span) =>
    match placeOf? offset 0 (keptInstrs code) with
    | some place => moved.insert place span
    | none => moved) {}

section
variable {code : ByteArray} (full : DecodesFully code)
include full

theorem keptInstrs_distinct : ((keptInstrs code).map PlacedInstr.pos).Nodup := by
  have ascending := (spells_decode full).pairwise.imp fun less => ne_of_lt less
  exact ascending.sublist ((keepFrom_sublist _ _ _).map _)

theorem newOffsets_reachable :
    (∀ place : Nat, (newOffsets (reachable (jumpTargets (decode code)) (decode code))).1[place]?
        = placeOf? place 0 (keptInstrs code)) ∧
      (newOffsets (reachable (jumpTargets (decode code)) (decode code))).2
        = sizeOfAll (keptInstrs code) := by
  have result := newOffsets_eq (reachable (jumpTargets (decode code)) (decode code))
  rw [toList_reachable] at result
  exact result (keptInstrs_distinct full)

theorem retarget_eq (instr : PlacedInstr) :
    retarget (newOffsets (reachable (jumpTargets (decode code)) (decode code))).1
      (sizeOfAll (keptInstrs code)) instr
    = (movedInstr code instr).1.encode (movedInstr code instr).2 := by
  obtain ⟨moved, _⟩ := newOffsets_reachable full
  simp only [retarget, movedInstr, PlacedInstr.encode]
  cases instr.target? with
  | none => rfl
  | some target => simp only [Std.HashMap.getD_eq_getD_getElem?, moved, newPlace]

/-- Tidying in terms of the instructions that remain. -/
theorem tidy_eq (map : SourceMap) (span : Span) :
    tidy code map span = if staysInside code then (keptBytes code, movedMap code map)
      else ((Opcode.ret.encode [0]).foldl ByteArray.push (keptBytes code),
        (movedMap code map).insert (sizeOfAll (keptInstrs code)) span) := by
  obtain ⟨moved, stop⟩ := newOffsets_reachable full
  have kept : (reachable (jumpTargets (decode code)) (decode code)).toList = keptInstrs code :=
    toList_reachable _ _
  simp only [tidy, ← Array.foldl_toList, ← Array.any_toList, ← Array.getLast?_toList, kept,
    moved, stop, retarget_eq full, Std.HashMap.contains_eq_isSome_getElem?]
  rfl

theorem toList_tidy (map : SourceMap) (span : Span) :
    (tidy code map span).1.data.toList = encodeAll (tidiedInstrs code) := by
  rw [tidy_eq full, tidiedInstrs]
  split
  · simp [toList_keptBytes code]
  · rw [toList_foldl_push, toList_keptBytes code]
    simp [encodeAll]

end

/-! ## Places of the tidied code -/

/-- The jumps of a code lead to instructions or to its end. -/
def JumpsInside (code : ByteArray) : Prop :=
  ∀ instr ∈ (decode code).toList, ∀ target, instr.target? = some target →
    target = code.size ∨ ∃ goal ∈ (decode code).toList, goal.pos = target

/-- A place of a code that tidying keeps: that of an instruction that remains, or the end if
something leads there. -/
def Remains (code : ByteArray) (place : Nat) : Prop :=
  (∃ instr ∈ keptInstrs code, instr.pos = place) ∨ (place = code.size ∧ staysInside code = false)

theorem keptInstrs_sublist (code : ByteArray) : (keptInstrs code).Sublist (decode code).toList :=
  keepFrom_sublist _ _ _

theorem mem_decode_of_kept (member : instr ∈ keptInstrs code) : instr ∈ (decode code).toList :=
  (keptInstrs_sublist code).subset member

section
variable {code : ByteArray} (full : DecodesFully code)
include full

variable {instr : PlacedInstr}

theorem kept_pos_lt (member : instr ∈ keptInstrs code) :
    instr.pos < code.size := by
  have stop := (spells_decode full).stop_le (mem_decode_of_kept member)
  have positive := instr.op.size_pos
  simp only [PlacedInstr.size] at stop
  omega

theorem newPlace_kept (kept : keptInstrs code = before ++ instr :: after) :
    placeOf? instr.pos 0 (keptInstrs code) = some (sizeOfAll before) ∧
      newPlace code instr.pos = sizeOfAll before := by
  have distinct := keptInstrs_distinct full
  have found : placeOf? instr.pos 0 (keptInstrs code) = some (sizeOfAll before) := by
    rw [kept] at distinct ⊢
    rw [placeOf?_append, zero_add]
    intro earlier member same
    rw [map_append, map_cons, nodup_append] at distinct
    exact distinct.2.2 _ (mem_map_of_mem member) _ (mem_cons_self ..) same
  exact ⟨found, by rw [newPlace, found, Option.getD_some]⟩

theorem placeOf?_end : placeOf? code.size 0 (keptInstrs code) = none := by
  apply placeOf?_eq_none
  intro instr member same
  have := kept_pos_lt full member
  omega

theorem newPlace_end : newPlace code code.size = sizeOfAll (keptInstrs code) := by
  rw [newPlace, placeOf?_end full, Option.getD_none]

theorem remains_zero : Remains code 0 ∧ newPlace code 0 = 0 := by
  have spelled := spells_decode full
  rcases spelled.eq_nil_or_cons with ⟨empty, nothing⟩ | ⟨instr, rest, first, place⟩
  · have kept : keptInstrs code = [] := by rw [keptInstrs, nothing, keepFrom]
    refine ⟨.inr ⟨empty, by simp [staysInside, kept]⟩, ?_⟩
    simp [newPlace, kept, placeOf?, sizeOfAll]
  · have kept : keptInstrs code = [] ++ instr :: keepFrom (jumpTargets (decode code)).contains
        (instr.op == .ret) rest := by
      rw [keptInstrs, first, keepFrom]
      simp
    refine ⟨.inl ⟨instr, by simp [kept], place⟩, ?_⟩
    have moved := (newPlace_kept full kept).2
    rwa [place] at moved

/-- Behind an instruction other than a return, the places of both codes move on together. -/
theorem remains_next (member : instr ∈ keptInstrs code) (goesOn : instr.op ≠ .ret) :
    Remains code (instr.pos + instr.size) ∧
      newPlace code (instr.pos + instr.size) = newPlace code instr.pos + instr.size := by
  obtain ⟨before, after, kept⟩ := append_of_mem member
  rw [(newPlace_kept full kept).2]
  rcases keepFrom_next (spells_decode full) kept goesOn with ⟨ends, rfl⟩ | ⟨next, rest, rfl, place⟩
  · rw [ends, newPlace_end full]
    refine ⟨.inr ⟨rfl, ?_⟩, by rw [kept]; simp [sizeOfAll]⟩
    simp [staysInside, kept, goesOn]
  · have kept' : keptInstrs code = (before ++ [instr]) ++ next :: rest := by rw [kept]; simp
    rw [← place, (newPlace_kept full kept').2]
    exact ⟨.inl ⟨next, by simp [kept], rfl⟩, by simp [sizeOfAll]⟩

variable {target : Nat}

/-- What a jump that remains leads to remains. -/
theorem remains_target (inside : JumpsInside code) (member : instr ∈ keptInstrs code)
    (leads : instr.target? = some target) : Remains code target := by
  have decoded := mem_decode_of_kept member
  rcases inside instr decoded target leads with rfl | ⟨goal, goalMember, rfl⟩
  · refine .inr ⟨rfl, ?_⟩
    have leadsOut : ((keptInstrs code).any fun instr =>
        match instr.target? with
        | some target => !(placeOf? target 0 (keptInstrs code)).isSome
        | none => false) = true :=
      any_eq_true.2 ⟨instr, member, by simp [leads, placeOf?_end full]⟩
    rw [staysInside, leadsOut]
    simp
  · refine .inl ⟨goal, mem_keepFrom goalMember ?_, rfl⟩
    exact (contains_jumpTargets _ _).2 ⟨instr, decoded, leads⟩

theorem newPlace_le (remains : Remains code place) : newPlace code place ≤ place := by
  have before := placeOf?_le (spells_decode full) (keptInstrs_sublist code) (le_refl 0)
  rcases remains with ⟨instr, member, rfl⟩ | ⟨rfl, _⟩
  · obtain ⟨before', after, kept⟩ := append_of_mem member
    obtain ⟨found, moved⟩ := newPlace_kept full kept
    rw [moved]
    exact before.1 _ _ found
  · rw [newPlace_end full]
    simpa using before.2

omit full in
theorem target?_of_isJump (fits : instr.op.Fits instr.operands)
    (jumps : instr.op.isJump = true) : instr.target? = some instr.fetched.first := by
  rw [Fits, widths_of_isJump jumps] at fits
  obtain ⟨operand, operands, _, _, same⟩ := forall₂_cons_left_iff.1 fits
  rw [target?, if_pos jumps, fetched, same]
  rfl

theorem movedInstr_fits (inside : JumpsInside code) (member : instr ∈ keptInstrs code) :
    (movedInstr code instr).1.Fits (movedInstr code instr).2 := by
  have fits := (spells_decode full).fits (mem_decode_of_kept member)
  rw [movedInstr]
  cases leads : instr.target? with
  | none => exact fits
  | some target =>
    have below := newPlace_le full (remains_target full inside member leads)
    rw [target?] at leads
    split at leads
    · rename_i jumps
      rw [Fits, widths_of_isJump jumps] at fits ⊢
      obtain ⟨operand, operands, small, _, same⟩ := forall₂_cons_left_iff.1 fits
      have : operand = target := by simpa [same] using leads
      subst this
      exact .cons (lt_of_le_of_lt below small) .nil
    · cases leads

theorem fetched_movedInstr (pos : Nat) (member : instr ∈ keptInstrs code) :
    (⟨pos, (movedInstr code instr).1, (movedInstr code instr).2⟩ : PlacedInstr).fetched
      = moveFetched code instr.fetched := by
  have fits := (spells_decode full).fits (mem_decode_of_kept member)
  simp only [movedInstr, moveFetched, fetched, target?]
  by_cases jumps : instr.op.isJump = true
  · rw [Fits, widths_of_isJump jumps] at fits
    obtain ⟨operand, operands, _, rest, same⟩ := forall₂_cons_left_iff.1 fits
    cases rest
    simp [jumps, same]
  · simp [jumps]

theorem spells_tidy (inside : JumpsInside code) (map : SourceMap) (span : Span) :
    Spells (tidy code map span).1 0 (placeFrom 0 (tidiedInstrs code)) := by
  apply spells_encodeAll
  · intro instr member
    rw [tidiedInstrs, mem_append] at member
    rcases member with member | member
    · obtain ⟨kept, keptMember, rfl⟩ := mem_map.1 member
      exact movedInstr_fits full inside keptMember
    · split at member
      · cases member
      · rw [mem_singleton] at member
        subst member
        decide
  · exact zero_le _
  · rw [drop_zero, toList_tidy full]

/-- An instruction that remains stands at its new place, with its target moved. -/
theorem mem_tidied (member : instr ∈ keptInstrs code) :
    ⟨newPlace code instr.pos, (movedInstr code instr).1, (movedInstr code instr).2⟩
      ∈ placeFrom 0 (tidiedInstrs code) := by
  obtain ⟨before, after, kept⟩ := append_of_mem member
  have same : ((before.map (movedInstr code)).map (·.1.size)).sum = sizeOfAll before := by
    rw [map_map]
    rfl
  rw [(newPlace_kept full kept).2, tidiedInstrs, kept, map_append, append_assoc,
    placeFrom_append, map_cons, cons_append, placeFrom, same, zero_add]
  exact mem_append_right _ (mem_cons_self ..)

/-- If something leads to the end, a return stands there. -/
theorem mem_tidied_end (leads : staysInside code = false) :
    ⟨newPlace code code.size, .ret, [0]⟩ ∈ placeFrom 0 (tidiedInstrs code) := by
  rw [newPlace_end full, tidiedInstrs, leads, placeFrom_append, map_map, zero_add]
  exact mem_append_right _ (mem_cons_self ..)

section
variable (inside : JumpsInside code) (map : SourceMap) (span : Span)
include inside map span

theorem fetchCode?_tidy (member : instr ∈ keptInstrs code) :
    fetchCode? (tidy code map span).1 (newPlace code instr.pos)
      = some (moveFetched code instr.fetched, newPlace code instr.pos + instr.size) := by
  have fetched := fetchCode?_of_mem (spells_tidy full inside map span) (mem_tidied full member)
  rw [fetched, fetched_movedInstr full _ member]
  rfl

theorem fetchCode?_tidy_end (leads : staysInside code = false) :
    fetchCode? (tidy code map span).1 (newPlace code code.size)
      = some (⟨.ret, 0, 0⟩, newPlace code code.size + Opcode.ret.size) :=
  fetchCode?_of_mem (spells_tidy full inside map span) (mem_tidied_end full leads)

theorem decode_tidy : (decode (tidy code map span).1).toList = placeFrom 0 (tidiedInstrs code) :=
  decode_of_spells (spells_tidy full inside map span)

end

/-- Every jump of the tidied code leads to an instruction of it. -/
theorem target_mem_tidied (inside : JumpsInside code) {jump : PlacedInstr}
    (member : jump ∈ placeFrom 0 (tidiedInstrs code)) (leads : jump.target? = some target) :
    ∃ goal ∈ placeFrom 0 (tidiedInstrs code), goal.pos = target := by
  have listed : (jump.op, jump.operands) ∈ tidiedInstrs code := by
    rw [← map_placeFrom 0 (tidiedInstrs code)]
    exact mem_map_of_mem member
  rw [tidiedInstrs, mem_append] at listed
  rcases listed with listed | listed
  · obtain ⟨instr, kept, moved⟩ := mem_map.1 listed
    obtain ⟨sameOp, sameOperands⟩ := Prod.mk.inj moved
    rw [target?, ← sameOp] at leads
    split at leads
    · rename_i jumps
      have oldLeads := target?_of_isJump
        ((spells_decode full).fits (mem_decode_of_kept kept)) jumps
      rw [← sameOperands, oldLeads] at leads
      obtain rfl : newPlace code instr.fetched.first = target := by simpa using leads
      rcases remains_target full inside kept oldLeads with ⟨goal, remains, same⟩ | ⟨same, ends⟩
      · exact ⟨_, mem_tidied full remains, congrArg (newPlace code) same⟩
      · exact ⟨_, mem_tidied_end full ends, congrArg (newPlace code) same.symm⟩
    · cases leads
  · split at listed
    · cases listed
    · obtain ⟨sameOp, _⟩ := Prod.mk.inj (mem_singleton.1 listed)
      rw [target?, sameOp] at leads
      simp [isJump] at leads

omit full in
/-- The tidied code ends in a return. -/
theorem getLast?_tidied :
    (placeFrom 0 (tidiedInstrs code)).getLast?.map PlacedInstr.op = some .ret := by
  have last : (placeFrom 0 (tidiedInstrs code)).getLast?.map PlacedInstr.op
      = (tidiedInstrs code).getLast?.map (·.1) := by
    have ops := congrArg (fun instrs => instrs.getLast?.map (·.1))
      (map_placeFrom 0 (tidiedInstrs code))
    rw [getLast?_map, Option.map_map] at ops
    exact ops
  rw [last, tidiedInstrs]
  cases stays : staysInside code with
  | false => simp
  | true =>
    rw [staysInside, Bool.and_eq_true, beq_iff_eq] at stays
    rw [if_pos rfl, append_nil, getLast?_map, Option.map_map]
    exact stays.1

/-- An instruction that remains keeps its entry of the source map. -/
theorem spanOf?_movedMap (map : SourceMap) (member : instr ∈ keptInstrs code) :
    (movedMap code map).spanOf? (newPlace code instr.pos) = map.spanOf? instr.pos := by
  obtain ⟨before, after, kept⟩ := append_of_mem member
  obtain ⟨found, moved⟩ := newPlace_kept full kept
  have general (entries : List (Nat × Span)) (done : SourceMap) :
      (entries.foldl (fun moved (offset, span) =>
        match placeOf? offset 0 (keptInstrs code) with
        | some place => moved.insert place span
        | none => moved) done).spanOf? (newPlace code instr.pos)
      = SourceMap.lastSpan instr.pos (done.spanOf? (newPlace code instr.pos)) entries := by
    induction entries generalizing done with
    | nil => rfl
    | cons entry rest ih =>
      rw [foldl_cons, ih, SourceMap.lastSpan, SourceMap.lastSpan, foldl_cons]
      congr 1
      obtain ⟨offset, span⟩ := entry
      by_cases same : offset = instr.pos
      · simp [same, found, moved, SourceMap.spanOf?_insert]
      · simp only [if_neg same]
        split
        · rename_i place elsewhere
          rw [SourceMap.spanOf?_insert, if_neg]
          rintro rfl
          exact same (placeOf?_injective elsewhere (moved ▸ found))
        · rfl
  rw [SourceMap.spanOf?_eq map]
  exact general map.entries.toList {}

theorem spanOf?_tidy (map : SourceMap) (span : Span) (member : instr ∈ keptInstrs code) :
    (tidy code map span).2.spanOf? (newPlace code instr.pos) = map.spanOf? instr.pos := by
  rw [tidy_eq full]
  split
  · exact spanOf?_movedMap full map member
  · obtain ⟨before, after, kept⟩ := append_of_mem member
    have positive := instr.op.size_pos
    have inside : newPlace code instr.pos ≠ sizeOfAll (keptInstrs code) := by
      rw [(newPlace_kept full kept).2, kept]
      simp only [sizeOfAll, map_append, List.sum_append, map_cons, sum_cons,
        PlacedInstr.size]
      omega
    rw [SourceMap.spanOf?_insert, if_neg inside]
    exact spanOf?_movedMap full map member

theorem spanOf?_tidy_end (map : SourceMap) (span : Span) (leads : staysInside code = false) :
    (tidy code map span).2.spanOf? (newPlace code code.size) = some span := by
  rw [tidy_eq full, leads, newPlace_end full]
  simp [SourceMap.spanOf?_insert]

end

end Skiff
