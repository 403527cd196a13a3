import Skiff.Proofs.Code.Tidy

/-!
# Following a code

A machine is driven along a code from instruction to instruction. What it does, in which states
and with which entries of the source map, is a list of events. Tidying a code keeps the list,
whatever the machine is.
-/

namespace Skiff

universe u

/-- What the instructions of a code do to the states of a machine. Conditional jumps decide
whether they are taken. Without a state to go on from, the machine stops. -/
structure Driver (σ : Type u) where
  act : Fetched → Option Span → σ → Option σ
  branch : Opcode → Option Span → σ → Option (Bool × σ)

namespace Driver

/-- The decision of a jump; one without a condition is taken. -/
def jump {σ : Type u} (driver : Driver σ) (op : Opcode) (span : Option Span) (state : σ) :
    Option (Bool × σ) :=
  if op = .jump then some (true, state) else driver.branch op span state

end Driver

/-- What is seen of a machine that is driven along a code: the instructions that are no jumps,
the decisions of the jumps, and that there was no instruction. -/
inductive Event (σ : Type u) where
  | act (instr : Fetched) (span : Option Span) (state : σ)
  | jump (op : Opcode) (span : Option Span) (state : σ) (taken : Option Bool)
  | lost

/-- Drives a machine along a code from a place on, up to a return. -/
def follow {σ : Type u} (driver : Driver σ) (fetch : Nat → Option (Fetched × Nat × Option Span)) :
    Nat → Nat → σ → List (Event σ)
  | 0, _, _ => []
  | steps + 1, ip, state =>
    match fetch ip with
    | none => [.lost]
    | some (instr, next, span) =>
      if instr.op.isJump then
        match driver.jump instr.op span state with
        | none => [.jump instr.op span state none]
        | some (taken, state') => .jump instr.op span state (some taken) ::
            follow driver fetch steps (if taken then instr.first else next) state'
      else if instr.op = .ret then [.act instr span state]
      else
        match driver.act instr span state with
        | none => [.act instr span state]
        | some state' => .act instr span state :: follow driver fetch steps next state'

/-- The instruction of a code at a place, with its own entry of the source map. -/
def fetchMapped? (code : ByteArray) (map : SourceMap) (ip : Nat) :
    Option (Fetched × Nat × Option Span) :=
  (fetchCode? code ip).map fun (instr, next) => (instr, next, map.spanOf? ip)

/-- The instruction of a code that may be left at its end: there it returns nothing. -/
def fetchOpen? (code : ByteArray) (map : SourceMap) (span : Span) (ip : Nat) :
    Option (Fetched × Nat × Option Span) :=
  if code.size ≤ ip then some ({ op := .ret }, ip + Opcode.ret.size, some span)
  else fetchMapped? code map ip

section
variable {code : ByteArray} (full : DecodesFully code) (inside : JumpsInside code)
include full inside

/-- One step: at a place and its new place stands the same instruction with the same entry, and
wherever it leads, the places correspond again. -/
theorem fetch_remains (map : SourceMap) (span : Span) {place : Nat} (remains : Remains code place) :
    ∃ instr next next' entry,
      fetchOpen? code map span place = some (instr, next, entry) ∧
      fetchMapped? (tidy code map span).1 (tidy code map span).2 (newPlace code place)
        = some (moveFetched code instr, next', entry) ∧
      (instr.op ≠ .ret → Remains code next ∧ next' = newPlace code next) ∧
      (instr.op.isJump = true → Remains code instr.first) := by
  rcases remains with ⟨instr, member, rfl⟩ | ⟨rfl, leads⟩
  · have before := kept_pos_lt full member
    have here := fetchCode?_of_mem (spells_decode full) (mem_decode_of_kept member)
    refine ⟨instr.fetched, instr.pos + instr.size, newPlace code instr.pos + instr.size,
      map.spanOf? instr.pos, ?_, ?_, ?_, ?_⟩
    · rw [fetchOpen?, if_neg (Nat.not_le.2 before), fetchMapped?, here]
      rfl
    · rw [fetchMapped?, fetchCode?_tidy full inside map span member, Option.map_some,
        spanOf?_tidy full map span member]
    · intro goesOn
      obtain ⟨remains, moved⟩ := remains_next full member goesOn
      exact ⟨remains, moved.symm⟩
    · intro jumps
      have fits := (spells_decode full).fits (mem_decode_of_kept member)
      exact remains_target full inside member (target?_of_isJump fits jumps)
  · refine ⟨{ op := .ret }, code.size + Opcode.ret.size,
      newPlace code code.size + Opcode.ret.size, some span, ?_, ?_, ?_, ?_⟩
    · rw [fetchOpen?, if_pos le_rfl]
    · rw [fetchMapped?, fetchCode?_tidy_end full inside map span leads, Option.map_some,
        spanOf?_tidy_end full map span leads]
      rfl
    · exact fun goesOn => absurd rfl goesOn
    · exact fun jumps => absurd jumps (by decide)

/-- Whole runs: from a place and its new place on, every machine does the same. -/
theorem follow_remains {σ : Type u} (driver : Driver σ) (map : SourceMap) (span : Span)
    (steps : Nat) {place : Nat} (remains : Remains code place) (state : σ) :
    follow driver (fetchMapped? (tidy code map span).1 (tidy code map span).2) steps
        (newPlace code place) state
      = follow driver (fetchOpen? code map span) steps place state ∧
    .lost ∉ follow driver (fetchOpen? code map span) steps place state := by
  induction steps generalizing place state with
  | zero => simp [follow]
  | succ steps ih =>
    obtain ⟨instr, next, next', entry, here, moved, goesOn, leads⟩ :=
      fetch_remains full inside map span remains
    simp only [follow, here, moved]
    by_cases jumps : instr.op.isJump = true
    · have ordinary : instr.op ≠ .ret := by
        intro returns
        rw [returns] at jumps
        exact absurd jumps (by decide)
      obtain ⟨remainsNext, rfl⟩ := goesOn ordinary
      simp only [moveFetched, jumps, if_true]
      cases driver.jump instr.op entry state with
      | none => simp
      | some decision =>
        obtain ⟨taken, state'⟩ := decision
        cases taken with
        | false =>
          obtain ⟨same, found⟩ := ih remainsNext state'
          exact ⟨congrArg _ same, by simpa using found⟩
        | true =>
          obtain ⟨same, found⟩ := ih (leads jumps) state'
          exact ⟨congrArg _ same, by simpa using found⟩
    · have unmoved : moveFetched code instr = instr := if_neg jumps
      rw [unmoved, if_neg jumps, if_neg jumps]
      by_cases returns : instr.op = .ret
      · simp [returns]
      · obtain ⟨remainsNext, rfl⟩ := goesOn returns
        rw [if_neg returns, if_neg returns]
        cases driver.act instr entry state with
        | none => simp
        | some state' =>
          obtain ⟨same, found⟩ := ih remainsNext state'
          exact ⟨congrArg _ same, by simpa using found⟩

end

/-- Tidying preserves meaning: every machine does the same along the tidied code as along the
code, which returns nothing at its end. The tidied code is whole instructions, its jumps lead to
its own instructions, and its last instruction is a return, so that nothing leads out of it. -/
theorem follow_tidy (code : ByteArray) (map : SourceMap) (span : Span) (full : DecodesFully code)
    (inside : JumpsInside code) :
    (∀ (σ : Type u) (driver : Driver σ) (steps : Nat) (state : σ),
      follow driver (fetchMapped? (tidy code map span).1 (tidy code map span).2) steps 0 state
          = follow driver (fetchOpen? code map span) steps 0 state ∧
        .lost ∉ follow driver (fetchMapped? (tidy code map span).1 (tidy code map span).2) steps 0
          state) ∧
    DecodesFully (tidy code map span).1 ∧
    (∀ jump ∈ (decode (tidy code map span).1).toList, ∀ target, jump.target? = some target →
      ∃ goal ∈ (decode (tidy code map span).1).toList, goal.pos = target) ∧
    (decode (tidy code map span).1).toList.getLast?.map PlacedInstr.op = some .ret := by
  obtain ⟨remains, start⟩ := remains_zero full
  refine ⟨?_, decodesFully_of_spells (spells_tidy full inside map span), ?_, ?_⟩
  · intro σ driver steps state
    obtain ⟨same, found⟩ := follow_remains full inside driver map span steps remains state
    rw [start] at same
    exact ⟨same, same ▸ found⟩
  · rw [decode_tidy full inside]
    exact fun jump member target leads => target_mem_tidied full inside member leads
  · rw [decode_tidy full inside]
    exact getLast?_tidied

/-- A body with a jump to its end and an instruction that no run reaches. -/
def leavingBody : ByteArray := ⟨#[2, 33, 9, 0, 0, 0, 113, 1, 4, 32, 14, 0, 0, 0]⟩

theorem decode_leavingBody :
    (decode leavingBody).toList = [⟨0, .true_, []⟩, ⟨1, .jumpFalsy, [9]⟩, ⟨6, .ret, [1]⟩,
      ⟨8, .pop, []⟩, ⟨9, .jump, [14]⟩] := by
  decide +kernel

theorem follow_tidy_leavingBody :
    DecodesFully leavingBody ∧ JumpsInside leavingBody ∧
      ∀ (driver : Driver Nat) (steps state : Nat),
        follow driver (fetchMapped? (tidy leavingBody {} default).1 (tidy leavingBody {} default).2)
            steps 0 state
          = follow driver (fetchOpen? leavingBody {} default) steps 0 state := by
  have full : DecodesFully leavingBody := by
    rw [DecodesFully, ← Array.foldl_toList, decode_leavingBody]
    rfl
  have inside : JumpsInside leavingBody := by
    unfold JumpsInside
    rw [decode_leavingBody]
    simp [PlacedInstr.target?, Opcode.isJump]
    decide
  refine ⟨full, inside, fun driver steps state => ?_⟩
  exact ((follow_tidy leavingBody {} default full inside).1 Nat driver steps state).1

end Skiff
