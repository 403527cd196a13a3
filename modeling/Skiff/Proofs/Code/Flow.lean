import Skiff.Proofs.Code.Assemble
import Skiff.Proofs.Code.Tidy

/-!
# Fragments whose jumps stay inside

Every jump of a fragment leads to one of its pieces or to a place outside of it that is left open,
so that fragments can be put together. The operands of its instructions fit, if the numbers of the
variables do that they refer to. In the bytes of a whole body jumps lead to instructions or to the
end.
-/

namespace Skiff

/-- The operands of an item fit if numbers are small, and it goes on at a distance from its
place. -/
def CodeItem.Flows (small exits : Prop) (next : Int → Prop) : CodeItem → Prop
  | .instr op operands => op.isJump = false ∧ (small → op.fits operands = true)
  | .jump op distance => op.isJump = true ∧ next distance
  | .exit _ => exits

variable {small small' exits exits' : Prop} {next next' : Int → Prop}

theorem CodeItem.Flows.mono {item : CodeItem} (flows : item.Flows small exits next)
    (bound : small' → small) (exit : exits → exits')
    (nexts : ∀ {distance}, next distance → next' distance) : item.Flows small' exits' next' := by
  cases item with
  | instr op operands => exact ⟨flows.1, flows.2 ∘ bound⟩
  | jump op distance => exact ⟨flows.1, nexts flows.2⟩
  | exit kind => exact exit flows

namespace Fragment

/-- A fragment goes on at a place: outside of it, or with one of its pieces. -/
def Onward (code : Fragment) (next : Int → Prop) (place : Int) : Prop :=
  next place ∨ ∃ (inside : Nat) (piece : CodePiece), place = inside ∧ PieceAt code inside piece

/-- The pieces of a fragment lead to others, or to places outside. -/
structure Flows (small exits : Prop) (code : Fragment) (next : Int → Prop) : Prop where
  start : code.Onward next 0
  pieces {place : Nat} {piece : CodePiece} : PieceAt code place piece →
    piece.item.Flows small exits fun distance => code.Onward next (place + distance)

variable {code left right : Fragment} {span : Span} {op : Opcode} {operands : List Nat}

theorem Onward.mono {place : Int} (onward : code.Onward next place)
    (nexts : ∀ {place}, next place → next' place) : code.Onward next' place :=
  onward.imp_left nexts

theorem Flows.mono (flows : Flows small exits code next) (bound : small' → small)
    (exit : exits → exits')
    (nexts : ∀ {place}, next place → next' place) : Flows small' exits' code next' :=
  ⟨flows.start.mono nexts, fun here => (flows.pieces here).mono bound exit fun onward =>
    onward.mono nexts⟩

/-- One fragment behind another. -/
theorem Flows.append (first : Flows small exits left fun place =>
    place = left.byteSize ∨ next place)
    (second : Flows small exits right fun place => next (left.byteSize + place)) :
    Flows small exits (left ++ right) next := by
  have later {place : Int}
      (onward : right.Onward (fun place => next (left.byteSize + place)) place) :
      (left ++ right).Onward next (left.byteSize + place) := by
    rcases onward with outside | ⟨inside, piece, rfl, here⟩
    · exact .inl outside
    · exact .inr ⟨left.byteSize + inside, piece, by simp,
        pieceAt_append.2 (.inr ⟨inside, here, rfl⟩)⟩
  have earlier {place : Int}
      (onward : left.Onward (fun place => place = left.byteSize ∨ next place) place) :
      (left ++ right).Onward next place := by
    rcases onward with (rfl | outside) | ⟨inside, piece, rfl, here⟩
    · simpa using later second.start
    · exact .inl outside
    · exact .inr ⟨inside, piece, rfl, pieceAt_append.2 (.inl here)⟩
  refine ⟨earlier first.start, fun here => ?_⟩
  rcases pieceAt_append.1 here with inLeft | ⟨rest, inRight, rfl⟩
  · exact (first.pieces inLeft).mono id id earlier
  · refine (second.pieces inRight).mono id id fun onward => ?_
    have onward := later onward
    rwa [← Int.add_assoc, ← Int.natCast_add] at onward

theorem Flows.empty (outside : next 0) : Flows small exits #[] next :=
  ⟨.inl outside, fun here => absurd here not_pieceAt_empty⟩

/-- A fragment of one piece. -/
theorem Flows.single {piece : CodePiece} (flows : piece.item.Flows small exits next) :
    Flows small exits #[piece] next := by
  refine ⟨.inr ⟨0, piece, rfl, pieceAt_singleton.2 ⟨rfl, rfl⟩⟩, fun here => ?_⟩
  obtain ⟨rfl, rfl⟩ := pieceAt_singleton.1 here
  exact flows.mono id id fun outside => .inl (by simpa using outside)

/-- A jump that leads somewhere. -/
theorem Flows.jump {distance : Int} (jumps : op.isJump = true) (target : next distance) :
    Flows small exits (Fragment.jump span op distance) next :=
  .single ⟨jumps, target⟩

/-- A fragment that is run again and again. -/
theorem Flows.again {body : Fragment}
    (flows : Flows small exits body fun place => place = body.byteSize ∨ next place) :
    Flows small exits (body ++ Fragment.jump span .jump (-(body.byteSize : Int))) next := by
  have onwards {place : Int}
      (onward : body.Onward (fun place => place = body.byteSize ∨ next place) place) :
      (body ++ Fragment.jump span .jump (-(body.byteSize : Int))).Onward next place := by
    rcases onward with (rfl | outside) | ⟨inside, piece, rfl, here⟩
    · exact .inr ⟨_, _, rfl, pieceAt_append.2 (.inr ⟨0, pieceAt_singleton.2 ⟨rfl, rfl⟩, rfl⟩)⟩
    · exact .inl outside
    · exact .inr ⟨inside, piece, rfl, pieceAt_append.2 (.inl here)⟩
  refine ⟨onwards flows.start, fun here => ?_⟩
  rcases pieceAt_append.1 here with inBody | ⟨rest, isJump, rfl⟩
  · exact (flows.pieces inBody).mono id id onwards
  · obtain ⟨rfl, rfl⟩ := pieceAt_singleton.1 isJump
    refine ⟨rfl, ?_⟩
    have back : ((body.byteSize + 0 : Nat) : Int) + -(body.byteSize : Int) = 0 := by omega
    dsimp only
    rw [back]
    exact onwards flows.start

/-- A loop body whose exits lead somewhere. -/
theorem Flows.closeExits {body : Fragment} {leave stop : Nat} (flows : Flows small exits body next)
    (leaves : next leave) (nexts : next stop) :
    Flows small exits' (body.closeExits leave stop) next := by
  have onwards {place : Int} (onward : body.Onward next place) :
      (body.closeExits leave stop).Onward next place := by
    rcases onward with outside | ⟨inside, piece, rfl, here⟩
    · exact .inl outside
    · exact .inr ⟨inside, _, rfl, pieceAt_closeExits.2 ⟨piece, here, rfl⟩⟩
  refine ⟨onwards flows.start, fun {place _} here => ?_⟩
  obtain ⟨⟨item, span⟩, inside, rfl⟩ := pieceAt_closeExits.1 here
  have flow := flows.pieces inside
  have jumps {target : Nat} (outside : next target) :
      (CodeItem.jump .jump ((target : Int) - place)).Flows small exits'
        fun distance => (body.closeExits leave stop).Onward next (place + distance) := by
    have same : (place : Int) + ((target : Int) - place) = target := by omega
    refine ⟨rfl, ?_⟩
    dsimp only
    rw [same]
    exact .inl outside
  cases item with
  | instr op operands => exact flow
  | jump op distance => exact ⟨flow.1, onwards flow.2⟩
  | exit kind =>
    cases kind with
    | leave => exact jumps leaves
    | next => exact jumps nexts

/-! ## Fragments that are run to their end -/

/-- A fragment leads to its end. -/
def Leads (small exits : Prop) (code : Fragment) : Prop :=
  Flows small exits code fun place => place = code.byteSize

theorem Leads.mono (leads : Leads small exits code) (bound : small' → small) :
    Leads small' exits code :=
  Flows.mono leads bound id id

/-- A fragment outside of loops has no exits. -/
theorem Leads.closed (leads : Leads small exits code) (none : ¬exits) : Leads small False code :=
  Flows.mono leads id none id

/-- What a fragment leads to outside of others. -/
theorem Leads.flows (leads : Leads small exits code) (outside : next code.byteSize) :
    Flows small exits code next :=
  Flows.mono leads id id (by rintro _ rfl; exact outside)

theorem Leads.empty : Leads small exits #[] := Flows.empty rfl

theorem Leads.append (first : Leads small exits left) (second : Leads small exits right) :
    Leads small exits (left ++ right) :=
  Flows.append (first.flows (.inl rfl)) (second.flows (by simp))

theorem Leads.one (plain : op.isJump = false) (fits : small → op.fits operands = true) :
    Leads small exits (Fragment.instr span op operands) :=
  Flows.single ⟨plain, fits⟩

/-- An instruction behind a fragment. -/
theorem Leads.instr (leads : Leads small exits code) (plain : op.isJump = false)
    (fits : small → op.fits operands = true) :
    Leads small exits (code ++ Fragment.instr span op operands) :=
  leads.append (.one plain fits)

theorem Leads.exit {kind : LoopExit} (here : exits) : Leads small exits (Fragment.exit span kind) :=
  Flows.single here

theorem size_of_isJump (jumps : op.isJump = true) : op.size = jumpSize := by
  rw [Opcode.size, Opcode.widths_of_isJump jumps]
  rfl

theorem Leads.shortCircuit {first second : Fragment} (jumps : op.isJump = true)
    (firsts : Leads small exits first) (seconds : Leads small exits second) :
    Leads small exits (.shortCircuit span op first second) := by
  have size := size_of_isJump jumps
  refine Flows.append (.append (firsts.flows (.inl rfl)) (.jump jumps ?_)) (seconds.flows ?_)
  · right
    simp only [Fragment.shortCircuit, byteSize_append, byteSize_jump, size]
    omega
  · simp only [Fragment.shortCircuit, byteSize_append]
    omega

theorem Leads.guarded {test yes : Fragment} (tests : Leads small exits test)
    (yeses : Leads small exits yes) : Leads small exits (.guarded span test yes) :=
  shortCircuit rfl tests yeses

theorem Leads.choice {test yes no : Fragment} (tests : Leads small exits test)
    (yeses : Leads small exits yes) (noes : Leads small exits no) :
    Leads small exits (.choice span test yes no) := by
  have size : Opcode.jumpFalsy.size = jumpSize := rfl
  have size' : Opcode.jump.size = jumpSize := rfl
  refine Flows.append (.append (.append (.append (tests.flows (.inl rfl)) (.jump rfl ?_))
    (yeses.flows ?_)) (.jump rfl ?_)) (noes.flows ?_)
  · right; right; left
    simp only [byteSize_append, byteSize_jump, size, size']
    omega
  · left
    simp only [byteSize_append]
    omega
  · right
    simp only [Fragment.choice, byteSize_append, byteSize_jump, size, size']
    omega
  · simp only [Fragment.choice, byteSize_append]
    omega

/-- A loop, whose exits are closed. -/
theorem Leads.loop {test : Option Fragment} {body step : Fragment}
    (tests : ∀ code ∈ test, Leads small exits code) (bodies : Leads small exits' body)
    (steps : Leads small exits step) : Leads small exits (.loop span test body step) := by
  let rest := body.byteSize + step.byteSize + jumpSize
  let head : Fragment := test.elim #[] fun test =>
    test ++ Fragment.jump span .jumpFalsy (jumpSize + rest)
  have size : (head ++ body.closeExits rest body.byteSize ++ step).byteSize
      = head.byteSize + body.byteSize + step.byteSize := by
    simp only [byteSize_append, byteSize_closeExits]
  have whole : Fragment.loop span test body step = head ++
      body.closeExits rest body.byteSize ++ step
      ++ Fragment.jump span .jump
        (-((head ++ body.closeExits rest body.byteSize ++ step).byteSize : Int)) := by
    rw [size]
    rfl
  have heads {next : Int → Prop} (behind : next head.byteSize)
      (stop : next (head.byteSize + rest)) : Flows small exits head next := by
    cases test with
    | none => exact Flows.empty behind
    | some test =>
      have headSize : head.byteSize = test.byteSize + jumpSize := by
        simp only [head, Option.elim_some, byteSize_append, byteSize_jump]
        rfl
      refine Flows.append ((tests test rfl).flows (.inl rfl)) (.jump rfl ?_)
      have same : (test.byteSize : Int) + (jumpSize + rest) = (head.byteSize : Int) + rest := by
        omega
      rw [same]
      exact stop
  have stop {place : Int} (same : place = head.byteSize + rest) :
      place = (Fragment.loop span test body step).byteSize := by
    rw [same, whole, byteSize_append, size, byteSize_jump]
    simp only [rest, jumpSize]
    omega
  unfold Leads
  generalize (Fragment.loop span test body step).byteSize = total at stop ⊢
  rw [whole]
  refine Flows.again (.append (.append (heads (.inl rfl) ?_) (.closeExits (bodies.flows ?_) ?_ ?_))
    (steps.flows ?_))
  · exact .inr (.inr (.inr (stop rfl)))
  · exact .inl (by simp [byteSize_closeExits])
  · exact .inr (.inr (stop rfl))
  · exact .inl (by simp [byteSize_closeExits])
  · exact .inl (by simp only [byteSize_append]; omega)

/-! ## Bodies -/

variable {body : Fragment}

/-- The operands of a body fit, jump targets included. -/
theorem Leads.fits (leads : Leads small False body) (bound : small)
    (short : body.byteSize < 2 ^ 32) : body.fits = true := by
  rw [fits_iff]
  intro place piece here
  have flows := leads.pieces here
  obtain ⟨item, span⟩ := piece
  cases item with
  | instr op operands => exact flows.2 bound
  | jump op distance =>
    -- A jump leads to a piece or to the end, which is not too far away.
    have target : ((place : Int) + distance).toNat < 2 ^ 32 := by
      rcases flows.2 with same | ⟨inside, piece, same, goal⟩
      · rw [same]
        simpa using short
      · have before := goal.lt
        rw [same, Int.toNat_natCast]
        omega
    rw [CodeItem.fits, Opcode.fits, Opcode.widths_of_isJump flows.1, Opcode.fitWidths,
      Opcode.fitWidths, Bool.and_true]
    exact decide_eq_true target
  | exit kind => exact flows.elim

/-- In the bytes of a body jumps lead to instructions or to the end. -/
theorem Leads.jumpsInside (leads : Leads small False body) (fits : body.fits = true) :
    JumpsInside body.assemble.1 := by
  intro instr member target leadsTo
  obtain ⟨place, ⟨item, span⟩, here, rfl⟩ := (mem_decode_assemble fits).1 member
  have flows := leads.pieces here
  cases item with
  | instr op operands =>
    rw [PlacedInstr.target?,
      if_neg (by rw [instrAt, CodeItem.placed, flows.1]; exact Bool.false_ne_true)] at leadsTo
    cases leadsTo
  | jump op distance =>
    have found : ((place : Int) + distance).toNat = target := by
      rw [PlacedInstr.target?, if_pos (by exact flows.1)] at leadsTo
      exact Option.some.inj leadsTo
    rcases flows.2 with same | ⟨inside, piece, same, goal⟩
    · left
      rw [same, Int.toNat_natCast] at found
      rw [size_assemble fits, found]
    · rw [same, Int.toNat_natCast] at found
      exact .inr ⟨instrAt inside piece, instrAt_mem fits goal, found⟩
  | exit kind => exact flows.elim

end Fragment

end Skiff
