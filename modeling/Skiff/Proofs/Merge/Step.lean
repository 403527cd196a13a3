import Skiff.Proofs.Merge.Call

/-!
# Instructions before and after merging

An instruction and the one with the new number of its constant do the same to corresponding
machines. Only making a function changes which functions there are; everything else keeps the
relation of machines as it is.
-/

namespace Skiff

namespace Merging

variable {merging : Merging} {stock : Stock}

theorem execute (lawful : merging.Lawful) (depth : Nat) {instr : Fetched}
    (stays : instr.op.isJump = false) (plain : instr.op ≠ .closure)
    (constants : instr.op = .const → instr.first < merging.before.constants.size) :
    Sim (merging.frames stock) (merging.bond stock).Signals (Exec.execute depth instr)
      (Exec.execute depth (merging.renumbered instr)) := by
  by_cases takes : instr.op = .const
  · obtain ⟨op, first, second⟩ := instr
    subst takes
    refine Sim.bind (constant lawful (Array.getElem?_eq_getElem (constants rfl))) fun values => ?_
    exact Logic.andNext ((stack lawful).push values.2)
  · have kept : merging.renumbered instr = instr := by
      obtain ⟨op, first, second⟩ := instr
      cases op <;> first | rfl | exact absurd rfl takes | exact absurd rfl plain
    rw [kept]
    exact (calls lawful).execute depth trivial stays ⟨takes, plain⟩

/-- Instructions that may go to another place. -/
theorem executeJump (depth : Nat) {code : ByteArray} {instr : Fetched}
    (jumps : instr.op.isJump = true) (place : AtInstr code instr.first) :
    Sim (merging.framesIn stock code) (merging.bond stock).Signals (Exec.execute depth instr)
      (Exec.execute depth instr) :=
  (merging.logicIn stock code).executeJump jumps popIn topIn (jump place)

/-- One step of corresponding machines. -/
theorem step (lawful : merging.Lawful) (depth : Nat) :
    merging.Grows stock (fun later => (merging.bond later).Signals) (Exec.step depth)
      (Exec.step depth) := by
  intro machine machine' same
  have fetched := fetch lawful _ _ ⟨same, rfl⟩
  simp only [Exec.step, Bind.bind, EStateM.bind]
  generalize Exec.fetch machine = left, Exec.fetch machine' = right at fetched
  cases fetched with
  | error failures states => exact ⟨stock, .refl stock, .error failures states.1⟩
  | limit reached => exact reached.elim
  | @ok instr _ _ _ instrs states =>
    obtain ⟨rfl, sound⟩ := instrs
    by_cases jumps : instr.op.isJump = true
    · have kept : merging.renumbered instr = instr := by
        obtain ⟨op, first, second⟩ := instr
        cases op <;> first | rfl | cases jumps
      dsimp only
      rw [kept]
      exact ⟨stock, .refl stock,
        leave (executeJump depth jumps (sound.jumps jumps)) states.1 states.2⟩
    · by_cases makes : instr.op = .closure
      · obtain ⟨op, first, second⟩ := instr
        subst makes
        obtain ⟨ref, found⟩ := sound.closures rfl
        exact closure lawful found _ _ states.1
      · exact ⟨stock, .refl stock,
          execute lawful depth (by simpa using jumps) makes sound.constants _ _ states.1⟩

end Merging

end Skiff
