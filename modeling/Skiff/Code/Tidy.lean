import Std.Data.HashMap
import Std.Data.HashSet
import Skiff.Code.Instr
import Skiff.Code.SourceMap

/-!
# Tidying function bodies

Instructions behind a return cannot be reached before the next jump target and are dropped. The
jumps are pointed at the new places of their targets. A body that can run off its end, or a jump
that leads there, gets a return at the end.
-/

namespace Skiff

/-- Adds where an instruction may jump to. -/
def addTarget (targets : Std.HashSet Nat) (instr : PlacedInstr) : Std.HashSet Nat :=
  match instr.target? with
  | some target => targets.insert target
  | none => targets

/-- The offsets that jumps lead to. -/
def jumpTargets (instrs : Array PlacedInstr) : Std.HashSet Nat := instrs.foldl addTarget {}

/-- Keeps an instruction, unless a return stands before it and no jump leads to it. -/
def keepInstr (targets : Std.HashSet Nat) :
    Array PlacedInstr × Bool → PlacedInstr → Array PlacedInstr × Bool
  | (kept, dead), instr =>
    let dead := dead && !targets.contains instr.pos
    if dead then (kept, true) else (kept.push instr, instr.op == .ret)

/-- Which instructions remain: those behind a return are dropped up to the next jump target. -/
def reachable (targets : Std.HashSet Nat) (instrs : Array PlacedInstr) : Array PlacedInstr :=
  (instrs.foldl (keepInstr targets) (#[], false)).1

/-- Gives an instruction the next place. -/
def placeInstr : Std.HashMap Nat Nat × Nat → PlacedInstr → Std.HashMap Nat Nat × Nat
  | (moved, pos), instr => (moved.insert instr.pos pos, pos + instr.size)

/-- The new offsets of the remaining instructions by their old ones, and the new end. -/
def newOffsets (kept : Array PlacedInstr) : Std.HashMap Nat Nat × Nat :=
  kept.foldl placeInstr ({}, 0)

/-- An instruction with its jump target, if it has one, at the new place. A target that has no
new place is the end. -/
def retarget (moved : Std.HashMap Nat Nat) (stop : Nat) (instr : PlacedInstr) : List UInt8 :=
  match instr.target? with
  | some target => instr.op.encode [moved.getD target stop]
  | none => instr.encode

/-- Tidies a function body. The span is that of the return that may be added. -/
def tidy (code : ByteArray) (map : SourceMap) (span : Span) : ByteArray × SourceMap :=
  let instrs := decode code
  let kept := reachable (jumpTargets instrs) instrs
  let (moved, stop) := newOffsets kept
  let tidied := kept.foldl (fun bytes instr =>
    (retarget moved stop instr).foldl ByteArray.push bytes) ByteArray.empty
  let map := map.entries.foldl (fun tidied (offset, span) =>
    match moved[offset]? with
    | some offset => tidied.insert offset span
    | none => tidied) ({} : SourceMap)
  let leadsToEnd := kept.any fun instr =>
    match instr.target? with
    | some target => !moved.contains target
    | none => false
  let returns := (kept.back?.map (·.op)) == some .ret
  if returns && !leadsToEnd then (tidied, map)
  else ((Opcode.ret.encode [0]).foldl ByteArray.push tidied, map.insert stop span)

end Skiff
