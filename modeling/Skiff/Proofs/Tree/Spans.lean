import Mathlib
import Skiff.Proofs.Tree.Script

/-!
# Spans of a script

Every node of a script that has been read has a span of its own in the text. The spans of its parts
are in it, one behind the other, and a name stands where its span says. Only a loop with one
variable has a part that stands nowhere: its key is blank, and has the span of the variable.
-/

namespace Skiff

open List Relation

namespace Node

/-- The nodes right below a node, and the blank key of a loop that has one variable. -/
def children : Node → List Node
  | stmt (.forEach _ key value iterable body) => [ident key, ident value, expr iterable, block body]
  | node => node.parts

/-- Only a blank key is in the place of the variable of a loop. -/
def Keyed : Node → Prop
  | stmt (.forEach _ key value _ _) => key.span = value.span → key.name = "_"
  | _ => True

/-- A node as the text of a file has it. -/
structure Faithful (text : String) (file : UInt16) (node : Node) : Prop where
  laid : node.span.Laid (.ofText text file) 0 text.utf8ByteSize
  inside : ∀ child ∈ node.children, node.span.start ≤ child.span.start ∧
    child.span.stop ≤ node.span.stop
  ascending : node.parts.Pairwise fun left right => left.span.stop ≤ right.span.start
  named : ∀ part ∈ node.parts, part.Named (.ofText text file)
  keyed : node.Keyed

variable {text : String} {file : UInt16} {node part child : Node}

/-- A node is a part of a loop, or its blank key, which has the span of one. -/
theorem part_of_child (member : child ∈ node.children) :
    child ∈ node.parts ∨ child.parts = [] ∧ child.Keyed ∧ ∃ part ∈ node.parts,
      part.span = child.span := by
  by_cases listed : child ∈ node.parts
  · exact .inl listed
  · refine .inr ?_
    unfold children at member
    split at member
    · rename_i span key value iterable body
      by_cases same : key.span = value.span
      · simp only [parts, ofStmt, if_pos same, nil_append] at listed ⊢
        obtain rfl | member := mem_cons.1 member
        · exact ⟨rfl, trivial, _, mem_cons_self .., same.symm⟩
        · exact absurd member listed
      · simp only [parts, ofStmt, if_neg same] at listed
        exact absurd member listed
    · exact absurd member listed

end Node

/-- A name that stands in a text takes space there. -/
theorem Layout.start_lt_stop {text : String} {file : UInt16} {span : Span} {name : String}
    (holds : (Layout.ofText text file).holds span name) : span.start < span.stop := by
  obtain ⟨nonempty, before, after, -, starts, stops⟩ := holds
  rw [byteLength_append, ← utf8ByteSize_eq] at stops
  have := mt String.utf8ByteSize_eq_zero_iff.1 nonempty
  omega

variable {text : String} {file : UInt16} {node : Node}

theorem Placed.keyed (placed : Placed (.ofText text file) node) : node.Keyed := by
  obtain ⟨named, row⟩ := placed
  unfold Node.Keyed
  split
  · rename_i span key value iterable body
    intro same
    have member : .ident value ∈ (Node.stmt (.forEach span key value iterable body)).parts :=
      mem_append_right _ (mem_cons_self ..)
    obtain ⟨-, holds, -⟩ := row.mem member
    have space : value.span.start < value.span.stop := Layout.start_lt_stop holds
    exact (named same).resolve_right (Nat.not_le_of_lt space)
  · trivial

/-- A node whose parts stand in its span, whether it has a place itself or not. -/
structure Node.Stands (text : String) (file : UInt16) (node : Node) : Prop where
  laid : node.span.Laid (.ofText text file) 0 text.utf8ByteSize
  row : Row (.ofText text file) node.span.start node.span.stop node.parts
  keyed : node.Keyed

namespace Node.Stands

variable (stands : node.Stands text file)
include stands

theorem part {part : Node} (member : part ∈ node.parts) : part.Stands text file := by
  obtain ⟨laid, placed⟩ := stands.row.mem member
  have keyed := placed.keyed
  obtain ⟨-, row⟩ := placed
  exact ⟨laid.widen (Nat.zero_le _) stands.laid.before, row, keyed⟩

theorem child {child : Node} (member : child ∈ node.children) : child.Stands text file := by
  obtain member | ⟨none, keyed, part, member, same⟩ := part_of_child member
  · exact stands.part member
  · have laid := (stands.part member).laid
    rw [same] at laid
    exact ⟨laid, none ▸ .nil laid.order, keyed⟩

theorem faithful : node.Faithful text file := by
  refine ⟨stands.laid, fun child member => ?_, stands.row.pairwise,
    fun part member => ?_, stands.keyed⟩
  · obtain member | ⟨-, -, part, member, same⟩ := part_of_child member
    · exact ⟨(stands.row.mem member).1.after, (stands.row.mem member).1.before⟩
    · rw [← same]
      exact ⟨(stands.row.mem member).1.after, (stands.row.mem member).1.before⟩
  · obtain ⟨named, -⟩ := (stands.row.mem member).2
    exact named

end Node.Stands

namespace Script

/-- A script as a block without braces. -/
def root (script : Script) : Node := .block (.mk script.span script.stmts)

variable {script : Script}

theorem stands_root (read : parse text file = .ok script) : script.root.Stands text file := by
  obtain ⟨after, holds⟩ := readScript_of_parse read
  exact ⟨holds.laid.widen le_rfl (Layout.edge_le holds.laid.stop), holds.row, trivial⟩

/-- Every node of a script that is read from a text is as the text has it. -/
theorem faithful_of_parse (read : parse text file = .ok script)
    (below : ReflTransGen (fun whole child => child ∈ whole.children) script.root node) :
    node.Faithful text file := by
  have stands : node.Stands text file := by
    induction below with
    | refl => exact stands_root read
    | tail _ member ih => exact ih.child member
  exact stands.faithful

/-- The blank key of a loop over a text that has two bytes. -/
theorem faithful_of_parse_loop :
    let text := "for x in \"é\" \x7b\x7d"
    let key : Ident := ⟨"_", ⟨4, 5, 7⟩⟩
    let loop := Stmt.forEach ⟨0, 16, 7⟩ key ⟨"x", ⟨4, 5, 7⟩⟩ (.literal ⟨9, 13, 7⟩ (.string "é"))
      (.mk ⟨14, 16, 7⟩ [])
    parse text 7 = .ok ⟨[loop], ⟨0, 16, 7⟩⟩ ∧ (Node.stmt loop).Faithful text 7 ∧
      (Node.ident key).Faithful text 7 := by
  intro text key loop
  have read : parse text 7 = .ok ⟨[loop], ⟨0, 16, 7⟩⟩ := by cbv
  have below := ReflTransGen.single (r := fun whole child => child ∈ Node.children whole)
    (a := root ⟨[loop], ⟨0, 16, 7⟩⟩) (b := .stmt loop) (mem_cons_self ..)
  exact ⟨read, faithful_of_parse read below, faithful_of_parse read (below.tail (mem_cons_self ..))⟩

end Script

end Skiff
