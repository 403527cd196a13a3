import Skiff.Tree.Basic

/-!
# Where the parts of a tree stand

The statements, blocks, expressions, identifiers and map keys of a tree are its nodes. A tree is
placed in a text if the span of every node starts and ends between characters of the text and holds
the spans of its parts, one behind the other.
-/

namespace Skiff

/-- A text as spans see it. -/
structure Layout where
  file : UInt16
  /-- The offsets between characters. -/
  edge : Nat → Prop
  /-- What stands in a span. -/
  holds : Span → String → Prop

/-- A span of a text between two offsets. -/
structure Span.Laid (layout : Layout) (lo hi : Nat) (span : Span) : Prop where
  file : span.file = layout.file
  start : layout.edge span.start
  stop : layout.edge span.stop
  after : lo ≤ span.start
  order : span.start ≤ span.stop
  before : span.stop ≤ hi

/-- What has a span of its own. -/
inductive Node where
  | expr (expr : Expr)
  | stmt (stmt : Stmt)
  | block (body : Block)
  | ident (ident : Ident)
  /-- A map key, or a token that is no part of a tree. -/
  | leaf (span : Span)

namespace Node

def span : Node → Span
  | expr value => value.span
  | stmt body => body.span
  | block body => body.span
  | ident name => name.span
  | leaf span => span

def ofEntry : Entry → List Node
  | .mk _ span value => [leaf span, expr value]

def ofNamed : NamedArg → List Node
  | .mk name value => [ident name, expr value]

def ofExpr : Expr → List Node
  | .literal .. | .name .. | .importModule .. => []
  | .array _ items => items.map expr
  | .map _ entries => entries.flatMap ofEntry
  | .func _ params _ body => params.map ident ++ [block body]
  | .unary _ _ operand => [expr operand]
  | .binary _ _ left right => [expr left, expr right]
  | .cond _ test yes no => [expr test, expr yes, expr no]
  | .call _ callee (.mk positional _ named namedSpread) => expr callee ::
    (positional.map expr ++ named.flatMap ofNamed ++ namedSpread.toList.map expr)
  | .index _ object index => [expr object, expr index]
  | .select _ object field => [expr object, ident field]
  | .slice _ object low high => expr object :: (low.toList.map expr ++ high.toList.map expr)
  | .paren _ inner | .error _ inner | .immutable _ inner => [expr inner]

def ofStmt : Stmt → List Node
  | .expr _ value | .publish _ value => [expr value]
  | .assign _ _ target value => [expr target, expr value]
  | .count _ _ target => [expr target]
  | .block body => [block body]
  | .cond _ init test yes no =>
    init.toList.map stmt ++ [expr test, block yes] ++ no.toList.map stmt
  | .loop _ init test post body =>
    init.toList.map stmt ++ test.toList.map expr ++ post.toList.map stmt ++ [block body]
  -- A loop with one variable has a key that stands nowhere.
  | .forEach _ key value iterable body =>
    (if key.span = value.span then [] else [ident key]) ++ [ident value, expr iterable, block body]
  | .result _ value => value.toList.map expr
  | .leave _ | .next _ | .empty _ => []

/-- The nodes right below a node, from left to right. -/
def parts : Node → List Node
  | expr value => ofExpr value
  | stmt body => ofStmt body
  | block body => body.stmts.map stmt
  | ident _ | leaf _ => []

/-- A name stands where it has been read. A loop has a key in the place of its variable only if it
has no other variable, and then that key is blank. -/
def Named (layout : Layout) : Node → Prop
  | ident name => layout.holds name.span name.name
  | expr (.name span name) => layout.holds span name
  | stmt (.forEach _ key value _ _) =>
    key.span = value.span → key.name = "_" ∨ value.span.stop ≤ value.span.start
  | _ => True

end Node

mutual

/-- A node whose parts stand in its span, as do theirs. -/
inductive Placed (layout : Layout) : Node → Prop where
  | mk {node : Node} (named : node.Named layout)
      (row : Row layout node.span.start node.span.stop node.parts) : Placed layout node

/-- Nodes that stand one behind the other between two offsets. -/
inductive Row (layout : Layout) : Nat → Nat → List Node → Prop where
  | nil {lo hi : Nat} (le : lo ≤ hi) : Row layout lo hi []
  | cons {lo mid hi : Nat} {node : Node} {nodes : List Node} (laid : node.span.Laid layout lo mid)
      (placed : Placed layout node) (rest : Row layout mid hi nodes) :
        Row layout lo hi (node :: nodes)

end

variable {layout : Layout} {lo lo' mid mid' hi hi' : Nat} {first last node : Node}
  {nodes nodes' : List Node} {span span' : Span}

theorem Span.Laid.widen (laid : span.Laid layout lo hi) (low : lo' ≤ lo) (high : hi ≤ hi') :
    span.Laid layout lo' hi' :=
  { laid with
    after := Nat.le_trans low laid.after
    before := Nat.le_trans laid.before high }

theorem Span.Laid.le (laid : span.Laid layout lo hi) : lo ≤ hi :=
  Nat.le_trans laid.after (Nat.le_trans laid.order laid.before)

/-- What covers two spans reaches from the start of the first to the end of the second. -/
theorem Span.Laid.merge (first : span.Laid layout lo mid) (second : span'.Laid layout mid hi) :
    span.merge span' = ⟨span.start, span'.stop, layout.file⟩ := by
  have low := Nat.le_trans first.order (Nat.le_trans first.before second.after)
  have high := Nat.le_trans (Nat.le_trans first.before second.after) second.order
  rw [Span.merge, if_pos (first.file.trans second.file.symm), Nat.min_eq_left low,
    Nat.max_eq_right high, first.file]

namespace Row

theorem none : Row layout lo lo [] := .nil (Nat.le_refl _)

theorem le (row : Row layout lo hi nodes) : lo ≤ hi := by
  induction nodes generalizing lo with
  | nil =>
    cases row with
    | nil le => exact le
  | cons node nodes ih =>
    cases row with
    | cons laid _ rest => exact Nat.le_trans laid.le (ih rest)

theorem widen (row : Row layout lo hi nodes) (low : lo' ≤ lo) (high : hi ≤ hi') :
    Row layout lo' hi' nodes := by
  induction nodes generalizing lo lo' with
  | nil => exact .nil (Nat.le_trans low (Nat.le_trans row.le high))
  | cons node nodes ih =>
    cases row with
    | cons laid placed rest =>
      exact .cons (laid.widen low (Nat.le_refl _)) placed (ih rest (Nat.le_refl _))

theorem append (row : Row layout lo mid nodes) (row' : Row layout mid hi nodes') :
    Row layout lo hi (nodes ++ nodes') := by
  induction nodes generalizing lo with
  | nil => exact row'.widen row.le (Nat.le_refl _)
  | cons node nodes ih =>
    cases row with
    | cons laid placed rest => exact .cons laid placed (ih rest)

theorem mem (row : Row layout lo hi nodes) (member : node ∈ nodes) :
    node.span.Laid layout lo hi ∧ Placed layout node := by
  induction nodes generalizing lo with
  | nil => cases member
  | cons first nodes ih =>
    cases row with
    | cons laid placed rest =>
      cases member with
      | head => exact ⟨laid.widen (Nat.le_refl _) rest.le, placed⟩
      | tail _ member =>
        obtain ⟨inside, placed⟩ := ih rest member
        exact ⟨inside.widen laid.le (Nat.le_refl _), placed⟩

theorem pairwise (row : Row layout lo hi nodes) :
    nodes.Pairwise fun left right => left.span.stop ≤ right.span.start := by
  induction nodes generalizing lo with
  | nil => exact .nil
  | cons first nodes ih =>
    cases row with
    | cons laid placed rest =>
      exact .cons (fun node member => Nat.le_trans laid.before (rest.mem member).1.after) (ih rest)

/-- Nodes can be left out. -/
theorem sublist (row : Row layout lo hi nodes) (some : nodes'.Sublist nodes) :
    Row layout lo hi nodes' := by
  induction some generalizing lo with
  | slnil => exact row
  | cons node _ ih =>
    cases row with
    | cons laid _ rest => exact (ih rest).widen laid.le (Nat.le_refl _)
  | cons_cons node _ ih =>
    cases row with
    | cons laid placed rest => exact .cons laid placed (ih rest)

/-- A node that reaches from one node to another one and has no parts but these and what stands
between them. -/
theorem wrap (before : Row layout lo mid [first]) (between : Row layout mid mid' nodes)
    (behind : Row layout mid' hi [last]) (same : node.span = first.span.merge last.span)
    (some : node.parts.Sublist (first :: (nodes ++ [last]))) (named : node.Named layout) :
    Row layout lo hi [node] := by
  cases before with
  | cons laid placed rest =>
    cases behind with
    | cons laid' placed' rest' =>
      have between := between.widen rest.le (Nat.le_refl _)
      rw [laid.merge (laid'.widen between.le (Nat.le_refl _))] at same
      have order := Nat.le_trans laid.before (Nat.le_trans between.le laid'.after)
      have all : Row layout first.span.start last.span.stop (first :: (nodes ++ [last])) :=
        .cons { laid with after := Nat.le_refl _ } placed
          (between.append (.cons { laid' with before := Nat.le_refl _ } placed'
            (.nil (Nat.le_refl _))))
      refine .cons ?_ (.mk named ?_) rest'
      · rw [same]
        exact ⟨rfl, laid.start, laid'.stop, laid.after,
          Nat.le_trans laid.order (Nat.le_trans order laid'.order), laid'.before⟩
      · rw [same]
        exact all.sublist some

theorem parts (row : Row layout lo hi [node]) : Row layout lo hi node.parts := by
  cases row with
  | cons laid placed rest =>
    cases placed with
    | mk named inner => exact inner.widen laid.after (Nat.le_trans laid.before rest.le)

/-- A node in the place of another one, which is its only part, if it has any. -/
theorem recast (row : Row layout lo hi [first]) (same : node.span = first.span)
    (some : node.parts.Sublist [first]) (named : node.Named layout) : Row layout lo hi [node] := by
  cases row with
  | cons laid placed rest =>
    have inner : Row layout first.span.start first.span.stop [first] :=
      .cons { laid with after := Nat.le_refl _, before := Nat.le_refl _ } placed
        (.nil (Nat.le_refl _))
    rw [← same] at laid inner
    exact .cons laid (.mk named (inner.sublist some)) rest

end Row

end Skiff
