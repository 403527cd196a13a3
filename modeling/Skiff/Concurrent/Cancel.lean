/-!
# Cancellation

Tokens tell tasks to stop. A token may be the child of another, and is then cancelled together
with it until it is detached. Tokens are numbered in the order in which they were made, so
parents come before their children.
-/

namespace Skiff

structure CancelToken where
  parent : Option Nat := none
  cancelled : Bool := false
  /-- Whether the token still hears its parent. -/
  attached : Bool := true
  deriving DecidableEq, Repr, Inhabited

/-- A short text about a token. -/
def CancelToken.describe (token : CancelToken) : String :=
  s!"CancelToken(cancelled={token.cancelled})"

structure CancelTokens where
  tokens : Array CancelToken := #[]
  deriving DecidableEq, Repr, Inhabited

namespace CancelTokens

def isCancelled (set : CancelTokens) (id : Nat) : Bool :=
  match set.tokens[id]? with
  | some token => token.cancelled
  | none => false

/-- A new token without a parent. -/
def add (set : CancelTokens) : CancelTokens × Nat :=
  (⟨set.tokens.push {}⟩, set.tokens.size)

/-- A new child of a token; the child of a cancelled token is cancelled. -/
def child (set : CancelTokens) (parent : Nat) : CancelTokens × Nat :=
  (⟨set.tokens.push { parent := some parent, cancelled := set.isCancelled parent }⟩,
    set.tokens.size)

/-- Makes a token deaf to its parent. -/
def detach (set : CancelTokens) (id : Nat) : CancelTokens :=
  ⟨set.tokens.modify id fun token => { token with attached := false }⟩

/-- Whether a token hears a cancelled parent among the tokens before it. -/
def hears (before : Array CancelToken) (token : CancelToken) : Bool :=
  token.attached && match token.parent.bind (before[·]?) with
    | some parent => parent.cancelled
    | none => false

/-- Cancels a token and, parents first, all that hear it. -/
def cancel (set : CancelTokens) (id : Nat) : CancelTokens :=
  let marked := set.tokens.modify id fun token => { token with cancelled := true }
  ⟨marked.foldl (fun before token =>
    before.push (if hears before token then { token with cancelled := true } else token)) #[]⟩

end CancelTokens

end Skiff
