/-!
# Cancellation

Work is cancelled through tokens that form a forest: cancelling a token cancels every token below
it, and a token made below a cancelled one is cancelled from the start. A cancelled token stays so.
-/

namespace Telemetry

/-- One token: the token it was made below, which is an earlier one, and whether it is cancelled. -/
structure Token where
  /-- The position of the token above, if there is one. -/
  parent : Option Nat
  /-- Whether the token is cancelled. -/
  cancelled : Bool
deriving DecidableEq, Repr

/-- The tokens made so far, in the order they were made. -/
abbrev Tokens := Array Token

namespace Tokens

/-- Whether a token is cancelled. -/
def isCancelled (ts : Tokens) (i : Nat) : Bool := (ts[i]?).any Token.cancelled

/-- Makes a token of its own. -/
def root (ts : Tokens) : Nat × Tokens := (ts.size, ts.push ⟨none, false⟩)

/-- Makes a token below another. -/
def child (ts : Tokens) (parent : Nat) : Nat × Tokens :=
  (ts.size, ts.push ⟨some parent, ts.isCancelled parent⟩)

/-- Cancels the token at a position if it is the target or the token above it is cancelled. -/
def cancelAt (target : Nat) (ts : Tokens) (i : Nat) : Tokens :=
  let hit := i = target || (ts[i]?).any fun t => t.parent.any ts.isCancelled
  if hit then ts.modify i fun t => { t with cancelled := true } else ts

/-- Cancels a token and every token below it. Those lie behind it, each behind the one above it, so
that one pass over them is enough. -/
def cancel (ts : Tokens) (target : Nat) : Tokens :=
  (List.range' target (ts.size - target)).foldl (cancelAt target) ts

end Tokens

/-- A step of a program that works with named tokens. -/
inductive TokenStep
  | new (name : String)
  | child (name parent : String)
  | share (name source : String)
  | drop (name : String)
  | cancel (name : String)

/-- Tokens and the names under which they are held. -/
structure NamedTokens where
  /-- The tokens made so far. -/
  tokens : Tokens
  /-- The token held under each name. -/
  names : List (String × Nat)

namespace NamedTokens

/-- No tokens. -/
def empty : NamedTokens := ⟨#[], []⟩

/-- Holds a token under a name, whatever was held there before. -/
def hold (s : NamedTokens) (name : String) (i : Nat) (tokens : Tokens) : NamedTokens :=
  ⟨tokens, s.names.filter (·.1 != name) ++ [(name, i)]⟩

/-- Carries out a step; one that refers to a name without a token changes nothing. -/
def step (s : NamedTokens) : TokenStep → NamedTokens
  | .new name => let (i, ts) := s.tokens.root; s.hold name i ts
  | .child name parent => (s.names.lookup parent).elim s fun p =>
      let (i, ts) := s.tokens.child p
      s.hold name i ts
  | .share name source => (s.names.lookup source).elim s fun i => s.hold name i s.tokens
  | .drop name => { s with names := s.names.filter (·.1 != name) }
  | .cancel name => (s.names.lookup name).elim s fun i => { s with tokens := s.tokens.cancel i }

/-- Whether each name's token is cancelled. -/
def report (s : NamedTokens) : List (String × Bool) :=
  s.names.map fun (name, i) => (name, s.tokens.isCancelled i)

end NamedTokens

end Telemetry
