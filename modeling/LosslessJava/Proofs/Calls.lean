import LosslessJava.Proofs.Chains

/-! What the promises of the rules that have a name come to where they are called. -/

namespace LosslessJava.Grammar

open LosslessJava.Parser

variable {scope : Scope} {α : Type} {i rank : Nat}

theorem settles_call (name : Nonterminal α) (lower : name.rank < rank) {s : State}
    (good : s.Good scope.env) (room : scope.Room rank s.position) (pre : name.Pre scope.env s) :
    scope.Settles (call name) s fun a t => State.After scope.env s t ∧ name.Post scope.env s a t :=
  scope.called name s good (by simp only [Scope.Room] at room; omega) pre

theorem Keeps.call (name : Nonterminal α) (lower : name.rank < rank) {post : α → Nat → Prop}
    (room : scope.Room rank i) (pre : ∀ s : State, s.position = i → name.Pre scope.env s)
    (promise : ∀ s a t, s.position = i → name.Post scope.env s a t → post a t.position) :
    Keeps scope i (Parser.call name) post := fun s good here =>
  (settles_call name lower good (here ▸ room) (pre s here)).weaken fun a t _ ⟨after, holds⟩ =>
    ⟨after, promise s a t here holds⟩

theorem Steady.call (name : Nonterminal α) (lower : name.rank < rank)
    (pre : ∀ s, name.Pre scope.env s) : Steady scope rank (Parser.call name) := fun _ room =>
  .call name lower room (fun s _ => pre s) fun _ _ _ _ _ => trivial

theorem type_steady : Steady scope 1 (call .type) := .call _ (Nat.lt_succ_self _) fun _ => trivial

theorem pattern_steady : Steady scope 2 (call .pattern) := .call _ (Nat.lt_succ_self _) fun _ => trivial

theorem unary_steady : Steady scope 3 (call .unary) := .call _ (Nat.lt_succ_self _) fun _ => trivial

theorem terminator_steady (form : Option Kind) : Steady scope 1 (call (.terminator form)) :=
  .call _ (Nat.lt_succ_self _) fun _ => trivial

theorem block_steady : Steady scope 1 (call .block) := .call _ (Nat.lt_succ_self _) fun _ => trivial

theorem statement_steady : Steady scope 4 (call .statement) := .call _ (Nat.lt_succ_self _) fun _ => trivial

theorem classBody_steady {kind : Kind} (node : kind.isNode) :
    Steady scope 1 (call (.classBody kind)) := .call _ (Nat.lt_succ_self _) fun _ => node

theorem clauses_steady {forms : List ClauseForm}
    (proper : ∀ form ∈ forms, form.1.isToken ∧ form.1 ≠ .eof ∧ form.2.isNode) :
    Steady scope 1 (call (.clauses forms)) := .call _ (Nat.lt_succ_self _) fun _ => proper

theorem type_finds (room : scope.Room 1 i) :
    Finds scope i (call .type) fun found j => found = true → i < j := fun s good here =>
  (settles_call .type (by decide) good (here ▸ room) trivial).weaken fun found t _ ⟨after, heads, _⟩ =>
    ⟨after, fun first same => (heads first same).2, fun some => by
      obtain ⟨first, same⟩ := Option.isSome_iff_exists.mp some
      exact here ▸ (heads first same).1⟩

theorem pattern_finds (room : scope.Room 2 i) :
    Finds scope i (call .pattern) fun found j => found = true → i < j := fun s good here =>
  (settles_call .pattern (by decide) good (here ▸ room) trivial).weaken fun found t _ ⟨after, heads⟩ =>
    ⟨after, fun first same => (heads first same).2, fun some => by
      obtain ⟨first, same⟩ := Option.isSome_iff_exists.mp some
      exact here ▸ (heads first same).1⟩

theorem typeArg_yields : Yields scope 2 (call .typeArg) id := fun _ room =>
  .call .typeArg (by decide) room (fun _ _ => trivial) fun _ _ _ here moves => here ▸ moves

theorem elementValue_yields : Yields scope 4 (call .elementValue) id := fun _ room =>
  .call .elementValue (by decide) room (fun _ _ => trivial) fun _ _ _ here moves => here ▸ moves

theorem expression_yields {least : Power} :
    Yields scope 3 (call (.expression least)) Option.isSome := fun _ room =>
  .call (.expression least) (Nat.lt_succ_self _) room (fun _ _ => trivial) fun _ _ _ here moves some => by
    obtain ⟨first, same⟩ := Option.isSome_iff_exists.mp some
    exact here ▸ (moves.2.1 first same).1

theorem anyExpression_yields : Yields scope 3 anyExpression Option.isSome := expression_yields

theorem arrayInitializer_moves (room : scope.Room 1 i)
    (here : (scope.cursor i).current = .leftBrace) :
    Keeps scope i (call .arrayInitializer) fun _ j => i < j :=
  .call .arrayInitializer (by decide) room (fun _ same => by subst same; exact here)
    fun _ _ _ same moves => same ▸ moves

theorem lambdaParamList_moves (room : scope.Room 1 i)
    (here : (scope.cursor i).current = .leftParen) :
    Keeps scope i (call .lambdaParamList) fun _ j => i < j :=
  .call .lambdaParamList (by decide) room (fun _ same => by subst same; exact here)
    fun _ _ _ same moves => same ▸ moves

end LosslessJava.Grammar
