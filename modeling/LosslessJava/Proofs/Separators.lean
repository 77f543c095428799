import LosslessJava.Proofs.Elements

/-! Commas in lists. In a parse without diagnostics the elements of a list are nodes with commas between them, and behind
the last one stands at most one comma more. -/

namespace LosslessJava

open LosslessJava.Tree LosslessJava.Shape

/-- The brackets of a list whose elements are separated by commas. -/
def Kind.listBrackets? : Kind → Option (Kind × Kind)
  | .argList | .paramList | .lambdaParamList | .recordHeader | .patternList => some (.leftParen, .rightParen)
  | .typeParamList | .typeArgList => some (.lt, .gt)
  | _ => none

private theorem Kind.Admits.listed {kind : Kind} {row : List Kind} {brackets : Kind × Kind} (admits : kind.Admits row)
    (list : kind.listBrackets? = some brackets) : Listed brackets.1 brackets.2 (kind != .lambdaParamList) row := by
  cases kind <;> first | cases list; exact admits | cases list; exact admits.1 | cases list

variable {entry : EntryPoint} {text : String} {options : ParseOptions} {parse : Parse}

/-- Where nothing is reported, the elements of a list are nodes with commas between them. A comma may stand behind the
last one, but not behind the last parameter of a lambda. -/
theorem Parse.lists_separated (parsed : entry.parse text options = .ok parse) (clean : parse.diagnostics = []) :
    ∀ node ∈ parse.tree.allNodes, ∀ brackets ∈ node.kind.listBrackets?,
      Kind.Listed brackets.1 brackets.2 (node.kind != .lambdaParamList) (node.elements.map Element.kind) := by
  intro node member brackets list
  obtain ⟨-, _, _, sound⟩ := Parse.sound_of_clean parsed clean
  obtain ⟨id, inside, rfl⟩ := List.mem_map.mp member
  obtain ⟨kind, children, shows, holds, -⟩ := sound.find (List.mem_range.mp inside)
  rw [kinds_of_shows shows.elements]
  rw [shows.kind_eq] at list ⊢
  exact holds.admits.listed list

/-- A lambda with a call in its body. -/
theorem Parse.lists_separated_lambda :
    ∃ parse, EntryPoint.expression.parse "(a, b) -> f(a, b)" {} = .ok parse ∧
      ∀ node ∈ parse.tree.allNodes, ∀ brackets ∈ node.kind.listBrackets?,
        Kind.Listed brackets.1 brackets.2 (node.kind != .lambdaParamList) (node.elements.map Element.kind) := by
  have found : Parse.givesWithin 600 (·.diagnostics.isEmpty) Grammar.expressionRoot (.lex "(a, b) -> f(a, b)") {} = true := by
    decide +kernel
  obtain ⟨parse, ran, clean⟩ := Parse.run_of_givesWithin found
  have parsed : EntryPoint.expression.parse "(a, b) -> f(a, b)" {} = .ok parse := ran
  exact ⟨parse, parsed, Parse.lists_separated parsed (by simpa using clean)⟩

/-- A comma behind the last argument is taken without a diagnostic. -/
theorem Parse.trailing_comma_taken :
    ∃ parse, EntryPoint.expression.parse "f(a,)" {} = .ok parse ∧ parse.diagnostics = [] ∧ ∃ node ∈ parse.tree.allNodes,
      node.kind = .argList ∧ node.elements.map Element.kind = [.leftParen, .nameExpr, .comma, .rightParen] := by
  have found : Parse.givesWithin 600 (fun parse => parse.diagnostics.isEmpty && parse.tree.allNodes.any fun node =>
      node.kind == .argList && node.elements.map Element.kind == [.leftParen, .nameExpr, .comma, .rightParen])
      Grammar.expressionRoot (.lex "f(a,)") {} = true := by decide +kernel
  obtain ⟨parse, ran, holds⟩ := Parse.run_of_givesWithin found
  simp only [Bool.and_eq_true, List.isEmpty_iff, List.any_eq_true, beq_iff_eq] at holds
  exact ⟨parse, ran, holds⟩

end LosslessJava
