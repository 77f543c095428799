import LosslessJava.Parse
import LosslessJava.Proofs.Evaluation
import LosslessJava.Proofs.Lexing
import LosslessJava.Proofs.State

/-! The two ways to parse a text. A text makes a regular stream; and what a run gives on a fixed text
can be computed if the run is cut off after so many steps. -/

namespace LosslessJava

inductive EntryPoint where
  | file
  | expression
  deriving DecidableEq, Repr

namespace EntryPoint

/-- The rule for a whole input. -/
def rule : EntryPoint → Grammar.Rule Unit
  | .file => Grammar.compilationUnit
  | .expression => Grammar.expressionRoot

def parse (entry : EntryPoint) (text : String) (options : ParseOptions) : Except Halt Parse :=
  match entry with
  | .file => LosslessJava.parse text options
  | .expression => parseExpression text options

theorem parse_eq (entry : EntryPoint) (text : String) (options : ParseOptions) :
    entry.parse text options = Parse.run entry.rule (.lex text) options := by
  cases entry <;> rfl

end EntryPoint

namespace Parse

variable {rule : Grammar.Rule Unit} {stream : TokenStream} {options : ParseOptions}

def runWithin (fuel : Nat) (rule : Grammar.Rule Unit) (stream : TokenStream)
    (options : ParseOptions) : Option (Except Halt Parse) :=
  (rule.execWithin { stream, options } Grammar.rule fuel {}).map fun
    | .ok ((), state) => ofState { stream, options } state
    | .error halt => .error halt

private theorem run_of_runWithin {fuel : Nat} {r : Except Halt Parse}
    (found : runWithin fuel rule stream options = some r) : run rule stream options = r := by
  obtain ⟨given, ran, rfl⟩ := Option.map_eq_some_iff.mp found
  unfold run
  rw [Parser.Program.exec_of_execWithin ran]
  rcases given with halt | ⟨⟨⟩, state⟩ <;> rfl

/-- Whether a parse comes to a result, within so many steps, of which something holds. -/
def givesWithin (fuel : Nat) (check : Parse → Bool) (rule : Grammar.Rule Unit) (stream : TokenStream)
    (options : ParseOptions) : Bool :=
  (runWithin fuel rule stream options).any fun
    | .ok parse => check parse
    | .error _ => false

def stopsWithin (fuel : Nat) (check : Halt → Bool) (rule : Grammar.Rule Unit) (stream : TokenStream)
    (options : ParseOptions) : Bool :=
  (runWithin fuel rule stream options).any fun
    | .ok _ => false
    | .error halt => check halt

theorem run_of_givesWithin {fuel : Nat} {check : Parse → Bool}
    (found : givesWithin fuel check rule stream options = true) :
    ∃ parse, run rule stream options = .ok parse ∧ check parse = true := by
  unfold givesWithin at found
  rcases given : runWithin fuel rule stream options with _ | halt | parse
  · simp [given] at found
  · simp [given] at found
  · exact ⟨parse, run_of_runWithin given, by simpa [given] using found⟩

theorem run_of_stopsWithin {fuel : Nat} {check : Halt → Bool}
    (found : stopsWithin fuel check rule stream options = true) :
    ∃ halt, run rule stream options = .error halt ∧ check halt = true := by
  unfold stopsWithin at found
  rcases given : runWithin fuel rule stream options with _ | halt | parse
  · simp [given] at found
  · exact ⟨halt, run_of_runWithin given, by simpa [given] using found⟩
  · simp [given] at found

theorem run_ok {parse : Parse} (ran : run rule stream options = .ok parse) :
    ∃ state : Parser.State, rule.exec { stream, options } Grammar.rule {} = some (.ok ((), state)) ∧
      ofState { stream, options } state = .ok parse := by
  unfold run at ran
  split at ran
  · next state given => exact ⟨state, given, ran⟩
  · cases ran
  · cases ran

theorem ofState_ok {env : Parser.Env} {state : Parser.State} {parse : Parse}
    (built : ofState env state = .ok parse) :
    ∃ steps tree, Event.buildSteps state.events = some steps ∧
      BuildStep.toTree env.stream steps = .ok tree ∧
      parse = ⟨tree, state.diagnostics.toList,
        if state.recovery = .recovering then .normal else state.recovery, env.options.mode⟩ := by
  unfold ofState at built
  split at built
  · next steps found =>
    split at built
    · next tree made =>
      cases built
      exact ⟨steps, tree, found, made, rfl⟩
    · cases built
  · cases built

end Parse

section Lexed

open Lexer

theorem tokens_lex (text : String) : (TokenStream.lex text).tokens = (tokenize text).toArray := by
  obtain ⟨front, last, split, -, ended, -⟩ := (tokenize_tiles text).ended
  have closed : (tokenize text).toArray.back?.map Token.kind = some .eof := by
    simp [split, ended]
  unfold TokenStream.lex TokenStream.ofTokens
  rw [dif_pos closed]

private theorem isToken_of_mem_tokenize (text : String) {token : Token} (member : token ∈ tokenize text) :
    token.kind.isToken := by
  obtain ⟨_, _, _, _, _, -, spelled⟩ := (tokensFrom_row 0 text.toList).spelled_of_mem member
  exact spelled.isToken

theorem tokenAt_lex {text : String} {index : Nat} (inside : index < (tokenize text).length) :
    (TokenStream.lex text).tokenAt index = (tokenize text)[index] := by
  have tokens := tokens_lex text
  have size : (TokenStream.lex text).tokens.size = (tokenize text).length := by simp [tokens]
  have small : min index ((TokenStream.lex text).size - 1) = index := by
    simp only [TokenStream.size, size]
    omega
  simp [TokenStream.tokenAt, small, tokens]

/-- The stream of a text holds kinds of tokens, and only the last one is an end of input. -/
theorem regular_lex (text : String) : (TokenStream.lex text).Regular := by
  have tokens := tokens_lex text
  have size : (TokenStream.lex text).size = (tokenize text).length := by simp [TokenStream.size, tokens]
  refine ⟨fun index => ?_, fun index ended => ?_⟩
  · refine isToken_of_mem_tokenize text ?_
    have inside : (TokenStream.lex text).tokenAt index ∈ (TokenStream.lex text).tokens :=
      Array.getElem_mem _
    simpa [tokens] using inside
  · obtain ⟨front, last, split, more, -⟩ := (tokenize_tiles text).ended
    refine Nat.le_of_not_lt fun early => ?_
    have inside : index < (tokenize text).length := by omega
    rw [tokenAt_lex inside] at ended
    have before : index < front.length := by
      simp only [size, split, List.length_append, List.length_singleton] at early
      omega
    simp only [split, List.getElem_append_left before] at ended
    exact more _ (List.getElem_mem before) ended

end Lexed

end LosslessJava
