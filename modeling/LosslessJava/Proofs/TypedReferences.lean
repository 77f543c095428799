import LosslessJava.Proofs.Operands
import LosslessJava.Proofs.ScannedTypes

/-! Method references whose receiver is a type with arguments. A name with `<` behind it is tried as a type;
where the whole of it is one and `::` stands behind it, the trial is kept. -/

namespace LosslessJava

open LosslessJava.Parser

namespace Grammar

open TokenStream (Spans)

variable {env : Env} {level : Level} {i j k : Nat} {shape : Shape} {type : TypePart .type} {target : Kind}

private theorem FormsSome.speculate {rule : Rule (Option Completed)} {post : List Shape → Nat → Prop}
    (tried : FormsSome env level i rule post) : FormsSome env level i (Parser.speculate rule) post := by
  intro s here deep
  obtain ⟨found, t, ran, row, wrote, first, rfl, holds⟩ := tried s here deep
  refine ⟨some first, t, ?_, row, wrote, first, rfl, holds⟩
  rw [Parser.speculate, Program.exec_speculate, ran]
  simp [Program.changed, Except.map, Program.settle, wrote.errorCount]

private theorem genericReceiver_reads (reads : ReadsNode env level i (call .type) shape j)
    (colons : env.stream.kindAt j = .colonColon) : ReadsNode env level i genericReceiver? shape j := by
  refine FormsSome.speculate fun s here deep => .bind (reads s here deep) fun found row t wrote given => ?_
  obtain ⟨first, rfl, roots, rfl, there⟩ := given
  refine .look wrote fun u tried before => ?_
  have kind : (t.cursor env).nth 0 = .colonColon := by rw [TokenCursor.nth_eq, State.cursor, there, Nat.add_zero, colons]
  rw [kind, if_pos (by rfl)]
  exact .pure before ⟨first, rfl, roots.kept tried.events, rfl, tried.position.trans there⟩

/-- What a reference names: a method or a constructor. -/
def IsTarget (target : Kind) : Prop := target = .identifier ∨ target = .newKw

private theorem methodRef_carries (colons : env.stream.kindAt i = .colonColon) (named : IsTarget target)
    (there : env.stream.kindAt (i + 1) = target) :
    Carries env level i methodRef shape (.node .methodRef [shape, .token .colonColon 1, .token target 1]) (i + 2) := by
  refine .around (by decide) <| .consumeThen colons (by decide) ?_
  have away : target ≠ .lt := by rcases named with rfl | rfl <;> decide
  have more : target ≠ .eof := by rcases named with rfl | rfl <;> decide
  have skipped : Follows env level (i + 1) (whenSees .lt typeArgs) fun _ row k => row = [] ∧ k = i + 1 :=
    .skip (there ▸ away) ⟨rfl, rfl⟩
  refine skipped.bind fun _ row k ⟨empty, still⟩ => ?_
  subst empty still
  refine .look ?_
  have seen : ((⟨env.stream, i + 1⟩ : TokenCursor).nth 0 == .identifier || (⟨env.stream, i + 1⟩ : TokenCursor).nth 0 == .newKw) = true := by
    rw [TokenCursor.nth_eq, Nat.add_zero, there]
    rcases named with rfl | rfl <;> rfl
  rw [if_pos seen]
  have taken : Follows env level (i + 1) consumeAny fun _ row k => row = [.token target 1] ∧ k = i + 2 :=
    .consumeAny there more ⟨rfl, rfl⟩
  refine taken.bind fun _ row k ⟨same, moved⟩ => ?_
  subst same
  exact .pure ⟨rfl, rfl, moved⟩

/-- A type that starts with a name and type arguments is read with `::` and its target as a method reference. -/
theorem nameExpr_reads (angle : env.stream.kindAt (i + 1) = .lt) (reads : ReadsNode env level i (call .type) shape j)
    (colons : env.stream.kindAt j = .colonColon) (named : IsTarget target) (there : env.stream.kindAt (j + 1) = target) :
    ReadsNode env level i nameExpr (.node .methodRef [shape, .token .colonColon 1, .token target 1]) (j + 2) := by
  refine .look <| .askNoLambda fun noLambda => ?_
  have next : (⟨env.stream, i⟩ : TokenCursor).nth 1 = .lt := by rw [TokenCursor.nth_eq, angle]
  rw [next, if_neg (by simp), if_pos rfl]
  intro s here deep
  refine .bind (genericReceiver_reads reads colons s here deep) fun found row t wrote given => ?_
  obtain ⟨first, rfl, roots, rfl, moved⟩ := given
  exact .bind (methodRef_carries colons named there s t first wrote roots moved deep) fun outer row u wrote given =>
    .pure wrote ⟨outer, rfl, by simpa using given⟩

/-- A type whose first name has arguments behind it, and `::` and what follows it, are an expression. -/
theorem typedReference_reads (room : level.depth < env.options.maxDepth) (here : env.stream.kindAt i = .identifier)
    (angle : env.stream.kindAt (i + 1) = .lt) (reads : ReadsNode env level.deeper i (call .type) shape j)
    (colons : env.stream.kindAt j = .colonColon) (named : IsTarget target) (there : env.stream.kindAt (j + 1) = target)
    (ends : endsExpression (env.stream.kindAt (j + 2)) = true) (least : Power) :
    ReadsNode env level i (call (.expression least)) (.node .methodRef [shape, .token .colonColon 1, .token target 1])
      (j + 2) := by
  have ⟨bare, last⟩ := Bool.and_eq_true_iff.mp ends
  have operand := primary_nameExpr here (nameExpr_reads angle reads colons named there)
  have attached := attachedOperand_reads (by decide) operand (postfixExpr_carries bare)
  refine expression_reads room (unary_attached (by rw [here]; rfl) attached) <| .loopEnd <| operatorStep_rests fun op found => ?_
  rw [at_none last] at found
  cases found

end Grammar

namespace TypePart

/-- The first name of a type has arguments behind it. -/
def StartsGeneric : TypePart .type → Prop
  | .named (.diamond _) _ | .named (.generic _ _) _ => True
  | _ => False

private theorem StartsGeneric.head {type : TypePart .type} (generic : type.StartsGeneric) :
    ∃ rest, type.kinds = .identifier :: .lt :: rest := by
  cases type with
  | primitive => exact generic.elim
  | named rest dims =>
    cases rest with
    | bare => exact generic.elim
    | diamond | generic => exact ⟨_, rfl⟩

/-- The tree of a reference to what stands in a type. -/
def reference (type : TypePart .type) (target : Kind) : Shape :=
  .node .methodRef [type.shape, .token .colonColon 1, .token target 1]

end TypePart

private theorem TokenStream.stands_lex {text : String} {kinds : List Kind} (written : (tokenize text).map Token.kind = kinds) :
    (TokenStream.lex text).Stands kinds 0 kinds.length := by
  have stands := @TokenStream.stands_of_getElem (.lex text) 0 kinds fun n inside => by
    subst written
    rw [List.length_map] at inside
    rw [Nat.zero_add, TokenStream.kindAt, tokenAt_lex inside, List.getElem_map]
  rwa [Nat.zero_add] at stands

private theorem TokenStream.unannotated_lex {text : String} (away : .atSign ∉ (tokenize text).map Token.kind) :
    (TokenStream.lex text).Unannotated := by
  refine unannotated_of_all (Array.all_eq_true_iff_forall_mem.mpr fun token member => ?_)
  rw [tokens_lex, List.mem_toArray] at member
  exact bne_iff_ne.mpr fun same => away (List.mem_map.mpr ⟨token, member, same⟩)

open Grammar in
/-- A type whose first name has arguments, with `::` and the name of a method or `new` behind it, parses to a method
reference of the type's own tree: whatever other names and arguments the type has, and however they nest. -/
theorem EntryPoint.typed_reference {text : String} {options : ParseOptions} {type : TypePart .type} {target : Kind}
    (generic : type.StartsGeneric) (named : IsTarget target) (room : type.nesting + 1 < options.maxDepth)
    (written : (tokenize text).map Token.kind = type.kinds ++ [.colonColon, target, .eof]) :
    ∃ parse, EntryPoint.expression.parse text options = .ok parse ∧ parse.diagnostics = [] ∧ parse.state = .normal ∧
      (type.reference target).Depicts (.node parse.root) := by
  have plain : (TokenStream.lex text).Unannotated := by
    refine TokenStream.unannotated_lex ?_
    have away : target ≠ .atSign := by rcases named with rfl | rfl <;> decide
    simpa [written, away.symm] using type.unannotated
  obtain ⟨j, stands, colons, there, ended, -⟩ := TokenStream.stands_append.mp (TokenStream.stands_lex written)
  have spans : (TokenStream.lex text).Spans type 0 j := .of_stands stands (by rw [colons]; simp [TokenStream.Ends])
  have reads : ReadsNode (textEnv text options) Level.top.deeper 0 (call .type) type.shape j := by
    have agrees : Agrees (textEnv text options) Level.top.deeper type 0 j :=
      agrees_of_spans spans (roomy_of_nesting spans (by simp only [textEnv, Level.deeper_depth, Level.top_depth]; omega))
    rw [ReadsNode, ← type.row_type]
    exact agrees
  obtain ⟨rest, head⟩ := generic.head
  rw [head] at stands
  have ends : endsExpression ((TokenStream.lex text).kindAt (j + 2)) = true := by
    rw [show (TokenStream.lex text).kindAt (j + 2) = .eof from ended]
    rfl
  have whole : ReadsNode (textEnv text options) .top 0 anyExpression (type.reference target) (j + 2) :=
    typedReference_reads (by simp only [textEnv, Level.top_depth]; omega) stands.1 stands.2.1 reads colons named there ends _
  exact EntryPoint.parse_of_delivers (expressionRoot_delivers whole ended)

/-- With arguments behind the first name, and nested ones that close together. -/
theorem EntryPoint.typed_reference_inner :
    ∃ parse, EntryPoint.expression.parse "a<b<?>>.c[]::new" {} = .ok parse ∧ parse.diagnostics = [] ∧
      parse.root.kind = .methodRef := by
  let inner : TypePart .type := .named (.generic (.last .unbounded) .stop) 0
  let type : TypePart .type := .named (.generic (.last (.only inner)) (.next (.bare .stop))) 1
  have written : (tokenize "a<b<?>>.c[]::new").map Token.kind = type.kinds ++ [.colonColon, .newKw, .eof] := by decide +kernel
  have room : type.nesting + 1 < ({} : ParseOptions).maxDepth := by decide
  have generic : type.StartsGeneric := trivial
  obtain ⟨parse, parsed, clean, -, shown⟩ := EntryPoint.typed_reference generic (.inr rfl) room written
  exact ⟨parse, parsed, clean, shown.1⟩

/-- Where only a later name has arguments, the `<` is read as an operator, and the `::` behind the `>` is an error. -/
theorem EntryPoint.qualified_reference_misread :
    let argument : TypePart .type := .named (.bare .stop) 0
    let type : TypePart .type := .named (.bare (.next (.generic (.last (.only argument)) .stop))) 0
    (tokenize "a.b<c>::new").map Token.kind = type.kinds ++ [.colonColon, .newKw, .eof] ∧
      ∃ parse, EntryPoint.expression.parse "a.b<c>::new" {} = .ok parse ∧ parse.diagnostics ≠ [] ∧
        parse.root.kind ≠ .methodRef := by
  have found : Parse.givesWithin 400 (fun parse => !parse.diagnostics.isEmpty && parse.root.kind != .methodRef)
      Grammar.expressionRoot (.lex "a.b<c>::new") {} = true := by decide +kernel
  obtain ⟨parse, ran, misread⟩ := Parse.run_of_givesWithin found
  exact ⟨by decide +kernel, parse, ran, by simpa using misread⟩

end LosslessJava
