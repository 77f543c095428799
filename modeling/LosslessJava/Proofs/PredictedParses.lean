import LosslessJava.Proofs.Elements
import LosslessJava.Proofs.PredictedRuns

/-! What a run whose way is known makes of a text: a parse without diagnostics, and a tree of the shape that
was recorded. Rules that read one node, and rules that make a larger node of one that was read, are put
together by the shapes of these nodes. -/

namespace LosslessJava

open LosslessJava.Parser

namespace Shape

open LosslessJava.Tree

mutual

/-- An element is of this shape: the kinds agree, its own and those of all that stands below it. -/
def Depicts : Shape → Element → Prop
  | .token kind _, .leaf l => l.kind = kind
  | .node kind children, .node n => n.kind = kind ∧ DepictsAll children n.elements
  | _, _ => False

def DepictsAll : List Shape → List Element → Prop
  | [], [] => True
  | shape :: rest, element :: others => shape.Depicts element ∧ DepictsAll rest others
  | _, _ => False

end

private theorem depictsAll_of_shows {row : List Shape} {elements : List Element} (shows : List.Forall₂ Element.Shows elements row) :
    DepictsAll row elements := by
  induction row using row_induction generalizing elements with
  | nil =>
    cases shows
    trivial
  | token kind rawCount rest ih =>
    cases shows with
    | @cons element _ others _ here later =>
      cases element with
      | node => exact here.elim
      | leaf => exact ⟨here, ih later⟩
  | node kind children rest below ih =>
    cases shows with
    | @cons element _ others _ here later =>
      cases element with
      | node => exact ⟨⟨here.kind_eq, below here.elements⟩, ih later⟩
      | leaf => exact here.elim

end Shape

/-- An input on which its rule is known to record one node parses to the tree of that node. -/
theorem Parse.run_of_delivers {rule : Grammar.Rule Unit} {stream : TokenStream} {options : ParseOptions} {kind : Kind}
    {children : List Shape} (proper : (Shape.node kind children).Proper)
    (delivers : Grammar.Delivers { stream, options } {} rule {} fun _ row _ => row = [.node kind children]) :
    ∃ parse, Parse.run rule stream options = .ok parse ∧ parse.diagnostics = [] ∧ parse.state = .normal ∧
      (Shape.node kind children).Depicts (.node parse.root) := by
  obtain ⟨⟨⟩, t, ran, row, wrote, rfl⟩ := delivers
  obtain ⟨more, recorded, emits⟩ := wrote.events
  obtain rfl : more = t.events.toList := by simpa using recorded.symm
  have single : Event.Emits t.events.toList ((Shape.node kind children).steps) := by simpa [Shape.stepsAll] using emits
  obtain ⟨tree, made, built⟩ := @Tree.toTree_ok stream _ _ proper
  have normal : t.recovery = .normal := wrote.recovery (by simp)
  have silent : t.diagnostics.toList = [] := by rw [wrote.diagnostics]
  have root : (Tree.Element.node tree.root).Shows (.node kind children) :=
    ⟨0, 0, [], built.shows, by rw [Tree.root, built.rootId, Nat.zero_add]⟩
  refine ⟨⟨tree, t.diagnostics.toList, t.recovery, options.mode⟩, ?_, silent, normal,
    (Shape.depictsAll_of_shows (.cons root .nil)).1⟩
  rw [Parse.run, ran]
  simp only [Parse.ofState, Event.buildSteps_of_emits single, made, normal]
  rfl

/-- A text on which the rule of an entry point is known to record one node parses to the tree of that node. -/
theorem EntryPoint.parse_of_delivers {entry : EntryPoint} {text : String} {options : ParseOptions} {kind : Kind}
    {children : List Shape}
    (delivers : Grammar.Delivers (textEnv text options) {} entry.rule {} fun _ row _ => row = [.node kind children]) :
    ∃ parse, entry.parse text options = .ok parse ∧ parse.diagnostics = [] ∧ parse.state = .normal ∧
      (Shape.node kind children).Depicts (.node parse.root) := by
  have proper : (Shape.node kind children).Proper := by
    obtain ⟨⟨⟩, t, ran, row, wrote, rfl⟩ := delivers
    obtain ⟨more, recorded, emits⟩ := wrote.events
    obtain rfl : more = t.events.toList := by simpa using recorded.symm
    cases entry.settles text options with
    | gives ran' recorded =>
      cases ran.symm.trans ran'.exec_eq
      rcases recorded with ⟨one, -⟩ | ⟨-, -, two⟩
      · obtain ⟨kind', children', emits', proper, -, -⟩ := one.emits
        have whole : Event.Emits t.events.toList (Shape.stepsAll [.node kind' children']) := by
          simpa [Shape.stepsAll] using emits'
        cases row_eq_of_emits emits whole
        exact proper
      · obtain ⟨one, other, emits'⟩ := TwoTrees.emits two
        cases row_eq_of_emits emits emits'
    | halts ran' => cases ran.symm.trans ran'.exec_eq
    | sticks cause => cases ran.symm.trans (Grammar.exec_eq_none_of_sticks cause)
  rw [EntryPoint.parse_eq]
  exact Parse.run_of_delivers proper delivers

namespace Grammar

variable {env : Env} {α β : Type} {level : Level} {i j k : Nat}

/-- A rule reads one node of this shape, up to an index. -/
abbrev ReadsNode (env : Env) (level : Level) (i : Nat) (rule : Rule (Option Completed)) (shape : Shape) (j : Nat) : Prop :=
  FormsSome env level i rule fun row k => row = [shape] ∧ k = j

def Carries (env : Env) (level : Level) (i : Nat) (rule : Completed → Rule Completed) (before after : Shape) (j : Nat) : Prop :=
  ∀ (base s : State) (first : Completed), base.Wrote [before] s → base.Roots first [before] s → s.position = i →
    level.Holds base → Delivers env base (rule first) s fun outer row t =>
      base.Roots outer row t ∧ row = [after] ∧ t.position = j

def CarriesSome (env : Env) (level : Level) (i : Nat) (rule : Completed → Rule (Option Completed)) (before after : Shape) (j : Nat) :
    Prop :=
  ∀ (base s : State) (first : Completed), base.Wrote [before] s → base.Roots first [before] s → s.position = i →
    level.Holds base → Delivers env base (rule first) s fun found row t =>
      ∃ outer, found = some outer ∧ base.Roots outer row t ∧ row = [after] ∧ t.position = j

def Rests (env : Env) (i : Nat) (rule : Completed → Rule (Option Completed)) : Prop :=
  ∀ (first : Completed) (s : State), s.position = i →
    ∃ t, (rule first).exec env Grammar.rule s = some (.ok (none, t)) ∧ Tried s t

theorem kind_of_roots {s t : State} {first : Completed} {kind : Kind} {children : List Shape}
    (roots : s.Roots first [.node kind children] t) : first.kind = kind := by
  obtain ⟨_, _, _, same, -⟩ := roots
  cases same
  rfl

/-- To read on behind a look is to read on from where it was made. -/
theorem FormsSome.look {rule : Rule α} {next : α → Rule (Option Completed)} {answer : TokenCursor → α}
    {post : List Shape → Nat → Prop} [Views env rule answer]
    (rest : FormsSome env level i (next (answer ⟨env.stream, i⟩)) post) : FormsSome env level i (rule >>= next) post := by
  intro s here deep
  refine .look .refl fun t tried wrote => ?_
  have cursor : s.cursor env = ⟨env.stream, i⟩ := by rw [State.cursor, here]
  rw [cursor]
  refine .behind wrote (rest t (tried.position.trans here) (deep.wrote wrote)) fun found row u _ holds => ?_
  obtain ⟨first, given, roots, holds⟩ := holds
  refine ⟨first, given, ?_, holds⟩
  rw [State.Roots, ← tried.events]
  exact roots

/-- Whether lambdas are excluded here makes no difference. -/
theorem FormsSome.askNoLambda {next : Bool → Rule (Option Completed)} {post : List Shape → Nat → Prop}
    (rest : ∀ noLambda, FormsSome env level i (next noLambda) post) :
    FormsSome env level i (Program.act .noLambda >>= next) post := by
  intro s here deep
  obtain ⟨found, t, ran, given⟩ := rest s.noLambda s here deep
  refine ⟨found, t, ?_, given⟩
  rw [Program.exec_bind, Program.exec_act]
  exact ran

theorem FormsSome.call {name : Nonterminal (Option Completed)} {post : List Shape → Nat → Prop}
    (body : FormsSome env level i (Grammar.rule _ name) post) : FormsSome env level i (Parser.call name) post :=
  fun s here deep => .call (body s here deep)

theorem FormsSome.nested {rule : Rule (Option Completed)} {post : List Shape → Nat → Prop}
    (room : level.depth < env.options.maxDepth) (inner : FormsSome env level.deeper i rule post) :
    FormsSome env level i (Parser.nested none rule) post :=
  fun s here deep => .nested (deep.depth ▸ room) (inner s.enter here deep.enter)

theorem FormsSome.withNoLambda {noLambda : Bool} {rule : Rule (Option Completed)} {post : List Shape → Nat → Prop}
    (inner : FormsSome env level i rule post) : FormsSome env level i (Parser.withNoLambda noLambda rule) post :=
  fun s here deep => .withNoLambda (inner (s.withNoLambda noLambda) here (deep.same rfl rfl))

theorem FormsSome.always {rule : Rule Completed} {post : List Shape → Nat → Prop} (forms : Forms env level i rule post) :
    FormsSome env level i (do return some (← rule)) post :=
  fun s here deep => .bind (forms s here deep) fun first _ _ wrote holds => .pure wrote ⟨first, rfl, by simpa using holds⟩

namespace Carries

variable {step : Completed → Rule (Option Completed)} {shape before middle after : Shape}

theorem loopEnd (rests : Rests env i step) : Carries env level i (fun node => loopFrom node step) shape shape i := by
  intro base s first wrote roots here deep
  obtain ⟨t, ran, tried⟩ := rests first s here
  have still : base.Wrote [shape] t := by simpa using wrote.trans (.tried tried)
  exact .loopFrom ⟨none, t, ran, _, still, roots.kept tried.events, rfl, tried.position.trans here⟩

theorem loopOn (round : CarriesSome env level i step before middle j)
    (rest : Carries env level j (fun node => loopFrom node step) middle after k) :
    Carries env level i (fun node => loopFrom node step) before after k := by
  intro base s first wrote roots here deep
  refine .loopFrom <| (round base s first wrote roots here deep).weaken fun found row t wrote given => ?_
  obtain ⟨outer, rfl, roots, rfl, there⟩ := given
  exact rest base t outer wrote roots there deep

theorem around {rule : Rule Kind} {kind : Kind} {back : List Shape} (named : kind ≠ .tombstone)
    (reads : Follows env level i rule fun found row k => found = kind ∧ row = back ∧ k = j) :
    Carries env level i (fun node => Parser.around node rule) before (.node kind (before :: back)) j := by
  intro base s first wrote roots here deep
  refine Delivers.around (P := fun row k => row = [.node kind (before :: back)] ∧ k = j) wrote roots fun t still depth recovery => ?_
  refine (reads t (still.trans here) ((deep.wrote wrote).same depth recovery)).weaken fun found row u _ ⟨same, read, moved⟩ => ?_
  subst same read
  exact ⟨named, rfl, moved⟩

/-- A rule that is known to make a larger node tells that it did. -/
theorem found {rule : Completed → Rule Completed} (carries : Carries env level i rule before after j) :
    CarriesSome env level i (fun node => do return some (← rule node)) before after j := by
  intro base s first wrote roots here deep
  refine .bind (carries base s first wrote roots here deep) fun outer row t wrote given => ?_
  obtain ⟨roots, rfl, there⟩ := given
  exact .pure wrote ⟨outer, rfl, roots, rfl, there⟩

theorem andThen {first next : Completed → Rule Completed} (one : Carries env level i first before middle j)
    (two : Carries env level j next middle after k) :
    Carries env level i (fun node => do next (← first node)) before after k := by
  intro base s node wrote roots here deep
  refine .bind (one base s node wrote roots here deep) fun outer row t wrote given => ?_
  obtain ⟨roots, rfl, there⟩ := given
  exact two base t outer wrote roots there deep

end Carries

end Grammar

end LosslessJava
