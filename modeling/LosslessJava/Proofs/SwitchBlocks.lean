import LosslessJava.Proofs.ArrangedGrammar
import LosslessJava.Proofs.Depth
import LosslessJava.Proofs.SwitchTrees

/-! The labels of switch blocks in the trees of parses. Where a label ends otherwise than the first one of its block,
there is a diagnostic at its end, and the first label of an entry decides which node the entry is. -/

namespace LosslessJava.Ast

open LosslessJava.Tree

/-- The labels of a block, in the order of its text. -/
def SwitchBlock.labels (block : SwitchBlock) : List SwitchLabel := block.node.children.flatMap children

/-- The ends of labels, of those that have one. -/
def terminators (labels : List SwitchLabel) : List Leaf := labels.filterMap SwitchLabel.terminator?

/-- The kind of a label's end. -/
def SwitchLabel.ending? (label : SwitchLabel) : Option Kind := label.terminator?.map Leaf.kind

private theorem terminators_append (front back : List SwitchLabel) : terminators (front ++ back) = terminators front ++ terminators back :=
  List.filterMap_append

end LosslessJava.Ast

namespace LosslessJava

open LosslessJava.Tree LosslessJava.Ast

def Threads (told : Span → Prop) : Option Kind → List Leaf → Option Kind → Prop
  | form, [], last => last = form
  | form, leaf :: rest, last =>
    (form.getD leaf.kind ≠ leaf.kind → told leaf.textRange) ∧ Threads told (some (form.getD leaf.kind)) rest last

def Site.isEntry : Site → Bool
  | .entry _ _ _ => true
  | _ => false

def Site.isBlock : Site → Bool
  | .block _ _ => true
  | _ => false

namespace Threads

variable {told : Span → Prop} {form middle last : Option Kind} {front back later : List Leaf} {first leaf : Leaf}

private theorem append (one : Threads told form front middle) (two : Threads told middle back last) :
    Threads told form (front ++ back) last := by
  induction front generalizing form with
  | nil =>
    cases one
    exact two
  | cons leaf rest ih => exact ⟨one.1, ih one.2⟩

private theorem told_of_ne {established : Kind} (threads : Threads told (some established) later last) (member : leaf ∈ later)
    (other : leaf.kind ≠ established) : told leaf.textRange := by
  induction later with
  | nil => cases member
  | cons next rest ih =>
    rcases List.mem_cons.mp member with rfl | member
    · exact threads.1 (Ne.symm other)
    · exact ih threads.2 member

/-- Of what follows the first end, those that are not like it are told of. -/
theorem told_of_later (threads : Threads told none (first :: later) last) (member : leaf ∈ later)
    (other : leaf.kind ≠ first.kind) : told leaf.textRange := threads.2.told_of_ne member other

private theorem told_of_mixed {leaves : List Leaf} {one other : Leaf} (threads : Threads told form leaves last) (member : one ∈ leaves)
    (member' : other ∈ leaves) (mixed : one.kind ≠ other.kind) : ∃ leaf ∈ leaves, told leaf.textRange := by
  cases leaves with
  | nil => cases member
  | cons first later =>
    by_cases own : form.getD first.kind = first.kind
    · obtain ⟨-, threads⟩ := threads
      rw [own] at threads
      have told_of {leaf : Leaf} (member : leaf ∈ first :: later) (other : leaf.kind ≠ first.kind) :
          ∃ leaf ∈ first :: later, told leaf.textRange := by
        rcases List.mem_cons.mp member with rfl | late
        · exact absurd rfl other
        · exact ⟨leaf, member, threads.told_of_ne late other⟩
      by_cases like : one.kind = first.kind
      · exact told_of member' fun same => mixed (like.trans same.symm)
      · exact told_of member like
    · exact ⟨first, .head _, threads.1 own⟩

end Threads

variable {errors : Errors} {told : Span → Prop}

namespace Site.Around

variable {site inner inner' after : Site} {kind : Kind}

private theorem isEntry_eq (around : Around errors site kind inner inner' after) : after.isEntry = site.isEntry := by
  cases around with
  | plain | block => cases site <;> rfl
  | _ => rfl

private theorem isBlock_eq (around : Around errors site kind inner inner' after) : after.isBlock = site.isBlock := by
  cases around with
  | plain | block => cases site <;> rfl
  | _ => rfl

private theorem entry_of_label (around : Around errors site .switchLabel inner inner' after) : site.isEntry = true := by
  generalize same : Kind.switchLabel = kind at around
  cases around with
  | plain ordinary =>
    subst same
    cases ordinary
  | label | endless => rfl
  | _ => cases same

private theorem block_of_entry (around : Around errors site kind inner inner' after) (entry : kind = .switchRule ∨ kind = .switchGroup) :
    site.isBlock = true := by
  cases around with
  | plain ordinary => rcases entry with rfl | rfl <;> cases ordinary
  | rule | group => rfl
  | _ => rcases entry with same | same <;> cases same

private theorem rule_or_group (around : Around errors site kind inner inner' after) (entry : inner.isEntry = true) :
    kind = .switchRule ∨ kind = .switchGroup := by
  cases around with
  | rule => exact .inl rfl
  | group => exact .inr rfl
  | _ => cases entry

private theorem eq_switchBlock (around : Around errors site kind inner inner' after) (block : inner.isBlock = true) :
    kind = .switchBlock := by
  cases around with
  | block => rfl
  | _ => cases block

end Site.Around

namespace Tree

variable {site last : Site} {elements : List Element} {node child : Node}

theorem Leads.around (leads : Leads errors told site elements last) (member : .node node ∈ elements) :
    ∃ here inner inner' after, Site.Around errors here node.kind inner inner' after ∧
      Leads errors told inner node.elements inner' ∧ here.isEntry = site.isEntry ∧ here.isBlock = site.isBlock := by
  induction leads with
  | nil => cases member
  | @leaf site leaf rest last _ _ ih =>
    obtain ⟨here, inner, inner', after, around, within, entry, block⟩ := ih (by simpa using member)
    exact ⟨here, inner, inner', after, around, within, by rw [entry]; cases site <;> rfl, by rw [block]; cases site <;> rfl⟩
  | ending _ _ _ ih => exact ih (by simpa using member)
  | @node site other inner inner' after rest last around within _ _ ih =>
    rcases List.mem_cons.mp member with same | later
    · cases same
      exact ⟨site, inner, inner', after, around, within, rfl, rfl⟩
    · obtain ⟨here, first, last', next, around', within', entry, block⟩ := ih later
      exact ⟨here, first, last', next, around', within', entry.trans around.isEntry_eq, block.trans around.isBlock_eq⟩

namespace Node.Stands

private theorem below (stands : node.Stands errors told) (member : child ∈ node.children) : child.Stands errors told := by
  obtain ⟨_, _, _, _, -, within⟩ := stands
  obtain ⟨here, inner, inner', after, around, within, -⟩ := within.around (Node.mem_children.mp member)
  exact ⟨here, inner, inner', after, around, within⟩

private theorem rule_or_group (stands : node.Stands errors told) (below : child ∈ node.children) (label : child.kind = .switchLabel) :
    node.kind = .switchRule ∨ node.kind = .switchGroup := by
  obtain ⟨_, _, _, _, outer, within⟩ := stands
  obtain ⟨here, inner, inner', after, around, -, entry, -⟩ := within.around (Node.mem_children.mp below)
  rw [label] at around
  exact outer.rule_or_group (entry.symm.trans around.entry_of_label)

private theorem eq_switchBlock (stands : node.Stands errors told) (below : child ∈ node.children)
    (entry : child.kind = .switchRule ∨ child.kind = .switchGroup) : node.kind = .switchBlock := by
  obtain ⟨_, _, _, _, outer, within⟩ := stands
  obtain ⟨here, inner, inner', after, around, -, -, block⟩ := within.around (Node.mem_children.mp below)
  exact outer.eq_switchBlock (block.symm.trans (around.block_of_entry entry))

private theorem label_below {between : List Node} {label : Node} (stands : node.Stands errors told)
    (way : node.Path (node :: (between ++ [label]))) (isLabel : label.kind = .switchLabel)
    (own : ∀ other ∈ between, other.kind ≠ .switchBlock) :
    (between = [] ∧ (node.kind = .switchRule ∨ node.kind = .switchGroup)) ∨
      ∃ entry, between = [entry] ∧ node.kind = .switchBlock ∧ entry ∈ node.children ∧ label ∈ entry.children := by
  induction between generalizing node with
  | nil =>
    cases way with
    | down below rest =>
      cases rest with
      | here => exact .inl ⟨rfl, stands.rule_or_group below isLabel⟩
      | down _ rest => cases rest
  | cons entry rest ih =>
    cases way with
    | down below way =>
      have head : ∀ {start path}, Node.Path start path → ∃ more, path = start :: more := fun way => by
        cases way with
        | here => exact ⟨_, rfl⟩
        | down => exact ⟨_, rfl⟩
      obtain ⟨more, same⟩ := head way
      obtain ⟨rfl, -⟩ := List.cons.inj same
      rcases ih (stands.below below) way fun other member => own other (.tail _ member) with ⟨rfl, entry⟩ | ⟨inner, rfl, block, -⟩
      · refine .inr ⟨_, rfl, stands.eq_switchBlock below entry, below, ?_⟩
        cases way with
        | down below rest =>
          cases rest with
          | here => exact below
          | down _ rest => cases rest
      · exact absurd block (own _ (.head _))

end Node.Stands

private theorem Node.childTokens_eq (node : Node) : node.childTokens = node.elements.filterMap Element.leaf? :=
  List.filterMap_congr fun element _ => by cases element <;> rfl

private theorem Node.children_eq (node : Node) : node.children = node.elements.filterMap Element.node? :=
  List.filterMap_congr fun element _ => by cases element <;> rfl

def labelsAmong (elements : List Element) : List SwitchLabel := (elements.filterMap Element.node?).filterMap NodeView.ofNode?

private theorem labels_eq (node : Node) : (Ast.children node : List SwitchLabel) = labelsAmong node.elements := by
  rw [Ast.children, node.children_eq, labelsAmong]

def endAmong (elements : List Element) : Option Leaf := (elements.filterMap Element.leaf?).find? (·.kind.endsLabel)

private theorem endAmong_leaf (leaf : Leaf) (rest : List Element) :
    endAmong (.leaf leaf :: rest) = if leaf.kind.endsLabel then some leaf else endAmong rest := by
  simp only [endAmong, List.filterMap_cons, Element.leaf?, List.find?_cons]
  split <;> simp_all

private theorem terminator?_eq (label : SwitchLabel) : label.terminator? = endAmong label.node.elements := by
  have same : (fun token : Leaf => token.kind == .colon || token.kind == .arrow) = (·.kind.endsLabel) := by
    funext token
    cases token.kind <;> rfl
  rw [SwitchLabel.terminator?, Node.childTokens_eq, same, endAmong]

private theorem labelsAmong_of_ne {rest : List Element} (other : node.kind ≠ .switchLabel) :
    labelsAmong (.node node :: rest) = labelsAmong rest := by
  have none : (NodeView.ofNode? node : Option SwitchLabel) = Option.none := dif_neg other
  simp only [labelsAmong, List.filterMap_cons, Element.node?, none]

private theorem labelsAmong_of_eq {rest : List Element} (label : node.kind = .switchLabel) :
    labelsAmong (.node node :: rest) = ⟨node, label⟩ :: labelsAmong rest := by
  have some : (NodeView.ofNode? node : Option SwitchLabel) = Option.some ⟨node, label⟩ := dif_pos label
  simp only [labelsAmong, List.filterMap_cons, Element.node?, some]

namespace Leads

private theorem nothing_behind {established ending : Kind} (leads : Leads errors told (.ended established ending) elements last) :
    elements = [] ∧ last = .ended established ending := by
  generalize same : Site.ended established ending = site at leads
  cases leads with
  | nil still =>
    subst same
    exact ⟨rfl, or_self_iff.mp still⟩
  | leaf hosts =>
    subst same
    exact hosts.elim
  | ending => cases same
  | @node _ node _ _ _ _ _ around =>
    subst same
    generalize node.kind = kind at around
    cases around with
    | plain _ hosts | block hosts => exact hosts.elim

/-- A label has one end, or none. That its end is not as the form of the block says is told. -/
theorem label {form : Option Kind} (leads : Leads errors told (.label form) elements last) :
    (endAmong elements = none ∧ last = .label form) ∨
      ∃ leaf, endAmong elements = some leaf ∧ last = .ended (form.getD leaf.kind) leaf.kind ∧
        (form.getD leaf.kind ≠ leaf.kind → told leaf.textRange) := by
  generalize same : Site.label form = site at leads
  induction leads with
  | nil still =>
    subst same
    exact .inl ⟨rfl, or_self_iff.mp still⟩
  | @leaf site leaf rest last hosts _ ih =>
    subst same
    have quiet : ¬ leaf.kind.endsLabel = true := by
      have quiet : leaf.kind.isQuiet = true := hosts
      revert quiet
      cases leaf.kind <;> decide
    rw [endAmong_leaf, if_neg quiet]
    exact ih rfl
  | @ending _ leaf rest last ends mixed later =>
    cases same
    obtain ⟨rfl, rfl⟩ := later.nothing_behind
    exact .inr ⟨leaf, by rw [endAmong_leaf, if_pos ends], rfl, mixed⟩
  | @node _ node _ _ _ _ _ around _ _ _ ih =>
    subst same
    generalize node.kind = kind at around
    cases around with
    | plain | block => exact ih rfl

theorem entry {form : Option Kind} {ends : List (Option Kind)} {behind : Bool}
    (leads : Leads errors told (.entry form ends behind) elements last) :
    ∃ form' behind', last = .entry form' (ends ++ (labelsAmong elements).map SwitchLabel.ending?) behind' ∧
      Threads told form (terminators (labelsAmong elements)) form' ∧
      ∀ label ∈ labelsAmong elements, label.terminator? = none → errors.any := by
  generalize same : Site.entry form ends behind = site at leads
  induction leads generalizing form ends behind with
  | nil still =>
    subst same
    rcases still with rfl | rfl <;> exact ⟨form, _, by simp [labelsAmong]; rfl, rfl, by simp [labelsAmong]⟩
  | leaf _ _ ih =>
    subst same
    exact ih rfl
  | ending => cases same
  | @node site node inner inner' after rest last around within _ _ ih =>
    subst same
    generalize named : node.kind = kind at around
    cases around with
    | plain ordinary =>
      have other : node.kind ≠ .switchLabel := by
        rintro label
        rw [← named, label] at ordinary
        cases ordinary
      rw [labelsAmong_of_ne other]
      exact ih rfl
    | block =>
      rw [labelsAmong_of_ne (by rw [named]; decide)]
      exact ih rfl
    | label =>
      rw [labelsAmong_of_eq named]
      obtain ⟨form', behind', later, threads, missing⟩ := ih rfl
      rcases within.label with ⟨-, other⟩ | ⟨leaf, found, other, mixed⟩
      · cases other
      · cases other
        rw [← terminator?_eq ⟨node, named⟩] at found
        refine ⟨form', behind', ?_, ?_, ?_⟩
        · rw [later, List.map_cons, SwitchLabel.ending?, found]
          simp
        · rw [terminators, List.filterMap_cons_some found]
          exact ⟨mixed, threads⟩
        · intro label member none
          rcases List.mem_cons.mp member with rfl | member
          · cases none.symm.trans found
          · exact missing label member none
    | endless failed =>
      rw [labelsAmong_of_eq named]
      obtain ⟨form', behind', later, threads, -⟩ := ih rfl
      rcases within.label with ⟨found, -⟩ | ⟨_, -, other, -⟩
      · rw [← terminator?_eq ⟨node, named⟩] at found
        refine ⟨form', behind', ?_, ?_, fun _ _ _ => failed⟩
        · rw [later, List.map_cons, SwitchLabel.ending?, found]
          simp
        · rw [terminators, List.filterMap_cons_none found]
          exact threads
      · cases other

private theorem labelsAmong_eq_nil (leads : Leads errors told site elements last) (other : site.isEntry = false) :
    labelsAmong elements = [] := by
  refine List.eq_nil_iff_forall_not_mem.mpr fun label member => ?_
  obtain ⟨node, among, same⟩ := List.mem_filterMap.mp member
  obtain ⟨element, among, same'⟩ := List.mem_filterMap.mp among
  cases element with
  | leaf => cases same'
  | node node =>
    cases same'
    obtain ⟨here, inner, inner', after, around, -, entry, -⟩ := leads.around among
    have isLabel : node.kind = .switchLabel := by
      by_contra isOther
      rw [show NodeView.ofNode? node = (none : Option SwitchLabel) from dif_neg isOther] at same
      cases same
    rw [isLabel] at around
    exact absurd (entry.symm.trans around.entry_of_label) (by simp [other])

private theorem block {form : Option Kind} {behind : Bool} (leads : Leads errors told (.block form behind) elements last) :
    ∃ form' behind', last = .block form' behind' ∧
      Threads told form (terminators ((elements.filterMap Element.node?).flatMap Ast.children)) form' := by
  generalize same : Site.block form behind = site at leads
  induction leads generalizing form behind with
  | nil still =>
    subst same
    rcases still with rfl | rfl <;> exact ⟨form, _, rfl, rfl⟩
  | leaf _ _ ih =>
    subst same
    exact ih rfl
  | ending => cases same
  | @node site node inner inner' after rest last around within _ _ ih =>
    subst same
    rw [List.filterMap_cons, Element.node?, List.flatMap_cons, terminators_append, labels_eq]
    generalize node.kind = kind at around
    cases around with
    | plain | block =>
      rw [within.labelsAmong_eq_nil rfl]
      exact ih rfl
    | rule | group =>
      obtain ⟨middle, _, other, threads, -⟩ := within.entry
      obtain ⟨rfl, -, -⟩ := Site.entry.inj other
      obtain ⟨form', behind', rfl, later⟩ := ih rfl
      exact ⟨form', behind', rfl, threads.append later⟩

end Leads

end Tree

open LosslessJava.Parser

variable {entry : EntryPoint} {text : String} {options : ParseOptions} {parse : Parse}

private theorem EntryPoint.arranging (entry : EntryPoint) (setting : Setting Grammar.Nonterminal) [Grammar.Arranged setting] :
    Arranging setting false entry.rule := by
  cases entry with
  | file => exact inferInstanceAs (Arranging setting false Grammar.compilationUnit)
  | expression => exact inferInstanceAs (Arranging setting false Grammar.expressionRoot)

/-- All that a lenient run records leads back to where nothing is asked for. -/
theorem EntryPoint.arranges (lenient : options.mode = .lenient) {calls steps : Nat} {t : State}
    (run : Program.Runs (textEnv text options) Grammar.rule calls entry.rule {} (.ok ((), t)) steps) :
    State.Arranges (t.failures (textEnv text options)) .elsewhere {} .elsewhere t := by
  have : Grammar.Arranged ⟨textEnv text options, Grammar.rule, calls⟩ := Grammar.arranged (regular_lex text) lenient calls
  have fit : State.Fit (textEnv text options) {} := {
    good := ⟨TokenStream.size_pos _, by simp, by simp⟩
    placed := by simp [State.Placed, State.taken, State.tokens]
    ranged := by simp [State.Ranged]
    tight := by
      rintro index ⟨_, _, _, found, -⟩
      simp at found }
  exact (entry.arranging ⟨textEnv text options, Grammar.rule, calls⟩).arranges rfl run rfl fit Errors.Grow.refl trivial

/-- The tree of a lenient parse is built from a row that leads from one site to another. Where that takes an error,
there is a diagnostic. -/
theorem Parse.arranged (lenient : options.mode = .lenient) (parsed : entry.parse text options = .ok parse) :
    ∃ errors kind children, Shape.Arranged errors .elsewhere 0 [.node kind children] .elsewhere ∧
      parse.tree.Built (.lex text) kind children ∧ (errors.any → parse.diagnostics ≠ []) ∧
      ∀ index, errors.told index → ∃ d ∈ parse.diagnostics, d.range = ((TokenStream.lex text).tokenAt index).range := by
  rw [EntryPoint.parse_eq] at parsed
  obtain ⟨t, ran, built⟩ := Parse.run_ok parsed
  obtain ⟨steps, tree, found, made, rfl⟩ := Parse.ofState_ok built
  have evaluates : Program.Evaluates (textEnv text options) Grammar.rule entry.rule {} (.ok ((), t)) :=
    Program.evaluates_of_exec ran
  have told : 0 < t.errorCount → t.diagnostics.toList ≠ [] := by
    intro some none
    rcases evaluates.heard rfl rfl with calm | ⟨first, tells⟩
    · exact absurd calm.errorCount (by simpa using Nat.ne_of_gt some)
    · simpa [none] using tells.told
  cases entry.settles text options with
  | gives ran' recorded =>
    cases ran.symm.trans ran'.exec_eq
    rcases recorded with ⟨one, -⟩ | ⟨-, ⟨-, strict, -⟩, -⟩
    · obtain ⟨kind, children, emits, proper, -⟩ := one.emits
      obtain ⟨tree', made', built'⟩ := @Tree.toTree_ok (.lex text) _ _ proper
      cases Option.some.inj (found.symm.trans (Event.buildSteps_of_emits emits))
      cases made.symm.trans made'
      obtain ⟨row, nests⟩ := (one.woven (EntryPoint.abides ran').aims).nests.1
      have whole : Event.Emits t.events.toList (Shape.stepsAll [.node kind children]) := by
        simpa [Shape.stepsAll] using emits
      cases row_eq_of_emits nests.emits whole
      obtain ⟨⟨more, recorded, arranged⟩, aimed⟩ := EntryPoint.arranges lenient ran'
      obtain rfl : t.events.toList.map Event.bare = more := by simpa [Event.bares] using recorded
      have ordinary (index : Nat) (targets : Event.Targets t.events index) : Event.Ordinary t.events index := by
        rcases aimed index targets with ⟨_, _, _, none, -⟩ | ⟨-, ordinary⟩
        · simp at none
        · exact ordinary
      refine ⟨_, kind, children, nests.arranged ordinary ?_ arranged (.nil (.inl rfl)) rfl (.inl rfl), built',
        told, fun _ told => told⟩
      intro place event there
      simpa using there
    · cases lenient.symm.trans strict
  | halts ran' => cases ran.symm.trans ran'.exec_eq
  | sticks cause => cases ran.symm.trans (Grammar.exec_eq_none_of_sticks cause)

/-- A diagnostic of a parse is about this range. -/
def Parse.Tells (parse : Parse) (range : Span) : Prop := ∃ d ∈ parse.diagnostics, d.range = range

/-- Every node of a lenient parse's tree stands at a site, and the parts of switch blocks stand below other nodes. -/
theorem Parse.stands (lenient : options.mode = .lenient) (parsed : entry.parse text options = .ok parse) :
    ∃ errors : Errors, (errors.any → parse.diagnostics ≠ []) ∧ ∀ node ∈ parse.tree.allNodes,
      node.Stands errors parse.Tells ∧
        (node.kind.isPart = true → ∃ parent ∈ parse.tree.allNodes, node ∈ parent.children) := by
  obtain ⟨errors, kind, children, arranged, built, some, told⟩ := Parse.arranged lenient parsed
  refine ⟨errors, some, fun node member => ?_⟩
  obtain ⟨id, inside, rfl⟩ := List.mem_map.mp member
  have size := built.nodeCount
  replace inside : id < Shape.nodeCounts [.node kind children] := size ▸ List.mem_range.mp inside
  refine ⟨?_, fun part => ?_⟩
  · simpa using (ShowsFrom.of_built built).stands arranged told inside
  · rcases built.holds.held inside with root | ⟨other, less, below⟩
    · -- The root stands where nothing is asked for, so it is no part of a switch block.
      obtain rfl : id = Shape.nodeCounts children := by simpa [Shape.childrenOf, Child.element] using root
      have same : (⟨parse.tree, Shape.nodeCounts children⟩ : Node).kind = kind := by simpa using built.shows.record
      cases arranged with
      | node around =>
        rw [same] at part
        cases around with
        | plain ordinary => cases part.symm.trans (Kind.isPart_of_isOrdinary ordinary)
        | block => cases part
    · rw [Nat.zero_add, Nat.zero_add] at below
      exact ⟨_, List.mem_map.mpr ⟨other, List.mem_range.mpr (size ▸ less), rfl⟩, below⟩

/-- Mixed switches are told of: in a lenient parse there is a diagnostic at the end of every label that ends otherwise
than the first one of its block that has an end. The labels of a block are all those below it that are not below
another block. -/
theorem Parse.mixed_labels_told (lenient : options.mode = .lenient) (parsed : entry.parse text options = .ok parse)
    {block : SwitchBlock} (member : block.node ∈ parse.tree.allNodes) :
    (∀ between label, block.node.Path (block.node :: (between ++ [label])) → label.kind = .switchLabel →
        (∀ other ∈ between, other.kind ≠ .switchBlock) → ∃ own ∈ block.labels, own.node = label) ∧
      (∀ first later, terminators block.labels = first :: later →
        ∀ leaf ∈ later, leaf.kind ≠ first.kind → parse.Tells leaf.textRange) ∧
      (parse.diagnostics = [] →
        ∀ one ∈ terminators block.labels, ∀ other ∈ terminators block.labels, one.kind = other.kind) := by
  obtain ⟨errors, -, all⟩ := Parse.stands lenient parsed
  have stands := (all _ member).1
  obtain ⟨last, threads⟩ : ∃ last, Threads parse.Tells none (terminators block.labels) last := by
    obtain ⟨_, _, _, _, around, leads⟩ := stands
    rw [block.kind_eq] at around
    generalize same : Kind.switchBlock = kind at around
    cases around with
    | block =>
      obtain ⟨form, _, -, threads⟩ := leads.block
      rw [SwitchBlock.labels, Node.children_eq]
      exact ⟨form, threads⟩
    | plain ordinary =>
      subst same
      cases ordinary
    | _ => cases same
  refine ⟨fun between label way isLabel own => ?_, fun first later split leaf late other => ?_,
    fun clean one among other among' => ?_⟩
  · rcases stands.label_below way isLabel own with ⟨-, entry⟩ | ⟨entry, -, -, below, under⟩
    · rw [block.kind_eq] at entry
      rcases entry with entry | entry <;> cases entry
    · exact ⟨⟨label, isLabel⟩, List.mem_flatMap.mpr ⟨entry, below, List.mem_filterMap.mpr ⟨label, under, dif_pos isLabel⟩⟩, rfl⟩
  · rw [split] at threads
    exact threads.told_of_later late other
  · by_contra mixed
    obtain ⟨leaf, -, d, told, -⟩ := threads.told_of_mixed among among' mixed
    rw [clean] at told
    cases told

/-- An arrow behind a colon. -/
theorem Parse.mixed_labels_told_arrow :
    ∃ parse, ∃ block : SwitchBlock, EntryPoint.expression.parse "switch(x){case 1: case 2 -> f();}" {} = .ok parse ∧
      block.node ∈ parse.tree.allNodes ∧ ∃ first last, terminators block.labels = [first, last] ∧ first.kind = .colon ∧
        last.kind = .arrow ∧ parse.Tells last.textRange := by
  have found : Parse.givesWithin 300 (fun parse => parse.tree.allNodes.any fun node => node.kind == .switchBlock &&
      (terminators (node.children.flatMap children)).map Leaf.kind == [.colon, .arrow]) Grammar.expressionRoot
      (.lex "switch(x){case 1: case 2 -> f();}") {} = true := by decide +kernel
  obtain ⟨parse, ran, checked⟩ := Parse.run_of_givesWithin found
  obtain ⟨node, member, checked⟩ := List.any_eq_true.mp checked
  rw [Bool.and_eq_true, beq_iff_eq, beq_iff_eq] at checked
  obtain ⟨isBlock, kinds⟩ := checked
  obtain ⟨first, later, split, colon, rest⟩ := List.map_eq_cons_iff.mp kinds
  obtain ⟨last, none, split', arrow, rest⟩ := List.map_eq_cons_iff.mp rest
  obtain rfl := List.map_eq_nil_iff.mp rest
  subst split'
  have parsed : EntryPoint.expression.parse "switch(x){case 1: case 2 -> f();}" {} = .ok parse := ran
  obtain ⟨block, rfl⟩ : ∃ block : SwitchBlock, block.node = node := ⟨⟨node, isBlock⟩, rfl⟩
  have told := (Parse.mixed_labels_told rfl parsed member).2.1 first [last] split last (.head _) (by rw [colon, arrow]; decide)
  exact ⟨parse, block, parsed, member, first, last, split, colon, arrow, told⟩

/-- What labels an entry of a block has: a rule has one, which no colon ends. In a group no arrow ends the first one,
and that an arrow ends another one does not go without a diagnostic. -/
theorem Parse.labels_of_entry (lenient : options.mode = .lenient) (parsed : entry.parse text options = .ok parse)
    {parent : Node} (member : parent ∈ parse.tree.allNodes) (any : (children parent : List SwitchLabel) ≠ []) :
    (parent.kind = .switchRule ∧ ∃ label : SwitchLabel, children parent = [label] ∧ label.ending? ≠ some .colon) ∨
      (parent.kind = .switchGroup ∧ ∃ (first : SwitchLabel) (later : List SwitchLabel), children parent = first :: later ∧
        first.ending? ≠ some .arrow ∧ ∀ label ∈ later, label.ending? = some .arrow → parse.diagnostics ≠ []) := by
  obtain ⟨errors, failed, all⟩ := Parse.stands lenient parsed
  obtain ⟨_, _, _, _, around, leads⟩ := (all _ member).1
  rw [labels_eq] at any ⊢
  generalize parent.kind = kind at around ⊢
  cases around with
  | plain | block | label | endless => exact absurd (leads.labelsAmong_eq_nil rfl) any
  | rule arrow =>
    obtain ⟨_, _, same, -⟩ := leads.entry
    obtain ⟨-, ends, -⟩ := Site.entry.inj same
    obtain ⟨label, one, rfl⟩ := List.map_eq_singleton_iff.mp ends.symm
    exact .inl ⟨rfl, label, one, arrow⟩
  | group colon =>
    obtain ⟨_, _, same, threads, missing⟩ := leads.entry
    obtain ⟨-, ends, -⟩ := Site.entry.inj same
    obtain ⟨first, later, split, rfl, -⟩ := List.map_eq_cons_iff.mp ends.symm
    refine .inr ⟨rfl, first, later, split, colon, fun label late arrow => ?_⟩
    obtain ⟨leaf, ended, isArrow⟩ := Option.map_eq_some_iff.mp arrow
    rw [split] at threads missing
    cases own : first.terminator? with
    | none => exact failed (missing first (.head _) own)
    | some other =>
      have among {label : SwitchLabel} {leaf : Leaf} (member : label ∈ first :: later) (ends : label.terminator? = some leaf) :
          leaf ∈ terminators (first :: later) := List.mem_filterMap.mpr ⟨label, member, ends⟩
      have differ : other.kind ≠ leaf.kind := by
        rintro same
        exact colon (by rw [SwitchLabel.ending?, own, Option.map_some, same, isArrow])
      obtain ⟨_, -, d, told, -⟩ := threads.told_of_mixed (among (.head _) own) (among (.tail _ late) ended) differ
      exact List.ne_nil_of_mem told

/-- Where labels stand in the tree of a lenient parse. A colon ends only labels of groups. A label that an arrow ends is
the only one of a rule, or stands in a group behind a label that does not end so; and there is a diagnostic then. -/
theorem Parse.labels_placed (lenient : options.mode = .lenient) (parsed : entry.parse text options = .ok parse)
    {label : SwitchLabel} (member : label.node ∈ parse.tree.allNodes) :
    ∃ parent ∈ parse.tree.allNodes, label.node ∈ parent.children ∧
      (label.ending? = some .colon → parent.kind = .switchGroup) ∧
      (label.ending? = some .arrow → (parent.kind = .switchRule ∧ children parent = [label]) ∨
        (parent.kind = .switchGroup ∧ parse.diagnostics ≠ [] ∧ ∃ (first : SwitchLabel) (later : List SwitchLabel),
          children parent = first :: later ∧ first.ending? ≠ some .arrow ∧ label ∈ later)) := by
  obtain ⟨errors, -, all⟩ := Parse.stands lenient parsed
  obtain ⟨parent, there, below⟩ := (all _ member).2 (by rw [label.kind_eq])
  have among : label ∈ (children parent : List SwitchLabel) := List.mem_filterMap.mpr ⟨label.node, below, dif_pos label.kind_eq⟩
  refine ⟨parent, there, below, ?_⟩
  rcases Parse.labels_of_entry lenient parsed there (List.ne_nil_of_mem among) with
    ⟨rule, own, one, noColon⟩ | ⟨group, first, later, split, noArrow, told⟩
  · obtain rfl : label = own := by simpa [one] using among
    exact ⟨fun colon => absurd colon noColon, fun _ => .inl ⟨rule, one⟩⟩
  · refine ⟨fun _ => group, fun arrow => .inr ?_⟩
    rw [split] at among
    rcases List.mem_cons.mp among with rfl | late
    · exact absurd arrow noArrow
    · exact ⟨group, told label late arrow, first, later, split, noArrow, late⟩

/-- The label of a rule. -/
theorem Parse.labels_placed_rule :
    ∃ parse, ∃ label : SwitchLabel, EntryPoint.expression.parse "switch(x){case 1 -> f();}" {} = .ok parse ∧
      label.node ∈ parse.tree.allNodes ∧ label.ending? = some .arrow ∧
      ∃ parent ∈ parse.tree.allNodes, parent.kind = .switchRule ∧ children parent = [label] := by
  have found : Parse.givesWithin 300 (fun parse => parse.diagnostics.isEmpty && parse.tree.allNodes.any fun node =>
      node.kind == .switchLabel && (endAmong node.elements).map Leaf.kind == some .arrow) Grammar.expressionRoot
      (.lex "switch(x){case 1 -> f();}") {} = true := by decide +kernel
  obtain ⟨parse, ran, checked⟩ := Parse.run_of_givesWithin found
  obtain ⟨clean, checked⟩ := Bool.and_eq_true_iff.mp checked
  obtain ⟨node, member, checked⟩ := List.any_eq_true.mp checked
  rw [Bool.and_eq_true, beq_iff_eq, beq_iff_eq] at checked
  obtain ⟨label, rfl⟩ : ∃ label : SwitchLabel, label.node = node := ⟨⟨node, checked.1⟩, rfl⟩
  have arrow : label.ending? = some .arrow := by rw [SwitchLabel.ending?, terminator?_eq, checked.2]
  have parsed : EntryPoint.expression.parse "switch(x){case 1 -> f();}" {} = .ok parse := ran
  refine ⟨parse, label, parsed, member, arrow, ?_⟩
  obtain ⟨parent, there, -, -, placed⟩ := Parse.labels_placed rfl parsed member
  rcases placed arrow with rule | ⟨-, told, -⟩
  · exact ⟨parent, there, rule⟩
  · exact absurd (List.isEmpty_iff.mp clean) told

/-- A label that an arrow ends, in a group: the tree has no rule at all. -/
theorem Parse.arrow_label_in_group :
    ∃ parse, ∃ label : SwitchLabel, EntryPoint.expression.parse "switch(x){case 1: case 2 -> f();}" {} = .ok parse ∧
      label.node ∈ parse.tree.allNodes ∧ label.ending? = some .arrow ∧
      ¬ ∃ parent ∈ parse.tree.allNodes, parent.kind = .switchRule ∧ children parent = [label] := by
  have found : Parse.givesWithin 300 (fun parse => (parse.tree.allNodes.all fun node => node.kind != .switchRule) &&
      parse.tree.allNodes.any fun node => node.kind == .switchLabel && (endAmong node.elements).map Leaf.kind == some .arrow)
      Grammar.expressionRoot (.lex "switch(x){case 1: case 2 -> f();}") {} = true := by decide +kernel
  obtain ⟨parse, ran, checked⟩ := Parse.run_of_givesWithin found
  obtain ⟨noRule, checked⟩ := Bool.and_eq_true_iff.mp checked
  obtain ⟨node, member, checked⟩ := List.any_eq_true.mp checked
  rw [Bool.and_eq_true, beq_iff_eq, beq_iff_eq] at checked
  obtain ⟨label, rfl⟩ : ∃ label : SwitchLabel, label.node = node := ⟨⟨node, checked.1⟩, rfl⟩
  refine ⟨parse, label, ran, member, by rw [SwitchLabel.ending?, terminator?_eq, checked.2], ?_⟩
  rintro ⟨parent, there, rule, -⟩
  simpa [rule] using List.all_eq_true.mp noRule parent there

end LosslessJava
