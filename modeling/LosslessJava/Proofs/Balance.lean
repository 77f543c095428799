import LosslessJava.Proofs.Elements
import Mathlib.Data.List.Basic

/-! Brackets where no error was reported. Every bracket of the text is closed, and the node that holds a
bracket holds the one that closes it. -/

namespace LosslessJava

open LosslessJava.Tree LosslessJava.Shape
open LosslessJava.Parser.Lookahead (closing?)

section Labels

variable {row : List Shape}

def labelled (owner : Option Nat) (nodes : Nat) (row : List Shape) : List (Kind × Option Nat) :=
  (leafKinds row).zip (owners owner nodes row)

private theorem labelled_cons (owner : Option Nat) (nodes : Nat) (shape : Shape) (row : List Shape) :
    labelled owner nodes (shape :: row) = (shape.tokens.map Prod.fst).zip (shape.ownersOf owner nodes) ++
      labelled owner (nodes + shape.nodeCount) row := by
  have length : (shape.tokens.map Prod.fst).length = (shape.ownersOf owner nodes).length := by
    have whole := length_owners owner nodes [shape]
    simpa [owners, tokensAll] using whole.symm
  rw [labelled, labelled, leafKinds, tokensAll, List.map_append, owners, List.zip_append length]
  rfl

/-- Where nodes close their own brackets, brackets close only ones that the same node holds. -/
theorem Shape.SoundAll.reads (sound : SoundAll row) (owner : Option Nat) (nodes : Nat)
    (stack : List (Kind × Option Nat)) :
    (labelled owner nodes row).foldlM Kind.nestLabelled stack =
      ((outline row).map (·, owner)).foldlM Kind.nestLabelled stack := by
  induction row using row_induction generalizing owner nodes stack with
  | nil => rfl
  | token kind rawCount row ih =>
    simp only [labelled_cons, tokens, ownersOf, List.map_cons, List.map_nil, List.zip_cons_cons, List.zip_nil_right,
      List.cons_append, List.nil_append, List.foldlM_cons, outline_token]
    exact bind_congr fun after => ih sound.2 owner _ after
  | node kind children row below ih =>
    obtain ⟨⟨holds, inner⟩, later⟩ := sound
    let own := some (nodes + nodeCounts children)
    have closed : (labelled own nodes children).foldlM Kind.nestLabelled stack = some stack := by
      rw [below inner]
      simpa using @Kind.nestLabelled_of_nest _ _ _ _ _ stack own holds.nested
    have skipped : Kind.nestLabelled stack (kind, owner) = some stack := by
      have opens : closing? kind = none := by
        have bracket := holds.bracket
        revert bracket
        cases kind <;> simp [closing?, Kind.isBracket]
      simp [Kind.nestLabelled, opens, holds.bracket]
    have first : (labelled own nodes children) =
        ((Shape.node kind children).tokens.map Prod.fst).zip ((Shape.node kind children).ownersOf owner nodes) := rfl
    rw [labelled_cons, List.foldlM_append, ← first, closed, Option.bind_eq_bind, Option.bind_some, ih later,
      outline_node, List.map_cons, List.foldlM_cons, skipped, Option.bind_eq_bind, Option.bind_some]

end Labels

namespace Tree

/-- The kinds of the tokens between two places, without these. -/
def kindsBetween (tree : Tree) (first last : Nat) : List Kind :=
  (List.range' (first + 1) (last - (first + 1))).map fun index => (⟨tree, index⟩ : Leaf).kind

/-- The token at a place is a bracket that is closed by the one at another place. -/
structure Matches (tree : Tree) (first last : Nat) : Prop where
  order : first < last
  inside : last < tree.tokenCount
  closes : closing? (⟨tree, first⟩ : Leaf).kind = some (⟨tree, last⟩ : Leaf).kind
  between : Kind.WellNested (tree.kindsBetween first last)

/-- All brackets of a text and its tree are closed, each in the node that holds it. -/
structure Balanced (tree : Tree) (text : String) : Prop where
  text : Kind.WellNested ((tokenize text).map Token.kind)
  closed : ∀ first < tree.tokenCount, (closing? (⟨tree, first⟩ : Leaf).kind).isSome → ∃ last, tree.Matches first last
  parents : ∀ first last, tree.Matches first last →
    ∃ node, (⟨tree, first⟩ : Leaf).parent? = some node ∧ (⟨tree, last⟩ : Leaf).parent? = some node

end Tree

section Places

variable {α : Type}

private theorem split_at_two (list : List α) {first last : Nat} (order : first < last) (inside : last < list.length) :
    list = list.take first ++ list[first] ::
      ((list.drop (first + 1)).take (last - (first + 1)) ++ list[last] :: list.drop (last + 1)) := by
  have rest : list.drop (first + 1) =
      (list.drop (first + 1)).take (last - (first + 1)) ++ list[last] :: list.drop (last + 1) := by
    conv_lhs => rw [← List.take_append_drop (last - (first + 1)) (list.drop (first + 1))]
    rw [List.drop_drop, show first + 1 + (last - (first + 1)) = last by omega, List.drop_eq_getElem_cons inside]
  rw [← rest, ← List.drop_eq_getElem_cons, List.take_append_drop]

private theorem map_fst_labelled (owner : Option Nat) (nodes : Nat) (row : List Shape) :
    (labelled owner nodes row).map Prod.fst = leafKinds row :=
  List.map_fst_zip (by simp [leafKinds])

private theorem isSome_owners {parent nodes : Nat} {row : List Shape} :
    ∀ owner ∈ owners (some parent) nodes row, owner.isSome := by
  induction row using row_induction generalizing parent nodes with
  | nil => simp [owners]
  | token kind rawCount row ih => simpa [owners, ownersOf] using @ih parent _
  | node kind children row below ih =>
    intro owner member
    exact (List.mem_append.mp member).elim (below owner) (ih owner)

end Places

section Trees

variable {tree : Tree} {stream : TokenStream} {kind : Kind} {children : List Shape}

theorem Tree.Built.kindsBetween (built : tree.Built stream kind children) {first last : Nat}
    (inside : last < tree.tokenCount) :
    tree.kindsBetween first last = ((leafKinds children).drop (first + 1)).take (last - (first + 1)) := by
  have size := built.length_leafKinds
  refine List.ext_getElem (by simp [Tree.kindsBetween]; omega) fun index below _ => ?_
  have small : index < last - (first + 1) := by simpa [Tree.kindsBetween] using below
  have within : first + 1 + index < (leafKinds children).length := by omega
  have place := built.kind_leaf within
  simpa [Tree.kindsBetween] using place

private theorem Tree.Built.length_labelled (built : tree.Built stream kind children) :
    (labelled (some (nodeCounts children)) 0 children).length = tree.tokenCount := by
  rw [← built.length_leafKinds, ← map_fst_labelled (some (nodeCounts children)) 0, List.length_map]

private theorem Tree.Built.parent_leaf (built : tree.Built stream kind children) {index : Nat}
    (inside : index < (labelled (some (nodeCounts children)) 0 children).length) :
    (⟨tree, index⟩ : Leaf).parent? =
      ((labelled (some (nodeCounts children)) 0 children)[index].2).map (Node.mk tree) := by
  have small : index < tree.tokens.size := by
    rw [built.length_labelled] at inside
    exact inside
  have parent : (labelled (some (nodeCounts children)) 0 children)[index].2 = tree.tokens[index].parent := by
    simp only [labelled, List.getElem_zip, ← built.owners]
    simp
  simp [Leaf.parent?, Leaf.record, parent, small]

/-- A bracket and the one that closes it stand in the same node. -/
theorem Tree.Sound.parents {text : String} (sound : tree.Sound text kind children) {first last : Nat}
    (found : tree.Matches first last) :
    ∃ node, (⟨tree, first⟩ : Leaf).parent? = some node ∧ (⟨tree, last⟩ : Leaf).parent? = some node := by
  have built := sound.built
  obtain ⟨⟨holds, inner⟩, -⟩ := sound.sound
  let root := some (nodeCounts children)
  generalize tokens_eq : labelled root 0 children = tokens
  have kinds : tokens.map Prod.fst = leafKinds children := tokens_eq ▸ map_fst_labelled root 0 children
  have size : tokens.length = tree.tokenCount := tokens_eq ▸ built.length_labelled
  have reads : tokens.foldlM Kind.nestLabelled [] = some [] := by
    rw [← tokens_eq, inner.reads]
    simpa using @Kind.nestLabelled_of_nest _ _ _ _ _ [] root holds.nested
  have inside : last < tokens.length := size ▸ found.inside
  have early : first < tokens.length := Nat.lt_trans found.order inside
  have named {index : Nat} (inside : index < tokens.length) : (⟨tree, index⟩ : Leaf).kind = tokens[index].1 := by
    rw [built.kind_leaf (by rw [← kinds, List.length_map]; exact inside)]
    simp [← kinds]
  rw [split_at_two tokens found.order inside] at reads
  have same : tokens[first].2 = tokens[last].2 := by
    refine Kind.label_eq reads ?_ ?_
    · rw [← named, ← named]
      exact found.closes
    · rw [List.map_take, List.map_drop, kinds, ← built.kindsBetween found.inside]
      exact found.between
  have owned : tokens[first].2.isSome := by
    have member : tokens[first] ∈ labelled root 0 children := tokens_eq ▸ List.getElem_mem early
    exact isSome_owners _ (List.of_mem_zip member).2
  obtain ⟨id, owner⟩ := Option.isSome_iff_exists.mp owned
  have parent {index : Nat} (inside : index < tokens.length) :
      (⟨tree, index⟩ : Leaf).parent? = (tokens[index].2).map (Node.mk tree) := by
    subst tokens_eq
    exact built.parent_leaf inside
  exact ⟨⟨tree, id⟩, by rw [parent early, owner]; rfl, by rw [parent inside, ← same, owner]; rfl⟩

/-- A bracket that opens is closed. -/
theorem Tree.Sound.closed {text : String} (sound : tree.Sound text kind children) {first : Nat}
    (small : first < tree.tokenCount) (opens : (closing? (⟨tree, first⟩ : Leaf).kind).isSome) :
    ∃ last, tree.Matches first last := by
  have built := sound.built
  obtain ⟨⟨holds, inner⟩, -⟩ := sound.sound
  have nested : Kind.WellNested (leafKinds children) := inner.nested holds.nested
  have size := built.length_leafKinds
  have early : first < (leafKinds children).length := size ▸ small
  have split : leafKinds children = (leafKinds children).take first ++
      (leafKinds children)[first] :: (leafKinds children).drop (first + 1) := by
    rw [← List.drop_eq_getElem_cons, List.take_append_drop]
  rw [split] at nested
  rw [built.kind_leaf early] at opens
  obtain ⟨inner, closer, rest, behind, between, closes⟩ := nested.exists_closer opens
  have length := congrArg List.length behind
  simp only [List.length_drop, List.length_append, List.length_cons] at length
  have inside : first + 1 + inner.length < tree.tokenCount := by omega
  refine ⟨first + 1 + inner.length, by omega, inside, ?_, ?_⟩
  · rw [built.kind_leaf early, built.kind_leaf (size.symm ▸ inside), closes]
    have there : ((leafKinds children).drop (first + 1))[inner.length]? = some closer := by simp [behind]
    rw [List.getElem?_drop] at there
    exact congrArg some (List.getElem?_eq_some_iff.mp there).2.symm
  · rw [built.kindsBetween inside, behind]
    simpa using between

end Trees

variable {entry : EntryPoint} {text : String} {options : ParseOptions} {parse : Parse}

/-- The brackets of a text that is parsed without a diagnostic are balanced. -/
theorem Parse.balanced_of_clean (parsed : entry.parse text options = .ok parse) (clean : parse.diagnostics = []) :
    parse.tree.Balanced text := by
  obtain ⟨-, kind, children, sound⟩ := Parse.sound_of_clean parsed clean
  obtain ⟨⟨holds, inner⟩, -⟩ := sound.sound
  have nested : Kind.WellNested (leafKinds children) := inner.nested holds.nested
  exact ⟨Kind.wellNested_of_filter sound.brackets nested, fun _ => sound.closed, fun _ _ => sound.parents⟩

/-- A file with brackets of all three sorts. -/
theorem Parse.balanced_of_clean_class :
    ∃ parse, EntryPoint.file.parse "class A { int[] b = f(c[0]); }" {} = .ok parse ∧ parse.diagnostics = [] ∧
      parse.tree.Balanced "class A { int[] b = f(c[0]); }" := by
  have found : Parse.givesWithin 600 (·.diagnostics.isEmpty) Grammar.compilationUnit
      (.lex "class A { int[] b = f(c[0]); }") {} = true := by decide +kernel
  obtain ⟨parse, ran, clean⟩ := Parse.run_of_givesWithin found
  have parsed : EntryPoint.file.parse "class A { int[] b = f(c[0]); }" {} = .ok parse := ran
  have none : parse.diagnostics = [] := by simpa using clean
  exact ⟨parse, parsed, none, Parse.balanced_of_clean parsed none⟩

end LosslessJava
