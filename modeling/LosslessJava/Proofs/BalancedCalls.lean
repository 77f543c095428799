import LosslessJava.Proofs.Links

/-! Balanced calls. They leave the nodes that are open as they were, and put into the innermost of them just what is
told from the calls; every node on the way covers the tokens from its start to its finish, without gaps. -/

namespace LosslessJava.Tree

def Child.node? : Child → Option Nat
  | .node id => some id
  | .token _ => none

def Child.isToken : Child → Bool
  | .node _ => false
  | .token _ => true

/-- Elements cover the tokens from one place to another, one behind the other. -/
inductive Tiles (rows : List Row) : Nat → List Child → Nat → Prop where
  | nil {place} : Tiles rows place [] place
  | token {index rest stop} (later : Tiles rows (index + 1) rest stop) : Tiles rows index (.token index :: rest) stop
  | node {id row rest stop} (found : rows[id]? = some row) (later : Tiles rows row.endToken rest stop) :
      Tiles rows row.firstToken (.node id :: rest) stop

structure Row.Covered (rows : List Row) (row : Row) : Prop where
  ordered : row.firstToken ≤ row.endToken
  tiles : Tiles rows row.firstToken row.children row.endToken

namespace Tiles

variable {rows more : List Row} {first middle stop : Nat} {front back children : List Child}

theorem mono (tiles : Tiles rows first children stop) : Tiles (rows ++ more) first children stop := by
  induction tiles with
  | nil => exact .nil
  | token _ ih => exact .token ih
  | node found _ ih =>
    exact .node ((List.getElem?_append_left (List.getElem?_eq_some_iff.mp found).1).trans found) ih

private theorem append (tiles : Tiles rows first front middle) (later : Tiles rows middle back stop) :
    Tiles rows first (front ++ back) stop := by
  induction tiles with
  | nil => exact later
  | token _ ih => exact .token (ih later)
  | node found _ ih => exact .node found (ih later)

end Tiles

theorem Row.Covered.mono {rows more : List Row} {row : Row} (covered : row.Covered rows) : row.Covered (rows ++ more) :=
  ⟨covered.ordered, covered.tiles.mono⟩

namespace Builder

variable {b c d : Builder} {calls front back : List Call}

def gains (b : Builder) (calls : List Call) : List Child := Call.appended b.nodes.size b.tokens.size 0 calls

structure Stretch (calls : List Call) (b c : Builder) : Prop where
  grows : Grows calls b c
  covered : ∀ row ∈ c.rows.drop b.rows.length, row.Covered c.rows ∧ row.endToken ≤ c.tokens.size
  tiles : Tiles c.rows b.tokens.size (b.gains calls) c.tokens.size
  kept : ∀ child, (b.toTree 0).Stands child → (c.toTree 0).parentOf child = (b.toTree 0).parentOf child
  orphans : ∀ child, (c.toTree 0).Stands child → ¬ (b.toTree 0).Stands child →
    ((c.toTree 0).parentOf child = none ↔ child ∈ b.gains calls)
  opened : c.opened = b.opened
  inner : b.opened ≠ [] → c.root = b.root ∧ c.pending.toList = b.pending.toList ++ b.gains calls
  outermost : b.opened = [] → c.root = ((b.gains calls).filterMap Child.node?).getLast?.or b.root ∧
    c.pending.toList = b.pending.toList ++ (b.gains calls).filter Child.isToken

namespace Grows

theorem nodes (grows : Grows calls b c) : c.nodes.size = b.nodes.size + Call.finished calls := by
  obtain ⟨more, rows, length⟩ := grows.rows
  rw [← length_rows, rows, List.length_append, length, length_rows]

theorem tokens (grows : Grows calls b c) : c.tokens.size = b.tokens.size + (Call.tokens calls).length := by
  rw [← length_leaves, grows.leaves, List.length_append, length_leaves]

private theorem append (first : Grows front b c) (second : Grows back c d) : Grows (front ++ back) b d := by
  obtain ⟨more, rows, length⟩ := first.rows
  obtain ⟨more', rows', length'⟩ := second.rows
  refine ⟨second.text.trans first.text, ⟨more ++ more', ?_, by simp [length, length']⟩, ?_⟩
  · rw [rows', rows, List.append_assoc]
  · rw [second.leaves, first.leaves, Call.tokens_append, List.append_assoc]

/-- What is gained was not there before, and is there then. -/
theorem fresh (grows : Grows calls b c) (balanced : Call.Balanced calls) {child : Child} (gained : child ∈ b.gains calls) :
    (c.toTree 0).Stands child ∧ ¬ (b.toTree 0).Stands child := by
  cases child with
  | node id =>
    obtain ⟨first, last⟩ := Call.node_of_appended balanced gained
    exact ⟨Nat.lt_of_lt_of_eq last grows.nodes.symm, Nat.not_lt.mpr first⟩
  | token index =>
    obtain ⟨first, last⟩ := Call.token_of_appended balanced gained
    exact ⟨Nat.lt_of_lt_of_eq last grows.tokens.symm, Nat.not_lt.mpr first⟩

private theorem stands (grows : Grows calls b c) {child : Child} (stands : (b.toTree 0).Stands child) :
    (c.toTree 0).Stands child := by
  cases child with
  | node id => exact Nat.lt_of_lt_of_le stands (Nat.le.intro grows.nodes.symm)
  | token index => exact Nat.lt_of_lt_of_le stands (Nat.le.intro grows.tokens.symm)

end Grows

namespace Stretch

private theorem nil (b : Builder) : Stretch [] b b where
  grows := ⟨rfl, ⟨[], (List.append_nil _).symm, rfl⟩, (List.append_nil _).symm⟩
  covered row found := by simp at found
  tiles := .nil
  kept _ _ := rfl
  orphans _ stands away := absurd stands away
  opened := rfl
  inner _ := ⟨rfl, (List.append_nil _).symm⟩
  outermost _ := ⟨rfl, (List.append_nil _).symm⟩

private theorem gains_append (first : Stretch front b c) (balanced : Call.Balanced front) :
    b.gains (front ++ back) = b.gains front ++ c.gains back := by
  rw [gains, Call.appended_append balanced, gains, gains, first.grows.nodes, first.grows.tokens]

private theorem append (first : Stretch front b c) (balanced : Call.Balanced front) (second : Stretch back c d)
    (balanced' : Call.Balanced back) : Stretch (front ++ back) b d := by
  have gained : b.gains (front ++ back) = b.gains front ++ c.gains back := first.gains_append balanced
  obtain ⟨more, rows, -⟩ := first.grows.rows
  obtain ⟨more', rows', -⟩ := second.grows.rows
  refine ⟨first.grows.append second.grows, fun row found => ?_, ?_, fun child stands => ?_, fun child stands away => ?_,
    second.opened.trans first.opened, fun some => ?_, fun none => ?_⟩
  · have less : c.tokens.size ≤ d.tokens.size := Nat.le.intro second.grows.tokens.symm
    rw [rows', rows, List.append_assoc, List.drop_left] at found
    rcases List.mem_append.mp found with early | late
    · obtain ⟨covered, last⟩ := first.covered row (by rw [rows]; simpa using early)
      exact ⟨rows' ▸ covered.mono, Nat.le_trans last less⟩
    · exact second.covered row (by rw [rows']; simpa using late)
  · rw [gained]
    refine Tiles.append ?_ second.tiles
    rw [rows']
    exact first.tiles.mono
  · rw [second.kept child (first.grows.stands stands), first.kept child stands]
  · rw [gained, List.mem_append]
    by_cases early : (c.toTree 0).Stands child
    · rw [second.kept child early, first.orphans child early away]
      exact (or_iff_left fun late => (second.grows.fresh balanced' late).2 early).symm
    · rw [second.orphans child stands early]
      exact (or_iff_right fun old => early (first.grows.fresh balanced old).1).symm
  · obtain ⟨root, pending⟩ := first.inner some
    obtain ⟨root', pending'⟩ := second.inner (first.opened ▸ some)
    exact ⟨root'.trans root, by rw [pending', pending, gained, List.append_assoc]⟩
  · obtain ⟨root, pending⟩ := first.outermost none
    obtain ⟨root', pending'⟩ := second.outermost (first.opened.trans none)
    refine ⟨?_, by rw [pending', pending, gained, List.filter_append, List.append_assoc]⟩
    rw [root', root, gained, List.filterMap_append, List.getLast?_append, Option.or_assoc]

private theorem token {given : Token} (takes : Takes given b c) : Stretch [.token given] b c := by
  have one : b.gains [.token given] = [.token b.tokens.size] := rfl
  refine ⟨⟨takes.text, ⟨[], takes.rows.trans (List.append_nil _).symm, rfl⟩, takes.leaves⟩, fun row found => ?_, ?_,
    fun child _ => takes.parents child, fun child stands away => ?_, takes.opened, fun _ => ⟨takes.root, takes.pending⟩,
    fun _ => ⟨takes.root, takes.pending⟩⟩
  · rw [takes.rows, List.drop_length] at found
    cases found
  · rw [one, takes.tokens]
    exact .token .nil
  · rw [takes.parents, one, List.mem_singleton]
    refine ⟨fun _ => ?_, fun _ => parentOf_outside away⟩
    cases child with
    | node id => exact absurd (Nat.lt_of_lt_of_eq stands takes.nodes) away
    | token index =>
      have place : index < b.tokens.size + 1 := Nat.lt_of_lt_of_eq stands takes.tokens
      exact congrArg Child.token (Nat.le_antisymm (Nat.le_of_lt_succ place) (Nat.not_lt.mp away))

private theorem node {kind : Kind} {inside : List Call}
    (below : Stretch inside
      { b with opened := { kind, firstChild := b.pending.size, firstToken := b.tokens.size } :: b.opened } c)
    (balanced : Call.Balanced inside)
    (finishes : Finishes { kind, firstChild := b.pending.size, firstToken := b.tokens.size } b.opened b.pending.toList
      (b.gains inside) c d) : Stretch (.start kind :: (inside ++ [.finish])) b d := by
  obtain ⟨more, rows, length⟩ : ∃ more, c.rows = b.rows ++ more ∧ more.length = Call.finished inside := below.grows.rows
  have leaves : c.leaves = b.leaves ++ Call.tokens inside := below.grows.leaves
  have nodes : c.nodes.size = b.nodes.size + Call.finished inside := below.grows.nodes
  have one : b.gains (.start kind :: (inside ++ [.finish])) = [.node c.nodes.size] := by
    rw [gains, Call.appended_node balanced, nodes]
    rfl
  have fresh {child} (gained : child ∈ b.gains inside) : (c.toTree 0).Stands child ∧ ¬ (b.toTree 0).Stands child :=
    below.grows.fresh balanced gained
  let row := OpenNode.finished ⟨kind, b.pending.size, b.tokens.size⟩ (b.gains inside) c.tokens.size
  have own : row.Covered d.rows := by
    refine ⟨Nat.le.intro below.grows.tokens.symm, ?_⟩
    rw [finishes.rows]
    exact below.tiles.mono
  have found : d.rows[c.nodes.size]? = some row := by
    rw [finishes.rows, ← length_rows, List.getElem?_append_right (Nat.le_refl _), Nat.sub_self]
    rfl
  refine ⟨⟨finishes.text.trans below.grows.text, ⟨more ++ [row], ?_, by simp [length]⟩, ?_⟩, fun other there => ?_, ?_,
    fun child stands => ?_, fun child stands away => ?_, finishes.opened, fun some => ?_, fun none => ?_⟩
  · rw [finishes.rows, rows, List.append_assoc]
  · rw [finishes.leaves, leaves]
    simp
  · rw [finishes.rows, rows, List.append_assoc, List.drop_left] at there
    rcases List.mem_append.mp there with early | last
    · obtain ⟨covered, less⟩ : other.Covered c.rows ∧ other.endToken ≤ c.tokens.size := by
        refine below.covered other ?_
        rw [rows]
        simpa [Builder.rows] using early
      exact ⟨finishes.rows ▸ covered.mono, finishes.tokens ▸ less⟩
    · obtain rfl := List.mem_singleton.mp last
      exact ⟨own, Nat.le_of_eq finishes.tokens.symm⟩
  · rw [one, finishes.tokens]
    exact Tiles.node found .nil
  · rw [finishes.parents, if_neg fun gained => (fresh gained).2 stands]
    exact below.kept child stands
  · rw [finishes.parents, one, List.mem_singleton]
    by_cases early : (c.toTree 0).Stands child
    · have other : child ≠ .node c.nodes.size := by
        rintro rfl
        exact Nat.lt_irrefl _ early
      split
      · exact ⟨fun orphan => absurd orphan (Option.some_ne_none _), fun same => absurd same other⟩
      · next outside => exact ⟨fun orphan => absurd ((below.orphans child early away).mp orphan) outside,
          fun same => absurd same other⟩
    · rw [if_neg fun gained => early (fresh gained).1]
      refine ⟨fun _ => ?_, fun _ => parentOf_outside early⟩
      cases child with
      | node id =>
        have place : id < c.nodes.size + 1 := Nat.lt_of_lt_of_eq stands finishes.nodes
        exact congrArg Child.node (Nat.le_antisymm (Nat.le_of_lt_succ place) (Nat.not_lt.mp early))
      | token index => exact absurd (Nat.lt_of_lt_of_eq stands finishes.tokens) early
  · obtain ⟨root, pending⟩ := finishes.inner some
    exact ⟨root.trans (below.inner (List.cons_ne_nil _ _)).1, by rw [pending, one]⟩
  · obtain ⟨root, pending⟩ := finishes.outermost none
    exact ⟨by rw [root, one]; rfl, by rw [pending, one]; simp [Child.isToken]⟩

end Stretch

/-- Balanced calls can be made on every sound builder, and do what they say. -/
theorem Sound.exists_stretch (sound : b.Sound) (balanced : Call.Balanced calls) (proper : ∀ call ∈ calls, call.Proper) :
    ∃ c, Call.runAll b calls = .ok c ∧ Stretch calls b c := by
  induction calls, balanced using Call.Balanced.induction generalizing b with
  | nil => exact ⟨b, rfl, .nil b⟩
  | token given rest balanced ih =>
    obtain ⟨own, proper⟩ := List.forall_mem_cons.mp proper
    obtain ⟨c, put⟩ : ∃ c, b.token given = .ok c := ⟨_, if_pos own⟩
    obtain ⟨d, made, later⟩ := ih (sound.token put) proper
    refine ⟨d, ?_, Stretch.append (.token (takes_token sound.bounded put)) rfl later balanced⟩
    exact Call.runAll_cons.mpr ⟨c, put, made⟩
  | node kind inside rest below balanced around ih =>
    obtain ⟨own, proper⟩ := List.forall_mem_cons.mp proper
    obtain ⟨proper, proper'⟩ := List.forall_mem_append.mp proper
    have started := @startNode_ok b kind own
    let opened : OpenNode := { kind, firstChild := b.pending.size, firstToken := b.tokens.size }
    obtain ⟨c, made, stretch⟩ := around (sound.startNode started) proper
    have sound' := (sound.startNode started).runAll made
    have pending : c.pending.toList = b.pending.toList ++ b.gains inside := (stretch.inner (List.cons_ne_nil _ _)).2
    have stand child (found : child ∈ b.gains inside) : (c.toTree 0).Stands child := by
      refine sound'.stands child (List.mem_append_right _ ?_)
      rw [pending]
      exact List.mem_append_right _ found
    obtain ⟨d, finished, finishes⟩ := exists_finishNode sound'.bounded stretch.opened pending Array.length_toList.symm stand
    obtain ⟨e, made', later⟩ := ih (sound'.finishNode finished) fun call found => proper' call (List.mem_cons_of_mem _ found)
    have whole := (stretch.node below finishes).append (below.node rfl) later balanced
    exact ⟨e, Call.runAll_cons.mpr ⟨_, started, Call.runAll_append.mpr ⟨c, made, Call.runAll_cons.mpr ⟨d, finished, made'⟩⟩⟩,
      by simpa using whole⟩

end Builder

end LosslessJava.Tree
