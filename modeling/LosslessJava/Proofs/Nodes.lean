import LosslessJava.Proofs.CleanCombinators

/-! What tokens and nodes a rule records that reports nothing. -/

namespace LosslessJava

namespace Parser.State

open Event

variable {env : Env} {s t u v w : State} {front row : List Shape} {kind : Kind} {first : Completed}

theorem Ready.start (ready : Ready env s) : Ready env s.start := ⟨ready.normal, ready.inside⟩

/-- A node is completed around the row of shapes that was recorded since its start. -/
theorem complete_chain {body : List Event} (recorded : t.events.toList = s.start.events.toList ++ body)
    (emits : Emits body (Shape.stepsAll row)) (named : kind ≠ .tombstone) :
    ∃ events more, t.complete s.mark kind = .ok { t with events } ∧
      events.toList = s.events.toList ++ more ∧ Chain more 0 kind row := by
  simp only [start, Array.toList_push, List.append_assoc] at recorded
  have found : t.events[s.mark.position]? = some .tombstone := by
    rw [← Array.getElem?_toList, recorded]
    simp [mark]
  have stretch : ((t.events.setIfInBounds s.mark.position (.start kind none)).push .finish).toList =
      s.events.toList ++ Event.start kind none :: (body ++ [Event.finish]) := by
    simp [recorded, mark, List.set_append_right]
  exact ⟨_, _, by simp [complete, found, Event.tombstone], stretch, .single named emits⟩

/-- A node is started around a finished one, and completed around the row of shapes that was recorded behind
that. -/
theorem precede_chain {more : List Event} {head : Nat} {children : List Shape}
    (recorded : t.events.toList = s.events.toList ++ more) (place : first.position = s.events.size + head)
    (chain : Chain more head first.kind children) :
    ∃ events, t.precede first = .ok { t with events } ∧ ∀ {w : State} {body : List Event} {kind : Kind} {row : List Shape},
      w.events.toList = events.toList ++ body → Emits body (Shape.stepsAll row) → kind ≠ .tombstone →
        ∃ events' more', w.complete t.mark kind = .ok { w with events := events' } ∧
          events'.toList = s.events.toList ++ more' ∧ ∃ head', t.mark.position = s.events.size + head' ∧
            Chain more' head' kind (.node first.kind children :: row) := by
  have bound : head < more.length := (List.getElem?_eq_some_iff.mp chain.found).1
  have size : t.events.size = s.events.size + more.length := by
    simpa using congrArg List.length recorded
  have there : (t.events.push .tombstone)[first.position]? = some (.start first.kind none) := by
    rw [← Array.getElem?_toList, Array.toList_push, recorded, place, List.append_assoc,
      List.getElem?_append_right (by simp)]
    simpa [List.getElem?_append_left, bound] using (List.getElem?_eq_some_iff.mp chain.found).2
  have distance : t.events.size - first.position = more.length - head := by omega
  have opened : ((t.events.push .tombstone).setIfInBounds first.position
      (.start first.kind (some (more.length - head)))).toList = s.events.toList ++
        (more.set head (.start first.kind (some (more.length - head))) ++ [.tombstone]) := by
    simp [recorded, place, List.set_append_right, List.set_append_left, bound]
  refine ⟨(t.events.push .tombstone).setIfInBounds first.position
    (.start first.kind (some (more.length - head))), ?_, fun {w body kind row} recorded' emits named => ?_⟩
  · simp [precede, start, there, mark, distance]
  rw [opened] at recorded'
  have at_mark : w.events[t.mark.position]? = some .tombstone := by
    rw [← Array.getElem?_toList, recorded', mark, size, List.append_assoc,
      List.getElem?_append_right (by simp)]
    simp
  have stretch : ((w.events.setIfInBounds t.mark.position (.start kind none)).push .finish).toList =
      s.events.toList ++ (more.set head (.start first.kind (some (more.length - head))) ++
        .start kind none :: (body ++ [.finish])) := by
    simp [recorded', mark, size, List.set_append_right]
  exact ⟨_, _, by simp [complete, at_mark, Event.tombstone], stretch, more.length, by simp [mark, size],
    chain.around named emits⟩

/-- A node that is given up leaves in its place the row of shapes that was recorded since its start. -/
theorem release_emits {body : List Event} (recorded : t.events.toList = s.start.events.toList ++ body)
    (emits : Emits body (Shape.stepsAll row)) :
    ∃ events more, t.release s.mark = .ok { t with events } ∧ events.toList = s.events.toList ++ more ∧
      Emits more (Shape.stepsAll row) := by
  simp only [start, Array.toList_push, List.append_assoc] at recorded
  have size : t.events.size = s.events.size + 1 + body.length := by
    rw [← Array.length_toList, recorded]
    simp
    omega
  by_cases empty : body = []
  · subst empty
    have pushed : t.events = s.events.push .tombstone := Array.ext' (by simpa using recorded)
    exact ⟨s.events, [], by simp [release, mark, pushed], by simp, emits⟩
  · have long : body.length ≠ 0 := by simpa using empty
    refine ⟨t.events, .tombstone :: body, ?_, by simpa using recorded, .given emits⟩
    rw [release, if_neg (by simp only [mark]; omega)]

/-- A completed node is one shape around all that was recorded since its start. -/
theorem complete_adds (adds : s.start.Adds env row t) (holds : kind.Holds (Shape.outline row))
    (run : t.complete s.mark kind = .ok u) :
    s.Adds env [.node kind row] u ∧ s.Roots ⟨s.mark.position, kind⟩ [.node kind row] u := by
  obtain ⟨body, recorded, emits⟩ := adds.events
  obtain ⟨events, more, completed, stretch, chain⟩ := complete_chain recorded emits holds.named
  obtain rfl := Except.ok.inj (completed.symm.trans run)
  refine ⟨⟨⟨adds.normal, adds.inside⟩, ⟨_, stretch, by simpa [Shape.stepsAll] using chain.emits⟩,
    ⟨⟨holds, adds.sound⟩, trivial⟩, adds.later, ?_, ?_⟩, row, _, 0, rfl, stretch, rfl, chain⟩
  · simpa [Shape.tokensAll, Shape.tokens, start] using adds.moved
  · simpa [Shape.tokensAll, Shape.tokens, start] using adds.brackets

/-- A node around a finished one is one shape around all that was recorded since the finished one's
beginning. -/
theorem precede_adds (adds : s.Adds env front t) (roots : s.Roots first front t)
    (started : t.precede first = .ok v) (inner : v.Adds env row w)
    (holds : kind.Holds (first.kind :: Shape.outline row)) (run : w.complete t.mark kind = .ok u) :
    ∃ children, s.Adds env [.node kind (.node first.kind children :: row)] u ∧
      s.Roots ⟨t.mark.position, kind⟩ [.node kind (.node first.kind children :: row)] u := by
  obtain ⟨children, more, head, rfl, recorded, place, chain⟩ := roots
  obtain ⟨body, recorded', emits⟩ := inner.events
  have still := precede_still started
  obtain ⟨events, preceded, completes⟩ := precede_chain recorded place chain
  obtain rfl := Except.ok.inj (preceded.symm.trans started)
  obtain ⟨events', more', completed, stretch, head', there, around⟩ := completes recorded' emits holds.named
  obtain rfl := Except.ok.inj (completed.symm.trans run)
  have sound := adds.sound
  refine ⟨children, ⟨⟨inner.normal, inner.inside⟩, ⟨_, stretch, by simpa [Shape.stepsAll] using around.emits⟩,
    ⟨⟨holds, sound.1, inner.sound⟩, trivial⟩, ?_, ?_, ?_⟩, _, _, head', rfl, stretch, there, around⟩
  · exact Nat.le_trans adds.later (still.1 ▸ inner.later)
  · have whole := inner.moved
    rw [still.1, adds.moved] at whole
    simp only [whole, Shape.tokensAll, Shape.tokens, List.append_nil, List.map_append, List.sum_append]
    omega
  · have back := inner.brackets
    rw [still.1] at back
    rw [← TokenStream.kinds_append _ adds.later (still.1 ▸ inner.later), List.filter_append, adds.brackets]
    simp only [back, Shape.tokensAll, Shape.tokens, List.append_nil, List.map_append, List.filter_append]

private theorem release_adds (adds : s.start.Adds env row t) (run : t.release s.mark = .ok u) : s.Adds env row u := by
  obtain ⟨body, recorded, emits⟩ := adds.events
  obtain ⟨events, more, released, stretch, left⟩ := release_emits recorded emits
  obtain rfl := Except.ok.inj (released.symm.trans run)
  exact ⟨⟨adds.normal, adds.inside⟩, ⟨more, stretch, left⟩, adds.sound, adds.later, adds.moved, adds.brackets⟩

end Parser.State

namespace Grammar

open LosslessJava.Parser Shape

variable {bounds : Bounds} {α : Type} {s t : State} {kind : Kind}

theorem draws_consume (known : kind ≠ .unknown) :
    Draws bounds (consume kind) s fun _ row t =>
      row = [.token kind 1] ∧ (kind ≠ .eof → s.position < t.position) := fun a t gives ready _ => by
  have run := Result.of_done gives.act
  unfold State.consume at run
  split at run
  · next here =>
    cases run
    have adds := State.Adds.one ready (here ▸ known)
    rw [here] at adds
    refine ⟨_, adds, rfl, fun more => ?_⟩
    rw [State.position_pushToken (here ▸ more)]
    exact Nat.lt_succ_self _
  · cases run

theorem draws_consumeAny (known : s.current bounds.env ≠ .unknown) (more : s.current bounds.env ≠ .eof) :
    Draws bounds consumeAny s fun _ row _ => row = [.token (s.current bounds.env) 1] := fun a t gives ready _ => by
  have run := gives.act
  simp only [Action.run, State.consumeAny, if_neg more, Except.ok.injEq, Prod.mk.injEq] at run
  obtain ⟨-, rfl⟩ := run
  exact ⟨_, .one ready known, rfl⟩

theorem draws_consumeAs (plain : kind.isPlain = true) :
    Draws bounds (consumeAs kind) s fun _ row _ => row = [.token kind 1] := fun a t gives ready _ => by
  have run := Result.of_done gives.act
  unfold State.consumeAs at run
  split at run
  · next here =>
    cases run
    have known : kind ≠ .unknown := by rintro rfl; cases plain
    refine ⟨_, .join ready known (Kind.isBracket_of_isPlain plain) fun n only => ?_, rfl⟩
    obtain rfl : n = 0 := by omega
    change (s.current bounds.env).isBracket = false
    rcases here with name | same
    · rw [name]
      rfl
    · rw [same]
      exact Kind.isBracket_of_isPlain plain
  · cases run

theorem draws_join {count : Nat} (plain : kind.isPlain = true)
    (none : ∀ n < count, ((s.cursor bounds.env).nth n).isBracket = false) :
    Draws bounds (join kind count) s fun _ row _ => row = [.token kind count] := fun a t gives ready _ => by
  have run := gives.act
  cases run
  have known : kind ≠ .unknown := by rintro rfl; cases plain
  exact ⟨_, .join ready known (Kind.isBracket_of_isPlain plain) none, rfl⟩

theorem draws_nodeOf {rule : Rule Kind} {P : Kind → Prop}
    (inner : Draws bounds rule s.start fun kind row _ => kind.Holds (outline row) ∧ P kind) :
    Draws bounds (nodeOf rule) s fun first row t => s.Roots first row t ∧ P first.kind :=
  fun first u gives ready clean => by
    obtain ⟨mark, t, started, gives⟩ := gives.bind
    cases started.act
    obtain ⟨kind, v, ran, closed⟩ := gives.bind
    have early := ran.le_errorCount
    have late := closed.le_errorCount
    obtain ⟨row, adds, holds, also⟩ := inner kind v ran ready.start (by simp only [State.start] at *; omega)
    obtain ⟨w, done, same⟩ := map_eq_ok.mp closed.act
    cases same
    obtain ⟨whole, roots⟩ := State.complete_adds adds holds done
    exact ⟨_, whole, roots, also⟩

theorem draws_node {rule : Rule Unit}
    (inner : Draws bounds rule s.start fun _ row _ => kind.Holds (outline row)) :
    Draws bounds (Parser.node kind rule) s fun first row t => s.Roots first row t ∧ first.kind = kind :=
  draws_nodeOf (P := (· = kind)) (.bind inner fun _ row _ _ holds => .pure (by simpa using holds))

theorem draws_around {first : Completed} {rule : Rule Kind} {front : List Shape} {P : Kind → Prop}
    (before : s.Adds bounds.env front t) (roots : s.Roots first front t)
    (inner : ∀ u, u.position = t.position → Draws bounds rule u fun kind row _ =>
      kind.Holds (first.kind :: outline row) ∧ P kind) :
    DrawsSince bounds s (around first rule) t fun outer row u => s.Roots outer row u ∧ P outer.kind :=
  fun outer u gives ready clean => by
    obtain ⟨mark, v, started, gives⟩ := gives.bind
    obtain ⟨v', preceded, same⟩ := map_eq_ok.mp started.act
    cases same
    obtain ⟨here, still, none⟩ := State.precede_still preceded
    obtain ⟨kind, w, ran, closed⟩ := gives.bind
    have early := ran.le_errorCount
    have late := closed.le_errorCount
    obtain ⟨row, adds, holds, also⟩ := inner _ here kind w ran
      ⟨still.trans ready.normal, here ▸ ready.inside⟩ (by omega)
    obtain ⟨x, done, same⟩ := map_eq_ok.mp closed.act
    cases same
    obtain ⟨children, whole, roots⟩ := State.precede_adds before roots preceded adds holds done
    exact ⟨_, whole, roots, also⟩

theorem draws_nodeIf {rule : Rule (Option Kind)} {P : Kind → Prop} {Q : List Shape → Prop}
    (inner : Draws bounds rule s.start fun found row _ =>
      match found with
      | some kind => kind.Holds (outline row) ∧ P kind
      | none => Q row) :
    Draws bounds (nodeIf rule) s fun found row t =>
      match found with
      | some first => s.Roots first row t ∧ P first.kind
      | none => Q row := fun found u gives ready clean => by
  obtain ⟨mark, t, started, gives⟩ := gives.bind
  cases started.act
  obtain ⟨kind, v, ran, closed⟩ := gives.bind
  have early := ran.le_errorCount
  have late := closed.le_errorCount
  obtain ⟨row, adds, holds⟩ := inner kind v ran ready.start (by simp only [State.start] at *; omega)
  cases kind with
  | some kind =>
    obtain ⟨first, w, closed, ended⟩ := closed.bind
    obtain ⟨rfl, rfl⟩ := ended.pure
    obtain ⟨x, done, same⟩ := map_eq_ok.mp closed.act
    cases same
    obtain ⟨whole, roots⟩ := State.complete_adds adds holds.1 done
    exact ⟨_, whole, roots, holds.2⟩
  | none =>
    obtain ⟨_, w, closed, ended⟩ := closed.bind
    obtain ⟨rfl, rfl⟩ := ended.pure
    exact ⟨row, State.release_adds adds (Result.of_done closed.act), holds⟩

theorem draws_nodeWith {rule : Rule (Kind × α)} {P : Kind → Prop}
    (inner : Draws bounds rule s.start fun (kind, _) row _ => kind.Holds (outline row) ∧ P kind) :
    Draws bounds (nodeWith rule) s fun _ row _ => ∃ kind children, row = [.node kind children] ∧ P kind := fun a u gives ready clean => by
  obtain ⟨mark, t, started, gives⟩ := gives.bind
  cases started.act
  obtain ⟨⟨kind, b⟩, v, ran, closed⟩ := gives.bind
  have early := ran.le_errorCount
  have late := closed.le_errorCount
  obtain ⟨row, adds, holds, also⟩ := inner _ v ran ready.start (by simp only [State.start] at *; omega)
  obtain ⟨_, w, closed, ended⟩ := closed.bind
  obtain ⟨rfl, rfl⟩ := ended.pure
  obtain ⟨_, w, closed, ended⟩ := closed.bind
  obtain ⟨-, rfl⟩ := ended.pure
  obtain ⟨x, done, same⟩ := map_eq_ok.mp closed.act
  cases same
  obtain ⟨whole, -⟩ := State.complete_adds adds holds done
  exact ⟨_, whole, kind, row, rfl, also⟩

end Grammar

end LosslessJava
