import LosslessJava.Proofs.EventShapes
import LosslessJava.Proofs.BracketBudgets

/-! What a switch block holds. A stretch of events is judged by the site it stands at: in a block, in an
entry, in a label or anywhere else. What was passed on the way, the form of the block and the ends of
labels, leads from one site to another. The tree that is built from the events is judged by the same
sites, though a node may stand around others there that was started behind them. -/

namespace LosslessJava

@[reducible] def Kind.isOrdinary : Kind → Bool
  | .tombstone | .switchBlock | .switchRule | .switchGroup | .switchLabel => false
  | _ => true

@[reducible] def Kind.isPart : Kind → Bool
  | .switchRule | .switchGroup | .switchLabel => true
  | _ => false

@[reducible] def Kind.endsLabel : Kind → Bool
  | .colon | .arrow => true
  | _ => false

@[reducible] def Kind.isQuiet : Kind → Bool
  | .colon | .arrow => false
  | _ => true

theorem Kind.isPart_of_isOrdinary {kind : Kind} (ordinary : kind.isOrdinary = true) : kind.isPart = false := by
  cases kind <;> first | rfl | cases ordinary

structure Errors where
  any : Prop
  told : Nat → Prop

structure Errors.Grow (before after : Errors) : Prop where
  any : before.any → after.any
  told : ∀ index, before.told index → after.told index

namespace Errors.Grow

theorem refl {errors : Errors} : errors.Grow errors := ⟨id, fun _ => id⟩

theorem trans {one two three : Errors} (first : one.Grow two) (second : two.Grow three) : one.Grow three :=
  ⟨second.any ∘ first.any, fun index told => second.told index (first.told index told)⟩

end Errors.Grow

/-- Where something stands, as far as switch blocks go. -/
inductive Site where
  | elsewhere
  /-- In a block of this form so far. Nothing may be put around an entry, so it counts whether one stands
  right before. -/
  | block (form : Option Kind) (behind : Bool)
  /-- In an entry with labels that end so, `none` being a label without an end. -/
  | entry (form : Option Kind) (ends : List (Option Kind)) (behind : Bool)
  /-- In a label, before its end. -/
  | label (form : Option Kind)
  /-- In a label, behind its end. -/
  | ended (form ending : Kind)

namespace Site

def isBehind : Site → Bool
  | .block _ behind | .entry _ _ behind => behind
  | _ => false

def settled : Site → Site
  | .block form _ => .block form false
  | .entry form ends _ => .entry form ends false
  | site => site

def Hosts (quiet : Bool) : Site → Prop
  | .elsewhere => True
  | .block _ behind | .entry _ _ behind => behind = false
  | .label _ => quiet = true
  | .ended _ _ => False

/-- What a node leads from and to, and its contents within it. The first label of an entry decides about its kind;
where the end of a label is missing, there is
an error. -/
inductive Around (errors : Errors) : Site → Kind → Site → Site → Site → Prop where
  | plain {site kind} (ordinary : kind.isOrdinary = true) (hosts : site.settled.Hosts true) :
      Around errors site kind .elsewhere .elsewhere site.settled
  | block {site form behind} (hosts : site.settled.Hosts true) :
      Around errors site .switchBlock (.block none false) (.block form behind) site.settled
  | rule {form form' behind behind' ending} (arrow : ending ≠ some .colon) :
      Around errors (.block form behind) .switchRule (.entry form [] true) (.entry form' [ending] behind') (.block form' true)
  | group {form form' behind behind' ending more} (colon : ending ≠ some .arrow) :
      Around errors (.block form behind) .switchGroup (.entry form [] true) (.entry form' (ending :: more) behind')
        (.block form' true)
  | label {form ends established ending} :
      Around errors (.entry form ends true) .switchLabel (.label form) (.ended established ending)
        (.entry (some established) (ends ++ [some ending]) true)
  | endless {form ends} (failed : errors.any) :
      Around errors (.entry form ends true) .switchLabel (.label form) (.label form) (.entry form (ends ++ [none]) true)

variable {errors : Errors} {site inner inner' after : Site} {kind : Kind} {quiet : Bool}

@[simp] theorem settled_settled : site.settled.settled = site.settled := by cases site <;> rfl

theorem Hosts.loud (hosts : site.Hosts quiet) : site.Hosts true := by
  cases site <;> first | rfl | exact hosts

theorem Hosts.settled_eq (hosts : site.Hosts quiet) : site.settled = site := by
  cases site with
  | block | entry =>
    cases hosts
    rfl
  | _ => rfl

theorem Hosts.not_behind (hosts : site.Hosts quiet) : site.isBehind = false := by
  cases site <;> first | rfl | exact hosts

namespace Around

theorem completed (around : Around errors site kind inner inner' after) : kind ≠ .tombstone := by
  cases around with
  | plain ordinary =>
    rintro rfl
    cases ordinary
  | _ => decide

private theorem mono {errors' : Errors} (more : errors.Grow errors')
    (around : Around errors site kind inner inner' after) : Around errors' site kind inner inner' after := by
  cases around with
  | plain ordinary hosts => exact .plain ordinary hosts
  | block hosts => exact .block hosts
  | rule arrow => exact .rule arrow
  | group colon => exact .group colon
  | label => exact .label
  | endless failed => exact .endless (more.any failed)

/-- Behind an entry or a label there may stand what may stand elsewhere in the same place. -/
theorem behind (around : Around errors site.settled kind inner inner' after) : Around errors site kind inner inner' after := by
  generalize same : site.settled = settled at around
  cases around with
  | plain ordinary hosts =>
    subst same
    rw [settled_settled] at hosts ⊢
    exact .plain ordinary hosts
  | block hosts =>
    subst same
    rw [settled_settled] at hosts ⊢
    exact .block hosts
  | rule arrow =>
    cases site <;> cases same
    exact .rule arrow
  | group colon =>
    cases site <;> cases same
    exact .group colon
  | label | endless => cases site <;> cases same

/-- A node that is not one of the parts of a switch block may stand anywhere, and leads nowhere. -/
theorem elsewhere (around : Around errors site kind inner inner' after) (whole : kind.isPart = false) :
    Around errors .elsewhere kind inner inner' .elsewhere ∧ after = site.settled := by
  cases around with
  | plain ordinary => exact ⟨.plain ordinary trivial, rfl⟩
  | block => exact ⟨.block trivial, rfl⟩
  | _ => cases whole

private theorem isBehind_of_isPart (around : Around errors site kind inner inner' after) (part : kind.isPart = true) :
    after.isBehind = true := by
  cases around with
  | plain ordinary => cases part.symm.trans (Kind.isPart_of_isOrdinary ordinary)
  | block => cases part
  | _ => rfl

end Around

end Site

namespace Event

/-- A stretch of events leads from one site to another. Its first event is at this index, behind so many tokens of
the stream. Where a label ends otherwise than the form of the block says, that is told; and the nodes that stand
right behind a part of a block are none of those that starts point to. -/
inductive Arranged (errors : Errors) (aims : Nat → Prop) : Site → Nat → Nat → List Event → Site → Prop where
  | nil {site raw index} : Arranged errors aims site raw index [] site
  | tombstone {site raw index rest last} (hosts : site.settled.Hosts true)
      (later : Arranged errors aims site.settled raw (index + 1) rest last) :
      Arranged errors aims site raw index (.tombstone :: rest) last
  | token {site kind count raw index rest last} (hosts : site.settled.Hosts kind.isQuiet)
      (later : Arranged errors aims site.settled (raw + count) (index + 1) rest last) :
      Arranged errors aims site raw index (.token kind count :: rest) last
  | ending {form kind raw index rest last} (ends : kind.endsLabel = true)
      (mixed : form.getD kind ≠ kind → errors.told raw)
      (later : Arranged errors aims (.ended (form.getD kind) kind) (raw + 1) (index + 1) rest last) :
      Arranged errors aims (.label form) raw index (.token kind 1 :: rest) last
  | node {site kind inner inner' after raw index body rest last}
      (around : Site.Around errors site kind inner inner' after)
      (apart : site.isBehind = true → kind.isPart = false → ¬ aims index)
      (within : Arranged errors aims inner raw (index + 1) body inner')
      (later : Arranged errors aims after (raw + rawCount body) (index + body.length + 2) rest last) :
      Arranged errors aims site raw index (.start kind none :: (body ++ .finish :: rest)) last

namespace Arranged

variable {errors : Errors} {aims : Nat → Prop} {site middle last : Site} {raw index : Nat} {front back events : List Event}

theorem append (first : Arranged errors aims site raw index front middle)
    (second : Arranged errors aims middle (raw + rawCount front) (index + front.length) back last) :
    Arranged errors aims site raw index (front ++ back) last := by
  induction first with
  | nil => simpa [rawCount] using second
  | tombstone hosts _ ih =>
    refine .tombstone hosts (ih ?_)
    simpa [rawCount, Event.tombstone, Nat.add_assoc, Nat.add_comm 1] using second
  | token hosts _ ih =>
    refine .token hosts (ih ?_)
    simpa [rawCount, Nat.add_assoc, Nat.add_comm 1] using second
  | ending ends mixed _ ih =>
    refine .ending ends mixed (ih ?_)
    simpa [rawCount, Nat.add_assoc, Nat.add_comm 1] using second
  | @node site kind inner inner' after raw index body rest _ around apart within _ _ ih =>
    have split : Event.start kind none :: (body ++ .finish :: rest) ++ back =
        .start kind none :: (body ++ .finish :: (rest ++ back)) := by simp
    rw [split]
    refine .node around apart within (ih ?_)
    have length : index + (Event.start kind none :: (body ++ .finish :: rest)).length =
        index + body.length + 2 + rest.length := by
      simp only [List.length_cons, List.length_append]
      omega
    have count : raw + rawCount (Event.start kind none :: (body ++ .finish :: rest)) =
        raw + rawCount body + rawCount rest := by
      simp [rawCount, Nat.add_assoc]
    rwa [length, count] at second

/-- More may be told, and fewer starts pointed to. -/
theorem mono {errors' : Errors} {aims' : Nat → Prop} (more : errors.Grow errors')
    (fewer : ∀ place, index ≤ place → place < index + events.length → aims' place → aims place)
    (arranged : Arranged errors aims site raw index events last) : Arranged errors' aims' site raw index events last := by
  induction arranged with
  | nil => exact .nil
  | tombstone hosts _ ih =>
    exact .tombstone hosts (ih fun place first stop => fewer place (by omega) (by simp only [List.length_cons]; omega))
  | token hosts _ ih =>
    exact .token hosts (ih fun place first stop => fewer place (by omega) (by simp only [List.length_cons]; omega))
  | ending ends mixed _ ih =>
    exact .ending ends (fun other => more.told _ (mixed other))
      (ih fun place first stop => fewer place (by omega) (by simp only [List.length_cons]; omega))
  | node around apart _ _ inner ih =>
    simp only [List.length_cons, List.length_append] at fewer
    refine .node (around.mono more) (fun behind whole aimed => ?_) (inner fun place first stop => ?_)
      (ih fun place first stop => ?_)
    · exact apart behind whole (fewer _ (Nat.le_refl _) (by omega) aimed)
    · exact fewer place (by omega) (by omega)
    · exact fewer place (by omega) (by omega)

/-- What may stand at a site may stand right behind a part of a switch block there, if no start points to it. -/
theorem behind (arranged : Arranged errors aims site.settled raw index events last) (apart : ¬ aims index) :
    Arranged errors aims site raw index events last ∨ events = [] ∧ last = site.settled := by
  generalize same : site.settled = settled at arranged
  cases arranged with
  | nil => exact .inr ⟨rfl, rfl⟩
  | tombstone hosts later =>
    subst same
    rw [Site.settled_settled] at hosts later
    exact .inl (.tombstone hosts later)
  | token hosts later =>
    subst same
    rw [Site.settled_settled] at hosts later
    exact .inl (.token hosts later)
  | ending ends mixed later =>
    cases site <;> cases same
    exact .inl (.ending ends mixed later)
  | node around _ within later =>
    subst same
    exact .inl (.node around.behind (fun _ _ => apart) within later)

private theorem balanced (arranged : Arranged errors aims site raw index events last) : climbAll 0 events = some 0 := by
  induction arranged with
  | nil => rfl
  | tombstone _ _ ih => simpa [climb, Event.tombstone] using ih
  | token _ _ ih | ending _ _ _ ih => simpa [climb] using ih
  | node around _ _ _ inner ih =>
    simp [climb, around.completed, climbAll_append, climbAll_of_balanced inner, ih]

private theorem of_node {kind : Kind} {body rest : List Event} (balanced : climbAll 0 body = some 0) (completed : kind ≠ .tombstone)
    (arranged : Arranged errors aims site raw index (.start kind none :: (body ++ .finish :: rest)) last) :
    ∃ inner inner' after, Site.Around errors site kind inner inner' after ∧
      Arranged errors aims inner raw (index + 1) body inner' ∧
      Arranged errors aims after (raw + rawCount body) (index + body.length + 2) rest last := by
  generalize same : Event.start kind none :: (body ++ .finish :: rest) = events at arranged
  cases arranged with
  | tombstone =>
    cases same
    exact absurd rfl completed
  | node around _ within later =>
    obtain ⟨head, tail⟩ := List.cons.inj same
    cases head
    obtain ⟨rfl, rfl⟩ := body_unique balanced within.balanced tail
    exact ⟨_, _, _, around, within, later⟩
  | _ => cases same

private theorem of_tombstone {rest : List Event} (arranged : Arranged errors aims site raw index (.tombstone :: rest) last) :
    Arranged errors aims site.settled raw (index + 1) rest last := by
  generalize same : Event.tombstone :: rest = events at arranged
  cases arranged with
  | tombstone _ later =>
    cases same
    exact later
  | node around =>
    cases same
    exact absurd rfl around.completed
  | _ => cases same

private theorem apart {kind : Kind} {rest : List Event} (completed : kind ≠ .tombstone)
    (arranged : Arranged errors aims site raw index (.start kind none :: rest) last) (behind : site.isBehind = true)
    (whole : kind.isPart = false) : ¬ aims index := by
  cases arranged with
  | tombstone => exact absurd rfl completed
  | node _ apart => exact apart behind whole

end Arranged

private theorem climbAll_bare (depth : Nat) (events : List Event) : climbAll depth (events.map bare) = climbAll depth events := by
  induction events generalizing depth with
  | nil => rfl
  | cons event rest ih => cases event <;> simp [bare, climb, ih]

theorem rawCount_bare (events : List Event) : rawCount (events.map bare) = rawCount events := by
  induction events with
  | nil => rfl
  | cons event rest ih => cases event <;> simp [bare, rawCount, ih]

def Ordinary (events : Array Event) (index : Nat) : Prop :=
  ∃ kind, (bares events)[index]? = some (.start kind none) ∧ kind.isOrdinary = true

end Event

namespace Shape

def width (row : List Shape) : Nat := ((tokensAll row).map Prod.snd).sum

@[simp] theorem width_nil : width [] = 0 := rfl

@[simp] theorem width_append (front back : List Shape) : width (front ++ back) = width front + width back := by
  simp [width]

@[simp] theorem width_token (kind : Kind) (count : Nat) (rest : List Shape) :
    width (.token kind count :: rest) = count + width rest := by simp [width, tokensAll, tokens]

@[simp] theorem width_node (kind : Kind) (children rest : List Shape) :
    width (.node kind children :: rest) = width children + width rest := by simp [width, tokensAll, tokens]

/-- A row of shapes leads from one site to another. Its first token is behind so many tokens of the stream. -/
inductive Arranged (errors : Errors) : Site → Nat → List Shape → Site → Prop where
  | nil {site last raw} (still : last = site ∨ last = site.settled) : Arranged errors site raw [] last
  | token {site kind count raw rest last} (hosts : site.settled.Hosts kind.isQuiet)
      (later : Arranged errors site.settled (raw + count) rest last) :
      Arranged errors site raw (.token kind count :: rest) last
  | ending {form kind raw rest last} (ends : kind.endsLabel = true) (mixed : form.getD kind ≠ kind → errors.told raw)
      (later : Arranged errors (.ended (form.getD kind) kind) (raw + 1) rest last) :
      Arranged errors (.label form) raw (.token kind 1 :: rest) last
  | node {site kind inner inner' after raw children rest last} (around : Site.Around errors site kind inner inner' after)
      (within : Arranged errors inner raw children inner') (later : Arranged errors after (raw + width children) rest last) :
      Arranged errors site raw (.node kind children :: rest) last

namespace Arranged

variable {errors : Errors} {site middle last : Site} {raw : Nat} {front back row : List Shape}

theorem behind (arranged : Arranged errors site.settled raw row last) : Arranged errors site raw row last := by
  generalize same : site.settled = settled at arranged
  cases arranged with
  | nil still =>
    subst same
    rw [Site.settled_settled, or_self] at still
    exact .nil (.inr still)
  | token hosts later =>
    subst same
    rw [Site.settled_settled] at hosts later
    exact .token hosts later
  | ending ends mixed later =>
    cases site <;> cases same
    exact .ending ends mixed later
  | node around within later =>
    subst same
    exact .node around.behind within later

private theorem append (first : Arranged errors site raw front middle) (second : Arranged errors middle (raw + width front) back last) :
    Arranged errors site raw (front ++ back) last := by
  induction first with
  | nil still =>
    rcases still with rfl | rfl
    · exact second
    · exact second.behind
  | token hosts _ ih =>
    refine .token hosts (ih ?_)
    rwa [width_token, ← Nat.add_assoc] at second
  | ending ends mixed _ ih =>
    refine .ending ends mixed (ih ?_)
    rwa [width_token, ← Nat.add_assoc] at second
  | node around within _ _ ih =>
    refine .node around within (ih ?_)
    rwa [width_node, ← Nat.add_assoc] at second

private theorem holds {children : List Shape} {inner inner' after : Site} {kind : Kind} {start : Nat}
    (around : Site.Around errors site kind inner inner' after)
    (first : Arranged errors .elsewhere start front .elsewhere) (place : raw = start + width front)
    (within : Arranged errors inner raw children inner') (opens : front = [] ∨ kind.isOrdinary = true) :
    Arranged errors inner start (front ++ children) inner' := by
  subst place
  rcases opens with rfl | ordinary
  · exact within
  · cases around with
    | plain => exact first.append within
    | _ => cases ordinary

end Arranged

end Shape

namespace Event

private theorem Nests.width_eq {front row : List Shape} {events : List Event} (nests : Nests front events row) :
    Shape.width row = Shape.width front + rawCount events := by
  induction nests with
  | nil => rfl
  | given _ ih => simpa [rawCount] using ih
  | token _ ih => simp [rawCount, ih]
  | node _ _ _ inner ih =>
    simp only [Shape.width_node, Shape.width_append, inner, ih, Shape.width_nil, rawCount, rawCount_append]
    omega
  | first _ _ _ _ inner ih =>
    simp only [Shape.width_node, Shape.width_append, Shape.width_nil, inner, rawCount] at ih
    simp only [ih, rawCount, rawCount_append]
    omega

private theorem located_later {whole : Array Event} {event : Event} {rest : List Event} {index : Nat}
    (located : ∀ place found, (event :: rest)[place]? = some found → whole[index + place]? = some found) :
    ∀ place found, rest[place]? = some found → whole[index + 1 + place]? = some found := fun place found there => by
  rw [Nat.add_assoc, Nat.add_comm 1]
  exact located (place + 1) found (by simpa using there)

private theorem located_inside {whole : Array Event} {event : Event} {body rest : List Event} {index : Nat}
    (located : ∀ place found, (event :: (body ++ rest))[place]? = some found → whole[index + place]? = some found) :
    ∀ place found, body[place]? = some found → whole[index + 1 + place]? = some found := fun place found there =>
  located_later located place found (by rw [List.getElem?_append_left (List.getElem?_eq_some_iff.mp there).1, there])

private theorem located_behind {whole : Array Event} {event other : Event} {body rest : List Event} {index : Nat}
    (located : ∀ place found, (event :: (body ++ other :: rest))[place]? = some found → whole[index + place]? = some found) :
    ∀ place found, rest[place]? = some found → whole[index + body.length + 2 + place]? = some found :=
  fun place found there => by
    have later := located_later located (body.length + (place + 1)) found (by rw [getElem?_behind, List.getElem?_cons_succ, there])
    rwa [show index + body.length + 2 + place = index + 1 + (body.length + (place + 1)) by omega]

/-- A row that a stretch of events is built as leads from one site to another as they do. What is put in front of its
first node stands elsewhere, as does all that this node holds. -/
theorem Nests.arranged {errors : Errors} {whole : Array Event}
    (ordinary : ∀ index, Targets whole index → Ordinary whole index) {front row : List Shape} {events : List Event}
    (nests : Nests front events row) {site last : Site} {raw index start : Nat}
    (located : ∀ place event, events[place]? = some event → whole[index + place]? = some event)
    (arranged : Arranged errors (Targets whole) site raw index (events.map bare) last)
    (first : Shape.Arranged errors .elsewhere start front .elsewhere) (place : raw = start + Shape.width front)
    (opens : front = [] ∨ ∃ kind parent rest, events = .start kind parent :: rest ∧ kind.isOrdinary = true) :
    Shape.Arranged errors site start row last := by
  have nothing {raw : Nat} : Shape.Arranged errors .elsewhere raw [] .elsewhere := .nil (.inl rfl)
  induction nests generalizing site last raw index start with
  | nil =>
    cases arranged
    exact .nil (.inl rfl)
  | @given parent rest _ _ ih =>
    rw [List.map_cons, bare] at arranged
    have later := arranged.of_tombstone
    exact (ih (located_later located) later first place (.inl rfl)).behind
  | @token kind count rest _ _ ih =>
    rw [Shape.width_nil, Nat.add_zero] at place
    subst place
    rw [List.map_cons] at arranged
    replace arranged : Arranged errors (Targets whole) site raw index (.token kind count :: rest.map bare) last := arranged
    generalize same : rest.map bare = tail at arranged
    cases arranged with
    | token hosts later =>
      subst same
      exact .token hosts (ih (located_later located) later nothing rfl (.inl rfl))
    | ending ends mixed later =>
      subst same
      exact .ending ends mixed (ih (located_later located) later nothing rfl (.inl rfl))
  | @node front kind body children rest row completed within nests' inner ih =>
    rw [List.map_cons, List.map_append, List.map_cons] at arranged
    obtain ⟨first', last', after, around, contents, later⟩ :=
      arranged.of_node ((climbAll_bare 0 body).trans within.balanced) completed
    rw [rawCount_bare, List.length_map] at later
    have ordinary : front = [] ∨ kind.isOrdinary = true := by
      obtain none | ⟨_, _, _, same, ordinary⟩ := opens
      · exact .inl none
      · cases same
        exact .inr ordinary
    have below := inner (located_inside located) contents nothing rfl (.inl rfl)
    refine .node around (.holds around first place below ordinary) ?_
    refine ih (located_behind located) later nothing ?_ (.inl rfl)
    simp only [place, Shape.width_append, within.width_eq, Shape.width_nil]
    omega
  | @first front kind body children outer parent rest row completed completed' within nests' inner ih =>
    rw [List.map_cons, List.map_append, List.map_cons] at arranged
    obtain ⟨first', last', after, around, contents, later⟩ :=
      arranged.of_node ((climbAll_bare 0 body).trans within.balanced) completed
    rw [rawCount_bare, List.length_map] at later
    -- The start of the node around this one is pointed to, so it is not behind a part of a switch block.
    have aimed : Targets whole (index + body.length + 2) :=
      ⟨index, kind, body.length + 2, located 0 _ rfl, (Nat.add_assoc ..).symm⟩
    have whole' : outer.isOrdinary = true := by
      obtain ⟨kind', there, ordinary⟩ := ordinary _ aimed
      have found := located_behind located 0 _ rfl
      rw [Nat.add_zero] at found
      rw [bares, List.getElem?_map, Array.getElem?_toList, found] at there
      cases there
      exact ordinary
    have apart : kind.isPart = false := by
      by_contra part
      rw [List.map_cons, bare] at later
      exact later.apart completed' (around.isBehind_of_isPart (by simpa using part)) (Kind.isPart_of_isOrdinary whole') aimed
    obtain ⟨around', rfl⟩ := around.elsewhere apart
    have ordinary : front = [] ∨ kind.isOrdinary = true := by
      obtain none | ⟨_, _, _, same, ordinary⟩ := opens
      · exact .inl none
      · cases same
        exact .inr ordinary
    have below := inner (located_inside located) contents nothing rfl (.inl rfl)
    have front' : Shape.Arranged errors .elsewhere start [.node kind (front ++ children)] .elsewhere :=
      .node around' (.holds around' first place below ordinary) nothing
    refine (ih (located_behind located) later front' ?_ (.inr ⟨_, _, _, rfl, whole'⟩)).behind
    simp only [place, Shape.width_node, Shape.width_append, within.width_eq, Shape.width_nil]
    omega

end Event

end LosslessJava
