import LosslessJava.Parser.Program
import LosslessJava.Proofs.Replay

/-! What a program that records nodes means. A node is started, and finished or given up, while those around it are
open; and once it is finished, another one may be started around it and what was recorded behind it. Told as trees
this is to take parts out of the innermost open node and to put them into a new one. The parser records it in a row of
events with pointers in it; the building steps that it replays from them are those of the trees. -/

namespace LosslessJava

open LosslessJava.Parser (Action Completed Env Mark State)

/-- A step of a program that records nodes. What it completes or gives up is the node that was started last. -/
inductive Marking where
  | start
  | token (kind : Kind) (rawCount : Nat)
  | complete (kind : Kind)
  | abandon
  /-- Starts a node around one that was completed, which is told by its number: so many were completed before it. -/
  | precede (node : Nat)
  deriving DecidableEq, Repr

namespace Marking

section Meaning

/-- A part of a node. A node among them has its number for as long as no other one was started around it. -/
structure Part where
  shape : Shape
  number : Option Nat := none

/-- A node that was started, or the row of trees around all nodes. -/
structure Open where
  parts : List Part := []
  /-- Whether it was started around a completed node. -/
  around : Bool := false
  /-- Whether nothing was recorded since it was started. -/
  fresh : Bool := true

def Open.take (node : Open) (parts : List Part) : Open := { node with parts := node.parts ++ parts, fresh := false }

/-- The parts before a node with a number; and those from it on, which a new node is started around. -/
def partsFrom (number : Nat) : List Part → Option (List Part × List Part)
  | [] => none
  | part :: rest =>
    if part.number = some number then
      some ([], { part with number := none } :: rest)
    else do
      let (before, within) ← partsFrom number rest
      return (part :: before, within)

/-- What was recorded so far. -/
structure Outline where
  inner : Open := {}
  /-- What is around the innermost open node, from the inside out. -/
  outer : List Open := []
  /-- How many nodes were completed. -/
  completed : Nat := 0

/-- What a step means. No node is of the kind of starts that were given up. A node that is given up leaves what it
holds to the one around it. -/
def Outline.step (outline : Outline) : Marking → Option Outline
  | .start => some { outline with inner := {}, outer := outline.inner :: outline.outer }
  | .token kind rawCount => some { outline with inner := outline.inner.take [{ shape := .token kind rawCount }] }
  | .complete kind =>
    match outline.outer with
    | next :: rest =>
      if kind = .tombstone then
        none
      else
        let node := Shape.node kind (outline.inner.parts.map Part.shape)
        some {
          inner := next.take [{ shape := node, number := some outline.completed }]
          outer := rest
          completed := outline.completed + 1 }
    | [] => none
  | .abandon =>
    match outline.outer with
    | next :: rest =>
      if outline.inner.fresh && !outline.inner.around then
        some { outline with inner := next, outer := rest }
      else
        some { outline with inner := next.take outline.inner.parts, outer := rest }
    | [] => none
  | .precede node => do
    let (before, within) ← partsFrom node outline.inner.parts
    let inner : Open := { parts := within, around := true }
    return { outline with inner, outer := { outline.inner with parts := before } :: outline.outer }

/-- The row of trees that a program means, if it is one that records nodes. -/
def row? (program : List Marking) : Option (List Shape) := do
  let outline ← program.foldlM Outline.step {}
  if outline.outer.isEmpty then some (outline.inner.parts.map Part.shape) else none

/-- Whether a step gives up a node that was started around another one, before anything was recorded in it. -/
def Outline.forsakes (outline : Outline) : Marking → Bool
  | .abandon => outline.inner.fresh && outline.inner.around
  | _ => false

/-- Whether no step of a program does so. -/
def Outline.spares (outline : Outline) : List Marking → Bool
  | [] => true
  | marking :: rest => !outline.forsakes marking && (outline.step marking).all fun next => next.spares rest

end Meaning

section Recording

/-- A program that is carried out on a parser's state. -/
structure Recorder where
  state : State := {}
  /-- The marks of the open nodes, from the inside out. -/
  marks : List Mark := []
  nodes : List Completed := []

def Recorder.step (env : Env) (recorder : Recorder) : Marking → Except Halt Recorder
  | .start => do
    let (mark, state) ← Action.start.run env recorder.state
    return { recorder with state, marks := mark :: recorder.marks }
  | .token kind rawCount => do
    let ((), state) ← (Action.join kind rawCount).run env recorder.state
    return { recorder with state }
  | .complete kind =>
    match recorder.marks with
    | mark :: marks => do
      let (node, state) ← (Action.complete mark kind).run env recorder.state
      return { state, marks, nodes := recorder.nodes ++ [node] }
    | [] => .error .strayMark
  | .abandon =>
    match recorder.marks with
    | mark :: marks => do
      let ((), state) ← (Action.release mark).run env recorder.state
      return { recorder with state, marks }
    | [] => .error .strayMark
  | .precede node =>
    match recorder.nodes[node]? with
    | some first => do
      let (mark, state) ← (Action.precede first).run env recorder.state
      return { recorder with state, marks := mark :: recorder.marks }
    | none => .error .strayMark

/-- The events that a program records. -/
def record (env : Env) (program : List Marking) : Except Halt (Array Event) := do
  return (← program.foldlM (Recorder.step env) {}).state.events

end Recording

/-- Where the own start of a node was recorded to which no kind is given yet, or which no other start points away from
yet. -/
structure Site where
  position : Nat
  kind : Kind
  /-- Whether no other start leads there. -/
  alone : Bool

structure Piece where
  steps : List BuildStep
  site : Option Site

def Part.piece (nodes : List Completed) (part : Part) : Piece where
  steps := part.shape.steps
  site := (part.number.bind (nodes[·]?)).map fun node => { position := node.position, kind := node.kind, alone := false }

def Open.piece (node : Open) (mark : Mark) : Piece where
  steps := []
  site := some { position := mark.position, kind := .tombstone, alone := !node.around }

def pieces (nodes : List Completed) : Open → List Open → List Mark → List Piece
  | inner, next :: outer, mark :: marks =>
    pieces nodes next outer marks ++ inner.piece mark :: inner.parts.map (Part.piece nodes)
  | inner, _, _ => inner.parts.map (Part.piece nodes)

/-- A site among events the steps of which are made from `offset` on: the start there is the last of those from which
one comes to it, and the first of them is at the offset. -/
structure Site.At (events : List Event) (offset : Nat) (site : Site) : Prop where
  found : events[site.position]? = some (.start site.kind none)
  foremost : Event.Foremost events offset site.position
  alone : site.alone = true → offset = site.position

/-- Steps that are given for each event, from `offset` on, are those of pieces, each of which begins at the first
event that leads to its site. -/
inductive Lies (events : List Event) : Nat → List (List BuildStep) → List Piece → Prop where
  | nil {offset} : Lies events offset [] []
  | skip {offset rows pieces} (later : Lies events (offset + 1) rows pieces) : Lies events offset ([] :: rows) pieces
  | cons {offset group rows piece pieces} (placed : ∀ site ∈ piece.site, site.At events offset)
      (made : group.flatten = piece.steps) (later : Lies events (offset + group.length) rows pieces) :
      Lies events offset (group ++ rows) (piece :: pieces)

def positions (pieces : List Piece) : List Nat := pieces.filterMap fun piece => piece.site.map Site.position

private theorem mem_positions {pieces : List Piece} {piece : Piece} {site : Site} (member : piece ∈ pieces)
    (given : site ∈ piece.site) : site.position ∈ positions pieces :=
  List.mem_filterMap.mpr ⟨piece, member, by rw [given]; rfl⟩

@[simp] theorem positions_append (front back : List Piece) :
    positions (front ++ back) = positions front ++ positions back := List.filterMap_append

namespace Lies

variable {events events' : List Event} {offset : Nat} {rows rows' : List (List BuildStep)} {front back : List Piece}
  {piece : Piece}

theorem flatten (lies : Lies events offset rows front) : rows.flatten = front.flatMap Piece.steps := by
  induction lies with
  | nil => rfl
  | skip _ ih => simpa using ih
  | cons _ made _ ih => rw [List.flatten_append, made, ih, List.flatMap_cons]

theorem append (lies : Lies events offset rows front) (lies' : Lies events (offset + rows.length) rows' back) :
    Lies events offset (rows ++ rows') (front ++ back) := by
  induction lies with
  | nil => exact lies'
  | skip _ ih =>
    refine .skip (ih ?_)
    rwa [List.length_cons, Nat.add_comm _ 1, ← Nat.add_assoc] at lies'
  | cons placed made _ ih =>
    rw [List.append_assoc]
    refine .cons placed made (ih ?_)
    rwa [List.length_append, ← Nat.add_assoc] at lies'

theorem split (lies : Lies events offset rows (front ++ piece :: back)) :
    ∃ before group behind, rows = before ++ (group ++ behind) ∧ Lies events offset before front ∧
      (∀ site ∈ piece.site, site.At events (offset + before.length)) ∧ group.flatten = piece.steps ∧
      Lies events (offset + before.length + group.length) behind back := by
  generalize whole : front ++ piece :: back = all at lies
  induction lies generalizing front with
  | nil => simp at whole
  | @skip offset rows pieces _ ih =>
    obtain ⟨before, group, behind, rfl, lies, placed, made, later⟩ := ih whole
    rw [Nat.add_assoc offset, Nat.add_comm 1] at placed later
    exact ⟨[] :: before, group, behind, rfl, .skip lies, placed, made, later⟩
  | @cons offset group rows first pieces placed made later ih =>
    cases front with
    | nil =>
      cases whole
      exact ⟨[], group, rows, rfl, .nil, placed, made, later⟩
    | cons head front =>
      cases whole
      obtain ⟨before, group', behind, rfl, lies, placed', made', later'⟩ := ih rfl
      rw [Nat.add_assoc offset, ← List.length_append] at placed' later'
      exact ⟨group ++ before, group', behind, by rw [List.append_assoc], .cons placed made lies, placed', made', later'⟩

theorem mono (lies : Lies events offset rows front)
    (kept : ∀ piece ∈ front, ∀ site ∈ piece.site, ∀ offset, site.At events offset → site.At events' offset) :
    Lies events' offset rows front := by
  induction lies with
  | nil => exact .nil
  | skip _ ih => exact .skip (ih kept)
  | cons placed made _ ih =>
    exact .cons (fun site member => kept _ (.head _) site member _ (placed site member)) made
      (ih fun piece member => kept piece (.tail _ member))

theorem inside (lies : Lies events offset rows front) {position : Nat} (member : position ∈ positions front) :
    position < events.length := by
  induction lies with
  | nil => cases member
  | skip _ ih => exact ih member
  | cons placed _ _ ih =>
    simp only [positions, List.filterMap_cons] at member
    split at member
    · exact ih member
    · next here =>
      obtain ⟨site, given, rfl⟩ := Option.map_eq_some_iff.mp here
      rcases List.mem_cons.mp member with rfl | later
      · exact (List.getElem?_eq_some_iff.mp (placed site given).found).1
      · exact ih later

theorem silent (nothing : rows.flatten = []) : Lies events offset rows [] := by
  induction rows generalizing offset with
  | nil => exact .nil
  | cons row rows ih =>
    rw [List.flatten_cons, List.append_eq_nil_iff] at nothing
    rw [nothing.1]
    exact .skip (ih nothing.2)

end Lies

/-- How far the marks of open nodes reach in events of which there are so many, and what is known of nodes that nothing
was recorded in. -/
def Nested : Nat → Open → List Open → List Mark → Prop
  | _, _, [], [] => True
  | size, inner, next :: outer, mark :: marks =>
    mark.position < size ∧ (inner.fresh = true ↔ mark.position + 1 = size) ∧
      (inner.fresh = true → inner.around = false → inner.parts = []) ∧ Nested mark.position next outer marks
  | _, _, _, _ => False

structure Tracks (events : List Event) (nodes : List Completed) (marks : List Mark) (outline : Outline) : Prop where
  threaded : Event.Threaded events
  lies : ∃ rows, Event.EmitsEach events rows ∧ Lies events 0 rows (pieces nodes outline.inner outline.outer marks)
  distinct : (positions (pieces nodes outline.inner outline.outer marks)).Nodup
  nested : Nested events.length outline.inner outline.outer marks
  numbered : ∀ node ∈ outline.inner :: outline.outer, ∀ part ∈ node.parts, ∀ number ∈ part.number, number < nodes.length
  named : ∀ node ∈ nodes, node.kind ≠ .tombstone
  counted : outline.completed = nodes.length

section Pieces

variable {nodes : List Completed} {inner : Open} {outer : List Open} {marks : List Mark}

private theorem pieces_take (nodes : List Completed) (inner : Open) (outer : List Open) (marks : List Mark) (parts : List Part) :
    pieces nodes (inner.take parts) outer marks = pieces nodes inner outer marks ++ parts.map (Part.piece nodes) := by
  cases outer with
  | nil => simp [pieces, Open.take]
  | cons next outer =>
    cases marks with
    | nil => simp [pieces, Open.take]
    | cons mark marks => simp [pieces, Open.take, Open.piece]

private theorem pieces_parts (nodes : List Completed) (inner : Open) (outer : List Open) (marks : List Mark)
    (front back : List Part) (split : inner.parts = front ++ back) :
    pieces nodes inner outer marks =
      pieces nodes { inner with parts := front } outer marks ++ back.map (Part.piece nodes) := by
  cases outer with
  | nil => simp [pieces, split]
  | cons next outer =>
    cases marks with
    | nil => simp [pieces, split]
    | cons mark marks => simp [pieces, split, Open.piece]

private theorem Part.piece_append (node : Completed) {part : Part} (known : ∀ number ∈ part.number, number < nodes.length) :
    part.piece (nodes ++ [node]) = part.piece nodes := by
  unfold Part.piece
  cases number : part.number with
  | none => rfl
  | some index =>
    have inside := known index number
    simp only [Option.bind_some, List.getElem?_append_left inside]

private theorem pieces_append (node : Completed) (numbered : ∀ open_ ∈ inner :: outer, ∀ part ∈ open_.parts,
    ∀ number ∈ part.number, number < nodes.length) :
    pieces (nodes ++ [node]) inner outer marks = pieces nodes inner outer marks := by
  have parts {inner : Open} (numbered : ∀ part ∈ inner.parts, ∀ number ∈ part.number, number < nodes.length) :
      inner.parts.map (Part.piece (nodes ++ [node])) = inner.parts.map (Part.piece nodes) :=
    List.map_congr_left fun part member => Part.piece_append node (numbered part member)
  induction outer generalizing inner marks with
  | nil => simpa [pieces] using parts (numbered inner (.head _))
  | cons next outer ih =>
    cases marks with
    | nil => simpa [pieces] using parts (numbered inner (.head _))
    | cons mark marks =>
      rw [pieces, pieces, ih fun open_ member => numbered open_ (.tail _ member), parts (numbered inner (.head _))]

end Pieces

section Steps

theorem Nested.grow {size size' : Nat} {inner : Open} {outer : List Open} {marks : List Mark}
    (nested : Nested size inner outer marks) (more : size < size') (parts : List Part) :
    Nested size' (inner.take parts) outer marks := by
  cases outer with
  | nil =>
    cases marks with
    | nil => trivial
    | cons => cases nested
  | cons next outer =>
    cases marks with
    | nil => cases nested
    | cons mark marks =>
      obtain ⟨inside, -, -, around⟩ := nested
      refine ⟨by omega, ?_, by simp [Open.take], around⟩
      simp only [Open.take, Bool.false_eq_true, false_iff]
      omega

namespace Site.At

variable {events back : List Event} {offset place : Nat} {kind outer : Kind} {site : Site}

theorem append (placed : site.At events offset) (back : List Event) : site.At (events ++ back) offset where
  found := by
    have bound := (List.getElem?_eq_some_iff.mp placed.found).1
    rw [List.getElem?_append_left bound, placed.found]
  foremost := placed.foremost.append (List.getElem?_eq_some_iff.mp placed.found).1 back
  alone := placed.alone

private theorem of_append (placed : site.At (events ++ back) offset) (inside : site.position < events.length) :
    site.At events offset where
  found := by
    have found := placed.found
    rwa [List.getElem?_append_left inside] at found
  foremost := placed.foremost.of_append inside
  alone := placed.alone

private theorem name (placed : site.At events offset) (away : site.position ≠ place)
    (found : events[place]? = some (.start kind none)) (outer : Kind) :
    site.At (events.set place (.start outer none)) offset where
  found := by rw [List.getElem?_set_ne (Ne.symm away), placed.found]
  foremost := placed.foremost.set_kind found
  alone := placed.alone

private theorem redirect (placed : site.At events offset) (away : site.position ≠ place)
    (found : events[place]? = some (.start kind none)) : site.At (Event.redirect events place kind) offset where
  found := by
    have bound := (List.getElem?_eq_some_iff.mp placed.found).1
    rw [Event.getElem?_redirect_ne away bound, placed.found]
  foremost := placed.foremost.point_other (List.getElem?_eq_some_iff.mp placed.found).1 found
  alone := placed.alone

end Site.At

private theorem modify_length {β : Type} (front back : List β) (b : β) (f : β → β) :
    (front ++ b :: back).modify front.length f = front ++ f b :: back := by
  induction front with
  | nil => rfl
  | cons a front ih => rw [List.cons_append, List.length_cons, List.modify_succ_cons, ih, List.cons_append]

namespace Tracks

variable {events : List Event} {nodes : List Completed} {marks : List Mark} {outline : Outline} {inner next : Open}
  {outer : List Open} {completed : Nat}

private theorem start (tracks : Tracks events nodes marks ⟨inner, outer, completed⟩) :
    Tracks (events ++ [.tombstone]) nodes (⟨events.length⟩ :: marks) ⟨{}, inner :: outer, completed⟩ := by
  obtain ⟨rows, each, lies⟩ := tracks.lies
  have all : pieces nodes {} (inner :: outer) (⟨events.length⟩ :: marks) =
    pieces nodes inner outer marks ++ [Open.piece {} ⟨events.length⟩] := rfl
  refine ⟨tracks.threaded.append (by simp [Event.tombstone]), ⟨rows ++ [[]], each.append (.given .nil), ?_⟩, ?_, ?_, ?_, tracks.named,
    tracks.counted⟩
  · have site : (Site.mk events.length .tombstone true).At (events ++ [.tombstone]) (0 + rows.length) := by
      rw [Nat.zero_add, each.length_eq]
      exact ⟨by simp [Event.tombstone], .last tracks.threaded, fun _ => rfl⟩
    have one : Lies (events ++ [.tombstone]) (0 + rows.length) ([[]] ++ []) [Open.piece {} ⟨events.length⟩] := by
      refine .cons (fun site' given => ?_) rfl .nil
      cases given
      exact site
    rw [all]
    exact (lies.mono fun _ _ _ _ _ placed => placed.append _).append one
  · have last : positions [Open.piece {} ⟨events.length⟩] = [events.length] := rfl
    rw [all, positions_append, last]
    refine List.nodup_append.mpr ⟨tracks.distinct, List.nodup_singleton _, fun position member other same => ?_⟩
    rw [List.mem_singleton.mp same]
    exact Nat.ne_of_lt (lies.inside member)
  · rw [List.length_append]
    exact ⟨Nat.lt_succ_self _, ⟨fun _ => rfl, fun _ => rfl⟩, fun _ _ => rfl, tracks.nested⟩
  · intro node member
    rcases List.mem_cons.mp member with rfl | before
    · simp
    · exact tracks.numbered node before

private theorem token (tracks : Tracks events nodes marks ⟨inner, outer, completed⟩) (kind : Kind) (rawCount : Nat) :
    Tracks (events ++ [.token kind rawCount]) nodes marks
      ⟨inner.take [{ shape := .token kind rawCount }], outer, completed⟩ := by
  obtain ⟨rows, each, lies⟩ := tracks.lies
  have all := pieces_take nodes inner outer marks [{ shape := .token kind rawCount }]
  refine ⟨tracks.threaded.append (by simp), ⟨rows ++ [[.token kind rawCount]], each.append (.token .nil), ?_⟩, ?_, ?_, ?_,
    tracks.named, tracks.counted⟩
  · have one : Lies (events ++ [.token kind rawCount]) (0 + rows.length) ([[.token kind rawCount]] ++ [])
        [Part.piece nodes { shape := .token kind rawCount }] := .cons (by simp [Part.piece]) rfl .nil
    rw [all]
    exact (lies.mono fun _ _ _ _ _ placed => placed.append _).append one
  · have none : positions [Part.piece nodes { shape := .token kind rawCount }] = [] := rfl
    rw [all, positions_append, List.map_singleton, none, List.append_nil]
    exact tracks.distinct
  · rw [List.length_append]
    exact tracks.nested.grow (Nat.lt_succ_self _) _
  · intro node member part among
    rcases List.mem_cons.mp member with rfl | before
    · rcases List.mem_append.mp among with before | last
      · exact tracks.numbered inner (.head _) part before
      · cases List.mem_singleton.mp last
        simp
    · exact tracks.numbered node (.tail _ before) part among

private theorem steps_parts (nodes : List Completed) (parts : List Part) :
    (parts.map (Part.piece nodes)).flatMap Piece.steps = Shape.stepsAll (parts.map Part.shape) := by
  induction parts with
  | nil => rfl
  | cons part rest ih =>
    rw [List.map_cons, List.flatMap_cons, ih]
    rfl

section Last

variable {mark : Mark} {kind : Kind}

/-- The site of the innermost open node, with the steps before it and those of what it holds. -/
theorem site (tracks : Tracks events nodes (mark :: marks) ⟨inner, next :: outer, completed⟩) :
    ∃ before behind, Event.EmitsEach events (before ++ behind) ∧
      (Site.mk mark.position .tombstone (!inner.around)).At events before.length ∧
      Lies events 0 before (pieces nodes next outer marks) ∧
      Lies events before.length behind (inner.parts.map (Part.piece nodes)) := by
  obtain ⟨rows, each, lies⟩ := tracks.lies
  obtain ⟨before, group, behind, rfl, front, placed, made, back⟩ := lies.split
  rw [Nat.zero_add] at placed back
  exact ⟨before, group ++ behind, each, placed _ rfl, front, (Lies.silent made).append back⟩

theorem away (tracks : Tracks events nodes (mark :: marks) ⟨inner, next :: outer, completed⟩) :
    (positions (pieces nodes next outer marks)).Nodup ∧
      ∀ position ∈ positions (pieces nodes next outer marks), position ≠ mark.position := by
  have distinct := tracks.distinct
  rw [pieces, positions_append] at distinct
  obtain ⟨front, -, apart⟩ := List.nodup_append.mp distinct
  exact ⟨front, fun position member => apart position member _ (.head _)⟩

private theorem numbered_outer (tracks : Tracks events nodes (mark :: marks) ⟨inner, next :: outer, completed⟩) :
    ∀ node ∈ next :: outer, ∀ part ∈ node.parts, ∀ number ∈ part.number, number < nodes.length :=
  fun node member => tracks.numbered node (.tail _ member)

private theorem complete (tracks : Tracks events nodes (mark :: marks) ⟨inner, next :: outer, completed⟩)
    (proper : kind ≠ .tombstone) :
    Tracks (events.set mark.position (.start kind none) ++ [.finish]) (nodes ++ [⟨mark.position, kind⟩]) marks
      ⟨next.take [{ shape := .node kind (inner.parts.map Part.shape), number := some completed }], outer,
        completed + 1⟩ := by
  obtain ⟨before, behind, each, site, front, back⟩ := tracks.site
  obtain ⟨distinct, apart⟩ := tracks.away
  have counted : completed = nodes.length := tracks.counted
  have all : pieces (nodes ++ [⟨mark.position, kind⟩])
      (next.take [{ shape := .node kind (inner.parts.map Part.shape), number := some completed }]) outer marks =
        pieces nodes next outer marks ++ [{
          steps := (Shape.node kind (inner.parts.map Part.shape)).steps
          site := some { position := mark.position, kind, alone := false } }] := by
    rw [pieces_take, pieces_append _ tracks.numbered_outer]
    simp [Part.piece, counted]
  -- The start is made where the steps of what the node holds begin.
  obtain ⟨row, rows, rfl⟩ : ∃ row rows, behind = row :: rows := by
    cases behind with
    | nil =>
      have ahead := site.foremost.leads.le
      have inside := (List.getElem?_eq_some_iff.mp site.found).1
      have length := each.length_eq
      simp only [List.append_nil] at length
      omega
    | cons row rows => exact ⟨row, rows, rfl⟩
  have named : Event.EmitsEach (events.set mark.position (.start kind none) ++ [.finish])
      (before ++ ((.start kind :: row) :: rows ++ [[.finish]])) := by
    have named := (each.name tracks.threaded site.found site.foremost proper).append (.finish .nil)
    rwa [modify_length, List.append_assoc] at named
  have own : Site.At (events.set mark.position (.start kind none) ++ [.finish]) before.length
      { position := mark.position, kind, alone := false } := by
    have bound := (List.getElem?_eq_some_iff.mp site.found).1
    have found : (events.set mark.position (.start kind none))[mark.position]? = some (.start kind none) :=
      List.getElem?_set_self bound
    have named : Site.At (events.set mark.position (.start kind none)) before.length
        { position := mark.position, kind, alone := false } :=
      { found, foremost := site.foremost.set_kind site.found, alone := by simp }
    exact named.append _
  refine ⟨(tracks.threaded.name site.found).append (by simp), ⟨_, named, ?_⟩, ?_, ?_, ?_, ?_, ?_⟩
  · rw [all]
    refine (front.mono fun piece member other given _ placed => ?_).append ?_
    · exact (placed.name (apart _ (mem_positions member given)) site.found kind).append _
    · have made : ((.start kind :: row) :: rows ++ [[BuildStep.finish]]).flatten =
          (Shape.node kind (inner.parts.map Part.shape)).steps := by
        have flat := back.flatten
        rw [steps_parts, List.flatten_cons] at flat
        rw [Shape.steps, ← flat]
        simp
      rw [← List.append_nil (_ :: rows ++ _), Nat.zero_add]
      refine .cons (fun other given => ?_) made .nil
      cases given
      exact own
  · rw [all, positions_append]
    refine List.nodup_append.mpr ⟨distinct, List.nodup_singleton _, fun position member other same => ?_⟩
    rw [List.mem_singleton.mp same]
    exact apart position member
  · have around : Nested mark.position next outer marks := tracks.nested.2.2.2
    have inside : mark.position < events.length := tracks.nested.1
    exact around.grow (by simpa using Nat.lt_succ_of_lt inside) _
  · intro node member part among number given
    rw [List.length_append, List.length_singleton]
    have before {node : Open} (member : node ∈ next :: outer) (among : part ∈ node.parts) : number < nodes.length + 1 :=
      Nat.lt_succ_of_lt (tracks.numbered_outer node member part among number given)
    rcases List.mem_cons.mp member with rfl | member
    · rcases List.mem_append.mp among with among | last
      · exact before (.head _) among
      · cases List.mem_singleton.mp last
        cases given
        omega
    · exact before (.tail _ member) among
  · intro node member
    rcases List.mem_append.mp member with member | last
    · exact tracks.named node member
    · cases List.mem_singleton.mp last
      exact proper
  · simp [counted]

private theorem abandon (tracks : Tracks events nodes (mark :: marks) ⟨inner, next :: outer, completed⟩) :
    Tracks events nodes marks ⟨next.take inner.parts, outer, completed⟩ := by
  obtain ⟨before, behind, each, site, front, back⟩ := tracks.site
  have all := pieces_take nodes next outer marks inner.parts
  have inside : mark.position < events.length := tracks.nested.1
  have around : Nested mark.position next outer marks := tracks.nested.2.2.2
  refine ⟨tracks.threaded, ⟨_, each, ?_⟩, ?_, around.grow inside _, ?_, tracks.named, tracks.counted⟩
  · rw [all]
    refine front.append ?_
    rwa [Nat.zero_add]
  · have distinct := tracks.distinct
    rw [pieces, positions_append] at distinct
    rw [all, positions_append]
    exact distinct.sublist ((List.sublist_cons_self _ _).append_left _)
  · intro node member part among
    rcases List.mem_cons.mp member with rfl | member
    · rcases List.mem_append.mp among with among | among
      · exact tracks.numbered_outer next (.head _) part among
      · exact tracks.numbered inner (.head _) part among
    · exact tracks.numbered_outer node (.tail _ member) part among

/-- The start of a node that holds nothing is taken back, if it was not started around another one. -/
theorem takeBack (tracks : Tracks (events ++ [.tombstone]) nodes (mark :: marks) ⟨inner, next :: outer, completed⟩)
    (fresh : inner.fresh = true) (alone : inner.around = false) : Tracks events nodes marks ⟨next, outer, completed⟩ := by
  obtain ⟨before, behind, each, site, front, back⟩ := tracks.site
  obtain ⟨distinct, apart⟩ := tracks.away
  obtain ⟨-, size, -, around⟩ := tracks.nested
  have place : mark.position = events.length := by simpa using size.mp fresh
  have offset : before.length = events.length := by rw [site.alone (by simp [alone]), place]
  have foremost : Event.Foremost (events ++ [.tombstone]) events.length events.length := by
    have foremost := site.foremost
    rwa [offset, place] at foremost
  have threaded := tracks.threaded.of_append_tombstone foremost
  obtain ⟨rows, same, each'⟩ := each.of_append_tombstone threaded.linked
  have length := each'.length_eq
  obtain ⟨rfl, -⟩ := List.append_inj same (by rw [offset, length])
  refine ⟨threaded, ⟨_, each', front.mono fun piece member other given _ placed => placed.of_append ?_⟩, distinct,
    place ▸ around, tracks.numbered_outer, tracks.named, tracks.counted⟩
  have member := mem_positions member given
  have inside := front.inside member
  have away := apart _ member
  rw [List.length_append, List.length_singleton] at inside
  omega

end Last

section Precede

private theorem partsFrom_eq_some {number : Nat} {parts front within : List Part}
    (found : partsFrom number parts = some (front, within)) :
    ∃ part back, parts = front ++ part :: back ∧ part.number = some number ∧
      within = { part with number := none } :: back := by
  induction parts generalizing front with
  | nil => cases found
  | cons first rest ih =>
    rw [partsFrom] at found
    split at found
    · next here =>
      cases found
      exact ⟨first, rest, rfl, here, rfl⟩
    · obtain ⟨⟨before, inside⟩, later, same⟩ := Option.bind_eq_some_iff.mp found
      cases same
      obtain ⟨part, back, rfl, here, rfl⟩ := ih later
      exact ⟨part, back, rfl, here, rfl⟩

variable {first : Completed} {number : Nat} {part : Part} {front back : List Part}

/-- The site of a node that another one may be started around, with the steps before it and those from it on. -/
theorem site_part (tracks : Tracks events nodes marks ⟨inner, outer, completed⟩)
    (split : inner.parts = front ++ part :: back) (numbered : part.number = some number)
    (node : nodes[number]? = some first) :
    ∃ before group behind, Event.EmitsEach events (before ++ (group ++ behind)) ∧
      (Site.mk first.position first.kind false).At events before.length ∧ group.flatten = part.shape.steps ∧
      Lies events 0 before (pieces nodes { inner with parts := front } outer marks) ∧
      Lies events (before.length + group.length) behind (back.map (Part.piece nodes)) := by
  obtain ⟨rows, each, lies⟩ := tracks.lies
  rw [pieces_parts nodes inner outer marks front (part :: back) split, List.map_cons] at lies
  obtain ⟨before, group, behind, rfl, front, placed, made, back⟩ := lies.split
  rw [Nat.zero_add] at placed back
  refine ⟨before, group, behind, each, placed _ ?_, made, front, back⟩
  simp [Part.piece, numbered, node]

private theorem precede (tracks : Tracks events nodes marks ⟨inner, outer, completed⟩)
    (split : inner.parts = front ++ part :: back) (numbered : part.number = some number)
    (node : nodes[number]? = some first) :
    Tracks (Event.redirect events first.position first.kind) nodes (⟨events.length⟩ :: marks)
      ⟨{ parts := { part with number := none } :: back, around := true }, { inner with parts := front } :: outer,
        completed⟩ := by
  obtain ⟨before, group, behind, each, site, made, front', back'⟩ := tracks.site_part split numbered node
  have proper : first.kind ≠ .tombstone := tracks.named _ (List.mem_of_getElem? node)
  have all : pieces nodes { parts := { part with number := none } :: back, around := true }
      ({ inner with parts := front } :: outer) (⟨events.length⟩ :: marks) =
        pieces nodes { inner with parts := front } outer marks ++
          Open.piece { parts := { part with number := none } :: back, around := true } ⟨events.length⟩ ::
            { steps := part.shape.steps, site := none } :: back.map (Part.piece nodes) := rfl
  have distinct := tracks.distinct
  rw [pieces_parts nodes inner outer marks front (part :: back) split, positions_append] at distinct
  have own : positions ((part :: back).map (Part.piece nodes)) =
      first.position :: positions (back.map (Part.piece nodes)) := by
    simp [positions, Part.piece, numbered, node]
  rw [own] at distinct
  obtain ⟨distinct, distinct', apart⟩ := List.nodup_append.mp distinct
  obtain ⟨others, distinct'⟩ := List.nodup_cons.mp distinct'
  have kept {pieces : List Piece} (away : first.position ∉ positions pieces) :
      ∀ piece ∈ pieces, ∀ other ∈ piece.site, ∀ offset, other.At events offset →
        other.At (Event.redirect events first.position first.kind) offset := by
    intro piece member other given offset placed
    refine placed.redirect (fun same => away ?_) site.found
    exact same ▸ mem_positions member given
  have away : first.position ∉ positions (pieces nodes { inner with parts := front } outer marks) := fun member =>
    apart _ member _ (.head _) rfl
  have started : Site.At (Event.redirect events first.position first.kind) before.length
      { position := events.length, kind := .tombstone, alone := false } :=
    ⟨Event.getElem?_redirect_length _ _ _, site.foremost.point tracks.threaded site.found proper,
      by simp⟩
  refine ⟨tracks.threaded.point site.found proper, ⟨_, each.point tracks.threaded site.found proper, ?_⟩, ?_, ?_, ?_,
    tracks.named, tracks.counted⟩
  · -- The new start lies where the steps of the node begin, and makes none.
    have last : Lies (Event.redirect events first.position first.kind) (before.length + group.length + behind.length)
        [[]] [] := .silent rfl
    have rest := (back'.mono (kept others)).append last
    rw [List.append_nil] at rest
    have inner : Lies (Event.redirect events first.position first.kind) before.length
        (group ++ (behind ++ [[]])) ({ steps := part.shape.steps, site := none } :: back.map (Part.piece nodes)) :=
      .cons (by simp) made rest
    rw [all, List.append_assoc, List.append_assoc]
    refine (front'.mono (kept away)).append ?_
    rw [Nat.zero_add, ← List.nil_append (group ++ _)]
    refine .cons (fun other given => ?_) rfl inner
    cases given
    exact started
  · have new : positions (Open.piece { parts := { part with number := none } :: back, around := true } ⟨events.length⟩ ::
        { steps := part.shape.steps, site := none } :: back.map (Part.piece nodes)) =
          events.length :: positions (back.map (Part.piece nodes)) := rfl
    rw [all, positions_append, new]
    refine List.nodup_append.mpr ⟨distinct, List.nodup_cons.mpr ⟨fun member => ?_, distinct'⟩,
      fun position member other among => ?_⟩
    · exact absurd (back'.inside member) (Nat.lt_irrefl _)
    · rcases List.mem_cons.mp among with rfl | among
      · exact Nat.ne_of_lt (front'.inside member)
      · exact apart position member other (.tail _ among)
  · rw [Event.length_redirect]
    refine ⟨Nat.lt_succ_self _, ⟨fun _ => rfl, fun _ => rfl⟩, by simp, ?_⟩
    have nested := tracks.nested
    have holds : inner.parts ≠ [] := by simp [split]
    cases outer with
    | nil => cases marks <;> exact nested
    | cons next outer =>
      cases marks with
      | nil => exact nested
      | cons mark marks =>
        obtain ⟨inside, size, empty, around⟩ := nested
        exact ⟨inside, size, fun fresh alone => absurd (empty fresh alone) holds, around⟩
  · intro node member part' among
    have inner_numbered : ∀ part' ∈ front ++ part :: back, ∀ number ∈ part'.number, number < nodes.length :=
      split ▸ tracks.numbered inner (.head _)
    rcases List.mem_cons.mp member with rfl | member
    · rcases List.mem_cons.mp among with rfl | among
      · simp
      · exact inner_numbered part' (List.mem_append_right _ (.tail _ among))
    · rcases List.mem_cons.mp member with rfl | member
      · exact inner_numbered part' (List.mem_append_left _ among)
      · exact tracks.numbered node (.tail _ member) part' among

end Precede

end Tracks

def Recorder.Holds (recorder : Recorder) (outline : Outline) : Prop :=
  Tracks recorder.state.events.toList recorder.nodes recorder.marks outline

variable {env : Env} {recorder : Recorder} {inner : Open} {outer : List Open} {completed : Nat} {outline : Outline}

namespace Recorder

private theorem step_start (holds : recorder.Holds ⟨inner, outer, completed⟩) :
    ∃ next, recorder.step env .start = .ok next ∧ next.Holds ⟨{}, inner :: outer, completed⟩ := by
  refine ⟨{ recorder with state := recorder.state.start, marks := recorder.state.mark :: recorder.marks }, rfl, ?_⟩
  have started := Tracks.start holds
  rwa [← Array.toList_push] at started

private theorem step_token (holds : recorder.Holds ⟨inner, outer, completed⟩) (kind : Kind) (rawCount : Nat) :
    ∃ next, recorder.step env (.token kind rawCount) = .ok next ∧
      next.Holds ⟨inner.take [{ shape := .token kind rawCount }], outer, completed⟩ := by
  refine ⟨{ recorder with state := recorder.state.pushToken env kind rawCount }, rfl, ?_⟩
  have pushed := Tracks.token holds kind rawCount
  rwa [← Array.toList_push] at pushed

private theorem mark_of_holds {next : Open} (holds : recorder.Holds ⟨inner, next :: outer, completed⟩) :
    ∃ mark marks, recorder.marks = mark :: marks := by
  have nested := holds.nested
  cases given : recorder.marks with
  | nil =>
    rw [given] at nested
    cases nested
  | cons mark marks => exact ⟨mark, marks, rfl⟩

private theorem step_complete {next : Open} (holds : recorder.Holds ⟨inner, next :: outer, completed⟩) {kind : Kind}
    (proper : kind ≠ .tombstone) :
    ∃ after, recorder.step env (.complete kind) = .ok after ∧
      after.Holds ⟨next.take [{ shape := .node kind (inner.parts.map Part.shape), number := some completed }], outer,
        completed + 1⟩ := by
  obtain ⟨mark, marks, given⟩ := mark_of_holds holds
  rw [Holds, given] at holds
  obtain ⟨before, behind, -, site, -⟩ := holds.site
  have found : recorder.state.events[mark.position]? = some (.start .tombstone none) := by
    rw [← Array.getElem?_toList]
    exact site.found
  let state := { recorder.state with
    events := (recorder.state.events.setIfInBounds mark.position (.start kind none)).push .finish }
  have closed : recorder.state.complete mark kind = .ok state := by rw [State.complete, found]
  refine ⟨{ state, marks, nodes := recorder.nodes ++ [⟨mark.position, kind⟩] }, ?_, ?_⟩
  · rw [step, given]
    dsimp only
    rw [Action.run, closed]
    rfl
  · have completed := holds.complete proper
    rwa [← Array.toList_setIfInBounds, ← Array.toList_push] at completed

private theorem step_abandon_fresh {next : Open} (holds : recorder.Holds ⟨inner, next :: outer, completed⟩)
    (fresh : inner.fresh = true) (alone : inner.around = false) :
    ∃ after, recorder.step env .abandon = .ok after ∧ after.Holds ⟨next, outer, completed⟩ := by
  obtain ⟨mark, marks, given⟩ := mark_of_holds holds
  rw [Holds, given] at holds
  obtain ⟨before, behind, -, site, -⟩ := holds.site
  obtain ⟨-, size, -⟩ := holds.nested
  have place : mark.position + 1 = recorder.state.events.size := by simpa using size.mp fresh
  have last : recorder.state.events.back? = some .tombstone := by
    rw [Array.back?_eq_getElem?, ← place, Nat.add_sub_cancel, ← Array.getElem?_toList]
    exact site.found
  let state := { recorder.state with events := recorder.state.events.pop }
  have released : recorder.state.release mark = .ok state := by rw [State.release, if_pos place, if_pos last]
  refine ⟨{ recorder with state, marks }, ?_, ?_⟩
  · rw [step, given]
    dsimp only
    rw [Action.run, released]
    rfl
  · have split : recorder.state.events.toList = recorder.state.events.pop.toList ++ [.tombstone] := by
      rw [Array.toList_pop]
      refine (List.dropLast_append_getLast? _ ?_).symm
      rw [Array.getLast?_toList, last]
      rfl
    rw [split] at holds
    exact holds.takeBack fresh alone

private theorem step_abandon {next : Open} (holds : recorder.Holds ⟨inner, next :: outer, completed⟩)
    (held : inner.fresh = false) :
    ∃ after, recorder.step env .abandon = .ok after ∧ after.Holds ⟨next.take inner.parts, outer, completed⟩ := by
  obtain ⟨mark, marks, given⟩ := mark_of_holds holds
  rw [Holds, given] at holds
  obtain ⟨-, size, -⟩ := holds.nested
  have behind : mark.position + 1 ≠ recorder.state.events.size := by
    intro place
    rw [size.mpr (by simpa using place)] at held
    cases held
  have released : recorder.state.release mark = .ok recorder.state := by rw [State.release, if_neg behind]
  refine ⟨{ recorder with marks }, ?_, holds.abandon⟩
  rw [step, given]
  dsimp only
  rw [Action.run, released]
  rfl

private theorem step_precede (holds : recorder.Holds ⟨inner, outer, completed⟩) {node : Nat} {front within : List Part}
    (found : partsFrom node inner.parts = some (front, within)) :
    ∃ after, recorder.step env (.precede node) = .ok after ∧
      after.Holds ⟨{ parts := within, around := true }, { inner with parts := front } :: outer, completed⟩ := by
  obtain ⟨part, back, split, numbered, rfl⟩ := Tracks.partsFrom_eq_some found
  have known : node < recorder.nodes.length :=
    holds.numbered inner (.head _) part (by simp [split]) node numbered
  have first : recorder.nodes[node]? = some recorder.nodes[node] := List.getElem?_eq_getElem known
  obtain ⟨before, group, behind, -, site, -⟩ := holds.site_part split numbered first
  have bound := (List.getElem?_eq_some_iff.mp site.found).1
  have there : recorder.state.start.events[recorder.nodes[node].position]? =
      some (.start recorder.nodes[node].kind none) := by
    rw [← Array.getElem?_toList, State.start, Array.toList_push, List.getElem?_append_left bound]
    exact site.found
  let state := { recorder.state.start with
    events := recorder.state.start.events.setIfInBounds recorder.nodes[node].position
      (.start recorder.nodes[node].kind (some (recorder.state.mark.position - recorder.nodes[node].position))) }
  have preceded : recorder.state.precede recorder.nodes[node] = .ok state := by rw [State.precede, there]
  refine ⟨{ recorder with state, marks := recorder.state.mark :: recorder.marks }, ?_, ?_⟩
  · rw [step, first]
    dsimp only
    rw [Action.run, preceded]
    rfl
  · have redirected : state.events.toList =
        Event.redirect recorder.state.events.toList recorder.nodes[node].position recorder.nodes[node].kind := by
      simp only [state, State.start, State.mark, Array.toList_setIfInBounds, Array.toList_push, Event.redirect,
        Array.length_toList]
      exact List.set_append_left _ _ bound
    have started := Tracks.precede holds split numbered first
    rwa [← redirected] at started

private theorem step_holds (env : Env) (holds : recorder.Holds outline) {marking : Marking} {next : Outline}
    (kept : outline.forsakes marking = false) (means : outline.step marking = some next) : ∃ after, recorder.step env marking = .ok after ∧ after.Holds next := by
  obtain ⟨inner, outer, completed⟩ := outline
  cases marking with
  | start =>
    cases means
    exact step_start holds
  | token kind rawCount =>
    cases means
    exact step_token holds kind rawCount
  | complete kind =>
    cases outer with
    | nil => cases means
    | cons around outer =>
      simp only [Outline.step] at means
      split at means
      · cases means
      · next proper =>
        cases means
        exact step_complete holds proper
  | abandon =>
    cases outer with
    | nil => cases means
    | cons around outer =>
      simp only [Outline.step] at means
      split at means
      · next fresh =>
        cases means
        simp only [Bool.and_eq_true, Bool.not_eq_true'] at fresh
        exact step_abandon_fresh holds fresh.1 fresh.2
      · next held =>
        cases means
        refine step_abandon holds (Bool.eq_false_iff.mpr fun fresh => ?_)
        simp only [Outline.forsakes, fresh, Bool.true_and] at kept
        exact held (by rw [fresh, kept]; rfl)
  | precede node =>
    obtain ⟨⟨front, within⟩, found, same⟩ := Option.bind_eq_some_iff.mp means
    cases same
    exact step_precede holds found

private theorem holds_start : Recorder.Holds {} {} where
  threaded := ⟨fun _ _ _ found => by simp at found, fun _ _ _ found => by simp at found⟩
  lies := ⟨[], .nil, .nil⟩
  distinct := List.nodup_nil
  nested := trivial
  numbered node member := by
    cases List.mem_singleton.mp member
    simp
  named := by simp
  counted := rfl

/-- A program that means something is recorded, if it does not give up an empty node around another one. -/
theorem run_holds (env : Env) (holds : recorder.Holds outline) {program : List Marking} {last : Outline}
    (kept : outline.spares program = true) (means : program.foldlM Outline.step outline = some last) :
    ∃ after, program.foldlM (Recorder.step env) recorder = .ok after ∧ after.Holds last := by
  induction program generalizing recorder outline with
  | nil =>
    cases means
    exact ⟨recorder, rfl, holds⟩
  | cons marking rest ih =>
    rw [List.foldlM_cons] at means
    obtain ⟨next, step, later⟩ := Option.bind_eq_some_iff.mp means
    simp only [Outline.spares, Bool.and_eq_true, Bool.not_eq_true', step, Option.all_some] at kept
    obtain ⟨after, ran, holds⟩ := step_holds env holds kept.1 step
    obtain ⟨last, ran', holds⟩ := ih holds kept.2 later
    exact ⟨last, by rw [List.foldlM_cons, ran]; exact ran', holds⟩

end Recorder

/-- The building steps that are replayed from what a program records are those of the trees that it means: each start
has its finish, the node that was started last around others comes first, and what was given up leaves its contents to
the node around it. But nothing is said of a program that gives up an empty node around another one. -/
theorem buildSteps_of_row (env : Env) {program : List Marking} {row : List Shape} (means : row? program = some row)
    (kept : Outline.spares {} program = true) :
    ∃ events, record env program = .ok events ∧ Event.buildSteps events = some (Shape.stepsAll row) := by
  obtain ⟨outline, ran, closed⟩ := Option.bind_eq_some_iff.mp means
  obtain ⟨recorder, recorded, holds⟩ := Recorder.run_holds env Recorder.holds_start kept ran
  split at closed
  · next empty =>
    cases closed
    obtain ⟨rows, each, lies⟩ := holds.lies
    have emits := each.emits
    rw [lies.flatten, List.isEmpty_iff.mp empty, pieces, Tracks.steps_parts] at emits
    · exact ⟨recorder.state.events, by rw [record, recorded]; rfl, Event.buildSteps_of_emits emits⟩
    · simp
  · cases closed

/-- A sum and a call, each around what was read before it, and nodes that are given up with and without contents. -/
theorem buildSteps_of_row_chain :
    let program : List Marking := [.start, .start, .abandon, .start, .token .identifier 1, .complete .nameExpr,
      .precede 0, .token .plus 1, .start, .token .identifier 1, .complete .nameExpr, .complete .binaryExpr, .precede 2,
      .start, .token .leftParen 1, .token .rightParen 1, .abandon, .complete .methodCall, .abandon]
    let name : Shape := .node .nameExpr [.token .identifier 1]
    let row : List Shape := [.node .methodCall [.node .binaryExpr [name, .token .plus 1, name],
      .token .leftParen 1, .token .rightParen 1]]
    row? program = some row ∧ Outline.spares {} program = true ∧
      ∃ events, record ⟨.lex "", {}⟩ program = .ok events ∧ Event.buildSteps events = some (Shape.stepsAll row) := by
  intro program name row
  have means : row? program = some row := rfl
  have kept : Outline.spares {} program = true := rfl
  exact ⟨means, kept, buildSteps_of_row _ means kept⟩

/-- A node around a name is given up at once, and a literal follows. The start that was taken back is still the one
that the name leads to, so the literal's start comes to stand in its place and the name is built into the literal. -/
theorem forsaken_node_adopted :
    let program : List Marking := [.start, .start, .token .identifier 1, .complete .nameExpr, .precede 0, .abandon,
      .start, .token .intLiteral 1, .complete .literal, .complete .compilationUnit]
    let name : Shape := .node .nameExpr [.token .identifier 1]
    row? program = some [.node .compilationUnit [name, .node .literal [.token .intLiteral 1]]] ∧
      ∃ events, record ⟨.lex "", {}⟩ program = .ok events ∧
        Event.buildSteps events = some (Shape.stepsAll [.node .compilationUnit [.node .literal [name, .token .intLiteral 1]]]) ∧
        Shape.stepsAll [.node .compilationUnit [.node .literal [name, .token .intLiteral 1]]] ≠
          Shape.stepsAll [.node .compilationUnit [name, .node .literal [.token .intLiteral 1]]] :=
  ⟨rfl, _, rfl, rfl, by decide⟩

end Steps

end Marking

end LosslessJava
