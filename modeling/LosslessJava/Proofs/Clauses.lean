import LosslessJava.Proofs.Files

/-! The clauses of a class. Whatever their order, and however often one is repeated, each gets a node of its own with
the types that stand behind its keyword; and an error is told at the keyword of each one that should stand before
another one that was read already. -/

namespace LosslessJava

open LosslessJava.Parser

/-- The clauses that a class may have, in the order in which they should stand. -/
inductive ClassClause where
  | extends
  | implements
  | permits

namespace ClassClause

def rank : ClassClause → Nat
  | .extends => 0
  | .implements => 1
  | .permits => 2

/-- The kind of the keyword in the tree. -/
def keyword : ClassClause → Kind
  | .extends => .extendsKw
  | .implements => .implementsKw
  | .permits => .permitsKw

def nodeKind : ClassClause → Kind
  | .extends => .extendsClause
  | .implements => .implementsClause
  | .permits => .permitsClause

/-- The kind of the keyword in the text, where `permits` is a name like any other. -/
def lexed : ClassClause → Kind
  | .permits => .identifier
  | clause => clause.keyword

def text : ClassClause → String
  | .extends => "extends"
  | .implements => "implements"
  | .permits => "permits"

end ClassClause

/-- A clause as it is written, with the names of its types. -/
structure WrittenClause where
  sort : ClassClause
  first : String
  others : List String

namespace WrittenClause

/-- The words of further types. -/
def furtherWords : List String → List (Kind × String)
  | [] => []
  | name :: names => (.comma, ",") :: (.identifier, name) :: furtherWords names

def words (clause : WrittenClause) : List (Kind × String) :=
  (clause.sort.lexed, clause.sort.text) :: (.identifier, clause.first) :: furtherWords clause.others

def typeNode (name : String) : Sketch := .node .classType [.token .identifier name]

def furtherTypes : List String → List Sketch
  | [] => []
  | name :: names => .token .comma "," :: typeNode name :: furtherTypes names

/-- The node of a clause. -/
def sketch (clause : WrittenClause) : Sketch :=
  .node clause.sort.nodeKind
    (.token clause.sort.keyword clause.sort.text :: typeNode clause.first :: furtherTypes clause.others)

/-- A clause should stand before one of those that were read before it, or is of the same sort as one of them. -/
def late (before : List WrittenClause) (clause : WrittenClause) : Bool :=
  before.any fun earlier => clause.sort.rank ≤ earlier.sort.rank

/-- Where errors are to be told of clauses that are out of order, and of which: the clauses `before` end in front of the
token `index`, where the others begin. -/
def complaints : List WrittenClause → Nat → List WrittenClause → List (Nat × ClassClause)
  | _, _, [] => []
  | before, index, clause :: rest =>
    let later := complaints (clause :: before) (index + clause.words.length) rest
    if late before clause then (index, clause.sort) :: later else later

end WrittenClause

namespace Grammar

open WrittenClause

variable {env : Env} {level : Level} {depth i j : Nat}

def EndsName (kind : Kind) : Prop := kind ≠ .lt ∧ kind ≠ .dot ∧ kind ≠ .leftBracket

private theorem typeName_follows {name : String} (room : level.depth < env.options.maxDepth) (here : env.stream.kindAt i = .identifier)
    (ends : EndsName (env.stream.kindAt (i + 1))) :
    Follows env level i (Functor.discard (call .type)) fun _ row j => row = [(typeNode name).shape] ∧ j = i + 1 := by
  let part : TypePart .type := .named (.bare .stop) 0
  have spans : env.stream.Spans part i (i + 1) :=
    .named here (.bare ends.1 (.stop fun dot => absurd dot ends.2.1)) (.stop fun opener => absurd opener ends.2.2)
  have roomy : Roomy env level.depth i (i + 1) := roomy_of_nesting spans (by simpa [part, TypePart.nesting] using room)
  have agrees : Agrees env level part i (i + 1) := agrees_of_spans spans roomy
  intro s at_i deep
  refine .discard <| (agrees s at_i deep).weaken fun found row t _ given => ?_
  obtain ⟨first, -, -, holds⟩ := given
  exact holds

private theorem types_follow {first : String} {others : List String} (room : level.depth < env.options.maxDepth)
    (reads : env.stream.Reads ((.identifier, first) :: furtherWords others) i j) (ends : EndsName (env.stream.kindAt j))
    (last : env.stream.kindAt j ≠ .comma) :
    Follows env level i (commaSeparated (Functor.discard (call .type))) fun _ row k =>
      row = Sketch.shapes (typeNode first :: furtherTypes others) ∧ k = j := by
  induction others generalizing first i with
  | nil =>
    obtain ⟨here, -, rfl⟩ := reads
    have type : Follows env level i (Functor.discard (call .type)) fun _ row j => row = [(typeNode first).shape] ∧ j = i + 1 :=
      typeName_follows room here ends
    refine .loopEnd <| type.bind fun _ row k given => ?_
    obtain ⟨rfl, rfl⟩ := given
    exact .refuse last ⟨rfl, rfl, rfl⟩
  | cons name names ih =>
    obtain ⟨here, -, comma, -, rest⟩ := reads
    have type : Follows env level i (Functor.discard (call .type)) fun _ row j => row = [(typeNode first).shape] ∧ j = i + 1 :=
      typeName_follows room here (by rw [comma]; exact ⟨by decide, by decide, by decide⟩)
    have round : Follows env level i (do Functor.discard (call .type); accept .comma) fun more row k =>
        more = true ∧ row = [(typeNode first).shape, .token .comma 1] ∧ k = i + 1 + 1 :=
      type.bind fun _ row k given => by
        obtain ⟨rfl, rfl⟩ := given
        exact .accept comma (by decide) ⟨rfl, rfl, rfl⟩
    refine .loopOn round fun row k given => ?_
    obtain ⟨rfl, rfl⟩ := given
    refine (ih rest).weaken fun _ row k given => ?_
    obtain ⟨rfl, rfl⟩ := given
    exact ⟨rfl, rfl⟩

def EndsClause (kind : Kind) : Prop :=
  kind = .extendsKw ∨ kind = .implementsKw ∨ kind = .identifier ∨ kind = .leftBrace

private theorem EndsClause.name {kind : Kind} (ends : EndsClause kind) : EndsName kind ∧ kind ≠ .comma := by
  rcases ends with rfl | rfl | rfl | rfl <;> exact ⟨⟨by decide, by decide, by decide⟩, by decide⟩

private theorem endsClause_lexed (sort : ClassClause) : EndsClause sort.lexed := by
  cases sort <;> simp [EndsClause, ClassClause.lexed, ClassClause.keyword]

private theorem consumeKeyword_follows {sort : ClassClause} (here : env.stream.kindAt i = sort.lexed) :
    Follows env level i (consumeKeyword sort.keyword) fun _ row j => row = [.token sort.keyword 1] ∧ j = i + 1 := by
  cases sort with
  | «extends» | «implements» => exact .consume here (by decide) ⟨rfl, rfl⟩
  | permits =>
    refine .push (a := ()) (Follows.room here (by decide)) (fun s at_i => ?_) ⟨rfl, rfl⟩
    have found : s.current env = .identifier := (Follows.current_eq at_i).trans here
    simp [Action.run, State.consumeAs, found, Result.done, Except.map]

private theorem clause_follows {clause : WrittenClause} (room : level.depth < env.options.maxDepth)
    (reads : env.stream.Reads clause.words i j) (ends : EndsClause (env.stream.kindAt j)) :
    Follows env level i (Grammar.clause clause.sort.keyword clause.sort.nodeKind) fun _ row k =>
      row = [clause.sketch.shape] ∧ k = j := by
  have named : clause.sort.nodeKind ≠ .tombstone := by cases clause.sort <;> decide
  refine .node named <| (consumeKeyword_follows reads.1).bind fun _ row k given => ?_
  obtain ⟨rfl, rfl⟩ := given
  refine (types_follow room reads.2.2 ends.name.1 ends.name.2).weaken fun _ row k given => ?_
  obtain ⟨rfl, rfl⟩ := given
  exact ⟨rfl, rfl⟩

def classForms : List ClauseForm :=
  [(.extendsKw, .extendsClause), (.implementsKw, .implementsClause), (.permitsKw, .permitsClause)]

private theorem clauseAt_classForms (cursor : TokenCursor) : clauseAt cursor 0 classForms =
    if cursor.nth 0 == .extendsKw then some (0, (.extendsKw, .extendsClause))
    else if cursor.nth 0 == .implementsKw then some (1, (.implementsKw, .implementsClause))
    else if cursor.nth 0 == .identifier && some (cursor.nthText 0) == some "permits" then
      some (2, (.permitsKw, .permitsClause))
    else none := rfl

/-- The clause whose keyword stands at an index is found among those of a class. -/
theorem clauseAt_sort {sort : ClassClause} (here : env.stream.kindAt i = sort.lexed) (text : env.stream.textAt i = sort.text) :
    clauseAt ⟨env.stream, i⟩ 0 classForms = some (sort.rank, (sort.keyword, sort.nodeKind)) := by
  rw [clauseAt_classForms, TokenCursor.nth_eq, TokenCursor.nthText_eq, Nat.add_zero, here, text]
  cases sort <;> rfl

/-- A clause in its place reports nothing; another one is reported at its keyword. -/
theorem orderedClause_remarks {clause : WrittenClause} {late : Bool} (lenient : env.options.mode = .lenient)
    (room : depth < env.options.maxDepth) (reads : env.stream.Reads clause.words i j)
    (ends : EndsClause (env.stream.kindAt j)) :
    Remarks env depth i (orderedClause clause.sort.keyword clause.sort.nodeKind !late) fun _ row told k =>
      row = [clause.sketch.shape] ∧ k = j ∧
        List.Forall₂ (fun d sort => Concerns env d (.clauseOrder (ClassClause.keyword sort)) i) told
          (if late then [clause.sort] else []) := by
  have read : Follows env ⟨depth, false⟩ i (Grammar.clause clause.sort.keyword clause.sort.nodeKind) fun _ row k =>
      row = [clause.sketch.shape] ∧ k = j := clause_follows room reads ends
  unfold orderedClause
  cases late with
  | false =>
    refine (Remarks.of_follows read).weaken fun _ row told k given => ?_
    obtain ⟨rfl, rfl, rfl⟩ := given
    exact ⟨rfl, rfl, .nil⟩
  | true =>
    refine .andQuiet (.report lenient (.clauseOrder clause.sort.keyword)) fun _ front told k given => ?_
    obtain ⟨rfl, rfl, d, rfl, concerns⟩ := given
    refine read.weaken fun _ row l given => ?_
    obtain ⟨rfl, rfl⟩ := given
    exact ⟨rfl, rfl, .cons concerns .nil⟩

def lastRank : List WrittenClause → Option Nat
  | [] => none
  | clause :: rest => some (max clause.sort.rank ((lastRank rest).getD clause.sort.rank))

private theorem late_eq (before : List WrittenClause) (clause : WrittenClause) :
    late before clause = (lastRank before).any (clause.sort.rank ≤ ·) := by
  induction before with
  | nil => rfl
  | cons earlier rest ih =>
    rw [late, List.any_cons, ← late, ih, lastRank]
    cases lastRank rest with
    | none => simp
    | some last => simp

def Complaining (env : Env) (told : List Diagnostic) (given : List (Nat × ClassClause)) : Prop :=
  List.Forall₂ (fun d (complaint : Nat × ClassClause) => Concerns env d (.clauseOrder complaint.2.keyword) complaint.1) told given

private theorem Complaining.append {told others : List Diagnostic} {given more : List (Nat × ClassClause)}
    (one : Complaining env told given) (two : Complaining env others more) :
    Complaining env (told ++ others) (given ++ more) := List.rel_append one two

/-- Complaints that are made in front of an index are told of tokens in front of it. -/
theorem Complaining.before {told : List Diagnostic} {given : List (Nat × ClassClause)} (complaining : Complaining env told given)
    (less : ∀ complaint ∈ given, complaint.1 < j) : ∀ d ∈ told, d.tokenIndex < j := by
  induction complaining with
  | nil => simp
  | cons concerns _ ih =>
    intro d member
    rcases List.mem_cons.mp member with rfl | later
    · rw [concerns.tokenIndex]
      exact less _ List.mem_cons_self
    · exact ih (fun complaint there => less complaint (List.mem_cons_of_mem _ there)) d later

private theorem complaints_lt (before rest : List WrittenClause) (i : Nat) :
    ∀ complaint ∈ complaints before i rest, complaint.1 < i + (rest.flatMap WrittenClause.words).length := by
  induction rest generalizing before i with
  | nil => simp [complaints]
  | cons clause rest ih =>
    have own : 0 < clause.words.length := Nat.succ_pos _
    have later := ih (clause :: before) (i + clause.words.length)
    rw [List.flatMap_cons, List.length_append, ← Nat.add_assoc, complaints]
    intro complaint member
    split at member
    · rcases List.mem_cons.mp member with rfl | member
      · dsimp only
        omega
      · exact later complaint member
    · exact later complaint member

/-- The clauses of a class are read one by one, each behind those that were read before it. -/
theorem clauses_remarks (before : List WrittenClause) {rest : List WrittenClause} (lenient : env.options.mode = .lenient)
    (room : depth < env.options.maxDepth) (reads : env.stream.Reads (rest.flatMap WrittenClause.words) i j)
    (body : env.stream.kindAt j = .leftBrace) :
    Remarks env depth i (loopFrom (lastRank before) (clauseStep classForms)) fun _ row told k =>
      row = Sketch.shapes (rest.map WrittenClause.sketch) ∧ k = j ∧ Complaining env told (complaints before i rest) := by
  induction rest generalizing before i with
  | nil =>
    obtain rfl : i = j := reads
    refine .loopEnd <| .look ?_
    rw [clauseAt_none body (by decide)]
    exact .pure ⟨rfl, rfl, rfl, .nil⟩
  | cons clause rest ih =>
    obtain ⟨k, first, others⟩ := TokenStream.reads_append.mp reads
    have ends : EndsClause (env.stream.kindAt k) := by
      cases rest with
      | nil =>
        obtain rfl : k = j := others
        exact .inr (.inr (.inr body))
      | cons next _ => rw [others.1]; exact endsClause_lexed next.sort
    have stop : k = i + clause.words.length := first.stop
    have later : i < k := by simp [stop, WrittenClause.words]
    have round : Remarks env depth i (clauseStep classForms (lastRank before)) fun found row told l =>
        ∃ b, found = some b ∧ b = lastRank (clause :: before) ∧ row = [clause.sketch.shape] ∧ l = k ∧
          Complaining env told ((if late before clause then [clause.sort] else []).map (i, ·)) := by
      refine .look ?_
      rw [clauseAt_sort first.1 first.2.1]
      dsimp only
      rw [← late_eq]
      refine .andQuiet (orderedClause_remarks lenient room first ends) fun _ row told l given => ?_
      obtain ⟨rfl, rfl, concerns⟩ := given
      refine .pure ⟨_, rfl, rfl, rfl, rfl, ?_⟩
      rw [Complaining, List.forall₂_map_right_iff]
      exact concerns
    refine .loopOn round fun b row told l given => ?_
    obtain ⟨rfl, rfl, rfl, complaining⟩ := given
    refine ⟨complaining.before fun complaint member => ?_, (ih _ others).weaken fun _ row told' m given => ?_⟩
    · obtain ⟨_, -, rfl⟩ := List.mem_map.mp member
      exact later
    · obtain ⟨rfl, rfl, complaining'⟩ := given
      refine ⟨rfl, rfl, ?_⟩
      have all := complaining.append complaining'
      rw [complaints, ← stop]
      split
      · next behind => simpa [behind] using all
      · next ordered => simpa [ordered] using all

private theorem classDecl_remarks {name : String} {clauses : List WrittenClause} (lenient : env.options.mode = .lenient)
    (room : depth < env.options.maxDepth)
    (reads : env.stream.Reads ((.classKw, "class") :: (.identifier, name) :: (clauses.flatMap WrittenClause.words ++
      [(.leftBrace, "\x7b"), (.rightBrace, "\x7d")])) i j) :
    Remarks env depth i classDecl fun _ row told k =>
      row = .token .classKw 1 :: .token .identifier 1 :: (Sketch.shapes (clauses.map WrittenClause.sketch) ++
        [.node .classBody [.token .leftBrace 1, .token .rightBrace 1]]) ∧ k = j ∧
      Complaining env told (complaints [] (i + 2) clauses) := by
  obtain ⟨keyword, -, named, -, rest⟩ := reads
  obtain ⟨k, listed, opener, -, closer, -, rfl⟩ := TokenStream.reads_append.mp rest
  have behindName : env.stream.kindAt (i + 1 + 1) ≠ .lt := by
    cases clauses with
    | nil =>
      obtain rfl : i + 1 + 1 = k := listed
      rw [opener]
      decide
    | cons clause _ =>
      rw [listed.1]
      cases clause.sort <;> decide
  have taken : Follows env ⟨depth, false⟩ i (consume .classKw) fun _ row k => row = [.token .classKw 1] ∧ k = i + 1 :=
    .consume keyword (by decide) ⟨rfl, rfl⟩
  refine .behindQuiet taken fun _ row l given => ?_
  obtain ⟨rfl, rfl⟩ := given
  have name : Follows env ⟨depth, false⟩ (i + 1) (require .identifier) fun _ row k =>
      row = [.token .identifier 1] ∧ k = i + 1 + 1 := .require named (by decide) ⟨rfl, rfl⟩
  refine .behindQuiet name fun _ row l given => ?_
  obtain ⟨rfl, rfl⟩ := given
  have params : Follows env ⟨depth, false⟩ (i + 1 + 1) (whenSees .lt typeParams) fun _ row k => row = [] ∧ k = i + 1 + 1 :=
    .skip behindName ⟨rfl, rfl⟩
  refine .behindQuiet params fun _ row l given => ?_
  obtain ⟨rfl, rfl⟩ := given
  have listedClauses : Remarks env depth (i + 1 + 1) (call (.clauses classForms)) fun _ row told l =>
      row = Sketch.shapes (clauses.map WrittenClause.sketch) ∧ l = k ∧ Complaining env told (complaints [] (i + 2) clauses) :=
    .call (.discard (clauses_remarks [] lenient room listed opener))
  refine .bind listedClauses fun _ row told l given => ?_
  obtain ⟨rfl, rfl, complaining⟩ := given
  have stop := listed.stop
  refine ⟨complaining.before fun complaint member => ?_, ?_⟩
  · have less := complaints_lt [] clauses (i + 2) complaint member
    omega
  refine classBody_remarks opener room <| (Remarks.of_follows (listUntil_end closer)).weaken fun _ row told' l given => ?_
  obtain ⟨rfl, rfl, rfl⟩ := given
  exact ⟨closer, rfl, rfl, by simpa using complaining⟩

end Grammar

section Texts

open WrittenClause Grammar

/-- The words of a file with nothing but a class with an empty body. -/
def classWords (name : String) (clauses : List WrittenClause) : List (Kind × String) :=
  (.classKw, "class") :: (.identifier, name) :: (clauses.flatMap WrittenClause.words ++
    [(.leftBrace, "\x7b"), (.rightBrace, "\x7d"), (.eof, "")])

/-- The node of such a class. -/
def classNode (name : String) (clauses : List WrittenClause) : Sketch :=
  .node .classDecl (.token .classKw "class" :: .token .identifier name :: (clauses.map WrittenClause.sketch ++
    [.node .classBody [.token .leftBrace "\x7b", .token .rightBrace "\x7d"]]))

private theorem textsAll_furtherTypes (names : List String) :
    Sketch.textsAll (furtherTypes names) = (furtherWords names).map Prod.snd := by
  induction names with
  | nil => rfl
  | cons name names ih => simp [furtherTypes, furtherWords, Sketch.textsAll, Sketch.texts, typeNode, ih]

private theorem textsAll_sketches (clauses : List WrittenClause) :
    Sketch.textsAll (clauses.map WrittenClause.sketch) = (clauses.flatMap WrittenClause.words).map Prod.snd := by
  induction clauses with
  | nil => rfl
  | cons clause rest ih =>
    simp [Sketch.textsAll, Sketch.texts, WrittenClause.sketch, WrittenClause.words, typeNode, textsAll_furtherTypes, ih]

/-- The clauses of a class are kept in the tree in the order in which they are written, each with its own types, and of
each that is out of order an error is told at its keyword; nothing else is told. -/
theorem EntryPoint.class_clauses_kept {text name : String} {clauses : List WrittenClause}
    (written : wordsOf text = classWords name clauses) :
    ∃ parse, EntryPoint.file.parse text {} = .ok parse ∧ parse.state = .normal ∧
      (Sketch.node .compilationUnit [classNode name clauses, .token .eof ""]).Depicts (.node parse.tree.root) ∧
      List.Forall₂ (fun d (complaint : Nat × ClassClause) =>
          d.kind = .syntaxError ∧ d.message = (Issue.clauseOrder complaint.2.keyword).message ∧ d.tokenIndex = complaint.1 ∧
            d.range = ((TokenStream.lex text).tokenAt complaint.1).range)
        parse.diagnostics (complaints [] 2 clauses) := by
  let env : Env := textEnv text {}
  obtain ⟨j, reads, ends⟩ : ∃ j, env.stream.Reads ((.classKw, "class") :: (.identifier, name) ::
      (clauses.flatMap WrittenClause.words ++ [(.leftBrace, "\x7b"), (.rightBrace, "\x7d")])) 0 j ∧
      env.stream.Reads [(.eof, "")] j (j + 1) := by
    have all := TokenStream.reads_lex written
    have split : classWords name clauses = ((.classKw, "class") :: (.identifier, name) ::
        (clauses.flatMap WrittenClause.words ++ [(.leftBrace, "\x7b"), (.rightBrace, "\x7d")])) ++ [(.eof, "")] := by
      simp [classWords]
    rw [split] at all
    obtain ⟨j, front, back⟩ := TokenStream.reads_append.mp all
    exact ⟨j, front, back.1, back.2.1, rfl⟩
  have stop := reads.stop
  have item : Remarks env 0 0 topLevelItem fun _ row told k => 0 < k ∧ k = j ∧ row = [(classNode name clauses).shape] ∧
      Complaining env told (complaints [] 2 clauses) :=
    topLevelItem_class reads.1 <| (classDecl_remarks rfl (show 0 < 256 by decide) reads).weaken fun _ row told k given => by
      obtain ⟨rfl, rfl, complaining⟩ := given
      refine ⟨by rw [stop]; simp, rfl, by simp [classNode, Sketch.shape, Sketch.shapes], complaining⟩
  have items : Remarks env 0 0 (loop fileRound) fun _ row told k => env.stream.kindAt k = .eof ∧
      row = Sketch.shapes [classNode name clauses] ∧ Complaining env told (complaints [] 2 clauses) := by
    refine file_more (by rw [reads.1]; decide) item fun row told k given => ?_
    obtain ⟨rfl, rfl, complaining⟩ := given
    refine ⟨complaining.before fun complaint member => ?_, ?_⟩
    · have less := complaints_lt [] clauses 2 complaint member
      rw [stop]
      simp only [List.length_cons, List.length_append]
      omega
    · refine (Remarks.of_follows (file_end ends.1)).weaken fun _ row told' k given => ?_
      obtain ⟨rfl, rfl, rfl⟩ := given
      exact ⟨ends.1, by simp [Sketch.shapes], by simpa using complaining⟩
  have texts : Sketch.textsAll [classNode name clauses] ++ [""] = (classWords name clauses).map Prod.snd := by
    simp [classWords, classNode, Sketch.textsAll, Sketch.texts, textsAll_sketches]
  obtain ⟨parse, parsed, normal, complaining, depicts⟩ :=
    EntryPoint.parse_of_items (P := fun told => Complaining env told (complaints [] 2 clauses)) written texts
      (items _ rfl rfl hears_start)
  exact ⟨parse, parsed, normal, depicts, complaining.imp fun d complaint concerns =>
    ⟨concerns.kind, concerns.message, concerns.tokenIndex, concerns.range⟩⟩

/-- Of four clauses two are out of order: `extends` behind `implements`, and the second `permits`. -/
theorem EntryPoint.class_clauses_kept_jumbled :
    (wordsOf "class A implements B extends C, D permits E permits F {}" =
        classWords "A" [⟨.implements, "B", []⟩, ⟨.extends, "C", ["D"]⟩, ⟨.permits, "E", []⟩, ⟨.permits, "F", []⟩]) ∧
      complaints [] 2 [⟨.implements, "B", []⟩, ⟨.extends, "C", ["D"]⟩, ⟨.permits, "E", []⟩, ⟨.permits, "F", []⟩] =
        [(4, .extends), (10, .permits)] ∧
      ∃ parse, EntryPoint.file.parse "class A implements B extends C, D permits E permits F {}" {} = .ok parse ∧
        parse.diagnostics.map Diagnostic.tokenIndex = [4, 10] := by
  have written : wordsOf "class A implements B extends C, D permits E permits F {}" =
      classWords "A" [⟨.implements, "B", []⟩, ⟨.extends, "C", ["D"]⟩, ⟨.permits, "E", []⟩, ⟨.permits, "F", []⟩] := by
    decide +kernel
  obtain ⟨parse, parsed, -, -, told⟩ := EntryPoint.class_clauses_kept written
  refine ⟨written, rfl, parse, parsed, ?_⟩
  have places := List.forall₂_map_left_iff.mpr (List.forall₂_map_right_iff.mpr (told.imp fun _ _ told => told.2.2.1))
  exact (List.forall₂_eq_eq_eq ▸ places :)

end Texts

end LosslessJava
