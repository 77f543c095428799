import LosslessJava.Proofs.LayoutVariants
import LosslessJava.Proofs.Clean

/-! Types that have no annotations, as trees: the tokens they are written with, and the shapes they are
read as. Tokens that are those of a part, with the right token behind them, span that part. -/

namespace LosslessJava

/-- The parts of a type. -/
inductive TypeForm where
  | type
  /-- What follows a name in a class type. -/
  | segments
  /-- What follows a name and its type arguments. -/
  | further
  /-- Type arguments, up to the `>` that closes them. -/
  | arguments
  | argument

/-- A part of a type, with as many pairs of empty brackets behind an element type as `dims`. -/
inductive TypePart : TypeForm → Type where
  | primitive (kind : Kind) (proper : kind.isPrimitiveType = true) (dims : Nat) : TypePart .type
  | named (rest : TypePart .segments) (dims : Nat) : TypePart .type
  | bare (rest : TypePart .further) : TypePart .segments
  | diamond (rest : TypePart .further) : TypePart .segments
  | generic (inside : TypePart .arguments) (rest : TypePart .further) : TypePart .segments
  | stop : TypePart .further
  | next (rest : TypePart .segments) : TypePart .further
  | last (first : TypePart .argument) : TypePart .arguments
  | more (first : TypePart .argument) (rest : TypePart .arguments) : TypePart .arguments
  | unbounded : TypePart .argument
  | bounded (bound : Kind) (proper : bound = .extendsKw ∨ bound = .superKw) (type : TypePart .type) :
      TypePart .argument
  | only (type : TypePart .type) : TypePart .argument

namespace TypePart

variable {form : TypeForm}

/-- The tokens of pairs of empty brackets. -/
def brackets : Nat → List Kind
  | 0 => []
  | dims + 1 => .leftBracket :: .rightBracket :: brackets dims

/-- The kinds of the tokens that a part is written with. -/
def kinds : {form : TypeForm} → TypePart form → List Kind
  | _, .primitive kind _ dims => kind :: brackets dims
  | _, .named rest dims => .identifier :: (rest.kinds ++ brackets dims)
  | _, .bare rest => rest.kinds
  | _, .diamond rest => .lt :: .gt :: rest.kinds
  | _, .generic inside rest => .lt :: (inside.kinds ++ .gt :: rest.kinds)
  | _, .stop => []
  | _, .next rest => .dot :: .identifier :: rest.kinds
  | _, .last first => first.kinds
  | _, .more first rest => first.kinds ++ .comma :: rest.kinds
  | _, .unbounded => [.question]
  | _, .bounded bound _ type => .question :: bound :: type.kinds
  | _, .only type => type.kinds

/-- An array type of so many dimensions. -/
def arrayOf (element : Shape) : Nat → Shape
  | 0 => element
  | dims + 1 => arrayOf (.node .arrayType [element, .token .leftBracket 1, .token .rightBracket 1]) dims

/-- What a part is read as. -/
def row : {form : TypeForm} → TypePart form → List Shape
  | _, .primitive kind _ dims => [arrayOf (.node .primitiveType [.token kind 1]) dims]
  | _, .named rest dims => [arrayOf (.node .classType (.token .identifier 1 :: rest.row)) dims]
  | _, .bare rest => rest.row
  | _, .diamond rest => .node .typeArgList [.token .lt 1, .token .gt 1] :: rest.row
  | _, .generic inside rest => .node .typeArgList (.token .lt 1 :: (inside.row ++ [.token .gt 1])) :: rest.row
  | _, .stop => []
  | _, .next rest => .token .dot 1 :: .token .identifier 1 :: rest.row
  | _, .last first => first.row
  | _, .more first rest => first.row ++ .token .comma 1 :: rest.row
  | _, .unbounded => [.node .wildcardType [.token .question 1]]
  | _, .bounded bound _ type => [.node .wildcardType (.token .question 1 :: .token bound 1 :: type.row)]
  | _, .only type => type.row

private theorem unannotated_brackets (dims : Nat) : .atSign ∉ brackets dims := by
  induction dims with
  | zero => simp [brackets]
  | succ dims ih => simp [brackets, ih]

theorem unannotated (part : TypePart form) : .atSign ∉ part.kinds := by
  induction part with
  | primitive kind proper dims =>
    have away : kind ≠ .atSign := by
      rintro rfl
      cases proper
    simpa [kinds, away.symm] using unannotated_brackets dims
  | named rest dims ih => simpa [kinds, ih] using unannotated_brackets dims
  | bounded bound proper type ih =>
    have away : bound ≠ .atSign := by rcases proper with rfl | rfl <;> decide
    simpa [kinds, away.symm] using ih
  | _ => simp_all [kinds]

/-- The tree of a type. -/
def shape : TypePart .type → Shape
  | .primitive kind _ dims => arrayOf (.node .primitiveType [.token kind 1]) dims
  | .named rest dims => arrayOf (.node .classType (.token .identifier 1 :: rest.row)) dims

theorem row_type (type : TypePart .type) : type.row = [type.shape] := by
  cases type <;> rfl

/-- How many lists of type arguments are open at once. -/
def nesting : {form : TypeForm} → TypePart form → Nat
  | _, .primitive .. => 0
  | _, .named rest _ => rest.nesting
  | _, .bare rest => rest.nesting
  | _, .diamond rest => max 1 rest.nesting
  | _, .generic inside rest => max (inside.nesting + 1) rest.nesting
  | _, .stop => 0
  | _, .next rest => rest.nesting
  | _, .last first => first.nesting
  | _, .more first rest => max first.nesting rest.nesting
  | _, .unbounded => 0
  | _, .bounded _ _ type => type.nesting
  | _, .only type => type.nesting

end TypePart

namespace TokenStream

/-- So many pairs of empty brackets stand between two indices, and no further one behind them. -/
inductive Dims (stream : TokenStream) : Nat → Nat → Nat → Prop where
  | stop {i : Nat} (away : stream.kindAt i = .leftBracket → stream.kindAt (i + 1) ≠ .rightBracket) :
      stream.Dims 0 i i
  | more {dims i j : Nat} (opener : stream.kindAt i = .leftBracket)
      (closer : stream.kindAt (i + 1) = .rightBracket) (rest : stream.Dims dims (i + 2) j) :
      stream.Dims (dims + 1) i j

/-- The tokens between two indices are a part of a type. -/
inductive Spans (stream : TokenStream) : {form : TypeForm} → TypePart form → Nat → Nat → Prop where
  | primitive {kind : Kind} {proper : kind.isPrimitiveType = true} {count i j : Nat} (here : stream.kindAt i = kind)
      (dims : stream.Dims count (i + 1) j) : stream.Spans (.primitive kind proper count) i j
  | named {segments : TypePart .segments} {count i j k : Nat} (here : stream.kindAt i = .identifier)
      (rest : stream.Spans segments (i + 1) j) (dims : stream.Dims count j k) : stream.Spans (.named segments count) i k
  | bare {further : TypePart .further} {i j : Nat} (away : stream.kindAt i ≠ .lt) (rest : stream.Spans further i j) :
      stream.Spans (.bare further) i j
  | diamond {further : TypePart .further} {i j : Nat} (opener : stream.kindAt i = .lt)
      (closer : stream.kindAt (i + 1) = .gt) (rest : stream.Spans further (i + 2) j) :
      stream.Spans (.diamond further) i j
  | generic {arguments : TypePart .arguments} {further : TypePart .further} {i j k : Nat}
      (opener : stream.kindAt i = .lt) (some : stream.kindAt (i + 1) ≠ .gt)
      (inside : stream.Spans arguments (i + 1) j) (rest : stream.Spans further (j + 1) k) :
      stream.Spans (.generic arguments further) i k
  | stop {i : Nat} (away : stream.kindAt i = .dot → stream.kindAt (i + 1) ≠ .identifier ∧ stream.kindAt (i + 1) ≠ .atSign) :
      stream.Spans .stop i i
  | next {segments : TypePart .segments} {i j : Nat} (dot : stream.kindAt i = .dot)
      (name : stream.kindAt (i + 1) = .identifier) (rest : stream.Spans segments (i + 2) j) :
      stream.Spans (.next segments) i j
  | last {argument : TypePart .argument} {i j : Nat} (first : stream.Spans argument i j)
      (closer : stream.kindAt j = .gt) : stream.Spans (.last argument) i j
  | more {argument : TypePart .argument} {arguments : TypePart .arguments} {i j k : Nat}
      (first : stream.Spans argument i j) (comma : stream.kindAt j = .comma)
      (rest : stream.Spans arguments (j + 1) k) : stream.Spans (.more argument arguments) i k
  | unbounded {i : Nat} (here : stream.kindAt i = .question)
      (free : stream.kindAt (i + 1) ≠ .extendsKw ∧ stream.kindAt (i + 1) ≠ .superKw) :
      stream.Spans .unbounded i (i + 1)
  | bounded {bound : Kind} {proper : bound = .extendsKw ∨ bound = .superKw} {part : TypePart .type} {i j : Nat}
      (here : stream.kindAt i = .question) (behind : stream.kindAt (i + 1) = bound)
      (type : stream.Spans part (i + 2) j) : stream.Spans (.bounded bound proper part) i j
  | only {part : TypePart .type} {i j : Nat} (type : stream.Spans part i j) : stream.Spans (.only part) i j

/-- Types joined by `&` stand behind a first one, and no further one behind them. -/
inductive Joined (stream : TokenStream) : Nat → Nat → Prop where
  | stop {i : Nat} (away : stream.kindAt i ≠ .amp) : stream.Joined i i
  | more {part : TypePart .type} {i j k : Nat} (amp : stream.kindAt i = .amp) (type : stream.Spans part (i + 1) j)
      (rest : stream.Joined j k) : stream.Joined i k

variable {stream : TokenStream} {form : TypeForm} {part : TypePart form} {type : TypePart .type} {count i j : Nat}

theorem Dims.le (dims : stream.Dims count i j) : i ≤ j := by
  induction dims with
  | stop => exact Nat.le_refl _
  | more _ _ _ ih => omega

theorem Spans.le (spans : stream.Spans part i j) : i ≤ j := by
  induction spans with
  | primitive _ dims =>
    have later := dims.le
    omega
  | named _ _ dims ih =>
    have later := dims.le
    omega
  | _ => omega

theorem Spans.lt (spans : stream.Spans type i j) : i < j := by
  cases spans with
  | primitive _ dims => exact dims.le
  | named _ rest dims =>
    have one := rest.le
    have two := dims.le
    omega

theorem Joined.le (joined : stream.Joined i j) : i ≤ j := by
  induction joined with
  | stop => exact Nat.le_refl _
  | more _ type _ ih =>
    have moved := type.lt
    omega

def Stands (stream : TokenStream) : List Kind → Nat → Nat → Prop
  | [], i, j => i = j
  | kind :: rest, i, j => stream.kindAt i = kind ∧ stream.Stands rest (i + 1) j

theorem stands_append {front back : List Kind} {k : Nat} :
    stream.Stands (front ++ back) i k ↔ ∃ j, stream.Stands front i j ∧ stream.Stands back j k := by
  induction front generalizing i with
  | nil => simp [Stands]
  | cons kind front ih => simp [Stands, ih, and_assoc]

theorem Stands.stop {kinds : List Kind} (stands : stream.Stands kinds i j) : j = i + kinds.length := by
  induction kinds generalizing i with
  | nil => exact stands.symm
  | cons kind kinds ih =>
    have later := ih stands.2
    simp only [List.length_cons]
    omega

/-- Tokens are known one by one where all kinds are. -/
theorem stands_of_getElem {kinds : List Kind} (found : ∀ n (inside : n < kinds.length), stream.kindAt (i + n) = kinds[n]) :
    stream.Stands kinds i (i + kinds.length) := by
  induction kinds generalizing i with
  | nil => rfl
  | cons kind kinds ih =>
    refine ⟨found 0 (Nat.succ_pos _), ?_⟩
    have later := @ih (i + 1) fun n inside => by
      rw [Nat.add_right_comm]
      exact found (n + 1) (Nat.succ_lt_succ inside)
    rwa [Nat.add_right_comm] at later

private theorem dims_of_stands (stands : stream.Stands (TypePart.brackets count) i j) (away : stream.kindAt j ≠ .leftBracket) :
    stream.Dims count i j := by
  induction count generalizing i with
  | zero =>
    obtain rfl : i = j := stands
    exact .stop fun here => absurd here away
  | succ count ih => exact .more stands.1 stands.2.1 (ih stands.2.2)

def Ends : TypeForm → Kind → Prop
  | .type, kind | .argument, kind =>
    kind ≠ .lt ∧ kind ≠ .dot ∧ kind ≠ .leftBracket ∧ kind ≠ .extendsKw ∧ kind ≠ .superKw
  | .segments, kind | .further, kind => kind ≠ .lt ∧ kind ≠ .dot
  | .arguments, kind => kind = .gt

private theorem brackets_head (stands : stream.Stands (TypePart.brackets count) i j) (ends : Ends .type (stream.kindAt j)) :
    Ends .segments (stream.kindAt i) := by
  cases count with
  | zero =>
    obtain rfl : i = j := stands
    exact ⟨ends.1, ends.2.1⟩
  | succ count =>
    rw [stands.1]
    exact ⟨by decide, by decide⟩

private theorem type_head (stands : stream.Stands type.kinds i j) : stream.kindAt i ≠ .gt := by
  cases type with
  | primitive kind proper =>
    rw [stands.1]
    rintro rfl
    cases proper
  | named =>
    rw [stands.1]
    decide

private theorem argument_head {argument : TypePart .argument} (stands : stream.Stands argument.kinds i j) :
    stream.kindAt i ≠ .gt := by
  cases argument with
  | unbounded | bounded =>
    rw [stands.1]
    decide
  | only type => exact type_head stands

private theorem arguments_head {arguments : TypePart .arguments} (stands : stream.Stands arguments.kinds i j) :
    stream.kindAt i ≠ .gt := by
  cases arguments with
  | last first => exact argument_head stands
  | more first rest =>
    obtain ⟨_, first, -⟩ := stands_append.mp stands
    exact argument_head first

/-- The tokens of a part span it, if what stands behind them does not belong to it. -/
theorem Spans.of_stands (stands : stream.Stands part.kinds i j) (ends : Ends form (stream.kindAt j)) :
    stream.Spans part i j := by
  induction part generalizing i j with
  | primitive kind proper count => exact .primitive stands.1 (dims_of_stands stands.2 ends.2.2.1)
  | named rest count ih =>
    obtain ⟨here, stands⟩ := stands
    obtain ⟨k, segments, dims⟩ := stands_append.mp stands
    exact .named here (ih segments (brackets_head dims ends)) (dims_of_stands dims ends.2.2.1)
  | bare rest ih =>
    have head : stream.kindAt i ≠ .lt := by
      cases rest with
      | stop =>
        obtain rfl : i = j := stands
        exact ends.1
      | next => rw [stands.1]; decide
    exact .bare head (ih stands ends)
  | diamond rest ih => exact .diamond stands.1 stands.2.1 (ih stands.2.2 ends)
  | generic inside rest ih ih' =>
    obtain ⟨opener, stands⟩ := stands
    obtain ⟨k, arguments, closer, further⟩ := stands_append.mp stands
    exact .generic opener (arguments_head arguments) (ih arguments closer) (ih' further ends)
  | stop =>
    obtain rfl : i = j := stands
    exact .stop fun dot => absurd dot ends.2
  | next rest ih => exact .next stands.1 stands.2.1 (ih stands.2.2 ends)
  | last first ih =>
    refine .last (ih stands ?_) ends
    rw [show stream.kindAt j = .gt from ends]
    simp [Ends]
  | more first rest ih ih' =>
    obtain ⟨k, argument, comma, arguments⟩ := stands_append.mp stands
    refine .more (ih argument ?_) comma (ih' arguments ends)
    rw [comma]
    simp [Ends]
  | unbounded =>
    obtain ⟨here, rfl⟩ := stands
    exact .unbounded here ⟨ends.2.2.2.1, ends.2.2.2.2⟩
  | bounded bound proper type ih => exact .bounded stands.1 stands.2.1 (ih stands.2.2 ends)
  | only type ih => exact .only (ih stands ends)

end TokenStream

end LosslessJava
