import LosslessJava.Proofs.Scans
import LosslessJava.Proofs.State

/-! Expressions of names, literals and operators, as trees. Where each operand binds tightly enough for its
place, the tree is the one its tokens are to be read as; what these tell by themselves, wherever they stand in
a stream, is here. -/

namespace LosslessJava

open Grammar (Operator Power)

/-- How tightly an operator in front of an operand binds. -/
def Grammar.Power.unary : Power := .multiplicative + 1

/-- How tightly an operand by itself holds together, with what is counted up or down behind it. -/
def Grammar.Power.operand : Power := .unary + 1

namespace Kind

/-- The operators that stand in front of an operand. -/
def leadsOperand : Kind → Bool
  | .plus | .minus | .bang | .tilde | .plusPlus | .minusMinus => true
  | _ => false

/-- The operators that stand behind an operand. -/
def trailsOperand : Kind → Bool
  | .plusPlus | .minusMinus => true
  | _ => false

/-- An operator that makes a binary expression: it binds more tightly than `?`, and a type is no operand. -/
def isBinary (kind : Kind) : Bool :=
  (Operator.power? kind).any (Power.conditional < ·) && kind != .instanceofKw

def isAssignment (kind : Kind) : Bool := Operator.power? kind == some .assignment

/-- How tightly an operator binds. -/
def power (kind : Kind) : Power := (Operator.power? kind).getD .operand

theorem power_of_binary {op : Kind} (proper : op.isBinary = true) :
    Operator.power? op = some op.power ∧ .conditional < op.power ∧ op.power < .unary ∧ op ≠ .instanceofKw ∧ op ≠ .question := by
  have every : ∀ op ∈ Kind.all, op.isBinary = true → Operator.power? op = some op.power ∧ Power.conditional < op.power ∧
      op.power < Power.unary ∧ op ≠ .instanceofKw ∧ op ≠ .question := by decide +kernel
  exact every op (mem_all op) proper

/-- The tokens that an operator between two operands is written with, each of them with whether it touches the
next one. -/
def written : Kind → List (Kind × Bool)
  | .gtEq => [(.gt, true), (.eq, false)]
  | .shr => [(.gt, true), (.gt, false)]
  | .ushr => [(.gt, true), (.gt, true), (.gt, false)]
  | .shrEq => [(.gt, true), (.gt, true), (.eq, false)]
  | .ushrEq => [(.gt, true), (.gt, true), (.gt, true), (.eq, false)]
  | kind => [(kind, false)]

end Kind

/-- An expression of names, literals and operators. -/
inductive Formula where
  | name
  | literal (kind : Kind) (proper : kind.isLiteral = true)
  | leading (op : Kind) (proper : op.leadsOperand = true) (operand : Formula)
  | trailing (operand : Formula) (op : Kind) (proper : op.trailsOperand = true)
  | binary (op : Kind) (proper : op.isBinary = true) (left right : Formula)
  | conditional (condition yes no : Formula)
  | assign (op : Kind) (proper : op.isAssignment = true) (left right : Formula)
  | paren (inner : Formula)

namespace Formula

/-- How tightly an expression holds together: as its outermost operator binds. -/
def power : Formula → Power
  | .name | .literal .. | .trailing .. | .paren _ => .operand
  | .leading .. => .unary
  | .binary op .. => op.power
  | .conditional .. => .conditional
  | .assign .. => .assignment

def bound : Formula → Power
  | .binary op .. => op.power + 1
  | formula => formula.power

theorem assignment_le_power (formula : Formula) : .assignment ≤ formula.power := by
  cases formula with
  | binary op proper => exact Nat.le_of_lt (Nat.lt_trans (by decide) (Kind.power_of_binary proper).2.1)
  | name | literal | trailing | paren => exact (show Power.assignment ≤ .operand by decide)
  | leading => exact (show Power.assignment ≤ .unary by decide)
  | conditional => exact (show Power.assignment ≤ .conditional by decide)
  | assign => exact Nat.le_refl _

theorem power_le_bound (formula : Formula) : formula.power ≤ formula.bound := by
  cases formula with
  | binary op => exact Nat.le_succ _
  | _ => exact Nat.le_refl _

/-- A name, or names joined by `&`. In brackets it could be the type of a cast. -/
def Conjoins : Formula → Prop
  | .name => True
  | .binary op _ left right => op = .amp ∧ left.Conjoins ∧ right.Conjoins
  | _ => False

/-- Each operand holds together as tightly as its place asks for, and what stands in brackets is no type. -/
def Placed : Formula → Prop
  | .name | .literal .. => True
  | .leading _ _ operand => .unary ≤ operand.power ∧ operand.Placed
  | .trailing operand _ _ => .operand ≤ operand.power ∧ operand.Placed
  | .binary op _ left right => op.power ≤ left.power ∧ op.power < right.power ∧ left.Placed ∧ right.Placed
  | .conditional condition yes no =>
    .logicalOr ≤ condition.power ∧ .conditional ≤ no.power ∧ condition.Placed ∧ yes.Placed ∧ no.Placed
  | .assign _ _ left right => .conditional ≤ left.power ∧ .assignment ≤ right.power ∧ left.Placed ∧ right.Placed
  | .paren inner => ¬ inner.Conjoins ∧ inner.Placed

instance decidableConjoins : DecidablePred Conjoins
  | .name => .isTrue trivial
  | .binary op _ left right =>
    have := decidableConjoins left
    have := decidableConjoins right
    inferInstanceAs (Decidable (op = .amp ∧ left.Conjoins ∧ right.Conjoins))
  | .literal .. | .leading .. | .trailing .. | .conditional .. | .assign .. | .paren _ => .isFalse id

instance decidablePlaced : DecidablePred Placed
  | .name | .literal .. => .isTrue trivial
  | .leading _ _ operand =>
    have := decidablePlaced operand
    inferInstanceAs (Decidable (Power.unary ≤ operand.power ∧ operand.Placed))
  | .trailing operand _ _ =>
    have := decidablePlaced operand
    inferInstanceAs (Decidable (Power.operand ≤ operand.power ∧ operand.Placed))
  | .binary op _ left right =>
    have := decidablePlaced left
    have := decidablePlaced right
    inferInstanceAs (Decidable (op.power ≤ left.power ∧ op.power < right.power ∧ left.Placed ∧ right.Placed))
  | .conditional condition yes no =>
    have := decidablePlaced condition
    have := decidablePlaced yes
    have := decidablePlaced no
    inferInstanceAs (Decidable (Power.logicalOr ≤ condition.power ∧ Power.conditional ≤ no.power ∧ condition.Placed ∧
      yes.Placed ∧ no.Placed))
  | .assign _ _ left right =>
    have := decidablePlaced left
    have := decidablePlaced right
    inferInstanceAs (Decidable (Power.conditional ≤ left.power ∧ Power.assignment ≤ right.power ∧ left.Placed ∧
      right.Placed))
  | .paren inner =>
    have := decidablePlaced inner
    inferInstanceAs (Decidable (¬ inner.Conjoins ∧ inner.Placed))

/-- The tokens of an expression, each with whether it touches the next one. -/
def written : Formula → List (Kind × Bool)
  | .name => [(.identifier, false)]
  | .literal kind _ => [(kind, false)]
  | .leading op _ operand => (op, false) :: operand.written
  | .trailing operand op _ => operand.written ++ [(op, false)]
  | .binary op _ left right | .assign op _ left right => left.written ++ (op.written ++ right.written)
  | .conditional condition yes no =>
    condition.written ++ (.question, false) :: (yes.written ++ (.colon, false) :: no.written)
  | .paren inner => (.leftParen, false) :: (inner.written ++ [(.rightParen, false)])

/-- The tree of an expression. -/
def shape : Formula → Shape
  | .name => .node .nameExpr [.token .identifier 1]
  | .literal kind _ => .node .literal [.token kind 1]
  | .leading op _ operand => .node .prefixExpr [.token op 1, operand.shape]
  | .trailing operand op _ => .node .postfixExpr [operand.shape, .token op 1]
  | .binary op _ left right => .node .binaryExpr [left.shape, .token op op.written.length, right.shape]
  | .conditional condition yes no =>
    .node .conditionalExpr [condition.shape, .token .question 1, yes.shape, .token .colon 1, no.shape]
  | .assign op _ left right => .node .assignExpr [left.shape, .token op op.written.length, right.shape]
  | .paren inner => .node .parenExpr [.token .leftParen 1, inner.shape, .token .rightParen 1]

/-- How many nodes the tree of an expression has. -/
def size : Formula → Nat
  | .name | .literal .. => 1
  | .leading _ _ inner | .trailing inner _ _ | .paren inner => inner.size + 1
  | .binary _ _ left right | .assign _ _ left right => left.size + right.size + 1
  | .conditional condition yes no => condition.size + yes.size + no.size + 1

theorem size_pos (formula : Formula) : 0 < formula.size := by
  cases formula <;> exact Nat.succ_pos _

end Formula

namespace TokenStream

variable {stream : TokenStream} {front back : List (Kind × Bool)} {i j k m : Nat}

/-- Tokens of certain kinds stand between two indices, and those of them touch the next one that are to. -/
def Lays (stream : TokenStream) : List (Kind × Bool) → Nat → Nat → Prop
  | [], i, j => i = j
  | (kind, joint) :: rest, i, j =>
    stream.kindAt i = kind ∧ (joint = true → stream.touches i = true) ∧ stream.Lays rest (i + 1) j

instance decidableLays : (written : List (Kind × Bool)) → (i j : Nat) → Decidable (stream.Lays written i j)
  | [], i, j => inferInstanceAs (Decidable (i = j))
  | (kind, joint) :: rest, i, j =>
    have := decidableLays rest (i + 1) j
    inferInstanceAs (Decidable (stream.kindAt i = kind ∧ (joint = true → stream.touches i = true) ∧
      stream.Lays rest (i + 1) j))

theorem lays_append : stream.Lays (front ++ back) i k ↔ ∃ j, stream.Lays front i j ∧ stream.Lays back j k := by
  induction front generalizing i with
  | nil => simp [Lays]
  | cons token front ih => simp [Lays, ih, and_assoc]

private theorem lays_cons {token : Kind × Bool} : stream.Lays (token :: back) i k ↔ ∃ j, stream.Lays [token] i j ∧ stream.Lays back j k :=
  @lays_append stream [token] back i k

theorem Lays.stop (lays : stream.Lays front i j) : j = i + front.length := by
  induction front generalizing i with
  | nil => exact lays.symm
  | cons token front ih =>
    have later := ih lays.2.2
    simp only [List.length_cons]
    omega

theorem Lays.mem (lays : stream.Lays front i j) (behind : i ≤ m) (before : m < j) :
    ∃ token ∈ front, stream.kindAt m = token.1 := by
  induction front generalizing i with
  | nil =>
    obtain rfl : i = j := lays
    omega
  | cons token front ih =>
    rcases Nat.eq_or_lt_of_le behind with rfl | later
    · exact ⟨token, .head _, lays.1⟩
    · obtain ⟨other, member, same⟩ := ih lays.2.2 later
      exact ⟨other, .tail _ member, same⟩

private theorem Lays.next (lays : stream.Lays front i j) (behind : i ≤ m) (before : m < j) :
    m + 1 = j ∨ ∃ token ∈ front.tail, stream.kindAt (m + 1) = token.1 := by
  cases front with
  | nil =>
    obtain rfl : i = j := lays
    omega
  | cons token rest =>
    rcases Nat.eq_or_lt_of_le (Nat.succ_le_of_lt before) with last | inside
    · exact .inl last
    · exact .inr (lays.2.2.mem (Nat.succ_le_succ behind) inside)

end TokenStream

namespace Kind

def inFormula (kind : Kind) : Bool :=
  match kind with
  | .identifier | .leftParen | .rightParen | .question | .colon => true
  | .instanceofKw => false
  | _ => kind.isLiteral || kind.leadsOperand || (Operator.power? kind).isSome

def startsFormula (kind : Kind) : Bool := kind == .identifier || kind == .leftParen || kind.isLiteral || kind.leadsOperand

def conjoins (kind : Kind) : Bool := kind == .identifier || kind == .amp

def isInfix (op : Kind) : Bool := op.isBinary || op.isAssignment

theorem isInfix_of_binary {op : Kind} (proper : op.isBinary = true) : op.isInfix = true := by rw [isInfix, proper, Bool.true_or]

theorem isInfix_of_assignment {op : Kind} (proper : op.isAssignment = true) : op.isInfix = true := by
  rw [isInfix, proper, Bool.or_true]

private theorem inFormula_of_written {op : Kind} (proper : op.isInfix = true) : ∀ token ∈ op.written, token.1.inFormula = true := by
  have every : ∀ op ∈ Kind.all, op.isInfix = true → ∀ token ∈ op.written, token.1.inFormula = true := by decide +kernel
  exact every op (mem_all op) proper

theorem inFormula_of_literal {kind : Kind} (proper : kind.isLiteral = true) : kind.inFormula = true := by
  have every : ∀ kind ∈ Kind.all, kind.isLiteral = true → kind.inFormula = true := by decide +kernel
  exact every kind (mem_all kind) proper

theorem inFormula_of_leading {kind : Kind} (proper : kind.leadsOperand = true) : kind.inFormula = true := by
  have every : ∀ kind ∈ Kind.all, kind.leadsOperand = true → kind.inFormula = true := by decide +kernel
  exact every kind (mem_all kind) proper

private theorem angle_of_tail {op : Kind} : ∀ token ∈ op.written.tail, token.1 = .gt ∨ token.1 = .eq := by
  unfold written
  split <;> simp

/-- An operator begins with one, and with `&` only if it is that. -/
theorem first_written {op : Kind} (proper : op.isInfix = true) :
    ∃ kind joint rest, op.written = (kind, joint) :: rest ∧ kind.isInfix = true ∧ (kind = .amp → op = .amp) := by
  have every : ∀ op ∈ Kind.all, op.isInfix = true → ∃ token ∈ op.written.head?, token.1.isInfix = true ∧ (token.1 = .amp → op = .amp) := by
    decide +kernel
  obtain ⟨⟨kind, joint⟩, first, infixed, amp⟩ := every op (mem_all op) proper
  obtain ⟨rest, split⟩ := List.head?_eq_some_iff.mp first
  exact ⟨kind, joint, rest, split, infixed, amp⟩

private theorem conjoins_of_infix {op : Kind} (proper : op.isInfix = true) (other : op ≠ .amp) :
    op.conjoins = false ∧ op ≠ .rightParen := by
  have every : ∀ op ∈ Kind.all, op.isInfix = true → op ≠ .amp → op.conjoins = false ∧ op ≠ .rightParen := by decide +kernel
  exact every op (mem_all op) proper other

theorem leads_of_trails {kind : Kind} (proper : kind.trailsOperand = true) : kind.leadsOperand = true := by
  unfold trailsOperand at proper
  split at proper <;> first | rfl | cases proper

end Kind

namespace Formula

open TokenStream (lays_append lays_cons)

variable {stream : TokenStream} {formula : Formula} {i j m : Nat}

private theorem inFormula_of_written (formula : Formula) : ∀ token ∈ formula.written, token.1.inFormula = true := by
  induction formula with
  | name => simp [written, Kind.inFormula]
  | literal kind proper => simpa [written] using Kind.inFormula_of_literal proper
  | leading op proper operand ih =>
    simpa only [written, List.forall_mem_cons] using ⟨Kind.inFormula_of_leading proper, ih⟩
  | trailing operand op proper ih =>
    simpa only [written, List.forall_mem_append, List.forall_mem_singleton] using
      ⟨ih, Kind.inFormula_of_leading (Kind.leads_of_trails proper)⟩
  | binary op proper left right ih ih' =>
    simpa only [written, List.forall_mem_append] using ⟨ih, Kind.inFormula_of_written (Kind.isInfix_of_binary proper), ih'⟩
  | assign op proper left right ih ih' =>
    simpa only [written, List.forall_mem_append] using ⟨ih, Kind.inFormula_of_written (Kind.isInfix_of_assignment proper), ih'⟩
  | conditional condition yes no ih ih' ih'' =>
    simpa only [written, List.forall_mem_append, List.forall_mem_cons] using ⟨ih, rfl, ih', rfl, ih''⟩
  | paren inner ih =>
    simpa only [written, List.forall_mem_append, List.forall_mem_cons, List.forall_mem_singleton] using
      ⟨rfl, ih, rfl, List.forall_mem_nil _⟩

/-- An expression begins with a name, a literal, a bracket or an operator in front of an operand. -/
theorem starts (lays : stream.Lays formula.written i j) : (stream.kindAt i).startsFormula = true := by
  induction formula generalizing j with
  | name | paren => rw [lays.1]; rfl
  | literal kind proper => simp [lays.1, Kind.startsFormula, proper]
  | leading op proper => simp [lays.1, Kind.startsFormula, proper]
  | trailing _ _ _ ih | binary _ _ _ _ ih | assign _ _ _ _ ih | conditional _ _ _ ih =>
    obtain ⟨_, first, -⟩ := lays_append.mp lays
    exact ih first

/-- What goes on with an operator, or what an operand begins with, is no token that could stand behind type arguments. -/
theorem unlike_cast {kind : Kind} (next : kind = .gt ∨ kind = .eq ∨ kind.startsFormula = true) :
    kind ≠ .amp ∧ kind ≠ .rightParen := by
  rcases next with rfl | rfl | starts
  · decide
  · decide
  · constructor <;> (rintro rfl; cases starts)

/-- Behind a token of an operator stands another one of it, or an operand. -/
theorem behind_operator {op : Kind} (lays : stream.Lays op.written i j) (starts : (stream.kindAt j).startsFormula = true)
    (behind : i ≤ m) (before : m < j) : stream.kindAt (m + 1) = .gt ∨ stream.kindAt (m + 1) = .eq ∨
      (stream.kindAt (m + 1)).startsFormula = true := by
  rcases lays.next behind before with rfl | ⟨token, member, same⟩
  · exact .inr (.inr starts)
  · rw [same]
    exact (Kind.angle_of_tail token member).imp_right .inl

/-- Behind a `>` of an expression stands another token of it, and none that could stand behind type arguments. -/
theorem angles (lays : stream.Lays formula.written i j) (behind : i ≤ m) (before : m < j)
    (here : stream.kindAt m = .gt) : stream.kindAt (m + 1) ≠ .amp ∧ stream.kindAt (m + 1) ≠ .rightParen := by
  have single {kind : Kind} {joint : Bool} {i j : Nat} (lays : stream.Lays [(kind, joint)] i j) (behind : i ≤ m)
      (before : m < j) : kind = .gt := by
    obtain ⟨found, -, rfl⟩ := lays
    obtain rfl : m = i := by omega
    exact found.symm.trans here
  induction formula generalizing i j with
  | name => cases single lays behind before
  | literal kind proper =>
    obtain rfl := single lays behind before
    cases proper
  | leading op proper operand ih =>
    obtain ⟨k, front, inside⟩ := lays_cons.mp lays
    by_cases early : m < k
    · obtain rfl := single front behind early
      cases proper
    · exact ih inside (Nat.le_of_not_lt early) before
  | trailing operand op proper ih =>
    obtain ⟨k, inside, back⟩ := lays_append.mp lays
    by_cases early : m < k
    · exact ih inside behind early
    · obtain rfl := single back (Nat.le_of_not_lt early) before
      cases proper
  | binary op proper left right ih ih' | assign op proper left right ih ih' =>
    obtain ⟨k, first, rest⟩ := lays_append.mp lays
    obtain ⟨l, between, last⟩ := lays_append.mp rest
    by_cases early : m < k
    · exact ih first behind early
    · by_cases middle : m < l
      · exact unlike_cast (behind_operator between (starts last) (Nat.le_of_not_lt early) middle)
      · exact ih' last (Nat.le_of_not_lt middle) before
  | conditional condition yes no ih ih' ih'' =>
    obtain ⟨k, first, rest⟩ := lays_append.mp lays
    obtain ⟨k', question, rest⟩ := lays_cons.mp rest
    obtain ⟨l, second, rest⟩ := lays_append.mp rest
    obtain ⟨l', colon, third⟩ := lays_cons.mp rest
    by_cases early : m < k
    · exact ih first behind early
    by_cases early' : m < k'
    · cases single question (Nat.le_of_not_lt early) early'
    by_cases middle : m < l
    · exact ih' second (Nat.le_of_not_lt early') middle
    by_cases middle' : m < l'
    · cases single colon (Nat.le_of_not_lt middle) middle'
    exact ih'' third (Nat.le_of_not_lt middle') before
  | paren inner ih =>
    obtain ⟨k, opener, rest⟩ := lays_cons.mp lays
    obtain ⟨l, inside, closer⟩ := lays_append.mp rest
    by_cases early : m < k
    · cases single opener behind early
    by_cases middle : m < l
    · exact ih inside (Nat.le_of_not_lt early) middle
    cases single closer (Nat.le_of_not_lt middle) before

end Formula

namespace TokenStream

variable {stream : TokenStream} {kind : Kind} {i j k : Nat}

def Conjoined (stream : TokenStream) (i j : Nat) : Prop := ∀ m, i ≤ m → m < j → (stream.kindAt m).conjoins = true

def Breaks (stream : TokenStream) (i : Nat) : Prop :=
  ∃ n, i ≤ n ∧ stream.Conjoined i n ∧ (stream.kindAt n).conjoins = false ∧ stream.kindAt n ≠ .rightParen

theorem Conjoined.single (here : stream.kindAt i = kind) (conjoins : kind.conjoins = true) : stream.Conjoined i (i + 1) := by
  intro m behind before
  obtain rfl : m = i := by omega
  exact here ▸ conjoins

theorem Conjoined.append (first : stream.Conjoined i j) (second : stream.Conjoined j k) : stream.Conjoined i k := by
  intro m behind before
  by_cases early : m < j
  · exact first m behind early
  · exact second m (Nat.le_of_not_lt early) before

private theorem Breaks.here (here : stream.kindAt i = kind) (loose : kind.conjoins = false) (other : kind ≠ .rightParen) :
    stream.Breaks i :=
  ⟨i, Nat.le_refl i, fun _ behind before => absurd behind (Nat.not_le_of_lt before), here ▸ loose, here ▸ other⟩

private theorem Conjoined.breaks (first : stream.Conjoined i j) (le : i ≤ j) (breaks : stream.Breaks j) : stream.Breaks i := by
  obtain ⟨n, behind, between, loose, other⟩ := breaks
  exact ⟨n, Nat.le_trans le behind, first.append between, loose, other⟩

/-- Names and `&` do not go on to a closing bracket where they break off. -/
theorem Breaks.open (breaks : stream.Breaks i) (conjoined : stream.Conjoined i j) (le : i ≤ j) :
    stream.kindAt j ≠ .rightParen := by
  obtain ⟨n, behind, between, loose, other⟩ := breaks
  intro closed
  rcases Nat.lt_trichotomy n j with less | rfl | more
  · rw [conjoined n behind less] at loose
    cases loose
  · exact other closed
  · have inside := between j le more
    rw [closed] at inside
    cases inside

end TokenStream

namespace Formula

open TokenStream (lays_append Conjoined Breaks)

variable {stream : TokenStream} {formula : Formula} {i j : Nat}

/-- The tokens of an expression are names joined by `&`, or they break off. -/
theorem conjoined_or (lays : stream.Lays formula.written i j) :
    formula.Conjoins ∧ stream.Conjoined i j ∨ stream.Breaks i := by
  have operator {op : Kind} {right : Formula} {i j : Nat} (lays : stream.Lays (op.written ++ right.written) i j)
      (proper : op.isInfix = true) (other : op ≠ .amp) : stream.Breaks i := by
    obtain ⟨kind, joint, more, split, infixed, amp⟩ := Kind.first_written proper
    obtain ⟨loose, further⟩ := Kind.conjoins_of_infix infixed (mt amp other)
    rw [split] at lays
    exact .here lays.1 loose further
  induction formula generalizing i j with
  | name =>
    obtain ⟨here, -, rfl⟩ := lays
    exact .inl ⟨trivial, .single here rfl⟩
  | literal kind proper =>
    refine .inr (.here lays.1 ?_ (by rintro rfl; cases proper))
    cases kind <;> first | rfl | cases proper
  | leading op proper operand =>
    refine .inr (.here lays.1 ?_ (by rintro rfl; cases proper))
    cases op <;> first | rfl | cases proper
  | trailing operand op proper ih =>
    obtain ⟨k, inside, here, -⟩ := lays_append.mp lays
    refine .inr ?_
    rcases ih inside with ⟨-, conjoined⟩ | breaks
    · refine conjoined.breaks (by have := inside.stop; omega) (.here here ?_ (by rintro rfl; cases proper))
      cases op <;> first | rfl | cases proper
    · exact breaks
  | binary op proper left right ih ih' =>
    obtain ⟨k, first, rest⟩ := lays_append.mp lays
    rcases ih first with ⟨whole, conjoined⟩ | breaks
    · have le : i ≤ k := by have := first.stop; omega
      by_cases amp : op = .amp
      · subst amp
        obtain ⟨here, -, last⟩ := rest
        have both := conjoined.append (.single here rfl)
        rcases ih' last with ⟨whole', conjoined'⟩ | breaks
        · exact .inl ⟨⟨rfl, whole, whole'⟩, both.append conjoined'⟩
        · exact .inr (both.breaks (by omega) breaks)
      · exact .inr (conjoined.breaks le (operator rest (Kind.isInfix_of_binary proper) amp))
    · exact .inr breaks
  | assign op proper left right ih ih' =>
    obtain ⟨k, first, rest⟩ := lays_append.mp lays
    refine .inr ?_
    rcases ih first with ⟨-, conjoined⟩ | breaks
    · exact conjoined.breaks (by have := first.stop; omega)
        (operator rest (Kind.isInfix_of_assignment proper) (by rintro rfl; cases proper))
    · exact breaks
  | conditional condition yes no ih ih' ih'' =>
    obtain ⟨k, first, question, -⟩ := lays_append.mp lays
    refine .inr ?_
    rcases ih first with ⟨-, conjoined⟩ | breaks
    · exact conjoined.breaks (by have := first.stop; omega) (.here question rfl (by decide))
    · exact breaks
  | paren inner => exact .inr (.here lays.1 rfl (by decide))

end Formula

structure TokenStream.Formal (stream : TokenStream) : Prop where
  kinds : ∀ index, stream.kindAt index = .eof ∨ (stream.kindAt index).inFormula = true
  angles : ∀ index, stream.kindAt index = .gt → stream.kindAt (index + 1) ≠ .amp ∧ stream.kindAt (index + 1) ≠ .rightParen
  regular : stream.Regular

namespace TokenStream.Formal

variable {stream : TokenStream} {kind : Kind}

theorem away (formal : stream.Formal) (index : Nat) (foreign : kind.inFormula = false) (more : kind ≠ .eof) :
    stream.kindAt index ≠ kind := by
  rintro rfl
  rcases formal.kinds index with ended | inside
  · exact more ended
  · rw [foreign] at inside
    cases inside

theorem unannotated (formal : stream.Formal) : stream.Unannotated := fun index => formal.away index rfl (by decide)

/-- Where the tokens of an expression stand with the end of input behind them, they are all tokens of formulas. -/
theorem of_lays {formula : Formula} (lays : stream.Lays (formula.written ++ [(.eof, false)]) 0 stream.size) :
    stream.Formal := by
  obtain ⟨j, front, ended, -, last⟩ := lays_append.mp lays
  replace last : j + 1 = stream.size := last
  have inside {index : Nat} (before : index < j) : (stream.kindAt index).inFormula = true := by
    obtain ⟨token, member, same⟩ := front.mem (Nat.zero_le index) before
    exact same ▸ formula.inFormula_of_written token member
  have behind {index : Nat} (after : j ≤ index) : stream.kindAt index = .eof := by
    rcases Nat.eq_or_lt_of_le after with rfl | later
    · exact ended
    · exact kind_tokenAt_of_le (by omega)
  have kinds (index : Nat) : stream.kindAt index = .eof ∨ (stream.kindAt index).inFormula = true := by
    by_cases before : index < j
    · exact .inr (inside before)
    · exact .inl (behind (Nat.le_of_not_lt before))
  refine ⟨kinds, fun index here => ?_, fun index => ?_, fun index eof => ?_⟩
  · by_cases before : index < j
    · exact Formula.angles front (Nat.zero_le index) before here
    · rw [behind (Nat.le_of_not_lt before)] at here
      cases here
  · have all : ∀ kind ∈ Kind.all, (kind = .eof ∨ kind.inFormula = true) → kind.isToken = true := by decide +kernel
    exact all _ (Kind.mem_all _) (kinds index)
  · by_cases before : index < j
    · have proper := inside before
      rw [show stream.kindAt index = .eof from eof] at proper
      cases proper
    · omega

end TokenStream.Formal

end LosslessJava
