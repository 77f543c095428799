import LosslessJava.Proofs.Building
import LosslessJava.Proofs.Evaluation

/-! Calls to a builder, in any legal order. What calls put into a node is told from the calls alone: the elements
that come up while no node inside of it is open, each with the place that it gets in its table. -/

namespace LosslessJava.Tree

/-- What a builder can be asked for while a tree is under construction. -/
inductive Call where
  | start (kind : Kind)
  | token (token : Token)
  | finish

namespace Call

def run (b : Builder) : Call → Except BuildError Builder
  | .start kind => b.startNode kind
  | .token given => b.token given
  | .finish => b.finishNode

def runAll (b : Builder) (calls : List Call) : Except BuildError Builder := calls.foldlM run b

theorem runAll_cons {b d : Builder} {call : Call} {rest : List Call} :
    runAll b (call :: rest) = .ok d ↔ ∃ c, call.run b = .ok c ∧ runAll c rest = .ok d := by
  rw [runAll, List.foldlM_cons]
  exact bind_eq_ok

theorem runAll_append {b d : Builder} {front back : List Call} :
    runAll b (front ++ back) = .ok d ↔ ∃ c, runAll b front = .ok c ∧ runAll c back = .ok d := by
  rw [runAll, List.foldlM_append]
  exact bind_eq_ok

/-- The tree that calls build, and nothing else. -/
def build (text : String) (calls : List Call) : Except BuildError Tree := do
  let b ← runAll (.ofText text) calls
  b.finish

/-- Nodes are opened with kinds of nodes, and tokens have kinds of tokens. -/
def Proper : Call → Prop
  | .start kind => kind.isNode
  | .token given => given.kind.isToken
  | .finish => True

instance : DecidablePred Proper
  | .start kind => inferInstanceAs (Decidable (kind.isNode = true))
  | .token given => inferInstanceAs (Decidable (given.kind.isToken = true))
  | .finish => inferInstanceAs (Decidable True)

/-- How many nodes are open after a call. A node can be finished only if one is. -/
def depthAfter? : Nat → Call → Option Nat
  | depth, .start _ => some (depth + 1)
  | depth, .token _ => some depth
  | depth + 1, .finish => some depth
  | 0, .finish => none

/-- Calls lead from `depth` open nodes to so many, and never finish a node that is not open. -/
def Leads (depth : Nat) (calls : List Call) (last : Nat) : Prop := calls.foldlM depthAfter? depth = some last

instance {depth last : Nat} {calls : List Call} : Decidable (Leads depth calls last) :=
  inferInstanceAs (Decidable (_ = _))

/-- Every finish is matched, and every start is finished. -/
abbrev Balanced (calls : List Call) : Prop := Leads 0 calls 0

/-- Calls that a builder is meant for. -/
structure Legal (calls : List Call) : Prop where
  proper : ∀ call ∈ calls, call.Proper
  balanced : Balanced calls

def token? : Call → Option Token
  | .token given => some given
  | _ => none

def isFinish : Call → Bool
  | .finish => true
  | _ => false

/-- The tokens that calls put in. -/
def tokens (calls : List Call) : List Token := calls.filterMap token?

/-- How many nodes calls finish. -/
def finished (calls : List Call) : Nat := calls.countP isFinish

/-- What calls put in while none of the nodes that they open is open, each with its place in the tables, which are
of these sizes before. -/
def appended (nodes tokens : Nat) : Nat → List Call → List Child
  | _, [] => []
  | depth, .start _ :: rest => appended nodes tokens (depth + 1) rest
  | depth, .token _ :: rest =>
    if depth = 0 then .token tokens :: appended nodes (tokens + 1) depth rest
    else appended nodes (tokens + 1) depth rest
  | depth, .finish :: rest =>
    if depth = 1 then .node nodes :: appended (nodes + 1) tokens 0 rest
    else appended (nodes + 1) tokens (depth - 1) rest

section Leads

variable {depth middle last : Nat} {front back calls rest : List Call}

theorem Leads.append (first : Leads depth front middle) (second : Leads middle back last) :
    Leads depth (front ++ back) last := by
  rw [Leads, List.foldlM_append, show front.foldlM depthAfter? depth = some middle from first]
  exact second

theorem leads_append : Leads depth (front ++ back) last ↔ ∃ middle, Leads depth front middle ∧ Leads middle back last := by
  rw [Leads, List.foldlM_append]
  exact Option.bind_eq_some_iff

theorem leads_cons {call : Call} :
    Leads depth (call :: rest) last ↔ ∃ middle, depthAfter? depth call = some middle ∧ Leads middle rest last := by
  rw [Leads, List.foldlM_cons]
  exact Option.bind_eq_some_iff

private theorem Leads.deeper (leads : Leads depth calls last) (more : Nat) : Leads (depth + more) calls (last + more) := by
  induction calls generalizing depth with
  | nil =>
    cases leads
    rfl
  | cons call rest ih =>
    obtain ⟨middle, first, later⟩ := leads_cons.mp leads
    refine leads_cons.mpr ⟨middle + more, ?_, ih later⟩
    cases call with
    | start kind =>
      cases first
      exact congrArg some (Nat.add_right_comm depth more 1)
    | token given =>
      cases first
      rfl
    | finish =>
      cases depth with
      | zero => cases first
      | succ depth =>
        cases first
        rw [Nat.add_right_comm]
        rfl

theorem Balanced.token {given : Token} (later : Balanced rest) : Balanced (.token given :: rest) :=
  leads_cons.mpr ⟨0, rfl, later⟩

theorem Balanced.node {kind : Kind} {inside : List Call} (below : Balanced inside) (later : Balanced rest) :
    Balanced (.start kind :: (inside ++ .finish :: rest)) :=
  leads_cons.mpr ⟨1, rfl, (below.deeper 1).append (leads_cons.mpr ⟨0, rfl, later⟩)⟩

/-- Where an open node is finished, what stands before is balanced. -/
theorem Leads.split (leads : Leads (depth + 1) calls last) (less : last ≤ depth) :
    ∃ inside after, calls = inside ++ .finish :: after ∧ Balanced inside ∧ Leads depth after last := by
  induction length : calls.length using Nat.strong_induction_on generalizing depth calls with
  | _ bound ih =>
    cases calls with
    | nil =>
      cases leads
      omega
    | cons call rest =>
      obtain ⟨middle, first, later⟩ := leads_cons.mp leads
      cases call with
      | finish =>
        cases first
        exact ⟨[], rest, rfl, rfl, later⟩
      | token given =>
        cases first
        obtain ⟨inside, after, rfl, balanced, back⟩ := ih rest.length (by simp [← length]) later less rfl
        exact ⟨.token given :: inside, after, rfl, leads_cons.mpr ⟨0, rfl, balanced⟩, back⟩
      | start kind =>
        cases first
        -- The node that is opened here is finished first, then the one in question.
        obtain ⟨below, behind, rfl, nested, later⟩ := ih rest.length (by simp [← length]) later (by omega) rfl
        have shorter : behind.length < bound := by simp [← length]; omega
        obtain ⟨inside, after, rfl, balanced, back⟩ := ih behind.length shorter later less rfl
        exact ⟨.start kind :: (below ++ .finish :: inside), after, by simp, nested.node balanced, back⟩

/-- Balanced calls are tokens, and nodes around balanced calls. -/
theorem Balanced.induction {motive : (calls : List Call) → Balanced calls → Prop} (nil : motive [] rfl)
    (token : ∀ given rest (later : Balanced rest), motive rest later → motive (.token given :: rest) later.token)
    (node : ∀ kind inside rest (below : Balanced inside) (later : Balanced rest), motive inside below →
      motive rest later → motive (.start kind :: (inside ++ .finish :: rest)) (below.node later))
    (calls : List Call) (balanced : Balanced calls) : motive calls balanced := by
  induction length : calls.length using Nat.strong_induction_on generalizing calls with
  | _ bound ih =>
    cases calls with
    | nil => exact nil
    | cons call rest =>
      obtain ⟨middle, first, later⟩ := leads_cons.mp balanced
      cases call with
      | finish => cases first
      | token given =>
        cases first
        exact token given rest later (ih rest.length (by simp [← length]) rest later rfl)
      | start kind =>
        cases first
        obtain ⟨inside, after, rfl, below, behind⟩ := later.split (Nat.le_refl 0)
        have shorter : inside.length < bound := by simp [← length]
        have shorter' : after.length < bound := by simp [← length]; omega
        exact node kind inside after below behind (ih inside.length shorter inside below rfl)
          (ih after.length shorter' after behind rfl)

end Leads

section Appended

variable {nodes count : Nat} {calls rest : List Call}

@[simp] theorem tokens_nil : tokens [] = [] := rfl

@[simp] theorem tokens_start {kind : Kind} : tokens (.start kind :: rest) = tokens rest := rfl

@[simp] theorem tokens_token {given : Token} : tokens (.token given :: rest) = given :: tokens rest := rfl

@[simp] theorem tokens_finish : tokens (.finish :: rest) = tokens rest := rfl

@[simp] theorem tokens_append : tokens (calls ++ rest) = tokens calls ++ tokens rest := List.filterMap_append

@[simp] theorem finished_nil : finished [] = 0 := rfl

@[simp] theorem finished_start {kind : Kind} : finished (.start kind :: rest) = finished rest := rfl

@[simp] theorem finished_token {given : Token} : finished (.token given :: rest) = finished rest := rfl

@[simp] theorem finished_finish : finished (.finish :: rest) = finished rest + 1 := List.countP_cons_of_pos rfl

@[simp] theorem finished_append : finished (calls ++ rest) = finished calls + finished rest := List.countP_append

private theorem appended_below (balanced : Balanced calls) (depth : Nat) :
    appended nodes count (depth + 1) (calls ++ rest) =
      appended (nodes + finished calls) (count + (tokens calls).length) (depth + 1) rest := by
  induction calls, balanced using Balanced.induction generalizing nodes count depth rest with
  | nil => rfl
  | token given calls _ ih =>
    rw [List.cons_append, appended, if_neg (Nat.succ_ne_zero depth), ih]
    simp [Nat.add_assoc, Nat.add_comm 1]
  | node kind inside calls _ _ below ih =>
    rw [List.cons_append, List.append_assoc, List.cons_append, appended, below, appended, if_neg (by omega),
      Nat.add_sub_cancel, ih]
    simp [Nat.add_assoc, Nat.add_comm 1]

theorem appended_node {kind : Kind} (balanced : Balanced calls) :
    appended nodes count 0 (.start kind :: (calls ++ .finish :: rest)) =
      .node (nodes + finished calls) ::
        appended (nodes + finished calls + 1) (count + (tokens calls).length) 0 rest := by
  rw [appended, appended_below balanced 0, appended, if_pos rfl]

theorem appended_append (balanced : Balanced calls) :
    appended nodes count 0 (calls ++ rest) =
      appended nodes count 0 calls ++ appended (nodes + finished calls) (count + (tokens calls).length) 0 rest := by
  induction calls, balanced using Balanced.induction generalizing nodes count with
  | nil => rfl
  | token given calls _ ih =>
    simp only [List.cons_append, appended, if_true, ih, finished_token, tokens_token, List.length_cons]
    rw [Nat.add_assoc, Nat.add_comm 1]
  | node kind inside calls below _ _ ih =>
    rw [List.cons_append, List.append_assoc, List.cons_append, appended_node below, appended_node below, ih]
    simp [Nat.add_assoc, Nat.add_comm 1]

/-- What is put in is new, and there when all calls were made. -/
theorem node_of_appended (balanced : Balanced calls) {id : Nat} (found : .node id ∈ appended nodes count 0 calls) :
    nodes ≤ id ∧ id < nodes + finished calls := by
  induction calls, balanced using Balanced.induction generalizing nodes count with
  | nil => cases found
  | token given calls _ ih =>
    simp only [appended, if_true] at found
    rcases List.mem_cons.mp found with same | later
    · cases same
    · exact ih later
  | node kind inside calls below _ _ ih =>
    rw [appended_node below] at found
    simp only [finished_start, finished_append, finished_finish]
    rcases List.mem_cons.mp found with same | later
    · cases same
      omega
    · have bounds := ih later
      omega

theorem token_of_appended (balanced : Balanced calls) {index : Nat} (found : .token index ∈ appended nodes count 0 calls) :
    count ≤ index ∧ index < count + (tokens calls).length := by
  induction calls, balanced using Balanced.induction generalizing nodes count with
  | nil => cases found
  | token given calls _ ih =>
    simp only [appended, if_true] at found
    rw [tokens_token, List.length_cons]
    rcases List.mem_cons.mp found with same | later
    · cases same
      omega
    · have bounds := ih later
      omega
  | node kind inside calls below _ _ ih =>
    rw [appended_node below] at found
    simp only [tokens_start, tokens_append, tokens_finish, List.length_append]
    rcases List.mem_cons.mp found with same | later
    · cases same
    · have bounds := ih later
      omega

end Appended

end Call

end LosslessJava.Tree

namespace LosslessJava.BuildStep

open LosslessJava.Tree

def calls (stream : TokenStream) : Nat → List BuildStep → List Call
  | _, [] => []
  | raw, .start kind :: rest => .start kind :: calls stream raw rest
  | raw, .token kind rawCount :: rest =>
    .token (mergedToken stream kind raw rawCount) :: calls stream (raw + rawCount) rest
  | raw, .finish :: rest => .finish :: calls stream raw rest

private theorem runAll_calls (stream : TokenStream) (steps : List BuildStep) (raw : Nat) (b : Builder) :
    runAll stream steps raw b = Call.runAll b (calls stream raw steps) := by
  induction steps generalizing raw b with
  | nil => rfl
  | cons step rest ih =>
    cases step <;> simp only [runAll, calls, Call.runAll, List.foldlM_cons, Call.run] <;> congr 1 <;> funext c <;>
      exact ih _ c

/-- The tree of steps is built by calls, so what holds of every tree that is built holds of it. -/
theorem toTree_eq_build (stream : TokenStream) (steps : List BuildStep) :
    toTree stream steps = Call.build stream.text (calls stream 0 steps) := by
  rw [toTree, Call.build, runAll_calls]

end LosslessJava.BuildStep
