import LosslessJava.Tree.Builder
import LosslessJava.Token.Stream

/-!
Events: what parsing records, and how a tree comes of it. A node is recorded by a start and a finish
with its contents between. When a finished node turns out to be the first child of another one, the
other's start is recorded late, and the node's own start points forward to it.
-/
namespace LosslessJava

/-- One entry of a parser's record. -/
inductive Event where
  /-- Start of a node. A start that was never completed is a tombstone. `forwardParent` leads to the
  start, so many events later, of a node around this one. -/
  | start (kind : Kind) (forwardParent : Option Nat)
  /-- One token of the tree, made of so many consecutive tokens of the stream. -/
  | token (kind : Kind) (rawCount : Nat)
  | finish
  deriving DecidableEq, Repr, Inhabited

/-- One step in building a tree. -/
inductive BuildStep where
  | start (kind : Kind)
  | token (kind : Kind) (rawCount : Nat)
  | finish
  deriving DecidableEq, Repr, Inhabited

namespace Event

def tombstone : Event := .start .tombstone none

/-- The kinds of the nodes that start with the event at `index`, innermost first, tombstones left
out; and the events after their starts were struck out. There is no answer where a node's start
points to something else than a start. At most `limit` nodes are followed. -/
def takeStarts : Nat → Nat → Array Event → Option (List Kind × Array Event)
  | 0, _, _ => none
  | limit + 1, index, events =>
    match events[index]? with
    | some (.start kind forwardParent) => do
      let events := events.setIfInBounds index tombstone
      let (kinds, events) ←
        match forwardParent with
        | some distance => takeStarts limit (index + distance) events
        | none => some ([], events)
      return (if kind = .tombstone then kinds else kind :: kinds, events)
    | _ => none

/-- The building steps of the last `count` events. A start is made where the innermost of the nodes
that begin there was started, and the outermost comes first. -/
def stepsOfLast : Nat → Array Event → Option (List BuildStep)
  | 0, _ => some []
  | count + 1, events =>
    let index := events.size - (count + 1)
    match events[index]? with
    | some (.start kind _) =>
      if kind = .tombstone then
        stepsOfLast count events
      else do
        let (kinds, events) ← takeStarts events.size index events
        return kinds.reverse.map .start ++ (← stepsOfLast count events)
    | some (.token kind rawCount) => return .token kind rawCount :: (← stepsOfLast count events)
    | some .finish => return .finish :: (← stepsOfLast count events)
    | none => some []

/-- The steps that build the tree recorded by the events. -/
def buildSteps (events : Array Event) : Option (List BuildStep) := stepsOfLast events.size events

end Event

namespace BuildStep

/-- The tree token made of `rawCount` tokens of the stream from `raw` on: it reaches from the first
of them to the last, with the trivia before the one and behind the other. -/
def mergedToken (stream : TokenStream) (kind : Kind) (raw rawCount : Nat) : Token :=
  let first := stream.tokenAt raw
  let last := stream.tokenAt (raw + rawCount - 1)
  { kind, range := first.range.cover last.range, leading := first.leading,
    trailing := last.trailing }

/-- Carries steps out; `raw` counts the tokens of the stream that are used up. -/
def runAll (stream : TokenStream) : List BuildStep → Nat → Tree.Builder →
    Except Tree.BuildError Tree.Builder
  | [], _, builder => .ok builder
  | .start kind :: rest, raw, builder => do runAll stream rest raw (← builder.startNode kind)
  | .token kind rawCount :: rest, raw, builder => do
    let builder ← builder.token (mergedToken stream kind raw rawCount)
    runAll stream rest (raw + rawCount) builder
  | .finish :: rest, raw, builder => do runAll stream rest raw (← builder.finishNode)

/-- The tree built by steps over a stream. -/
def toTree (stream : TokenStream) (steps : List BuildStep) : Except Tree.BuildError Tree := do
  (← runAll stream steps 0 (.ofText stream.text)).finish

end BuildStep

end LosslessJava
