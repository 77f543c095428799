import LosslessJava.Ast.Declarations
import LosslessJava.Diagnostic.Report
import LosslessJava.Parse
import LosslessJava.Proofs.Calls
import LosslessJava.Proofs.Grammar.Declarations
import LosslessJava.Proofs.Grammar.Inputs
import LosslessJava.Proofs.Evaluation
import LosslessJava.Proofs.Lexing
import LosslessJava.Proofs.ModeRefinement
import LosslessJava.Proofs.Entry
import LosslessJava.Proofs.Shape
import LosslessJava.Proofs.Steps
import LosslessJava.Proofs.Building
import LosslessJava.Proofs.Endless
import LosslessJava.Proofs.Lossless
import LosslessJava.Proofs.Totality
import LosslessJava.Proofs.Duration
import LosslessJava.Proofs.Accessors
import LosslessJava.Proofs.Balance
import LosslessJava.Proofs.Order
import LosslessJava.Proofs.Abandonment
import LosslessJava.Proofs.LayoutIndependence
import LosslessJava.Proofs.Nesting
import LosslessJava.Proofs.Recursion
import LosslessJava.Proofs.PredictedRuns
import LosslessJava.Proofs.ScannedLambdas
import LosslessJava.Proofs.Depth
import LosslessJava.Proofs.Rewinding
import LosslessJava.Proofs.Wording
import LosslessJava.Proofs.LookaheadLimits
import LosslessJava.Proofs.Trials
import LosslessJava.Proofs.Restriction
import LosslessJava.Proofs.Operands
import LosslessJava.Proofs.TypedReferences
import LosslessJava.Proofs.Exhaustion
import LosslessJava.Proofs.Resynchronisation
import LosslessJava.Proofs.SwitchSites
import LosslessJava.Proofs.Arrangement
import LosslessJava.Proofs.ArrangedRules
import LosslessJava.Proofs.ArrangedSwitches
import LosslessJava.Proofs.ArrangedGrammar
import LosslessJava.Proofs.SwitchBlocks
import LosslessJava.Proofs.Branches
import LosslessJava.Proofs.Clauses
import LosslessJava.Proofs.Locals
import LosslessJava.Proofs.Separators
import LosslessJava.Proofs.ExpectedKinds
import LosslessJava.Proofs.BuilderCalls
import LosslessJava.Proofs.Links
import LosslessJava.Proofs.WalkTermination
import LosslessJava.Proofs.BalancedCalls
import LosslessJava.Proofs.Coverage
import LosslessJava.Proofs.AssembledTrees
import LosslessJava.Proofs.OutermostNodes
import LosslessJava.Proofs.LambdaNames
import LosslessJava.Proofs.LineLiterals
import LosslessJava.Proofs.Attachment
import LosslessJava.Proofs.Relexing
import LosslessJava.Proofs.Formulas
import LosslessJava.Proofs.Precedence
import LosslessJava.Proofs.Numerals
import LosslessJava.Proofs.Unclosed
import LosslessJava.Proofs.Absorption
import LosslessJava.Proofs.Markings
import LosslessJava.Proofs.Angles
import LosslessJava.Proofs.DeeperRuns
import LosslessJava.Proofs.Deeper
import LosslessJava.Proofs.KindSets
import LosslessJava.Proofs.Progress
