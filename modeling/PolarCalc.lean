import PolarCalc.Main
import PolarCalc.Proofs.Grammar.Condensed
import PolarCalc.Proofs.Grammar.Located
import PolarCalc.Proofs.Grammar.Room
import PolarCalc.Proofs.Grammar.Totality
import PolarCalc.Proofs.Grammar.Reported
import PolarCalc.Proofs.Grammar.Context
import PolarCalc.Proofs.Grammar.Names
import PolarCalc.Proofs.Grammar.Longest
import PolarCalc.Proofs.Integer.Evaluation
import PolarCalc.Proofs.Integer.Quadrant
import PolarCalc.Proofs.Integer.Power
import PolarCalc.Proofs.Integer.Length
import PolarCalc.Proofs.Value.Leaves
import PolarCalc.Proofs.Value.Unambiguous
import PolarCalc.Proofs.Value.Truth
import PolarCalc.Proofs.Value.Indexing
import PolarCalc.Proofs.Value.RealText
import PolarCalc.Proofs.Value.Subtraction
import PolarCalc.Proofs.Value.LeafByLeaf
import PolarCalc.Proofs.Value.Comparison
import PolarCalc.Proofs.Evaluation.Outcome
import PolarCalc.Proofs.Evaluation.Text
import PolarCalc.Proofs.Evaluation.Literal
import PolarCalc.Proofs.Evaluation.Value
import PolarCalc.Proofs.Evaluation.Guarantee
import PolarCalc.Proofs.Evaluation.Step
import PolarCalc.Proofs.Evaluation.Reachable
import PolarCalc.Proofs.Evaluation.Course
import PolarCalc.Proofs.Evaluation.Depth
import PolarCalc.Proofs.Evaluation.Termination
import PolarCalc.Proofs.Evaluation.Call
import PolarCalc.Proofs.Evaluation.Strip
import PolarCalc.Proofs.Plugin.Calls
import PolarCalc.Proofs.Plugin.Sharing
import PolarCalc.Proofs.Session.Answer
import PolarCalc.Proofs.Session.Transition
import PolarCalc.Proofs.Session.ReadBack
import PolarCalc.Proofs.Session.Invariant
import PolarCalc.Proofs.Session.Fault
import PolarCalc.Proofs.Session.Possible
import PolarCalc.Proofs.Session.Calls
import PolarCalc.Proofs.Session.Lines
