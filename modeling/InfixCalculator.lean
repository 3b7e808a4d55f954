import InfixCalculator.Expression.FullText
import InfixCalculator.Expression.Grammar
import InfixCalculator.Main
import InfixCalculator.Proofs.NumberText
import InfixCalculator.Proofs.GroupedTrees
import InfixCalculator.Proofs.FullText
import InfixCalculator.Proofs.StandardSentences
import InfixCalculator.Proofs.StackHeight
import InfixCalculator.Proofs.Juxtaposition
import InfixCalculator.Proofs.Refusals
import InfixCalculator.Proofs.GroupOperand
import InfixCalculator.Proofs.Positions
import InfixCalculator.Proofs.OperatorOrder
import InfixCalculator.Proofs.ScannedTexts
import InfixCalculator.Proofs.NamedOperators
import InfixCalculator.Proofs.PipelineFailures
import InfixCalculator.Proofs.PostfixTrees
import InfixCalculator.Proofs.EvaluationFailures
import InfixCalculator.Proofs.SubResults
import InfixCalculator.Proofs.Occurrences
import InfixCalculator.Proofs.Overflow
import InfixCalculator.Proofs.FiniteResults
import InfixCalculator.Proofs.ScanLocality
import InfixCalculator.Proofs.TableHistory
import InfixCalculator.Proofs.Conversation
import InfixCalculator.Proofs.ResultText
import InfixCalculator.Proofs.StackOrder
import InfixCalculator.Proofs.SequenceText
import InfixCalculator.Proofs.RationalValue
import InfixCalculator.Proofs.FactorialDomain
