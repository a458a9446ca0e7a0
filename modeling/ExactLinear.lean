import ExactLinear.CommandLine.Arguments
import ExactLinear.CommandLine.Run
import ExactLinear.Elimination
import ExactLinear.Equation
import ExactLinear.Equation.Parser
import ExactLinear.Fault
import ExactLinear.LinearSystem
import ExactLinear.Main
import ExactLinear.Matrix
import ExactLinear.Number
import ExactLinear.Proofs.AscendingOrder
import ExactLinear.Proofs.CellAddress
import ExactLinear.Proofs.DecimalText
import ExactLinear.Proofs.EchelonSolutions
import ExactLinear.Proofs.EliminationTrace
import ExactLinear.Proofs.EquationHistory
import ExactLinear.Proofs.EquationSources
import ExactLinear.Proofs.EquationText
import ExactLinear.Proofs.EquationValue
import ExactLinear.Proofs.ErrorPosition
import ExactLinear.Proofs.FactorRemoval
import ExactLinear.Proofs.Fractions
import ExactLinear.Proofs.Grammar
import ExactLinear.Proofs.Layout
import ExactLinear.Proofs.LineErrors
import ExactLinear.Proofs.LineReading
import ExactLinear.Proofs.Lookahead
import ExactLinear.Proofs.MatrixEntries
import ExactLinear.Proofs.NumberText
import ExactLinear.Proofs.Parsing
import ExactLinear.Proofs.PivotChoice
import ExactLinear.Proofs.PivotIndependence
import ExactLinear.Proofs.PivotOrder
import ExactLinear.Proofs.Product
import ExactLinear.Proofs.RaggedRows
import ExactLinear.Proofs.Rank
import ExactLinear.Proofs.RankCriterion
import ExactLinear.Proofs.Reading
import ExactLinear.Proofs.Recognition
import ExactLinear.Proofs.ReducedForm
import ExactLinear.Proofs.Reduction
import ExactLinear.Proofs.ReportText
import ExactLinear.Proofs.RightHandSides
import ExactLinear.Proofs.RowEquivalence
import ExactLinear.Proofs.RowFrames
import ExactLinear.Proofs.RowOperation
import ExactLinear.Proofs.Safety
import ExactLinear.Proofs.Solve
import ExactLinear.Proofs.SystemRework
import ExactLinear.Proofs.SystemSolve
import ExactLinear.Proofs.SystemText
import ExactLinear.Proofs.TermOrder
import ExactLinear.Proofs.TrailingBlanks
import ExactLinear.Report
import ExactLinear.Text
import ExactLinear.Text.Letter
