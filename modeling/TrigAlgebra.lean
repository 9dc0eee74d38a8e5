import TrigAlgebra.BigFloat.Basic
import TrigAlgebra.BigFloat.Complex
import TrigAlgebra.BigFloat.Elementary
import TrigAlgebra.BigFloat.Text
import TrigAlgebra.Binary64
import TrigAlgebra.Circular
import TrigAlgebra.Coefficient
import TrigAlgebra.Decimal.Rounding
import TrigAlgebra.Decimal.Shortest
import TrigAlgebra.DenseVector.Basic
import TrigAlgebra.DenseVector.Comparison
import TrigAlgebra.DenseVector.Evaluation
import TrigAlgebra.Digest
import TrigAlgebra.Edit
import TrigAlgebra.Fault
import TrigAlgebra.Fault.Message
import TrigAlgebra.Heap.Basic
import TrigAlgebra.Heap.Operators
import TrigAlgebra.Heap.Polynomials
import TrigAlgebra.Heap.Session
import TrigAlgebra.Heap.TrigPolynomials
import TrigAlgebra.Journal
import TrigAlgebra.Label
import TrigAlgebra.Monomial
import TrigAlgebra.Naming
import TrigAlgebra.Number.Arithmetic
import TrigAlgebra.Number.Basic
import TrigAlgebra.Number.Circular
import TrigAlgebra.Number.Coefficient
import TrigAlgebra.Number.Power
import TrigAlgebra.Number.Text
import TrigAlgebra.Polynomial.Arithmetic
import TrigAlgebra.Polynomial.Basic
import TrigAlgebra.Polynomial.Calculus
import TrigAlgebra.Polynomial.Dense
import TrigAlgebra.Polynomial.Substitution
import TrigAlgebra.PowerProduct
import TrigAlgebra.Proofs.Acceptance
import TrigAlgebra.Proofs.AngleAddition
import TrigAlgebra.Proofs.ArithmeticFaults
import TrigAlgebra.Proofs.CanonicalMonomials
import TrigAlgebra.Proofs.CoefficientKinds
import TrigAlgebra.Proofs.CoefficientSigns
import TrigAlgebra.Proofs.CoefficientText
import TrigAlgebra.Proofs.Coefficients
import TrigAlgebra.Proofs.CompanionMatrix
import TrigAlgebra.Proofs.DenseEvaluation
import TrigAlgebra.Proofs.DenseSlots
import TrigAlgebra.Proofs.DerivedValues
import TrigAlgebra.Proofs.Differentiation
import TrigAlgebra.Proofs.ExactArithmetic
import TrigAlgebra.Proofs.ExactValues
import TrigAlgebra.Proofs.Expansion
import TrigAlgebra.Proofs.ExpansionRefusals
import TrigAlgebra.Proofs.ExpansionShape
import TrigAlgebra.Proofs.Exponents
import TrigAlgebra.Proofs.ExpressionReading
import TrigAlgebra.Proofs.FailedSteps
import TrigAlgebra.Proofs.FloatOrder
import TrigAlgebra.Proofs.FloatQuotients
import TrigAlgebra.Proofs.FloatSigns
import TrigAlgebra.Proofs.FloatValues
import TrigAlgebra.Proofs.Footprints
import TrigAlgebra.Proofs.FormalPolynomial
import TrigAlgebra.Proofs.HeapFrames
import TrigAlgebra.Proofs.HeapOperators
import TrigAlgebra.Proofs.HeapPolynomials
import TrigAlgebra.Proofs.HeapPrograms
import TrigAlgebra.Proofs.HeapSessions
import TrigAlgebra.Proofs.HeapTrigPolynomials
import TrigAlgebra.Proofs.IntegerArithmetic
import TrigAlgebra.Proofs.IntegerComparison
import TrigAlgebra.Proofs.IntegerEvaluation
import TrigAlgebra.Proofs.IntegerGrowth
import TrigAlgebra.Proofs.IntegerPowers
import TrigAlgebra.Proofs.IntegerSizes
import TrigAlgebra.Proofs.Integration
import TrigAlgebra.Proofs.Letters
import TrigAlgebra.Proofs.LinearRoots
import TrigAlgebra.Proofs.MachineWords
import TrigAlgebra.Proofs.MergedCoefficients
import TrigAlgebra.Proofs.Merging
import TrigAlgebra.Proofs.MixedOperations
import TrigAlgebra.Proofs.MonomialDivision
import TrigAlgebra.Proofs.MonomialText
import TrigAlgebra.Proofs.MultipleAngles
import TrigAlgebra.Proofs.NamesInText
import TrigAlgebra.Proofs.NumberValues
import TrigAlgebra.Proofs.Numerals
import TrigAlgebra.Proofs.OneVariable
import TrigAlgebra.Proofs.PackedNames
import TrigAlgebra.Proofs.PartialEvaluation
import TrigAlgebra.Proofs.ProductRule
import TrigAlgebra.Proofs.Reachable
import TrigAlgebra.Proofs.Refusals
import TrigAlgebra.Proofs.Renaming
import TrigAlgebra.Proofs.Results
import TrigAlgebra.Proofs.RingCoefficients
import TrigAlgebra.Proofs.RootCounts
import TrigAlgebra.Proofs.Rotations
import TrigAlgebra.Proofs.RoundTrip
import TrigAlgebra.Proofs.ScalarPaths
import TrigAlgebra.Proofs.ScalarValues
import TrigAlgebra.Proofs.SessionEdits
import TrigAlgebra.Proofs.SessionFrames
import TrigAlgebra.Proofs.SessionInvariant
import TrigAlgebra.Proofs.SessionReachable
import TrigAlgebra.Proofs.SessionRuns
import TrigAlgebra.Proofs.SingleMonomials
import TrigAlgebra.Proofs.StagedEvaluation
import TrigAlgebra.Proofs.StoredIntegers
import TrigAlgebra.Proofs.SummandOrder
import TrigAlgebra.Proofs.SymbolicExpansion
import TrigAlgebra.Proofs.SymbolicIntegers
import TrigAlgebra.Proofs.SymbolicMonomials
import TrigAlgebra.Proofs.SymbolicSums
import TrigAlgebra.Proofs.TrigArithmetic
import TrigAlgebra.Proofs.TrigWellFormed
import TrigAlgebra.Proofs.Univariate
import TrigAlgebra.Proofs.ValueSemantics
import TrigAlgebra.Proofs.Variables
import TrigAlgebra.Proofs.WellFormed
import TrigAlgebra.Proofs.WholeNumbers
import TrigAlgebra.Proofs.WholePolynomials
import TrigAlgebra.Proofs.ZeroEntries
import TrigAlgebra.Roots.Companion
import TrigAlgebra.Roots.Eigenvalues
import TrigAlgebra.Roots.Finding
import TrigAlgebra.Roots.Simultaneous
import TrigAlgebra.Session.Compute
import TrigAlgebra.Session.Operators
import TrigAlgebra.Session.Run
import TrigAlgebra.Session.Step
import TrigAlgebra.Session.Value
import TrigAlgebra.Symbolic.Conversion
import TrigAlgebra.Symbolic.Expression
import TrigAlgebra.Symbolic.Scalar
import TrigAlgebra.Symbolic.Sum
import TrigAlgebra.Text.Numeral
import TrigAlgebra.Text.Printable
import TrigAlgebra.Text.Quoted
import TrigAlgebra.Traced
import TrigAlgebra.TrigPolynomial.Angles
import TrigAlgebra.TrigPolynomial.Basic
import TrigAlgebra.TrigPolynomial.Evaluation
import TrigAlgebra.TrigPolynomial.Expansion
import TrigAlgebra.Word
