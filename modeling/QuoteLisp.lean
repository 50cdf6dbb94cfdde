import QuoteLisp.Heap.Lemmas
import QuoteLisp.Main
import QuoteLisp.Proofs.Effects
import QuoteLisp.Proofs.Finishing
import QuoteLisp.Proofs.Reduction
import QuoteLisp.Proofs.Discipline
import QuoteLisp.Proofs.Parts
import QuoteLisp.Proofs.Sessions
import QuoteLisp.Proofs.NormalForms
import QuoteLisp.Proofs.Frames
import QuoteLisp.Proofs.Noninterference
import QuoteLisp.Proofs.Scanning
import QuoteLisp.Proofs.Patterns
import QuoteLisp.Proofs.Grammar
import QuoteLisp.Proofs.BracketScan
import QuoteLisp.Proofs.NearestDoubles
import QuoteLisp.Proofs.Rounding
import QuoteLisp.Proofs.ShortestDecimal
import QuoteLisp.Proofs.Numerals
import QuoteLisp.Proofs.ReadBack
import QuoteLisp.Proofs.Demands
import QuoteLisp.Proofs.FaultConfinement
import QuoteLisp.Proofs.FiniteDoubles
import QuoteLisp.Proofs.Decoding
import QuoteLisp.Proofs.PrintedLines
import QuoteLisp.Proofs.Answers
import QuoteLisp.Proofs.Wrapping
import QuoteLisp.Proofs.PrintedLambdas
import QuoteLisp.Proofs.Segments
import QuoteLisp.Proofs.Comments
import QuoteLisp.Proofs.FullSinks
import QuoteLisp.Proofs.Concatenation
import QuoteLisp.Proofs.Lookups
import QuoteLisp.Proofs.Definitions
import QuoteLisp.Proofs.CallFrames
import QuoteLisp.Proofs.BoundedWriter
import QuoteLisp.Proofs.ShownResults
import QuoteLisp.Proofs.IntegerFolds
import QuoteLisp.Proofs.Powers
import QuoteLisp.Proofs.Quotients
import QuoteLisp.Proofs.Promotion
import QuoteLisp.Proofs.HeapGrowth
import QuoteLisp.Proofs.FirstOrder
import QuoteLisp.Proofs.UnknownTags
import QuoteLisp.Proofs.ParameterLists
import QuoteLisp.Proofs.PrintedFaults
import QuoteLisp.Proofs.Descriptions
import QuoteLisp.Proofs.Equality
