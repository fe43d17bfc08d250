import MiniBasic.Main
import MiniBasic.Proofs.Acceptance
import MiniBasic.Proofs.AcceptedTree
import MiniBasic.Proofs.Accuracy
import MiniBasic.Proofs.Arithmetic
import MiniBasic.Proofs.Blame
import MiniBasic.Proofs.ByteOrder
import MiniBasic.Proofs.CodeLines
import MiniBasic.Proofs.CodeTokens
import MiniBasic.Proofs.CommandEffects
import MiniBasic.Proofs.Concatenation
import MiniBasic.Proofs.Declarations
import MiniBasic.Proofs.DefaultOutput
import MiniBasic.Proofs.FileNames
import MiniBasic.Proofs.FileWriting
import MiniBasic.Proofs.Fits
import MiniBasic.Proofs.Grammar
import MiniBasic.Proofs.HeaderAndBody
import MiniBasic.Proofs.Jumps
import MiniBasic.Proofs.LabelledStatements
import MiniBasic.Proofs.Layout
import MiniBasic.Proofs.Leading
import MiniBasic.Proofs.LexicalGrammar
import MiniBasic.Proofs.LineEnds
import MiniBasic.Proofs.Literals
import MiniBasic.Proofs.LocationOrder
import MiniBasic.Proofs.Lookahead
import MiniBasic.Proofs.LosslessCode
import MiniBasic.Proofs.MarkedLines
import MiniBasic.Proofs.Meetings
import MiniBasic.Proofs.Messages
import MiniBasic.Proofs.NameClashes
import MiniBasic.Proofs.NameHistory
import MiniBasic.Proofs.NamePlaces
import MiniBasic.Proofs.NameTracking
import MiniBasic.Proofs.NamedEvents
import MiniBasic.Proofs.NormalForm
import MiniBasic.Proofs.Pass
import MiniBasic.Proofs.Prediction
import MiniBasic.Proofs.Progress
import MiniBasic.Proofs.PrintedText
import MiniBasic.Proofs.Relocation
import MiniBasic.Proofs.RenamedRecognition
import MiniBasic.Proofs.Renaming
import MiniBasic.Proofs.Reordering
import MiniBasic.Proofs.Respelling
import MiniBasic.Proofs.ScannerCalls
import MiniBasic.Proofs.SinglePass
import MiniBasic.Proofs.Sinks
import MiniBasic.Proofs.Spelling
import MiniBasic.Proofs.StaticRules
import MiniBasic.Proofs.SuiteRuns
import MiniBasic.Proofs.SuiteUnits
import MiniBasic.Proofs.SuiteVerdict
import MiniBasic.Proofs.TargetComparisons
import MiniBasic.Proofs.TargetExpressions
import MiniBasic.Proofs.TargetReading
import MiniBasic.Proofs.TargetTokens
import MiniBasic.Proofs.TokenStream
import MiniBasic.Proofs.Translation
import MiniBasic.Proofs.Unambiguous
import MiniBasic.Proofs.ViablePrefix
import MiniBasic.Tree
