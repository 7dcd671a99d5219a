import SqlCommand.ClauseTree.Rendering
import SqlCommand.Decimal.Binary
import SqlCommand.Main
import SqlCommand.Proofs.Combinators
import SqlCommand.Proofs.Terms
import SqlCommand.Proofs.Characters
import SqlCommand.Proofs.Lexing
import SqlCommand.Proofs.Derivation
import SqlCommand.Proofs.Places
import SqlCommand.Proofs.ExpressionText
import SqlCommand.Proofs.Numerals
import SqlCommand.Proofs.Spelling
import SqlCommand.Proofs.ArithmeticText
import SqlCommand.Proofs.Renaming
import SqlCommand.Proofs.Simulation
import SqlCommand.Proofs.RuleSimulation
import SqlCommand.Proofs.Pieces
import SqlCommand.Proofs.Segments
import SqlCommand.Proofs.StatementTokens
import SqlCommand.Proofs.ReadBack
import SqlCommand.Proofs.ReadStatements
import SqlCommand.Proofs.RoundTrip
import SqlCommand.Proofs.Built
import SqlCommand.Proofs.RenamedReading
import SqlCommand.Proofs.Capitals
import SqlCommand.Proofs.Requoting
import SqlCommand.Proofs.Taken
import SqlCommand.Proofs.EntryPoints
import SqlCommand.Proofs.Reached
import SqlCommand.Proofs.SelectText
import SqlCommand.Proofs.ConditionText
import SqlCommand.Proofs.ChangeText
import SqlCommand.Proofs.ColumnNames
import SqlCommand.Proofs.CommandLists
import SqlCommand.Proofs.Respacing
import SqlCommand.Proofs.RecursionDepth
import SqlCommand.Proofs.RenderedStatements
import SqlCommand.Proofs.NodeShapes
import SqlCommand.Proofs.NodeSameness
import SqlCommand.Proofs.ClauseTreeSameness
import SqlCommand.Proofs.SelectedExpression
import SqlCommand.Proofs.WholeWords
import SqlCommand.Proofs.FromLookahead
import SqlCommand.Proofs.LeadingBlanks
import SqlCommand.Proofs.Extraction
import SqlCommand.Proofs.JoinedDepth
import SqlCommand.Proofs.Covering
import SqlCommand.Proofs.Printed
import SqlCommand.Proofs.CanonicalDepth
import SqlCommand.Proofs.TreeHeight
import SqlCommand.Proofs.IntegerArithmetic
import SqlCommand.Proofs.DecimalText
import SqlCommand.Proofs.TreeWalks
import SqlCommand.Proofs.ParallelLists
