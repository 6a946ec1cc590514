import TexEngine.Arith.Count
import TexEngine.Arith.Dimen
import TexEngine.Arith.Glue
import TexEngine.Arith.Word
import TexEngine.Cli.Arguments
import TexEngine.Cli.Program
import TexEngine.Config.Basic
import TexEngine.Config.Load
import TexEngine.Decimal.Binary64
import TexEngine.Decimal.ByteSize
import TexEngine.Decimal.Significant
import TexEngine.Digest.Keccak
import TexEngine.Digest.Shake
import TexEngine.Engine.Arguments
import TexEngine.Engine.Assign
import TexEngine.Engine.Branch
import TexEngine.Engine.Definition
import TexEngine.Engine.Describe
import TexEngine.Engine.Dump
import TexEngine.Engine.Execute
import TexEngine.Engine.Expand
import TexEngine.Engine.Expander
import TexEngine.Engine.Machine
import TexEngine.Engine.Run
import TexEngine.Engine.Scan.Dimen
import TexEngine.Engine.Scan.Integer
import TexEngine.Engine.Scan.Keyword
import TexEngine.Engine.Scan.Tokens
import TexEngine.Engine.Value
import TexEngine.Env.Basic
import TexEngine.Env.CodeTable
import TexEngine.Env.Group
import TexEngine.Env.Snapshot
import TexEngine.Error
import TexEngine.Event
import TexEngine.Files.Change
import TexEngine.Files.Path
import TexEngine.Files.Tree
import TexEngine.Format.Codec
import TexEngine.Format.Image
import TexEngine.Format.Packed
import TexEngine.Format.Store
import TexEngine.Input.Cursor
import TexEngine.Input.Reader
import TexEngine.Input.Source
import TexEngine.Input.Stream
import TexEngine.Locator
import TexEngine.Main
import TexEngine.Material.Fill
import TexEngine.Material.Font
import TexEngine.Material.Node
import TexEngine.Material.Recorder
import TexEngine.Meaning.Basic
import TexEngine.Meaning.Primitive
import TexEngine.Proofs.Arith.Conversion
import TexEngine.Proofs.Arith.Decimal
import TexEngine.Proofs.Arith.GlueSum
import TexEngine.Proofs.Arith.Overflow
import TexEngine.Proofs.Arith.Range
import TexEngine.Proofs.Arith.Roman
import TexEngine.Proofs.Arith.Rounding
import TexEngine.Proofs.Arith.ShortestDecimal
import TexEngine.Proofs.Engine.Arguments
import TexEngine.Proofs.Engine.BoxStack
import TexEngine.Proofs.Engine.BoxUse
import TexEngine.Proofs.Engine.Braces
import TexEngine.Proofs.Engine.Branch
import TexEngine.Proofs.Engine.BranchEnd
import TexEngine.Proofs.Engine.ClosingBrace
import TexEngine.Proofs.Engine.Comparison
import TexEngine.Proofs.Engine.ConditionalTree
import TexEngine.Proofs.Engine.DefinitionRoundTrip
import TexEngine.Proofs.Engine.DelimitedArgument
import TexEngine.Proofs.Engine.Discipline
import TexEngine.Proofs.Engine.Ending.Basic
import TexEngine.Proofs.Engine.Ending.Branch
import TexEngine.Proofs.Engine.Ending.Cost
import TexEngine.Proofs.Engine.Ending.Dimen
import TexEngine.Proofs.Engine.Ending.Endless
import TexEngine.Proofs.Engine.Ending.Expand
import TexEngine.Proofs.Engine.Ending.Read
import TexEngine.Proofs.Engine.Ending.ReadAll
import TexEngine.Proofs.Engine.Ending.Scan
import TexEngine.Proofs.Engine.Ending.Tokens
import TexEngine.Proofs.Engine.Ending.Watched
import TexEngine.Proofs.Engine.Ending.Weights
import TexEngine.Proofs.Engine.ExpansionFrame
import TexEngine.Proofs.Engine.History.Change
import TexEngine.Proofs.Engine.History.Execute
import TexEngine.Proofs.Engine.Jobs
import TexEngine.Proofs.Engine.Legal.Assign
import TexEngine.Proofs.Engine.Legal.Execute
import TexEngine.Proofs.Engine.Legal.Expand
import TexEngine.Proofs.Engine.Legal.Lengths
import TexEngine.Proofs.Engine.Legal.Operations
import TexEngine.Proofs.Engine.Legal.Scan
import TexEngine.Proofs.Engine.Legal.State
import TexEngine.Proofs.Engine.Legal.Texts
import TexEngine.Proofs.Engine.MacroCall
import TexEngine.Proofs.Engine.MacroShape
import TexEngine.Proofs.Engine.ParagraphDelimiter
import TexEngine.Proofs.Engine.PendingTest
import TexEngine.Proofs.Engine.Pushback
import TexEngine.Proofs.Engine.Quoting
import TexEngine.Proofs.Engine.Reachable
import TexEngine.Proofs.Engine.Reading
import TexEngine.Proofs.Engine.Rescanning
import TexEngine.Proofs.Engine.Reuse
import TexEngine.Proofs.Engine.Scan.DecimalConstant
import TexEngine.Proofs.Engine.Scan.Dimen
import TexEngine.Proofs.Engine.Scan.DimenLiteral
import TexEngine.Proofs.Engine.Scan.Integer
import TexEngine.Proofs.Engine.Scan.IntegerLiteral
import TexEngine.Proofs.Engine.Scan.Keyword
import TexEngine.Proofs.Engine.Scan.KeywordRollback
import TexEngine.Proofs.Engine.Scan.RoundTrip
import TexEngine.Proofs.Engine.Scan.Spelling
import TexEngine.Proofs.Engine.Scoping.Assignment
import TexEngine.Proofs.Engine.Scoping.Command
import TexEngine.Proofs.Engine.Scoping.Effect
import TexEngine.Proofs.Engine.Scoping.Places
import TexEngine.Proofs.Engine.Scoping.Reading
import TexEngine.Proofs.Engine.Settling
import TexEngine.Proofs.Engine.Skipping
import TexEngine.Proofs.Engine.Storing.Assign
import TexEngine.Proofs.Engine.Storing.Definition
import TexEngine.Proofs.Engine.Storing.Execute
import TexEngine.Proofs.Engine.Storing.Expand
import TexEngine.Proofs.Engine.Storing.Operations
import TexEngine.Proofs.Engine.Storing.Scan
import TexEngine.Proofs.Engine.Storing.State
import TexEngine.Proofs.Engine.Storing.Texts
import TexEngine.Proofs.Engine.Substitution
import TexEngine.Proofs.Engine.TableEntries
import TexEngine.Proofs.Engine.Upcoming
import TexEngine.Proofs.Engine.WithinLimits
import TexEngine.Proofs.Env.Characters
import TexEngine.Proofs.Env.Contents
import TexEngine.Proofs.Env.Course
import TexEngine.Proofs.Env.Scopes
import TexEngine.Proofs.Env.Tables
import TexEngine.Proofs.Env.Valuation
import TexEngine.Proofs.Files.FullNames
import TexEngine.Proofs.Files.Names
import TexEngine.Proofs.Files.OldFiles
import TexEngine.Proofs.Files.Removal
import TexEngine.Proofs.Format.Decoding
import TexEngine.Proofs.Format.Dumping
import TexEngine.Proofs.Format.Listing
import TexEngine.Proofs.Format.Pruning
import TexEngine.Proofs.Format.Restoring
import TexEngine.Proofs.Format.RoundTrip
import TexEngine.Proofs.Format.Sessions
import TexEngine.Proofs.Format.Undumping
import TexEngine.Proofs.Input.Blanks
import TexEngine.Proofs.Input.Depth
import TexEngine.Proofs.Input.EndInput
import TexEngine.Proofs.Input.Gauge
import TexEngine.Proofs.Input.LegalTokens
import TexEngine.Proofs.Input.LineLexer
import TexEngine.Proofs.Input.ParameterFree
import TexEngine.Proofs.Input.Progress
import TexEngine.Proofs.Input.ReadLine
import TexEngine.Proofs.Input.Reads
import TexEngine.Proofs.Input.Sequence
import TexEngine.Proofs.Input.Spelling
import TexEngine.Proofs.Input.States
import TexEngine.Proofs.Material.Filling
import TexEngine.Proofs.Text.Decoding
import TexEngine.Proofs.Text.Lines
import TexEngine.Proofs.Text.Words
import TexEngine.Text.Base64
import TexEngine.Text.Blank
import TexEngine.Text.CaseMap
import TexEngine.Text.CharCode
import TexEngine.Text.Letters
import TexEngine.Text.Numeral
import TexEngine.Text.Printable
import TexEngine.Text.Quoted
import TexEngine.Text.Utf8
import TexEngine.Token.Basic
import TexEngine.Token.Catcode
import TexEngine.Token.List
import TexEngine.Yaml.Block
import TexEngine.Yaml.Contents
import TexEngine.Yaml.Cursor
import TexEngine.Yaml.Document
import TexEngine.Yaml.Node
import TexEngine.Yaml.Plain
import TexEngine.Yaml.Property
import TexEngine.Yaml.Quoted
import TexEngine.Yaml.Scalar
import TexEngine.Yaml.Token
import TexEngine.Yaml.Tokens
