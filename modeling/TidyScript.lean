import TidyScript.Command.Arguments
import TidyScript.Command.Check
import TidyScript.Command.Run
import TidyScript.Edit.Basic
import TidyScript.Edit.Merge
import TidyScript.Flow.CommonEnding
import TidyScript.Flow.Leaving
import TidyScript.Flow.Moving
import TidyScript.Flow.NeedlessElse
import TidyScript.Flow.RepeatedGuard
import TidyScript.Grammar.Basic
import TidyScript.Grammar.Expression
import TidyScript.Grammar.Infix
import TidyScript.Grammar.Lookahead
import TidyScript.Grammar.State
import TidyScript.Grammar.Statement
import TidyScript.Json.Basic
import TidyScript.Json.Reader
import TidyScript.Logic.Equivalence
import TidyScript.Logic.Law
import TidyScript.Logic.Negation
import TidyScript.Main
import TidyScript.Number.Binary
import TidyScript.Number.Decimal
import TidyScript.Number.Natural
import TidyScript.Number.Shortest
import TidyScript.Program.Basic
import TidyScript.Program.Place
import TidyScript.Program.Source
import TidyScript.Proofs.Command.Check
import TidyScript.Proofs.Edit.Assembly
import TidyScript.Proofs.Edit.Fits
import TidyScript.Proofs.Edit.Greedy
import TidyScript.Proofs.Edit.Independence
import TidyScript.Proofs.Edit.Weave
import TidyScript.Proofs.Flow.Completion
import TidyScript.Proofs.Flow.Ending
import TidyScript.Proofs.Flow.Guard
import TidyScript.Proofs.Flow.Moving
import TidyScript.Proofs.Grammar.Balance
import TidyScript.Proofs.Grammar.Beside
import TidyScript.Proofs.Grammar.Binding
import TidyScript.Proofs.Grammar.Bound
import TidyScript.Proofs.Grammar.ExpressionLayout
import TidyScript.Proofs.Grammar.ExpressionMeeting
import TidyScript.Proofs.Grammar.HeadMode
import TidyScript.Proofs.Grammar.Layout
import TidyScript.Proofs.Grammar.Likeness
import TidyScript.Proofs.Grammar.Lookahead
import TidyScript.Proofs.Grammar.Operator
import TidyScript.Proofs.Grammar.Ownership
import TidyScript.Proofs.Grammar.Passage
import TidyScript.Proofs.Grammar.Progress
import TidyScript.Proofs.Grammar.Quiet
import TidyScript.Proofs.Grammar.Run
import TidyScript.Proofs.Grammar.StatementLayout
import TidyScript.Proofs.Grammar.StatementMeeting
import TidyScript.Proofs.Grammar.StatementSpan
import TidyScript.Proofs.Grammar.Stepping
import TidyScript.Proofs.Grammar.Steps
import TidyScript.Proofs.Grammar.Strength
import TidyScript.Proofs.Grammar.Taking
import TidyScript.Proofs.Grammar.Unfolding
import TidyScript.Proofs.Grammar.Yields
import TidyScript.Proofs.List.Sorting
import TidyScript.Proofs.Phrase.Airy
import TidyScript.Proofs.Phrase.Amend
import TidyScript.Proofs.Phrase.Basic
import TidyScript.Proofs.Phrase.Family
import TidyScript.Proofs.Phrase.Joint
import TidyScript.Proofs.Phrase.Negation
import TidyScript.Proofs.Phrase.Origin
import TidyScript.Proofs.Phrase.Place
import TidyScript.Proofs.Phrase.Proposal
import TidyScript.Proofs.Phrase.Reading
import TidyScript.Proofs.Phrase.Rooting
import TidyScript.Proofs.Phrase.Row
import TidyScript.Proofs.Phrase.Sentence
import TidyScript.Proofs.Phrase.Shortening
import TidyScript.Proofs.Phrase.Slice
import TidyScript.Proofs.Phrase.Stem
import TidyScript.Proofs.Phrase.Stitch
import TidyScript.Proofs.Phrase.Value
import TidyScript.Proofs.Phrase.Weight
import TidyScript.Proofs.Program.Extract
import TidyScript.Proofs.Program.Forest
import TidyScript.Proofs.Program.Parentheses
import TidyScript.Proofs.Program.Parents
import TidyScript.Proofs.Program.Replacement
import TidyScript.Proofs.Program.Seat
import TidyScript.Proofs.Program.SourceOrder
import TidyScript.Proofs.Program.Structure
import TidyScript.Proofs.Program.Tiling
import TidyScript.Proofs.Rule.FlowFits
import TidyScript.Proofs.Rule.LogicFits
import TidyScript.Proofs.Rule.Rendering
import TidyScript.Proofs.Rule.Rounds
import TidyScript.Proofs.Rule.Runs
import TidyScript.Proofs.Rule.Selection
import TidyScript.Proofs.Rule.SingleFix
import TidyScript.Proofs.Rule.Termination
import TidyScript.Proofs.Rule.Wording
import TidyScript.Proofs.Text.Answer
import TidyScript.Proofs.Text.Boundary
import TidyScript.Proofs.Text.Cut
import TidyScript.Proofs.Text.Line
import TidyScript.Proofs.Token.Enclosed
import TidyScript.Proofs.Token.Excerpt
import TidyScript.Proofs.Token.Gap
import TidyScript.Proofs.Token.Indentation
import TidyScript.Proofs.Token.Lexeme
import TidyScript.Proofs.Token.LineBreak
import TidyScript.Proofs.Token.Lined
import TidyScript.Proofs.Token.Lossless
import TidyScript.Proofs.Token.Numeral
import TidyScript.Proofs.Token.Piece
import TidyScript.Proofs.Token.Quoted
import TidyScript.Proofs.Token.Respacing
import TidyScript.Proofs.Token.Resumption
import TidyScript.Proofs.Token.Row
import TidyScript.Proofs.Token.Search
import TidyScript.Proofs.Token.Setting
import TidyScript.Proofs.Tree.Bare
import TidyScript.Proofs.Tree.Operand
import TidyScript.Proofs.Tree.Order
import TidyScript.Proofs.Tree.Seat
import TidyScript.Proofs.Tree.Size
import TidyScript.Proofs.Value.Agreement
import TidyScript.Proofs.Value.Law
import TidyScript.Proofs.Value.Literal
import TidyScript.Proofs.Value.Stuck
import TidyScript.Rule.Basic
import TidyScript.Rule.Flow
import TidyScript.Rule.Lint
import TidyScript.Rule.Logic
import TidyScript.Rule.Rendering
import TidyScript.Rule.Repair
import TidyScript.Settings.Basic
import TidyScript.Settings.Text
import TidyScript.Text.Alphabetic
import TidyScript.Text.Blank
import TidyScript.Text.CharRange
import TidyScript.Text.Cut
import TidyScript.Text.Fault
import TidyScript.Text.Joining
import TidyScript.Text.Line
import TidyScript.Text.Numeric
import TidyScript.Text.Quoted
import TidyScript.Text.Reindent
import TidyScript.Text.Span
import TidyScript.Text.Units
import TidyScript.Text.Unprintable
import TidyScript.Token.Basic
import TidyScript.Token.Lexer
import TidyScript.Token.Numeral
import TidyScript.Token.Punctuator
import TidyScript.Token.Quoted
import TidyScript.Token.Regex
import TidyScript.Token.Scan
import TidyScript.Token.Search
import TidyScript.Token.Template
import TidyScript.Token.Trivia
import TidyScript.Token.Word
import TidyScript.Tree.Basic
import TidyScript.Tree.Judgement
import TidyScript.Tree.Mark
import TidyScript.Tree.Operator
import TidyScript.Value.Agreement
import TidyScript.Value.Basic
import TidyScript.Value.Evaluation
import TidyScript.Value.Operation
