import BoolQuery.Command.Folder
import BoolQuery.Command.Input
import BoolQuery.Command.Options
import BoolQuery.Command.Run
import BoolQuery.Grammar
import BoolQuery.Grammar.Derivation
import BoolQuery.Kind
import BoolQuery.Lexicon
import BoolQuery.Main
import BoolQuery.Proofs.Acceptance
import BoolQuery.Proofs.ByPlace.Agreement
import BoolQuery.Proofs.ByPlace.Basic
import BoolQuery.Proofs.ByPlace.Calls
import BoolQuery.Proofs.ByPlace.Course
import BoolQuery.Proofs.ByPlace.CourseOfRun
import BoolQuery.Proofs.ByPlace.CourseParts
import BoolQuery.Proofs.ByPlace.Endings
import BoolQuery.Proofs.ByPlace.Mismatches
import BoolQuery.Proofs.Calls
import BoolQuery.Proofs.Checked.Listing
import BoolQuery.Proofs.Checked.Reading
import BoolQuery.Proofs.Checked.Running
import BoolQuery.Proofs.Checked.Unbroken
import BoolQuery.Proofs.Effort.Payment
import BoolQuery.Proofs.Effort.Price
import BoolQuery.Proofs.Fragments.Concatenation
import BoolQuery.Proofs.Fragments.Grouping
import BoolQuery.Proofs.Fragments.Operands
import BoolQuery.Proofs.Fragments.Parts
import BoolQuery.Proofs.Fragments.Standing
import BoolQuery.Proofs.Grammar.Completeness
import BoolQuery.Proofs.Grammar.Settled
import BoolQuery.Proofs.Grammar.Soundness
import BoolQuery.Proofs.Grammar.Squeeze
import BoolQuery.Proofs.Grammar.Trees
import BoolQuery.Proofs.Kinds.Abreast
import BoolQuery.Proofs.Kinds.Likeness
import BoolQuery.Proofs.Kinds.SameKinds
import BoolQuery.Proofs.Lexing.Cut
import BoolQuery.Proofs.Lexing.Neighbours
import BoolQuery.Proofs.Lexing.Order
import BoolQuery.Proofs.Lexing.Places
import BoolQuery.Proofs.Lexing.Seams
import BoolQuery.Proofs.Lexing.Spacing
import BoolQuery.Proofs.Lexing.Stacked
import BoolQuery.Proofs.Listings.Decoding
import BoolQuery.Proofs.Listings.ReadBack
import BoolQuery.Proofs.Listings.Rows
import BoolQuery.Proofs.Listings.Tokens
import BoolQuery.Proofs.Lossless
import BoolQuery.Proofs.Nesting.Brackets
import BoolQuery.Proofs.Nesting.Crest
import BoolQuery.Proofs.Nesting.Events
import BoolQuery.Proofs.Nesting.Height
import BoolQuery.Proofs.Nesting.Limit
import BoolQuery.Proofs.Nesting.Lockstep
import BoolQuery.Proofs.Nesting.Traced
import BoolQuery.Proofs.Nesting.Within
import BoolQuery.Proofs.Outcome
import BoolQuery.Proofs.Pointing
import BoolQuery.Proofs.Prefixes.LongestQuery
import BoolQuery.Proofs.Prefixes.Reach
import BoolQuery.Proofs.Prefixes.Viable
import BoolQuery.Proofs.Recursion.Solution
import BoolQuery.Proofs.Recursion.Subgoals
import BoolQuery.Proofs.Ways
import BoolQuery.Reader
import BoolQuery.Reader.Ahead
import BoolQuery.Recognizer.Conservation
import BoolQuery.Recognizer.Matching
import BoolQuery.Recognizer.Rule
import BoolQuery.Recognizer.Run
import BoolQuery.Recognizer.Runs
import BoolQuery.Recognizer.State
import BoolQuery.Recognizer.Totality
import BoolQuery.Rejection
import BoolQuery.Report.Explanation
import BoolQuery.Report.Palette
import BoolQuery.Report.Snippet
import BoolQuery.Report.TokenListing
import BoolQuery.Report.Trace
import BoolQuery.Report.TreeListing
import BoolQuery.Text.Bytes
import BoolQuery.Text.Json
import BoolQuery.Text.Lines
import BoolQuery.Text.Quoted
import BoolQuery.Token
import BoolQuery.Tree
import BoolQuery.Unicode.Alphabetic
import BoolQuery.Unicode.CharSet
import BoolQuery.Unicode.Columns
import BoolQuery.Unicode.DecimalDigit
import BoolQuery.Unicode.Extending
import BoolQuery.Unicode.Ignorable
import BoolQuery.Unicode.Unprintable
import BoolQuery.Unicode.Wide
import BoolQuery.Proofs.Command.Lines
import BoolQuery.Proofs.Listings.Decoration
import BoolQuery.Proofs.Command.Verdicts
