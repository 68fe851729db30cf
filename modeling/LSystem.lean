import LSystem.Text.Words
import LSystem.Text.Decimal
import LSystem.Text.Printable
import LSystem.Text.Quoted
import LSystem.Table
import LSystem.Grammar
import LSystem.Grammar.Draft
import LSystem.ContextIndex
import LSystem.Pass
import LSystem.Random.Source
import LSystem.Random.Scripted
import LSystem.Random.Twister
import LSystem.Binary64
import LSystem.Binary64.Shortest
import LSystem.Json
import LSystem.Json.Shown
import LSystem.Expander
import LSystem.Session
import LSystem.Text.Utf8
import LSystem.Text.Lines
import LSystem.Json.Lexeme
import LSystem.Json.Reader
import LSystem.Config
import LSystem.Config.Reader
import LSystem.Files
import LSystem.Log
import LSystem.Config.File
import LSystem.CommandLine.Argument
import LSystem.CommandLine.Usage
import LSystem.CommandLine.Invocation
import LSystem.CommandLine.Help
import LSystem.CommandLine.Report
import LSystem.CommandLine.Outcome
import LSystem.Main
import LSystem.Config.Writer
import LSystem.Derivation
import LSystem.Pass.Scan
import LSystem.Proofs.Levels.Growth
import LSystem.Proofs.Levels.QueryOrder
import LSystem.Proofs.Text.Words
import LSystem.Proofs.ContextIndex.Keys
import LSystem.Proofs.Pass.Sites
import LSystem.Proofs.Pass.FastPath
import LSystem.Proofs.Levels.Draws
import LSystem.Proofs.Concurrency.Semantics
import LSystem.Proofs.Concurrency.Invariant
import LSystem.Proofs.Concurrency.Progress
import LSystem.Proofs.Concurrency.Correctness
import LSystem.Proofs.Text.Decimal
import LSystem.Proofs.Pass.Offers
import LSystem.Proofs.Pass.Choices
import LSystem.Proofs.Pass.Places
import LSystem.Proofs.Pass.Simultaneous
import LSystem.Proofs.Levels.Derivations
import LSystem.Proofs.Levels.Lockstep
import LSystem.Proofs.Levels.SameSites
import LSystem.Proofs.ContextIndex.KeyNotation
import LSystem.Proofs.Config.Shape
import LSystem.Proofs.Config.Faults
import LSystem.Proofs.Config.Located
import LSystem.Proofs.Config.Acceptance
import LSystem.Proofs.Grammar.Alike
import LSystem.Proofs.Text.Offsets
import LSystem.Proofs.ContextIndex.Offsets
import LSystem.Proofs.Text.Spacing
import LSystem.Proofs.Config.Fields
import LSystem.Proofs.Config.Writings
import LSystem.Proofs.CommandLine.Classification
import LSystem.Proofs.CommandLine.Arguments
import LSystem.Proofs.CommandLine.Reports
import LSystem.Proofs.CommandLine.Agreement
import LSystem.Proofs.Session.Separation
import LSystem.Proofs.Levels.Reordering
import LSystem.Proofs.Levels.Alphabet
import LSystem.Proofs.Levels.DeadRules
import LSystem.Proofs.Pass.Locality
import LSystem.Proofs.Text.Utf8
import LSystem.Proofs.Json.Numbers
import LSystem.Proofs.Json.Lexemes
import LSystem.Proofs.Json.LongIntegers
import LSystem.Proofs.Config.Loading
import LSystem.Proofs.CommandLine.Loading
import LSystem.Proofs.ContextIndex.KeyForms
import LSystem.Proofs.CommandLine.Rereading
import LSystem.CommandLine.Course
import LSystem.Proofs.Json.ReadableIntegers
import LSystem.Proofs.CommandLine.Readability
import LSystem.Proofs.CommandLine.Courses
import LSystem.Proofs.CommandLine.Executions
import LSystem.Proofs.CommandLine.Validation
import LSystem.Proofs.Levels.LightCone
import LSystem.Proofs.Grammar.Renaming
import LSystem.Proofs.Levels.Renaming
import LSystem.Proofs.Levels.Periods
import LSystem.Proofs.Levels.Homomorphism
import LSystem.Proofs.Config.Drafts
import LSystem.Proofs.Text.Visible
import LSystem.Proofs.ContextIndex.Dropped
import LSystem.Proofs.CommandLine.Logging
import LSystem.Proofs.Text.Layouts
import LSystem.Proofs.Pass.Firings
import LSystem.Proofs.Config.Messages
import LSystem.Proofs.CommandLine.ErrorLines
