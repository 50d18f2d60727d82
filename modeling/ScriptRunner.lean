import ScriptRunner.FileSystem.Disk
import ScriptRunner.Main
import ScriptRunner.ImportGraph.InPlace
import ScriptRunner.Proofs.ImportGraph.EvaluationOrder
import ScriptRunner.Proofs.ImportGraph.SameScripts
import ScriptRunner.Proofs.Resolution.Reachability
import ScriptRunner.Proofs.Interpreter.Tasks
import ScriptRunner.Proofs.Environment
import ScriptRunner.Proofs.Interpreter.Effects
import ScriptRunner.Proofs.Interpreter.Requests
import ScriptRunner.Proofs.Interpreter.ResultValue
import ScriptRunner.Proofs.Script.Names
import ScriptRunner.Proofs.Interpreter.Messages
import ScriptRunner.Proofs.Interpreter.Initialization
import ScriptRunner.Proofs.Interpreter.SharedNames
import ScriptRunner.Proofs.Interpreter.Moments
import ScriptRunner.Proofs.Interpreter.Scoping
import ScriptRunner.Proofs.Compilation
import ScriptRunner.Proofs.Resolution.Checks
import ScriptRunner.Proofs.Resolution.Failures
import ScriptRunner.Proofs.Resolution.Strictness
import ScriptRunner.Proofs.Resolution.MissingImports
import ScriptRunner.Proofs.FailedStages
import ScriptRunner.Proofs.Script.Grammar
import ScriptRunner.Proofs.Script.Drafts
import ScriptRunner.Proofs.Script.Derivations
import ScriptRunner.Proofs.Script.Spelling
import ScriptRunner.Proofs.Script.Lexemes
import ScriptRunner.Proofs.Script.Reading
import ScriptRunner.Proofs.Script.Parsing
import ScriptRunner.Proofs.Runs
import ScriptRunner.Proofs.SymbolName
import ScriptRunner.Proofs.Script.Members
import ScriptRunner.Proofs.Interpreter.Diagnostics
import ScriptRunner.Proofs.Locality
import ScriptRunner.Proofs.Script.Lines
import ScriptRunner.Proofs.Script.Relocation
import ScriptRunner.Proofs.Script.Concatenation
import ScriptRunner.Proofs.Directives
import ScriptRunner.Proofs.ImportGraph.NameIndex
import ScriptRunner.Proofs.Interpreter.Agreement
import ScriptRunner.Proofs.Interpreter.Reordering
import ScriptRunner.Proofs.Interpreter.BrokenRuns
import ScriptRunner.Proofs.Resolution.Termination
import ScriptRunner.Proofs.Script.Boundaries
import ScriptRunner.Proofs.Script.SyntaxErrors
import ScriptRunner.Proofs.Script.Places
import ScriptRunner.Proofs.Script.Excerpts
import ScriptRunner.Proofs.Script.ReadingBack
import ScriptRunner.Proofs.Script.Layout
import ScriptRunner.Environment.InPlace
import ScriptRunner.Proofs.Environment.History
import ScriptRunner.Proofs.Interpreter.Annotations
import ScriptRunner.Proofs.Interpreter.Influence
import ScriptRunner.Proofs.Path
import ScriptRunner.Proofs.SymbolName.OnePass
import ScriptRunner.Proofs.Interpreter.Rebinding
import ScriptRunner.Proofs.Script.Integers
import ScriptRunner.Proofs.Interpreter.IntegerText
import ScriptRunner.Proofs.Interpreter.MessageLines
import ScriptRunner.Proofs.Interpreter.ReportLines
import ScriptRunner.Proofs.Interpreter.Division
import ScriptRunner.Proofs.Path.Spelling
import ScriptRunner.Proofs.Resolution.Spelling
