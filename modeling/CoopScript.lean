import CoopScript.Budget
import CoopScript.Callable
import CoopScript.Config
import CoopScript.Cost
import CoopScript.DirectCall
import CoopScript.Environment
import CoopScript.Error
import CoopScript.Evaluation.Functions
import CoopScript.Evaluation.Signal
import CoopScript.Executor
import CoopScript.Host
import CoopScript.Library.Arguments
import CoopScript.Library.Builtins
import CoopScript.Library.Files
import CoopScript.Library.Formatting
import CoopScript.Library.Io
import CoopScript.Library.Matching
import CoopScript.Library.Strings
import CoopScript.Library.Substitution
import CoopScript.Machine.Basic
import CoopScript.Machine.Core
import CoopScript.Machine.Dispatch
import CoopScript.Machine.Routine
import CoopScript.Machine.Script
import CoopScript.Number.Binary64
import CoopScript.Number.Decimal
import CoopScript.Number.Numeral
import CoopScript.Number.Power
import CoopScript.Pattern.Basic
import CoopScript.Pattern.CharClass
import CoopScript.Pattern.Program
import CoopScript.Pattern.Reader
import CoopScript.Pattern.Search
import CoopScript.RegisterStack
import CoopScript.Scheduler
import CoopScript.Script.Accounting
import CoopScript.Script.Instr
import CoopScript.Script.Operator
import CoopScript.Script.Proto
import CoopScript.Session
import CoopScript.Stream.Device
import CoopScript.Stream.Handle
import CoopScript.Stream.Reading
import CoopScript.Suspension
import CoopScript.Table
import CoopScript.Text.Blank
import CoopScript.Text.Case
import CoopScript.Text.CaseRun
import CoopScript.Text.CharSet
import CoopScript.Text.Digit
import CoopScript.Text.Fold
import CoopScript.Text.Utf8
import CoopScript.Text.Word
import CoopScript.Toml.Basic
import CoopScript.Toml.Reader
import CoopScript.Toml.Settings
import CoopScript.Value
import CoopScript.Window
import CoopScript.World
import CoopScript.Proofs.FixedParts
import CoopScript.Proofs.MachineRuns
import CoopScript.Proofs.NativeCalls
import CoopScript.Proofs.FrameRegisters
import CoopScript.Proofs.HandleReads
import CoopScript.Proofs.FileCalls
import CoopScript.Proofs.HandleWrites
import CoopScript.Proofs.BlockedWrites
import CoopScript.Proofs.SuspensionTransparency
import CoopScript.Proofs.AccountingLayout
import CoopScript.Proofs.AccountingMeaning
import CoopScript.Proofs.BlockCredit
import CoopScript.Proofs.DrainBound
import CoopScript.Proofs.PendingCalls
import CoopScript.Proofs.LibraryStates
import CoopScript.Proofs.StackDiscipline
import CoopScript.Proofs.ScriptDiscipline
import CoopScript.Proofs.CallExtent
import CoopScript.Proofs.WindowIsolation
import CoopScript.Proofs.SoundFrames
import CoopScript.Proofs.BoundsSafety
import CoopScript.Proofs.ClearRegisters
import CoopScript.Proofs.ProtocolSafety
import CoopScript.Proofs.ReadArrival
import CoopScript.Proofs.StreamSteps
import CoopScript.Proofs.WriteInterleaving
import CoopScript.Proofs.PlainFiles
import CoopScript.Proofs.DiskHandles
import CoopScript.Proofs.ExecutorStates
import CoopScript.Proofs.LibraryQuestions
import CoopScript.Proofs.LibraryCallbacks
import CoopScript.Proofs.PreemptionCount
import CoopScript.Proofs.Counterparts
import CoopScript.Proofs.CounterpartAnswers
import CoopScript.Proofs.CounterpartWorlds
import CoopScript.Proofs.CounterpartSteps
import CoopScript.Proofs.CounterpartRuns
import CoopScript.Proofs.WorldChanges
import CoopScript.Proofs.ExecutorReuse
import CoopScript.Proofs.SchedulerHistory
import CoopScript.Proofs.PauseCount
import CoopScript.Proofs.WindowCalls
import CoopScript.Proofs.NestedCalls
import CoopScript.Proofs.SharedWorlds
import CoopScript.Proofs.TaskIsolation
import CoopScript.Proofs.CallConvention
import CoopScript.Proofs.ExactAccounting
import CoopScript.Proofs.MatchReplacement
import CoopScript.Proofs.FlooredRemainder
import CoopScript.Proofs.AtomicPushes
import CoopScript.Proofs.PauseLimits
import CoopScript.Proofs.DirectiveSpelling
import CoopScript.Proofs.FormatRounds
import CoopScript.Proofs.QuotedLiterals
import CoopScript.Proofs.FormattedIntegers
import CoopScript.Proofs.FormatTexts
import CoopScript.Proofs.FormatComposition
import CoopScript.Proofs.ExactValues
import CoopScript.Proofs.TableKeys
import CoopScript.Proofs.MovedResults
import CoopScript.Proofs.DecodedText
import CoopScript.Proofs.StringPositions
import CoopScript.Proofs.RoundedIntegers
import CoopScript.Proofs.NumberOrder
import CoopScript.Proofs.EvaluationRules
import CoopScript.Proofs.EvaluatedCalls
import CoopScript.Proofs.EvaluatedDrains
