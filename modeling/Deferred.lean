import Deferred.Ambiguous.Basic
import Deferred.Arithmetic.Expr
import Deferred.Arithmetic.Grammars
import Deferred.FallbackMonad
import Deferred.Future.Basic
import Deferred.Future.NoWinner
import Deferred.Future.Parallel
import Deferred.Future.Sequential
import Deferred.Future.Tuple
import Deferred.Future.WaitFor
import Deferred.Future.Watched
import Deferred.FutureList.Basic
import Deferred.Loop.Basic
import Deferred.Loop.Config
import Deferred.Loop.Event
import Deferred.Loop.Group
import Deferred.Loop.Queue
import Deferred.Loop.Run
import Deferred.Loop.Script
import Deferred.Loop.Storable
import Deferred.Number.Double
import Deferred.Parsing.Characters
import Deferred.Parsing.Combinators
import Deferred.Parsing.Error
import Deferred.Parsing.Grammar
import Deferred.Parsing.Joinable
import Deferred.Parsing.Leaves
import Deferred.Parsing.Number
import Deferred.Parsing.Parse
import Deferred.Parsing.Token
import Deferred.Proofs.Ambiguous.Derives
import Deferred.Proofs.Ambiguous.Deterministic
import Deferred.Proofs.Ambiguous.Longest
import Deferred.Proofs.Ambiguous.Readings
import Deferred.Proofs.Arithmetic.Agreement
import Deferred.Proofs.Arithmetic.Completeness
import Deferred.Proofs.Arithmetic.Derives
import Deferred.Proofs.Arithmetic.Numerals
import Deferred.Proofs.Arithmetic.Soundness
import Deferred.Proofs.Arithmetic.Tokens
import Deferred.Proofs.Debt.Arrival
import Deferred.Proofs.Debt.Attendance
import Deferred.Proofs.Debt.Basic
import Deferred.Proofs.Debt.Confined
import Deferred.Proofs.Debt.Delivers
import Deferred.Proofs.Debt.Drive
import Deferred.Proofs.Debt.Future
import Deferred.Proofs.Debt.Joint
import Deferred.Proofs.Debt.Ledger
import Deferred.Proofs.Debt.Noted
import Deferred.Proofs.Debt.Race
import Deferred.Proofs.Debt.Run
import Deferred.Proofs.Debt.Slots
import Deferred.Proofs.Debt.Start
import Deferred.Proofs.Debt.Wait
import Deferred.Proofs.Debt.Zip
import Deferred.Proofs.Future.Adequacy
import Deferred.Proofs.Future.AnyOrder
import Deferred.Proofs.Future.Built
import Deferred.Proofs.Future.Decided
import Deferred.Proofs.Future.Dual
import Deferred.Proofs.Future.Entrance
import Deferred.Proofs.Future.Forced
import Deferred.Proofs.Future.Groups
import Deferred.Proofs.Future.InTurn
import Deferred.Proofs.Future.Laws
import Deferred.Proofs.Future.Once
import Deferred.Proofs.Future.OneAtATime
import Deferred.Proofs.Future.Pair
import Deferred.Proofs.Future.Rivals
import Deferred.Proofs.Future.Settles
import Deferred.Proofs.Future.Started
import Deferred.Proofs.Future.Tied
import Deferred.Proofs.Future.Verdict
import Deferred.Proofs.FutureList.Denotes
import Deferred.Proofs.FutureList.Flattened
import Deferred.Proofs.FutureList.Meaning
import Deferred.Proofs.FutureList.Operations
import Deferred.Proofs.Loop.Confined
import Deferred.Proofs.Loop.Conservation
import Deferred.Proofs.Loop.Duties
import Deferred.Proofs.Loop.Moments
import Deferred.Proofs.Loop.Outward
import Deferred.Proofs.Loop.Pool
import Deferred.Proofs.Loop.Punctuality
import Deferred.Proofs.Loop.Starvation
import Deferred.Proofs.Loop.Yields
import Deferred.Proofs.Parsing.Alternatives
import Deferred.Proofs.Parsing.Ends
import Deferred.Proofs.Parsing.Environment
import Deferred.Proofs.Parsing.Folds
import Deferred.Proofs.Parsing.Grouping
import Deferred.Proofs.Parsing.Literals
import Deferred.Proofs.Parsing.MostLikely
import Deferred.Proofs.Parsing.Outcomes
import Deferred.Proofs.Parsing.Read
import Deferred.Proofs.Parsing.Reads
import Deferred.Proofs.Parsing.Refinement
import Deferred.Proofs.Parsing.Repetition
import Deferred.Proofs.Parsing.Separated
import Deferred.Proofs.Parsing.Shifts
import Deferred.Proofs.Parsing.Spans
import Deferred.Proofs.Parsing.Takes
import Deferred.Proofs.Parsing.Verbatim
import Deferred.Proofs.Parsing.Words
import Deferred.Proofs.Source.Excerpt
import Deferred.Proofs.Source.Nodes
import Deferred.Proofs.Source.Places
import Deferred.Proofs.Text.Classes
import Deferred.Proofs.Twin.Alike
import Deferred.Proofs.Twin.Basic
import Deferred.Proofs.Twin.Diary
import Deferred.Proofs.Twin.Discreet
import Deferred.Proofs.Twin.Gate
import Deferred.Proofs.Twin.Lockstep
import Deferred.Proofs.Twin.Mirror
import Deferred.Proofs.Twin.Pair
import Deferred.Proofs.Twin.Run
import Deferred.Proofs.Twin.Uniform
import Deferred.Source.Input
import Deferred.Source.Location
import Deferred.Source.Node
import Deferred.Text.Classes
import Deferred.Text.Digit
import Deferred.Text.Json
import Deferred.Text.Letter
import Deferred.Text.Number
import Deferred.Text.Printable
import Deferred.Text.Quoted
import Deferred.Text.Ranges
import Deferred.Text.Shown
import Deferred.Text.White
