import ProbTrace.Detached
import ProbTrace.Program.Draws
import ProbTrace.Proofs.Replay
import ProbTrace.Proofs.Upkeep
import ProbTrace.Proposal
import ProbTrace.Search
import ProbTrace.Trace.Text
import ProbTrace.Proofs.Mirror
import ProbTrace.Proofs.Agreement
import ProbTrace.Proofs.Scores
import ProbTrace.Proofs.Difference
import ProbTrace.Proofs.Aborting
import ProbTrace.Proofs.Reversal
import ProbTrace.Proofs.Recurring
import ProbTrace.Proofs.Rerunning
import ProbTrace.Proofs.Domains
import ProbTrace.Proofs.Worlds
import ProbTrace.Proofs.Turning
import ProbTrace.Proofs.Journal
import ProbTrace.Proofs.Enumerating
import ProbTrace.Proofs.Runs
import ProbTrace.Proofs.Winding
import ProbTrace.Proofs.Inheriting
import ProbTrace.Proofs.Courses
import ProbTrace.Proofs.Missing
import ProbTrace.Proofs.Resuming
import ProbTrace.Proofs.Tallying
import ProbTrace.Proofs.Refusing
import ProbTrace.Proofs.Restarting
import ProbTrace.Proofs.Detaching
import ProbTrace.Proofs.Counting
import ProbTrace.Proofs.Scheduling
import ProbTrace.Proofs.Budgets
import ProbTrace.Proofs.Enduring
import ProbTrace.Proofs.Containing
import ProbTrace.Proofs.Addressing
import ProbTrace.Proofs.Scoping
import ProbTrace.Proofs.Picking
import ProbTrace.Proofs.Overflowing
