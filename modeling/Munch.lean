import Munch.Cli.Run
import Munch.Identity
import Munch.Journal
import Munch.Main
import Munch.Proofs.Channel
import Munch.Proofs.Grammar
import Munch.Script
import Munch.Proofs.Lexing
import Munch.Proofs.Search
import Munch.Proofs.Step
import Munch.Proofs.MaximalMunch
import Munch.Proofs.Failure
import Munch.Proofs.Trial
import Munch.Proofs.Parsing
import Munch.Proofs.Accounting
import Munch.Proofs.Protocol
import Munch.Proofs.Lifecycle
import Munch.Proofs.Indexed
import Munch.Proofs.Bounds
import Munch.Proofs.Duplicates
import Munch.Proofs.Output
import Munch.Proofs.Peak
import Munch.Proofs.Reread
import Munch.Proofs.Agreement
import Munch.Proofs.Truncation
import Munch.Proofs.Building
import Munch.Proofs.Termination
import Munch.Proofs.Walks
import Munch.Proofs.BoundedList
import Munch.Proofs.Blocks
import Munch.Proofs.Names
import Munch.Proofs.Lines
import Munch.Proofs.Tracking
