import Earley.Instant.Reading
import Earley.Main
import Earley.Command.Report
import Earley.Proofs.Chart.Provenance
import Earley.Proofs.Chart.Worklist
import Earley.Proofs.Forest.Plain
import Earley.Proofs.Forest.Keys
import Earley.Proofs.Forest.Guarded
import Earley.Proofs.Parse.Soundness
import Earley.Proofs.Parse.Recognition
import Earley.Proofs.Parse.Precedence
import Earley.Proofs.Parse.Comparison
import Earley.Proofs.Parse.Warnings
import Earley.Proofs.Grammar.Text
import Earley.Proofs.Lexicon.Syntax
import Earley.Proofs.Text.Faults
import Earley.Proofs.Api.Unchanged
import Earley.Proofs.Api.Sources
import Earley.Proofs.Command.Arguments
import Earley.Proofs.Command.Remote
import Earley.Proofs.Decimal.Form
import Earley.Proofs.Grammar.Syntax
import Earley.Proofs.Token.Seam
import Earley.Proofs.Text.Compose
import Earley.Proofs.Lexicon.Values
import Earley.Proofs.Store.Latest
import Earley.Proofs.Chart.Arena
import Earley.Proofs.Groups.History
import Earley.Proofs.Parse.Buffalo
import Earley.Proofs.Store.Encoding
