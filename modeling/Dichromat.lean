import Dichromat.Batch
import Dichromat.Color.Shown
import Dichromat.Main
import Dichromat.Theme.Write
import Dichromat.Proofs.Search.Incremental
import Dichromat.Proofs.Search.Descent
import Dichromat.Proofs.Run.Alternation
import Dichromat.Proofs.Run.Checked
import Dichromat.Proofs.Run.Intact
import Dichromat.Proofs.Batch.Pool
import Dichromat.Proofs.Batch.Scheduling
import Dichromat.Proofs.Batch.Malformed
import Dichromat.Proofs.Search.Calls
import Dichromat.Proofs.Search.Moves
import Dichromat.Proofs.Search.Tracking
import Dichromat.Proofs.Search.Cycles
import Dichromat.Proofs.Search.Selection
import Dichromat.Proofs.Search.Standstill
import Dichromat.Proofs.Search.Ending
import Dichromat.Proofs.Search.Duration
import Dichromat.Proofs.Search.Farther
import Dichromat.Proofs.Exact.Vanishing
import Dichromat.Proofs.Exact.Reordered
import Dichromat.Proofs.Color.Distance
import Dichromat.Proofs.Color.Dichromacy
import Dichromat.Proofs.Color.Memory
import Dichromat.Proofs.Search.Shaking
import Dichromat.Proofs.Color.Simulation
import Dichromat.Proofs.Color.Wheel
import Dichromat.Proofs.CommandLine.Words
import Dichromat.Proofs.Theme.Codec
import Dichromat.Proofs.Settings.Load
import Dichromat.Proofs.Theme.Write
import Dichromat.Proofs.CommandLine.Output
import Dichromat.Proofs.Color.Ranking
import Dichromat.Proofs.Preview.Render
