import Mips.Bench
import Mips.Main
import Mips.Memory.Trie.Lemmas
import Mips.Proofs.Cpu.Lifetime
import Mips.Proofs.Json.RoundTrip
import Mips.Proofs.Machine.Budget
import Mips.Proofs.Machine.Disassembly
import Mips.Proofs.Machine.Footprint
import Mips.Proofs.Machine.Mirror
import Mips.Proofs.Machine.Refusal
import Mips.Proofs.Machine.Sequencing
import Mips.Proofs.Machine.Snapshot
import Mips.Proofs.Machine.Traffic
import Mips.Proofs.Machine32.HighWords
import Mips.Proofs.Machine32.Simulation
import Mips.Proofs.Memory.Flat
import Mips.Proofs.Snapshot.RoundTrip
import Mips.Proofs.System.Tracing
import Mips.Proofs.Trace.Completeness
import Mips.Tasks.Perform
import Mips.Proofs.Machine.Calculation
import Mips.Proofs.Machine.Product
import Mips.Proofs.Machine.Stores
import Mips.Proofs.System.Start
import Mips.Proofs.Launch.Outcome
import Mips.Proofs.System.Outcome
import Mips.Proofs.System.Reset
import Mips.Proofs.Text.Address
import Mips.Proofs.Config.Document
import Mips.Proofs.Machine.Alignment
import Mips.Proofs.Machine.Ascent
import Mips.Proofs.Machine.Countdown
import Mips.Proofs.System.Program
