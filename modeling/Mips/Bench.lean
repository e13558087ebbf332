import Mips.Board
import Mips.Memory.Probe
/-!
# Test benches

A board on a test bench: its processor and its tracer reach memory through a probe, which keeps a
list of the accesses and injects faults.  Whoever sets up the board does not go through the probe.
-/

namespace Mips

structure Bench where
  board : Board := {}
  accesses : Array Access := #[]
  faults : List (Word × Fault) := []

namespace Bench

private def machine (b : Bench) : Machine (Probe Ram) :=
  ⟨b.board.cpu, { memory := b.board.ram, accesses := b.accesses, faults := b.faults }⟩

private def update (b : Bench) (m : Machine (Probe Ram)) (monitor : Monitor) : Bench :=
  { b with
    board := { cpu := m.cpu, ram := m.memory.memory, monitor }
    accesses := m.memory.accesses }

def step (b : Bench) : Except Fault Unit × Bench :=
  let monitor := b.board.monitor
  match b.machine.step with
  | (none, m) =>
    let log := Monitor.logRetired b.board.cpu m.cpu monitor.log
    (.ok (), b.update m { monitor with log })
  | (some f, m) => (.error f, b.update m monitor)

/-- Runs with the tracer; answers with the number of instructions that retired. -/
def runTraced (b : Bench) (budget : Nat) : Nat × Bench :=
  let (m, monitor) := b.machine.runWith Monitor.observer budget b.board.monitor
  (b.machine.retiredSince m, b.update m monitor)

/-- Runs without the tracer, which stays as it is. -/
def run (b : Bench) (budget : Nat) : Nat × Bench :=
  let tracer := b.board.monitor.tracer
  let untraced := { b.board.monitor with tracer := none }
  let (m, monitor) := b.machine.runWith Monitor.observer budget untraced
  (b.machine.retiredSince m, b.update m { monitor with tracer })

def inject (b : Bench) (a : Word) (f : Fault) : Bench := { b with faults := (a, f) :: b.faults }

def clearFaults (b : Bench) : Bench := { b with faults := [] }

def clearAccesses (b : Bench) : Bench := { b with accesses := #[] }

/-- Drops the tracer and attaches a new one.  If that is not possible, none is left. -/
def attachTracer (b : Bench) (name : String) (limit : Option Nat) (watched : Option (List Nat)) :
    Except Fault Unit × Bench :=
  let monitor := b.board.monitor.dropTracer
  match Tracer.create monitor.files name with
  | .error f => (.error f, { b with board.monitor := monitor })
  | .ok (tracer, files) =>
    let tracer := match limit with
      | some limit => tracer.withLimit limit
      | none => tracer
    let tracer := match watched with
      | some numbers => tracer.withWatched numbers
      | none => tracer
    (.ok (), { b with board.monitor := { monitor with tracer := some tracer, files } })

def trace (b : Bench) : Except Fault Unit × Bench :=
  let m := b.machine
  let monitor := b.board.monitor
  match monitor.tracer with
  | none => (.ok (), b)
  | some tracer =>
    let (result, memory, tracer, files) := tracer.trace monitor.files m.cpu m.memory
    (result, b.update ⟨m.cpu, memory⟩ { monitor with tracer := some tracer, files })

def flushTrace (b : Bench) : Except Fault Unit × Bench :=
  let monitor := b.board.monitor
  match monitor.tracer with
  | none => (.ok (), b)
  | some tracer =>
    let (result, tracer, files) := tracer.flush monitor.files
    (result, { b with board.monitor := { monitor with tracer := some tracer, files } })

end Bench

end Mips
