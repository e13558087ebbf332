import Mips.Config
import Mips.System
/-!
# Starting systems

A system is set up for a run by loading an image, pointing the processor at the first instruction
and starting a trace, all as a configuration says.
-/

namespace Mips.System

variable {δ : Type}

/-- A system after power-on, on the same host as `s`. -/
def fresh (s : System δ) : System δ :=
  { board.monitor := { files := s.board.monitor.files, log := s.board.monitor.log } }

def prepare (s : System δ) (c : RunConfig) (image : String) : Except Failure Unit × System δ :=
  match s.loadFile image c.loadAddress with
  | (.error e, s) => (.error e, s)
  | (.ok _, s) =>
    let s := { s with board.cpu := s.board.cpu.setPc c.entry }
    match c.tracePath with
    | none => (.ok (), s)
    | some path =>
      match s.enableTracing path c.traceLimit with
      | (.ok _, s) => (.ok (), s)
      | (.error f, s) => (.error (.fault f), s)

/-- Replaces a system by a fresh one that is set up for a run.  If that fails, the old system
stays. -/
def restart (s : System δ) (c : RunConfig) (image : String) : Except Failure Unit × System δ :=
  match s.fresh.prepare c image with
  | (.ok _, new) =>
    let files := match s.board.monitor.tracer with
      | some tracer => tracer.drop new.board.monitor.files
      | none => new.board.monitor.files
    (.ok (), { new with board.monitor.files := files })
  | (.error e, new) =>
    let monitor := { s.board.monitor with
      files := new.board.monitor.files
      log := new.board.monitor.log }
    (.error e, { s with board.monitor := monitor })

end Mips.System
