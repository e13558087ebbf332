import Mips.Board
/-!
# Systems

A board in use: it runs programs from image files, it can write a trace of them, and it refreshes a
display after each run.
-/

namespace Mips

open Numeral

/-- Displays that get to see the processor. -/
class DisplayRefresh (δ : Type) where
  refresh : δ → Cpu → δ

/-- A display that counts its refreshes and shows how the last of them found the processor. -/
structure Display where
  refreshes : Nat := 0
  pc : Word := 0
  halted : Bool := false
  deriving DecidableEq, Repr

instance : DisplayRefresh Display := ⟨fun d c => ⟨d.refreshes + 1, c.pc, c.halted⟩⟩

structure System (δ : Type := Display) where
  board : Board := {}
  display : Option δ := none

namespace System

variable {δ : Type}

def report (s : System δ) (source : LogSource) (level : Level) (message : Unit → String) :
    System δ :=
  { s with board.monitor := s.board.monitor.report source level message }

/-- Brings processor and memory to their state after power-on.  Tracing goes on. -/
def reset (s : System δ) : System δ :=
  { s with board := { s.board with cpu := .reset, ram := .blank } }.report .system .info fun _ =>
    "System reset"

/-- Runs up to `budget` instructions, writes out their trace and refreshes the display; answers
with the number of instructions that retired. -/
def run [DisplayRefresh δ] (s : System δ) (budget : Nat) : Nat × System δ :=
  let (retired, board) := s.board.run budget
  let monitor := board.monitor.flush.report .system .debug fun _ =>
    "Run finished: " ++ decimal retired ++ " retired, PC=" ++ hex32 board.cpu.pc ++
      ", refreshing display"
  (retired, ⟨{ board with monitor }, s.display.map (DisplayRefresh.refresh · board.cpu)⟩)

def step [DisplayRefresh δ] (s : System δ) : Nat × System δ := s.run 1

def loadFile (s : System δ) (name : String) (a : Word) : Except Failure Unit × System δ :=
  let s := s.report .system .info fun _ => "Loading image from: " ++ name
  let (result, board) := s.board.loadFile name a
  (result, { s with board })

/-- Starts a trace of at most `limit` lines.  A trace that is being written is ended, unless the
new one cannot be started. -/
def enableTracing (s : System δ) (name : String) (limit : Nat) :
    Except Fault Unit × System δ :=
  let s := s.report .system .info fun _ =>
    "CPU tracing enabled: " ++ name ++ " (limit " ++ decimal limit ++ ")"
  let monitor := s.board.monitor
  match Tracer.create monitor.files name with
  | .error f => (.error f, s)
  | .ok (tracer, files) =>
    let monitor := { monitor with files }.dropTracer
    let tracer := some (tracer.withLimit limit)
    (.ok (), { s with board.monitor := { monitor with tracer } })

def disableTracing (s : System δ) : System δ :=
  { s with board.monitor := { s.board.monitor.flush with tracer := none } }

def isTracing (s : System δ) : Bool := s.board.monitor.tracer.isSome

end System

end Mips
