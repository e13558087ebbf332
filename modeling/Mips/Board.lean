import Mips.Memory.Ram
import Mips.Trace.Monitor
/-!
# Boards

A processor with main memory, and the monitor that watches it.  The operations here are those of
somebody who sets up the board: reading and writing memory directly, loading images and programs.
An operation answers with its result and with the board after it.
-/

namespace Mips

open Numeral

structure Board where
  cpu : Cpu := {}
  ram : Ram := .blank
  monitor : Monitor := {}

namespace Board

def read8 (b : Board) (a : Word) : Except Fault Byte := b.ram.read8 a

def read32 (b : Board) (a : Word) : Except Fault Word := b.ram.read32 a

private def withRam {ε : Type} (b : Board) : Except ε Ram → Except ε Unit × Board
  | .ok ram => (.ok (), { b with ram })
  | .error e => (.error e, b)

def write8 (b : Board) (a : Word) (v : Byte) : Except Fault Unit × Board :=
  b.withRam (b.ram.write8 a v)

def write32 (b : Board) (a v : Word) : Except Fault Unit × Board :=
  b.withRam (b.ram.write32 a v)

def clearMemory (b : Board) : Board := { b with ram := .blank }

def load (b : Board) (a : Word) (image : ByteArray) : Except Failure Unit × Board :=
  match b.ram.load a image with
  | .error e => (.error e, b)
  | .ok ram =>
    let monitor := b.monitor.report .memory .debug fun _ =>
      "Loaded " ++ decimal image.size ++ " bytes at " ++ hex32 a ++
        " (physical 0x" ++ hex 8 (Ram.offset a) ++ ")"
    (.ok (), { b with ram, monitor })

/-- The image in a file.  Reading the device would never end; the answer that stands here for it,
that of a directory, is none that a host gives. -/
def imageFile (files : Files) (name : String) : Except Fault ByteArray :=
  match files.lookup name with
  | some (.file content _) => .ok content
  | some .directory | some .fullDevice => .error (.ofHost .isDirectory)
  | none => .error (.imageNotFound name)

def loadFile (b : Board) (name : String) (a : Word) : Except Failure Unit × Board :=
  match imageFile b.monitor.files name with
  | .error f => (.error (.fault f), b)
  | .ok image => b.load a image

def loadProgram (b : Board) (a : Word) (program : List Word) : Except Failure Unit × Board :=
  b.load a (Ram.image program)

/-- Loads a program and points the processor at it, also if the program does not fit. -/
def start (b : Board) (a : Word) (program : List Word) : Except Failure Unit × Board :=
  match b.loadProgram a program with
  | (.error .crash, b) => (.error .crash, b)
  | (result, b) => (result, { b with cpu := b.cpu.setPc a })

def scheduleBranch (b : Board) (target : Int) : Except Fault Unit × Board :=
  match b.cpu.scheduleBranch target with
  | some cpu => (.ok (), { b with cpu })
  | none => (.error (.invalidBranchTarget target), b)

/-- Runs up to `budget` instructions under the eyes of the monitor; answers with the number of
instructions that retired. -/
def run (b : Board) (budget : Nat) : Nat × Board :=
  let before : Machine Ram := ⟨b.cpu, b.ram⟩
  let (after, monitor) := before.runWith Monitor.observer budget b.monitor
  (before.retiredSince after, ⟨after.cpu, after.memory, monitor⟩)

end Board

end Mips
