import Mips.Host.Files
import Mips.Text.Numeral
import Mips.Text.Styled
/-!
# Workshop

What a job of the developer tool works with: the files, a build tool that may fail, and a terminal.
The build tool is given by the exit codes of its coming calls; a `Job` makes calls and writes text
until it ends or fails.
-/

namespace Mips.Tasks

open Numeral

inductive JobError where
  /-- The host refused an operation, such as starting the build tool. -/
  | refused (e : HostError)
  /-- The build tool ended with an exit code other than zero. -/
  | toolFailed (code : Nat)
  | imageNotFound
  /-- The program that the build tool ran ended with an exit code other than zero. -/
  | programFailed (code : Nat)
  | testsFailed
  deriving DecidableEq, Repr

def JobError.message : JobError → String
  | refused e => e.message
  | toolFailed code => "Command failed with exit code: exit status: " ++ decimal code
  | imageNotFound => "Program image not found"
  | programFailed code => "Program run failed with exit code: exit status: " ++ decimal code
  | testsFailed => "Some module tests failed"

structure Workshop where
  files : Files := {}
  /-- The exit codes of the coming calls of the build tool, which are zero from then on; none if
  there is no build tool. -/
  exits : Option (List Nat) := some []
  /-- The arguments of each call. -/
  calls : Array (List String) := #[]
  output : Array Piece := #[]

abbrev Job := ExceptT JobError (StateM Workshop)

namespace Job

def print (pieces : List Piece) : Job Unit :=
  modify fun w => { w with output := w.output ++ pieces }

def printLine (pieces : List Piece) : Job Unit := print (pieces ++ [.raw "\n"])

def call (args : List String) : Job Nat := do
  let w ← get
  match w.exits with
  | none => throw (.refused .notFound)
  | some exits =>
    set { w with exits := some exits.tail, calls := w.calls.push args }
    return exits.headD 0

def tool (args : List String) : Job Unit := do
  let code ← call args
  if code ≠ 0 then throw (.toolFailed code)

end Job

end Mips.Tasks
