import Mips.Host.Error
import Mips.Instruction.Assembly
/-!
# Faults

The ways in which an access, an instruction or the loading of a program can go wrong, with the
text that reports each of them.
-/

namespace Mips

open Numeral

inductive Fault where
  /-- The word at `address` is no instruction of this machine. -/
  | unimplemented (address word : Word) (assembly : String)
  /-- A branch was scheduled to something that is not an address. -/
  | invalidBranchTarget (target : Int)
  /-- The access reaches beyond the end of memory. -/
  | invalidAccess (address : Word)
  /-- The address is not a multiple of the size of the access. -/
  | unaligned (address : Word) (size : Nat)
  | imageNotFound (path : String)
  | imageTooLarge (size capacity : Nat)
  /-- The host refused a file operation. -/
  | host (reason : String)
  deriving DecidableEq, Repr

namespace Fault

def ofHost (e : HostError) : Fault := .host e.message

def message : Fault → String
  | unimplemented address word assembly =>
    "Unimplemented op " ++ hex32 word ++ " at " ++ hex32 address ++ ": " ++ assembly
  | invalidBranchTarget target => "Invalid branch target: " ++ signed target
  | invalidAccess address => "Invalid memory access at " ++ hex32 address
  | unaligned address size =>
    "Unaligned memory access: " ++ decimal size ++ "-byte access at " ++ hex32 address
  | imageNotFound path => "Program image not found: " ++ path
  | imageTooLarge size capacity =>
    "Program image too large: " ++ decimal size ++ " bytes (capacity " ++ decimal capacity ++ ")"
  | host reason => "I/O error: " ++ reason

/-- Whether an executing program can cause the fault by itself. -/
def isInstructionFault : Fault → Bool
  | unimplemented .. | invalidBranchTarget .. | invalidAccess .. | unaligned .. => true
  | _ => false

end Fault

/-- How a request to the machine fails: with a fault that is reported, or by bringing the whole
program down. -/
inductive Failure where
  | fault (f : Fault)
  | crash
  deriving DecidableEq, Repr

end Mips
