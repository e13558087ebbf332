import Mips.Cpu.State
import Mips.Text.Numeral
/-!
# Register dump

The registers of a processor as a page of text.
-/

namespace Mips

open Numeral

namespace Cpu

def dumpedControl : List ControlReg :=
  [.status, .cause, .epc, .badVAddr, .prid]

def dump (c : Cpu) : String :=
  let pending := match c.pending with
    | some a => hex32 a
    | none => "-"
  let general (r : Reg) :=
    (if r.val % 2 = 0 ∧ r.val > 0 then "\n" else "") ++
      padLeft 2 r.name ++ ": " ++ hex64 (c.reg r) ++ "  "
  let control (r : ControlReg) :=
    padRight 8 (ControlReg.name r) ++ " " ++ hex32 (c.controlReg r) ++ "\n"
  "CPU Registers:\n" ++
    "PC: " ++ hex32 c.pc ++ "  Delay PC: " ++ pending ++ "\n" ++
    "HI: " ++ hex64 c.hi ++ "  LO: " ++ hex64 c.lo ++ "\n" ++
    "Ops executed: " ++ decimal c.retired.toNat ++ "\n\n" ++
    String.join (Reg.all.map general) ++ "\n\n" ++
    "COP0 Registers:\n" ++ String.join (dumpedControl.map control)

end Cpu

end Mips
