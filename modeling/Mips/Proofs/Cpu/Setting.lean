import Mips.Cpu.State
import Mips.Fault
/-!
# Settings

What a host may do to a processor between two instructions.
-/

namespace Mips.Cpu

inductive Setting where
  | setReg (r : Reg) (d : DWord)
  | setSigned (r : Reg) (w : Word)
  | setUnsigned (r : Reg) (w : Word)
  | setPc (a : Word)
  | scheduleBranch (target : Int)
  | requestHalt
  | reset

def set (c : Cpu) : Setting → Option Fault × Cpu
  | .setReg r d => (none, c.setReg r d)
  | .setSigned r w => (none, c.setReg r w.sext)
  | .setUnsigned r w => (none, c.setReg r w.zext)
  | .setPc a => (none, c.setPc a)
  | .scheduleBranch target =>
    match c.scheduleBranch target with
    | some c' => (none, c')
    | none => (some (.invalidBranchTarget target), c)
  | .requestHalt => (none, c.requestHalt)
  | .reset => (none, .reset)

theorem set_scheduleBranch (c : Cpu) (target : Int) :
    c.set (.scheduleBranch target) =
      if 0 ≤ target ∧ target ≤ 0xFFFFFFFF then
        (none, { c with pending := some (.ofInt 32 target) })
      else (some (.invalidBranchTarget target), c) := by
  by_cases htarget : 0 ≤ target ∧ target ≤ 0xFFFFFFFF
  · simp only [set, scheduleBranch, if_pos htarget]
  · simp only [set, scheduleBranch, if_neg htarget]

end Mips.Cpu
