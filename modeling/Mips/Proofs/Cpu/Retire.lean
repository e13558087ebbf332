import Mips.Cpu.Action
/-!
# Retiring an instruction

`Cpu.retire` is the state after an instruction whose effect is known: the effect is committed and
control moves on.  `Cpu.retire_eq` says what becomes of each part of the state, so that later
proofs never open `Cpu.commit` and `Cpu.advance`.
-/

namespace Mips

namespace Transfer

/-- Where the word after one at `pc` is fetched.  A branch that was scheduled before goes first. -/
def pcAfter (t : Transfer) (pc : Word) (scheduled : Option Word) : Word :=
  match scheduled, t with
  | some target, _ => target
  | none, .skip => pc + 8
  | none, _ => pc + 4

def pendingAfter (t : Transfer) (scheduled : Option Word) : Option Word :=
  match scheduled, t with
  | none, .branch target => some target
  | _, _ => none

end Transfer

namespace Cpu

/-- The processor that has fetched `w` and is about to execute it. -/
def fetched (c : Cpu) (w : Word) : Cpu := { c with annul := false, current := w }

def retire (c : Cpu) (w : Word) (e : Effect) : Cpu := ((c.fetched w).commit e).advance c.pending

def written (c : Cpu) : Option (Reg × DWord) → Cpu
  | some (r, d) => c.setReg r d
  | none => c

/-! ## Register writes -/

theorem reg_setReg (c : Cpu) (r s : Reg) (d : DWord) :
    (c.setReg r d).reg s = if r = s ∧ r ≠ 0 then d else c.reg s := by
  unfold setReg reg
  by_cases hr : r = 0
  · simp [hr]
  · have hval : r.val ≠ 0 := fun h => hr (Fin.ext h)
    rw [if_neg hval]
    change (c.gpr.set r.val d r.isLt)[s.val] = _
    rw [Vector.getElem_set]
    simp [hr, Fin.ext_iff, Vector.get]

theorem reg_written (c : Cpu) (write : Option (Reg × DWord)) (s : Reg) :
    (c.written write).reg s =
      match write with
      | some (r, d) => if r = s ∧ r ≠ 0 then d else c.reg s
      | none => c.reg s := by
  cases write with
  | none => rfl
  | some rd => exact reg_setReg c rd.1 s rd.2

theorem setReg_eq (c : Cpu) (r : Reg) (d : DWord) :
    c.setReg r d = { c with gpr := if r.val = 0 then c.gpr else c.gpr.set r d r.isLt } := by
  unfold setReg
  split <;> rfl

theorem written_eq (c : Cpu) (write : Option (Reg × DWord)) :
    c.written write = { c with gpr := (c.written write).gpr } := by
  cases write with
  | none => rfl
  | some rd => rw [written, setReg_eq]

theorem gpr_written_fetched (c : Cpu) (w : Word) (write : Option (Reg × DWord)) :
    ((c.fetched w).written write).gpr = (c.written write).gpr := by
  cases write with
  | none => rfl
  | some rd => simp only [written, setReg_eq]; rfl

/-! ## Effects -/

/-- Committing an effect: every part of the state is determined by one part of the effect. -/
theorem commit_eq (c : Cpu) (e : Effect) :
    c.commit e =
      { c with
        gpr := (c.written e.write).gpr
        hi := (e.product.map Prod.fst).getD c.hi
        lo := (e.product.map Prod.snd).getD c.lo
        control := match e.control with
          | some (r, v) => c.control.set r v r.isLt
          | none => c.control
        pending := match e.transfer with
          | .branch target => some target
          | _ => c.pending
        annul := match e.transfer with
          | .skip => true
          | _ => c.annul } := by
  obtain ⟨write, product, control, transfer⟩ := e
  cases write with
  | none => cases product <;> cases control <;> cases transfer <;> rfl
  | some rd =>
    simp only [commit, written]
    rw [setReg_eq]
    cases product <;> cases control <;> cases transfer <;> rfl

theorem retire_eq (c : Cpu) (w : Word) (e : Effect) :
    c.retire w e =
      { gpr := (c.written e.write).gpr
        hi := (e.product.map Prod.fst).getD c.hi
        lo := (e.product.map Prod.snd).getD c.lo
        control := match e.control with
          | some (r, v) => c.control.set r v r.isLt
          | none => c.control
        pc := e.transfer.pcAfter c.pc c.pending
        pending := e.transfer.pendingAfter c.pending
        annul := false
        halted := c.halted
        haltReason := c.haltReason
        retired := c.retired + 1
        current := w } := by
  rw [retire, commit_eq, gpr_written_fetched]
  cases hp : c.pending <;> cases e.transfer <;>
    simp [advance, fetched, Transfer.pcAfter, Transfer.pendingAfter, hp]

end Cpu

end Mips
