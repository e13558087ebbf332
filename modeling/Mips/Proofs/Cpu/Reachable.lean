import Mips.Proofs.Machine.Step
/-!
# Reachable processors

The states that a processor gets into between two requests of its host: after power-on it is set
up, stepped and run, with any memory and under any observer.
-/

namespace Mips

namespace Machine

variable {μ ω : Type} [Memory μ]

/-- What steps and halts keep holds at the end of a run. -/
theorem loop_invariant {P : Cpu → Prop} (hstep : ∀ m : Machine μ, P m.cpu → P m.step.2.cpu)
    (hhalt : ∀ (c : Cpu) (reason : String), P c → P (c.halt reason)) (o : Observer μ ω)
    (budget : Nat) (m : Machine μ) (notes : ω) (hm : P m.cpu) :
    P (loop o budget m notes).1.cpu := by
  induction budget generalizing m notes with
  | zero => exact hm
  | succ budget ih =>
    obtain ⟨cpu, memory⟩ := m
    rw [loop]
    split
    · exact hm
    · have hnext := hstep ⟨cpu, (o.before cpu memory notes).1⟩ hm
      dsimp only
      split
      · next m' heq =>
        rw [heq] at hnext
        exact ih m' _ hnext
      · next f m' heq =>
        rw [heq] at hnext
        exact hhalt _ _ hnext

end Machine

namespace Cpu

inductive Reachable : Cpu → Prop where
  | reset : Reachable .reset
  | setReg {c : Cpu} (r : Reg) (d : DWord) : Reachable c → Reachable (c.setReg r d)
  | setPc {c : Cpu} (a : Word) : Reachable c → Reachable (c.setPc a)
  | scheduleBranch {c c' : Cpu} {target : Int} :
      Reachable c → c.scheduleBranch target = some c' → Reachable c'
  | requestHalt {c : Cpu} : Reachable c → Reachable c.requestHalt
  | step {μ : Type} [Memory μ] (m : Machine μ) : Reachable m.cpu → Reachable m.step.2.cpu
  | run {μ ω : Type} [Memory μ] (o : Observer μ ω) (budget : Nat) (m : Machine μ) (notes : ω) :
      Reachable m.cpu → Reachable (m.runWith o budget notes).1.cpu

/-- Between two instructions no skip is noted: a skip takes place when its instruction retires. -/
theorem Reachable.annul_eq_false {c : Cpu} (hreach : c.Reachable) : c.annul = false := by
  induction hreach with
  | reset => rfl
  | @setReg c r d _ ih => rw [setReg_eq]; exact ih
  | setPc a _ _ => rfl
  | @scheduleBranch c c' target _ hschedule ih =>
    unfold Cpu.scheduleBranch at hschedule
    split at hschedule <;> cases hschedule
    exact ih
  | requestHalt _ ih => exact ih
  | step m _ _ => exact m.annul_step
  | run o budget m notes _ ih =>
    apply Machine.loop_invariant (P := fun c => c.annul = false)
    · exact fun m _ => m.annul_step
    · exact fun _ _ h => h
    · exact ih

end Cpu

end Mips
