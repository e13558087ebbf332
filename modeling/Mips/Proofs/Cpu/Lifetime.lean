import Mips.Proofs.Cpu.Setting
import Mips.Proofs.Machine.Budget
import Mips.Proofs.Machine.Footprint
import Mips.Proofs.Machine.Trail
/-!
# The life of a processor

Between power-on and any later moment a processor has been set up, stepped and run, each time with
some memory and perhaps under the eyes of an observer.  Whatever has happened to it, register 0
is zero, no skip is noted, a reason to halt comes with the halt, and the counter tells how many
instructions have retired since the last reset.
-/

namespace Mips

namespace Cpu

/-! ## Reachable processors -/

theorem reg_zero_setReg (c : Cpu) (r : Reg) (d : DWord) : (c.setReg r d).reg 0 = c.reg 0 := by
  rw [reg_setReg]
  apply if_neg
  intro hr
  exact hr.2 hr.1

theorem scheduleBranch_eq_some {c c' : Cpu} {target : Int}
    (hschedule : c.scheduleBranch target = some c') :
    c' = { c with pending := some (.ofInt 32 target) } := by
  unfold scheduleBranch at hschedule
  split at hschedule
  · exact (Option.some.inj hschedule).symm
  · cases hschedule

end Cpu

theorem Machine.reg_zero_step {μ : Type} [Memory μ] (m : Machine μ) :
    m.step.2.cpu.reg 0 = m.cpu.reg 0 := by
  obtain ⟨_, _, -, hstep⟩ | ⟨_, _, _, _, -, -, hstep⟩ | ⟨w, _, e, _, -, -, hstep⟩ := m.step_cases
  · rw [hstep]
    rfl
  · rw [hstep]
    rfl
  · rw [hstep]
    by_contra hchange
    exact (Cpu.reg_retire_of_ne hchange).1 rfl

namespace Cpu.Reachable

variable {c : Cpu}

theorem reg_zero (hreach : c.Reachable) : c.reg 0 = 0 := by
  induction hreach with
  | reset => decide
  | @setReg c r d _ ih => rw [reg_zero_setReg, ih]
  | setPc a _ ih => exact ih
  | scheduleBranch _ hschedule ih =>
    rw [scheduleBranch_eq_some hschedule]
    exact ih
  | requestHalt _ ih => exact ih
  | step m _ ih => rw [m.reg_zero_step, ih]
  | run o budget m notes _ ih =>
    apply Machine.loop_invariant (P := fun c => c.reg 0 = 0)
    · intro m hm
      rw [m.reg_zero_step, hm]
    · exact fun _ _ h => h
    · exact ih

/-- Only a run tells why it ended, and only if it ended with a halt. -/
theorem halted_of_haltReason (hreach : c.Reachable) : c.haltReason ≠ none → c.halted = true := by
  have hstep {μ : Type} [Memory μ] (m : Machine μ)
      (hm : m.cpu.haltReason ≠ none → m.cpu.halted = true) :
      m.step.2.cpu.haltReason ≠ none → m.step.2.cpu.halted = true := by
    obtain ⟨hhalted, hreason, -⟩ := m.rest_step
    rwa [hhalted, hreason]
  induction hreach with
  | reset => exact fun hreason => absurd rfl hreason
  | @setReg c r d _ ih => rwa [setReg_eq]
  | setPc a _ ih => exact ih
  | scheduleBranch _ hschedule ih => rwa [scheduleBranch_eq_some hschedule]
  | requestHalt _ ih => exact fun _ => rfl
  | step m _ ih => exact hstep m ih
  | run o budget m notes _ ih =>
    apply Machine.loop_invariant (P := fun c => c.haltReason ≠ none → c.halted = true) hstep
    · exact fun _ _ _ _ => rfl
    · exact fun hreason => absurd rfl hreason

end Cpu.Reachable

/-! ## Runs -/

namespace Machine

variable {μ ω : Type} [Memory μ]

theorem halted_runWith_iff (o : Observer μ ω) (budget : Nat) (m : Machine μ) (notes : ω) :
    (m.runWith o budget notes).1.cpu.halted = true ↔
      (m.runWith o budget notes).1.cpu.haltReason ≠ none := by
  apply loop_invariant (P := fun c => c.halted = true ↔ c.haltReason ≠ none)
  · intro m hm
    obtain ⟨hhalted, hreason, -⟩ := m.rest_step
    rwa [hhalted, hreason]
  · exact fun _ _ _ => ⟨fun _ => Option.some_ne_none _, fun _ => rfl⟩
  · exact ⟨fun h => absurd h Bool.false_ne_true, fun h => absurd rfl h⟩

theorem length_trail_le (o : Observer μ ω) (n : Nat) (m : Machine μ) (notes : ω) :
    (trail o n m notes).length ≤ n := by
  induction n generalizing m notes with
  | zero => exact Nat.le_refl 0
  | succ n ih =>
    obtain ⟨cpu, memory⟩ := m
    rw [trail]
    split
    · exact Nat.zero_le _
    · dsimp only
      split
      · exact Nat.succ_le_succ (ih _ _)
      · exact Nat.succ_le_succ (Nat.zero_le n)

end Machine

/-! ## Lives -/

namespace Cpu

/-- What may happen to a processor.  Each step and each run may be with another memory, and each
run under the eyes of another observer. -/
inductive Event : Type 1 where
  | set (s : Setting)
  | step {μ : Type} [Memory μ] (memory : μ)
  | run {μ ω : Type} [Memory μ] (o : Observer μ ω) (budget : Nat) (memory : μ) (notes : ω)

def after (c : Cpu) : Event → Cpu
  | .set s => (c.set s).2
  | @Event.step _ _ memory => (Machine.mk c memory).step.2.cpu
  | @Event.run _ _ _ o budget memory notes => ((Machine.mk c memory).runWith o budget notes).1.cpu

def successes (c : Cpu) : Event → Nat
  | .set _ => 0
  | @Event.step _ _ memory => Machine.successes [Machine.mk c memory]
  | @Event.run _ _ _ o budget memory notes =>
    Machine.successes ((Machine.trail o budget (Machine.mk c.resume memory) notes).map Prod.fst)

/-- A processor, and how many instructions have retired since it was last reset. -/
structure Life where
  cpu : Cpu := .reset
  successes : Nat := 0

def Life.next (l : Life) : Event → Life
  | .set .reset => {}
  | e => ⟨l.cpu.after e, l.successes + l.cpu.successes e⟩

def lifeOf (es : List Event) : Life := es.foldl Life.next {}

theorem Reachable.after {c : Cpu} (hreach : c.Reachable) (e : Event) : (c.after e).Reachable := by
  cases e with
  | step memory => exact .step ⟨c, memory⟩ hreach
  | run o budget memory notes => exact .run o budget ⟨c, memory⟩ notes hreach
  | set s =>
    cases s with
    | setReg r d => exact .setReg r d hreach
    | setSigned r w => exact .setReg r w.sext hreach
    | setUnsigned r w => exact .setReg r w.zext hreach
    | setPc a => exact .setPc a hreach
    | requestHalt => exact .requestHalt hreach
    | reset => exact .reset
    | scheduleBranch target =>
      change (c.set (.scheduleBranch target)).2.Reachable
      cases hschedule : c.scheduleBranch target with
      | none =>
        simp only [set, hschedule]
        exact hreach
      | some c' =>
        simp only [set, hschedule]
        exact .scheduleBranch hreach hschedule

theorem retired_set {c : Cpu} {s : Setting} (hs : s ≠ .reset) :
    (c.set s).2.retired = c.retired := by
  have hsetReg (r : Reg) (d : DWord) : (c.setReg r d).retired = c.retired := by rw [setReg_eq]
  cases s with
  | setReg r d => exact hsetReg r d
  | setSigned r w => exact hsetReg r w.sext
  | setUnsigned r w => exact hsetReg r w.zext
  | setPc a | requestHalt => rfl
  | reset => exact absurd rfl hs
  | scheduleBranch target =>
    rw [set_scheduleBranch]
    split <;> rfl

theorem retired_step {μ : Type} [Memory μ] (m : Machine μ) :
    m.step.2.cpu.retired = m.cpu.retired + .ofNat 64 (Machine.successes [m]) := by
  have hretired := m.rest_step.2.2.2.1
  rw [hretired, Machine.successes, List.countP_singleton]
  cases m.step.1 with
  | none => rfl
  | some f => exact (BitVec.add_zero _).symm

theorem retired_after {c : Cpu} {e : Event} (he : e ≠ .set .reset) :
    (c.after e).retired = c.retired + .ofNat 64 (c.successes e) := by
  cases e with
  | set s =>
    have hs : s ≠ .reset := fun h => he (congrArg Event.set h)
    exact (retired_set hs).trans (BitVec.add_zero _).symm
  | step memory => exact retired_step ⟨c, memory⟩
  | run o budget memory notes => exact Machine.retired_loop o budget ⟨c.resume, memory⟩ notes

structure Life.Sound (l : Life) : Prop where
  reachable : l.cpu.Reachable
  retired : l.cpu.retired = .ofNat 64 l.successes

theorem Life.Sound.next {l : Life} (hsound : l.Sound) (e : Event) : (l.next e).Sound := by
  unfold Life.next
  split
  · exact ⟨.reset, rfl⟩
  · next he =>
    refine ⟨hsound.reachable.after e, ?_⟩
    rw [retired_after he, hsound.retired, BitVec.ofNat_add]

theorem sound_lifeOf (es : List Event) : (lifeOf es).Sound := by
  have hfold (l : Life) (hl : l.Sound) : (es.foldl Life.next l).Sound := by
    induction es generalizing l with
    | nil => exact hl
    | cons e es ih => exact ih (l.next e) (hl.next e)
  exact hfold {} ⟨.reset, rfl⟩

/-- Whatever has happened to a processor since power-on: register 0 is zero, no skip is noted,
there is a reason to halt only with a halt, and the counter tells how many instructions have
retired since the last reset.  Any run from there ends with a halt exactly if it ends with a reason,
and answers with the number of instructions that it retired.  A branch to something that is not an
address is refused and changes nothing. -/
theorem lifetime_invariant (es : List Event) :
    let c := (lifeOf es).cpu
    c.reg 0 = 0 ∧ c.annul = false ∧ (c.haltReason ≠ none → c.halted = true) ∧
      c.retired.toNat = (lifeOf es).successes % 2 ^ 64 ∧
      (∀ {μ ω : Type} [Memory μ] (o : Observer μ ω) (budget : Nat) (memory : μ) (notes : ω),
        budget < 2 ^ 64 →
          let before : Machine μ := ⟨c, memory⟩
          let final := (before.runWith o budget notes).1
          (final.cpu.halted = true ↔ final.cpu.haltReason ≠ none) ∧
            before.retiredSince final = c.successes (.run o budget memory notes)) ∧
      ∀ target : Int, target < 0 ∨ 0xFFFFFFFF < target →
        c.set (.scheduleBranch target) = (some (.invalidBranchTarget target), c) := by
  intro c
  have hsound : (lifeOf es).Sound := sound_lifeOf es
  have hreach : c.Reachable := hsound.reachable
  refine ⟨hreach.reg_zero, hreach.annul_eq_false, hreach.halted_of_haltReason, ?_, ?_, ?_⟩
  · rw [hsound.retired, BitVec.toNat_ofNat]
  · intro μ ω _ o budget memory notes hbudget before final
    refine ⟨before.halted_runWith_iff o budget notes, ?_⟩
    have hretired : final.cpu.retired =
        before.cpu.retired + .ofNat 64 (c.successes (.run o budget memory notes)) :=
      retired_after (e := .run o budget memory notes) (nofun)
    have hcount : c.successes (.run o budget memory notes) ≤ budget := by
      apply Nat.le_trans List.countP_le_length
      rw [List.length_map]
      exact Machine.length_trail_le o budget _ notes
    exact Machine.retiredSince_eq (by omega) hretired
  · intro target htarget
    rw [set_scheduleBranch, if_neg (by omega)]

/-- A branch and the fault in its delay slot, a request, a reset, and the branch again. -/
def brokenLife : List Event := [
  .set (.setReg .zero 7),
  .set (.setPc 0x80000000),
  .run .silent 5 Machine.brokenSlot.memory (),
  .set .requestHalt,
  .set .reset,
  .set (.setPc 0x80000000),
  .step Machine.brokenSlot.memory,
  .step Machine.brokenSlot.memory]

theorem brokenLife_lifetime :
    let c := (lifeOf brokenLife).cpu
    let m : Machine Ram := ⟨c, Machine.brokenSlot.memory⟩
    let final := (m.runWith .silent 3 ()).1
    c.reg 0 = 0 ∧ c.annul = false ∧ c.retired.toNat = 1 ∧
      final.cpu.halted = true ∧ final.cpu.haltReason ≠ none ∧ m.retiredSince final = 0 ∧
      c.set (.scheduleBranch (-4)) = (some (.invalidBranchTarget (-4)), c) := by
  intro c m final
  obtain ⟨hzero, hannul, -, hretired, hrun, hbranch⟩ := lifetime_invariant brokenLife
  have hfinal : (final.cpu.halted = true ↔ final.cpu.haltReason ≠ none) ∧
      m.retiredSince final = c.successes (.run .silent 3 m.memory ()) :=
    hrun .silent 3 m.memory () (by decide)
  obtain ⟨hhalted, hcount⟩ := hfinal
  have hhalts : final.cpu.halted = true := by decide
  refine ⟨hzero, hannul, ?_, hhalts, hhalted.mp hhalts, ?_, hbranch (-4) (by decide)⟩
  · rw [hretired]
    decide
  · rw [hcount]
    decide

end Cpu

end Mips
