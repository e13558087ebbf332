import Mathlib.Algebra.Group.Nat.Defs
import Mips.Proofs.Machine.Fault
/-!
# Runs that nobody observes

`Machine.proceed` is the loop of a run without the clearing of flags before it.  A loop either
retires as many instructions as its budget allows, or it ends at a machine that is stuck: one that
fails on every further step and is not changed by it.
-/

namespace Mips

/-- A processor that does not carry the end of an earlier run. -/
def Cpu.Fresh (c : Cpu) : Prop := c.halted = false ∧ c.haltReason = none

theorem Cpu.resume_of_fresh {c : Cpu} (hfresh : c.Fresh) : c.resume = c := by
  obtain ⟨hhalted, hreason⟩ := hfresh
  rw [resume, ← hhalted, ← hreason]

namespace Machine

variable {μ : Type} [Memory μ]

def resume (m : Machine μ) : Machine μ := ⟨m.cpu.resume, m.memory⟩

def halt (m : Machine μ) (f : Fault) : Machine μ := ⟨m.cpu.halt f.message, m.memory⟩

/-- Up to `n` instructions, with the flags as they are. -/
def proceed (m : Machine μ) (n : Nat) : Machine μ := (loop .silent n m ()).1

/-- The machine fails with `f` on every step, and stays as it is. -/
def Stuck (m : Machine μ) (f : Fault) : Prop := m.step = (some f, m)

theorem run_eq (m : Machine μ) (n : Nat) : m.run n = m.resume.proceed n := rfl

theorem proceed_of_halted {m : Machine μ} (hhalted : m.cpu.halted = true) (n : Nat) :
    m.proceed n = m := by
  cases n with
  | zero => rfl
  | succ n => simp only [proceed, loop, hhalted, if_true]

theorem proceed_succ_of_retires {m m' : Machine μ} (hhalted : m.cpu.halted = false)
    (hstep : m.step = (none, m')) (n : Nat) : m.proceed (n + 1) = m'.proceed n := by
  simp only [proceed, loop, hhalted, Observer.silent, hstep, Bool.false_eq_true, if_false]

theorem proceed_succ_of_fails {m m' : Machine μ} {f : Fault} (hhalted : m.cpu.halted = false)
    (hstep : m.step = (some f, m')) (n : Nat) : m.proceed (n + 1) = m'.halt f := by
  simp only [proceed, loop, hhalted, Observer.silent, hstep, Bool.false_eq_true, if_false]
  rfl

/-- A halted processor does not go on, so a loop may be cut anywhere. -/
theorem proceed_add (m : Machine μ) (a b : Nat) :
    m.proceed (a + b) = (m.proceed a).proceed b := by
  induction a generalizing m with
  | zero => rw [Nat.zero_add]; rfl
  | succ a ih =>
    rw [Nat.succ_add]
    cases hhalted : m.cpu.halted with
    | true => simp only [proceed_of_halted hhalted]
    | false =>
      rcases hstep : m.step with ⟨_ | f, m'⟩
      · rw [proceed_succ_of_retires hhalted hstep, proceed_succ_of_retires hhalted hstep, ih]
      · rw [proceed_succ_of_fails hhalted hstep, proceed_succ_of_fails hhalted hstep,
          proceed_of_halted rfl]

theorem fresh_step {m m' : Machine μ} {r : Option Fault} (hfresh : m.cpu.Fresh)
    (hstep : m.step = (r, m')) : m'.cpu.Fresh := by
  obtain rfl : m.step.2 = m' := congrArg Prod.snd hstep
  obtain ⟨_, _, -, h⟩ | ⟨_, _, _, _, -, -, h⟩ | ⟨_, _, _, _, -, -, h⟩ := m.step_cases
  · rw [h]; exact hfresh
  · rw [h]; exact hfresh
  · rw [h, Cpu.retire_eq]; exact hfresh

theorem retired_of_step_retires {m m' : Machine μ} (hstep : m.step = (none, m')) :
    m'.cpu.retired = m.cpu.retired + 1 := by
  obtain ⟨w, _, e, -, -, hcpu⟩ := exists_of_step_retires hstep
  rw [hcpu, Cpu.retire_eq]

omit [Memory μ] in
theorem retiredSince_mod {m m' : Machine μ} {k : Nat}
    (hretired : m'.cpu.retired = m.cpu.retired + .ofNat 64 k) :
    m.retiredSince m' = k % 2 ^ 64 := by
  rw [retiredSince, hretired, BitVec.add_comm, BitVec.add_sub_cancel, BitVec.toNat_ofNat]

theorem proceed_succ_of_stuck {m : Machine μ} {f : Fault} (hfresh : m.cpu.Fresh)
    (hstuck : m.Stuck f) (n : Nat) : m.proceed (n + 1) = m.halt f :=
  proceed_succ_of_fails hfresh.1 hstuck n

omit [Memory μ] in
theorem resume_halt {m : Machine μ} (hfresh : m.cpu.Fresh) (f : Fault) :
    (m.halt f).resume = m := by
  have hresume := Cpu.resume_of_fresh hfresh
  obtain ⟨cpu, memory⟩ := m
  exact congrArg (Machine.mk · memory) hresume

/-- The machine has stopped: a fault halted it after `k` instructions, and would do so again. -/
def StoppedAfter (m final : Machine μ) (k : Nat) : Prop :=
  ∃ (m' : Machine μ) (f : Fault), m'.cpu.Fresh ∧ m'.Stuck f ∧ final = m'.halt f ∧
    m'.cpu.retired = m.cpu.retired + .ofNat 64 k

theorem stuck_of_step_fails (hkeep : Memory.FaultsKeep μ) (hread : Memory.ReadsKeep μ)
    {m m' : Machine μ} {f : Fault} (hstep : m.step = (some f, m')) :
    m'.Stuck f ∧ m'.cpu.retired = m.cpu.retired := by
  obtain rfl := eq_stalled_of_step_fails hkeep hstep
  exact ⟨step_stalled hkeep (hread.read32 _ _) hstep, rfl⟩

theorem proceed_cases (hkeep : Memory.FaultsKeep μ) (hread : Memory.ReadsKeep μ) (m : Machine μ)
    (hfresh : m.cpu.Fresh) (n : Nat) :
    ((m.proceed n).cpu.Fresh ∧ (m.proceed n).cpu.retired = m.cpu.retired + .ofNat 64 n) ∨
      ∃ k < n, m.StoppedAfter (m.proceed n) k := by
  induction n generalizing m with
  | zero => exact .inl ⟨hfresh, (BitVec.add_zero _).symm⟩
  | succ n ih =>
    rcases hstep : m.step with ⟨_ | f, m'⟩
    · rw [proceed_succ_of_retires hfresh.1 hstep]
      have hcount : ∀ k : Nat, m'.cpu.retired + .ofNat 64 k =
          m.cpu.retired + .ofNat 64 (k + 1) := by
        intro k
        rw [retired_of_step_retires hstep, BitVec.add_assoc, Nat.add_comm k, BitVec.ofNat_add]
        rfl
      obtain ⟨hfresh', hretired⟩ | ⟨k, hk, m'', g, hfresh', hstuck, hfinal, hretired⟩ :=
        ih m' (fresh_step hfresh hstep)
      · exact .inl ⟨hfresh', hretired.trans (hcount n)⟩
      · exact .inr ⟨k + 1, by omega, m'', g, hfresh', hstuck, hfinal,
          hretired.trans (hcount k)⟩
    · rw [proceed_succ_of_fails hfresh.1 hstep]
      obtain ⟨hstuck, hretired⟩ := stuck_of_step_fails hkeep hread hstep
      exact .inr ⟨0, by omega, m', f, fresh_step hfresh hstep, hstuck, rfl,
        hretired.trans (BitVec.add_zero _).symm⟩

/-- Single steps, until `n` of them have retired or one has failed; answers with its fault. -/
def drive : Nat → Machine μ → Option Fault × Machine μ
  | 0, m => (none, m)
  | n + 1, m =>
    match m.step with
    | (none, m') => drive n m'
    | (some f, m') => (some f, m')

/-- Instructions that all retire may be followed by more. -/
theorem drive_add {m m' : Machine μ} {a : Nat} (hdrive : m.drive a = (none, m')) (b : Nat) :
    m.drive (a + b) = m'.drive b := by
  induction a generalizing m with
  | zero =>
    obtain rfl : m = m' := congrArg Prod.snd hdrive
    rw [Nat.zero_add]
  | succ a ih =>
    rw [Nat.add_right_comm]
    rw [drive] at hdrive ⊢
    rcases hstep : m.step with ⟨_ | f, next⟩
    · rw [hstep] at hdrive
      exact ih hdrive
    · rw [hstep] at hdrive
      cases hdrive

theorem drive_succ {m m' m'' : Machine μ} {a : Nat} (hdrive : m.drive a = (none, m'))
    (hstep : m'.step = (none, m'')) : m.drive (a + 1) = (none, m'') := by
  rw [drive_add hdrive, drive, hstep]
  rfl

theorem exists_drive_of_le {m m' : Machine μ} {a b : Nat} (hdrive : m.drive b = (none, m'))
    (hab : a ≤ b) : ∃ m'', m.drive a = (none, m'') := by
  induction a generalizing m b with
  | zero => exact ⟨m, rfl⟩
  | succ a ih =>
    obtain ⟨b, rfl⟩ := Nat.exists_eq_add_of_le' (Nat.lt_of_lt_of_le (Nat.succ_pos a) hab)
    rw [drive] at hdrive ⊢
    rcases hstep : m.step with ⟨_ | f, next⟩
    · rw [hstep] at hdrive
      exact ih hdrive (Nat.le_of_succ_le_succ hab)
    · rw [hstep] at hdrive
      cases hdrive

theorem retired_drive {m m' : Machine μ} {n : Nat} (hdrive : m.drive n = (none, m')) :
    m'.cpu.retired = m.cpu.retired + .ofNat 64 n := by
  induction n generalizing m with
  | zero =>
    obtain rfl : m = m' := congrArg Prod.snd hdrive
    exact (BitVec.add_zero _).symm
  | succ n ih =>
    rw [drive] at hdrive
    rcases hstep : m.step with ⟨_ | f, next⟩
    · rw [hstep] at hdrive
      rw [ih hdrive, retired_of_step_retires hstep, BitVec.add_assoc, Nat.add_comm,
        BitVec.ofNat_add]
      rfl
    · rw [hstep] at hdrive
      cases hdrive

theorem fresh_drive {m : Machine μ} (hfresh : m.cpu.Fresh) (n : Nat) :
    (m.drive n).2.cpu.Fresh := by
  induction n generalizing m with
  | zero => exact hfresh
  | succ n ih =>
    rw [drive]
    rcases hstep : m.step with ⟨_ | f, m'⟩
    · exact ih (fresh_step hfresh hstep)
    · exact fresh_step hfresh hstep

/-- A run is a sequence of single steps, of which only the last can fail. -/
theorem proceed_eq_drive {m : Machine μ} (hfresh : m.cpu.Fresh) (n : Nat) :
    m.proceed n = match m.drive n with
      | (none, m') => m'
      | (some f, m') => m'.halt f := by
  induction n generalizing m with
  | zero => rfl
  | succ n ih =>
    rw [drive]
    rcases hstep : m.step with ⟨_ | f, m'⟩
    · rw [proceed_succ_of_retires hfresh.1 hstep]
      exact ih (fresh_step hfresh hstep)
    · rw [proceed_succ_of_fails hfresh.1 hstep]

theorem run_of_drive {m m' : Machine μ} {n : Nat} (hdrive : m.resume.drive n = (none, m')) :
    m.run n = m' := by
  rw [run_eq, proceed_eq_drive ⟨rfl, rfl⟩, hdrive]

/-- The budget reaches as far as an instruction that fails. -/
theorem run_of_drive_of_fails {m m' m'' : Machine μ} {n : Nat} {f : Fault}
    (hdrive : m.resume.drive n = (none, m')) (hstep : m'.step = (some f, m'')) (k : Nat) :
    m.run (n + (k + 1)) = m''.halt f := by
  rw [run_eq, proceed_eq_drive ⟨rfl, rfl⟩, drive_add hdrive, drive, hstep]

end Machine

end Mips
