import Mathlib.Algebra.Ring.Nat
import Mips.Proofs.Machine.Run
/-!
# Budgets

A budget may be spent in several runs.  As long as the last of them is not empty, the machine ends
up where a single run with the whole budget leaves it, also if one of the early runs is halted by a
fault: each later run meets the same fault again.
-/

namespace Mips.Machine

variable {μ : Type} [Memory μ]

def runs (m : Machine μ) (budgets : List Nat) : Machine μ := budgets.foldl (fun m n => m.run n) m

def counts (m : Machine μ) : List Nat → List Nat
  | [] => []
  | n :: budgets => m.retiredSince (m.run n) :: (m.run n).counts budgets

theorem runs_append (m : Machine μ) (xs ys : List Nat) :
    m.runs (xs ++ ys) = (m.runs xs).runs ys := List.foldl_append

section

variable (hkeep : Memory.FaultsKeep μ) (hread : Memory.ReadsKeep μ)

include hkeep hread

/-! ## Two runs -/

theorem retired_run (m : Machine μ) (n : Nat) :
    ∃ k ≤ n, (m.run n).cpu.retired = m.cpu.retired + .ofNat 64 k ∧
      (k < n ↔ (m.run n).cpu.halted = true) := by
  rw [run_eq]
  obtain ⟨hfresh, hretired⟩ | ⟨k, hk, m', f, -, -, hfinal, hretired⟩ :=
    proceed_cases hkeep hread m.resume ⟨rfl, rfl⟩ n
  · exact ⟨n, Nat.le_refl n, hretired, by simp [hfresh.1]⟩
  · rw [hfinal]
    exact ⟨k, Nat.le_of_lt hk, hretired, by simpa [halt, Cpu.halt] using hk⟩

theorem run_run (m : Machine μ) (a : Nat) {b : Nat} (hb : 1 ≤ b) :
    (m.run a).run b = m.run (a + b) := by
  obtain ⟨b, rfl⟩ := Nat.exists_eq_add_of_le' hb
  rw [run_eq m (a + (b + 1)), proceed_add, run_eq (m.run a), run_eq m a]
  obtain ⟨hfresh, -⟩ | ⟨k, -, m', f, hfresh, hstuck, hfinal, -⟩ :=
    proceed_cases hkeep hread m.resume ⟨rfl, rfl⟩ a
  · congr 1
    exact congrArg (Machine.mk · _) (Cpu.resume_of_fresh hfresh)
  · rw [hfinal, resume_halt hfresh, proceed_succ_of_stuck hfresh hstuck, proceed_of_halted rfl]

/-! ## Counting -/

omit [Memory μ] hkeep hread in
theorem retiredSince_eq {m m' : Machine μ} {k : Nat} (hk : k < 2 ^ 64)
    (hretired : m'.cpu.retired = m.cpu.retired + .ofNat 64 k) : m.retiredSince m' = k := by
  rw [retiredSince_mod hretired, Nat.mod_eq_of_lt hk]

theorem retiredSince_run (m : Machine μ) {n : Nat} (hn : n < 2 ^ 64) :
    m.retiredSince (m.run n) ≤ n ∧
      (m.run n).cpu.retired = m.cpu.retired + .ofNat 64 (m.retiredSince (m.run n)) ∧
      (m.retiredSince (m.run n) < n ↔ (m.run n).cpu.halted = true) := by
  obtain ⟨k, hk, hretired, hhalted⟩ := retired_run hkeep hread m n
  rw [retiredSince_eq (by omega) hretired]
  exact ⟨hk, hretired, hhalted⟩

theorem sum_counts (m : Machine μ) (budgets : List Nat) (hfit : budgets.sum < 2 ^ 64) :
    (m.counts budgets).sum ≤ budgets.sum ∧
      (m.runs budgets).cpu.retired = m.cpu.retired + .ofNat 64 (m.counts budgets).sum := by
  induction budgets generalizing m with
  | nil => exact ⟨Nat.le_refl 0, (BitVec.add_zero _).symm⟩
  | cons n budgets ih =>
    rw [List.sum_cons] at hfit ⊢
    obtain ⟨hle, hretired, -⟩ := retiredSince_run hkeep hread m (n := n) (by omega)
    obtain ⟨hle', hretired'⟩ := ih (m.run n) (by omega)
    rw [counts, List.sum_cons]
    refine ⟨Nat.add_le_add hle hle', ?_⟩
    rw [BitVec.ofNat_add, ← BitVec.add_assoc, ← hretired]
    exact hretired'

/-! ## Many runs -/

theorem runs_eq_run (m : Machine μ) (budgets : List Nat) (hne : budgets ≠ [])
    (hlast : 1 ≤ budgets.getLast hne) : m.runs budgets = m.run budgets.sum := by
  induction budgets generalizing m with
  | nil => exact absurd rfl hne
  | cons n budgets ih =>
    cases budgets with
    | nil => rfl
    | cons n' budgets =>
      rw [List.getLast_cons (List.cons_ne_nil n' budgets)] at hlast
      have hmem := List.getLast_mem (List.cons_ne_nil n' budgets)
      have hsum : 1 ≤ (n' :: budgets).sum :=
        List.sum_pos_iff_exists_pos_nat.mpr ⟨_, hmem, hlast⟩
      calc m.runs (n :: n' :: budgets)
          = (m.run n).runs (n' :: budgets) := rfl
        _ = (m.run n).run (n' :: budgets).sum := ih (m.run n) (List.cons_ne_nil _ _) hlast
        _ = m.run (n + (n' :: budgets).sum) := run_run hkeep hread m n hsum

end

/-! ## Runs after a fault -/

/-- Every run with a budget will be halted by `f` at once. -/
def Settled (m : Machine μ) (f : Fault) : Prop := m.resume.Stuck f

theorem run_succ_of_settled {m : Machine μ} {f : Fault} (hsettled : m.Settled f) (n : Nat) :
    m.run (n + 1) = m.resume.halt f :=
  proceed_succ_of_stuck ⟨rfl, rfl⟩ hsettled n

theorem Settled.run {m : Machine μ} {f : Fault} (hsettled : m.Settled f) (n : Nat) :
    (m.run n).Settled f := by
  cases n with
  | zero => exact hsettled
  | succ n =>
    rw [run_succ_of_settled hsettled, Settled, resume_halt ⟨rfl, rfl⟩]
    exact hsettled

theorem Settled.runs {m : Machine μ} {f : Fault} (hsettled : m.Settled f) (budgets : List Nat) :
    (m.runs budgets).Settled f := by
  induction budgets generalizing m with
  | nil => exact hsettled
  | cons n budgets ih => exact ih (hsettled.run n)

theorem settled_of_halted (hkeep : Memory.FaultsKeep μ) (hread : Memory.ReadsKeep μ)
    {m : Machine μ} {n : Nat} (hhalted : (m.run n).cpu.halted = true) :
    ∃ f, (m.run n).Settled f ∧ (m.run n).cpu.haltReason = some f.message := by
  rw [run_eq] at hhalted ⊢
  obtain ⟨hfresh, -⟩ | ⟨k, -, m', f, hfresh, hstuck, hfinal, -⟩ :=
    proceed_cases hkeep hread m.resume ⟨rfl, rfl⟩ n
  · rw [hfresh.1] at hhalted
    cases hhalted
  · rw [hfinal]
    exact ⟨f, by rwa [Settled, resume_halt hfresh], rfl⟩

/-- Splitting a budget over several runs, the last of them not empty, changes nothing.  The machine
ends in the same state, and the counts of the runs add up to the count of the single run.  A run is
halted exactly if it retires less than its budget; once that has happened every later run that is
not empty retires nothing, and is halted for the same reason. -/
theorem runs_spend_budget (m : Machine Ram) (budgets : List Nat) (hne : budgets ≠ [])
    (hlast : 1 ≤ budgets.getLast hne) (hfit : m.cpu.retired.toNat + budgets.sum < 2 ^ 64) :
    m.runs budgets = m.run budgets.sum ∧
      (m.counts budgets).sum = m.retiredSince (m.run budgets.sum) ∧
      (∀ xs n ys, budgets = xs ++ n :: ys →
        ((m.runs xs).retiredSince ((m.runs xs).run n) < n ↔
          ((m.runs xs).run n).cpu.halted = true)) ∧
      ∀ xs ys n zs, budgets = xs ++ ys ++ n :: zs → xs ≠ [] → (m.runs xs).cpu.halted = true →
        1 ≤ n →
          (m.runs (xs ++ ys)).retiredSince ((m.runs (xs ++ ys)).run n) = 0 ∧
            ((m.runs (xs ++ ys)).run n).cpu.halted = true ∧
            ((m.runs (xs ++ ys)).run n).cpu.haltReason = (m.runs xs).cpu.haltReason := by
  have hrun := runs_eq_run Ram.faultsKeep Ram.readsKeep m budgets hne hlast
  refine ⟨hrun, ?_, ?_, ?_⟩
  · obtain ⟨hle, hretired⟩ := sum_counts Ram.faultsKeep Ram.readsKeep m budgets (by omega)
    rw [← hrun, retiredSince_eq (by omega) hretired]
  · intro xs n ys hsplit
    have hsum : budgets.sum = xs.sum + (n + ys.sum) := by
      rw [hsplit, List.sum_append, List.sum_cons]
    exact (retiredSince_run Ram.faultsKeep Ram.readsKeep _ (by omega)).2.2
  · intro xs ys n zs _ hxs hhalted hn
    obtain ⟨xs, x, rfl⟩ := (List.eq_nil_or_concat xs).resolve_left hxs
    obtain ⟨n, rfl⟩ := Nat.exists_eq_add_of_le' hn
    have hconcat : m.runs (xs.concat x) = (m.runs xs).run x := by
      rw [List.concat_eq_append]
      exact runs_append m xs [x]
    rw [hconcat] at hhalted
    obtain ⟨f, hsettled, hreason⟩ := settled_of_halted Ram.faultsKeep Ram.readsKeep hhalted
    rw [runs_append, hconcat, run_succ_of_settled (hsettled.runs ys)]
    refine ⟨retiredSince_eq (by omega) (BitVec.add_zero _).symm, rfl, ?_⟩
    exact hreason.symm

/-- Runs that are cut between a branch and its delay slot, where a fault waits. -/
theorem brokenSlot_runs_spend_budget :
    brokenSlot.runs [1, 0, 2, 0, 1] = brokenSlot.run 4 ∧
      (brokenSlot.counts [1, 0, 2, 0, 1]).sum = 1 ∧
      (brokenSlot.runs [1, 0, 2]).cpu.halted = true ∧
      (brokenSlot.runs [1, 0, 2, 0]).retiredSince ((brokenSlot.runs [1, 0, 2, 0]).run 1) = 0 := by
  obtain ⟨hruns, hcounts, -, hlater⟩ :=
    runs_spend_budget brokenSlot [1, 0, 2, 0, 1] (by decide) (by decide) (by decide)
  have hhalted : (brokenSlot.runs [1, 0, 2]).cpu.halted = true := by decide
  refine ⟨hruns, ?_, hhalted, ?_⟩
  · rw [hcounts]
    decide
  · exact (hlater [1, 0, 2] [0] 1 [] rfl (List.cons_ne_nil _ _) hhalted (Nat.le_refl 1)).1

end Mips.Machine
