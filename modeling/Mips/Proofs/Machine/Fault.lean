import Mips.Proofs.Cpu.Reachable
import Mips.Proofs.Memory.Keeping
/-!
# Steps that fail

A step that fails changes nothing but the word fetched last, and it fails again in the same way.
Every instruction makes its access to memory before it changes a register, so there is nothing to
be taken back.
-/

namespace Mips

namespace Action

variable {μ : Type} [Memory μ]

theorem memory_of_perform_error (hkeep : Memory.FaultsKeep μ) {c : Cpu} {memory memory' : μ}
    {a : Action} {f : Fault} (hperform : a.perform c memory = (.error f, memory')) :
    memory' = memory := by
  cases a with
  | retire e => cases hperform
  | load8 dst a extend =>
    rcases hread : Memory.read8 memory a with ⟨_ | b, _⟩ <;>
      simp only [perform, hread] at hperform <;> cases hperform
    exact hkeep.read8 hread
  | load32 dst a extend =>
    rcases hread : Memory.read32 memory a with ⟨_ | b, _⟩ <;>
      simp only [perform, hread] at hperform <;> cases hperform
    exact hkeep.read32 hread
  | store8 a b =>
    rcases hwrite : Memory.write8 memory a b with ⟨_ | _, _⟩ <;>
      simp only [perform, hwrite] at hperform <;> cases hperform
    exact hkeep.write8 hwrite
  | store32 a w =>
    rcases hwrite : Memory.write32 memory a w with ⟨_ | _, _⟩ <;>
      simp only [perform, hwrite] at hperform <;> cases hperform
    exact hkeep.write32 hwrite
  | refuse => cases hperform; rfl

end Action

namespace Machine

variable {μ : Type} [Memory μ]

/-- The machine after a step that failed: it has only tried to fetch. -/
def stalled (m : Machine μ) : Machine μ where
  cpu := { m.cpu with annul := false, current := m.fetch.1.toOption.getD m.cpu.current }
  memory := m.fetch.2

theorem eq_stalled_of_step_fails (hkeep : Memory.FaultsKeep μ) {m m' : Machine μ} {f : Fault}
    (hfault : m.step = (some f, m')) : m' = m.stalled := by
  obtain ⟨g, memory, hfetch, h⟩ | ⟨w, memory, g, memory', hfetch, hattempt, h⟩ |
    ⟨_, _, _, _, -, -, h⟩ := m.step_cases
  · obtain ⟨-, rfl⟩ := Prod.mk.inj (h.symm.trans hfault)
    simp [stalled, hfetch, Except.toOption]
  · obtain ⟨-, rfl⟩ := Prod.mk.inj (h.symm.trans hfault)
    obtain rfl := Action.memory_of_perform_error hkeep hattempt
    simp [stalled, hfetch, Except.toOption, Cpu.fetched]
  · simp [h] at hfault

/-- Where the fetch leaves the memory as it is, a step that failed fails again. -/
theorem step_stalled (hkeep : Memory.FaultsKeep μ) {m m' : Machine μ} {f : Fault}
    (hfetch : m.fetch.2 = m.memory) (hfault : m.step = (some f, m')) :
    m.stalled.step = (some f, m.stalled) := by
  have hrefetch : m.stalled.fetch = m.fetch := by
    rw [fetch, stalled, hfetch]
    rfl
  obtain ⟨g, memory, hfetch', h⟩ | ⟨w, memory, g, memory', hfetch', hattempt, h⟩ |
    ⟨_, _, _, _, -, -, h⟩ := m.step_cases
  · obtain ⟨hg, -⟩ := Prod.mk.inj (h.symm.trans hfault)
    rw [step_of_fetch_error (hrefetch.trans hfetch'), hg]
    simp [stalled, hfetch']
  · obtain ⟨hg, -⟩ := Prod.mk.inj (h.symm.trans hfault)
    have hcpu : m.stalled.cpu = m.cpu.fetched w := by
      simp [stalled, hfetch', Except.toOption, Cpu.fetched]
    have hattempt' : m.stalled.attempt w memory = (.error g, memory') := by
      rw [attempt, hcpu]
      exact hattempt
    obtain rfl := Action.memory_of_perform_error hkeep hattempt
    rw [step_of_attempt_error (hrefetch.trans hfetch') hattempt', hcpu, hg]
    simp [stalled, hfetch', Except.toOption, Cpu.fetched]
  · simp [h] at hfault

/-- A step that fails is atomic and can be repeated.  The processor is as before but for the word
fetched last, so that a scheduled branch stays scheduled.  The memory is as a successful fetch has
left it; where such a fetch changes nothing, nothing is changed at all, and the next step fails
alike. -/
theorem step_fails_atomically (hkeep : Memory.FaultsKeep μ) {m m' : Machine μ} {f : Fault}
    (hreach : m.cpu.Reachable) (hfault : m.step = (some f, m')) :
    m'.cpu = { m.cpu with current := m.fetch.1.toOption.getD m.cpu.current } ∧
      m'.memory = m.fetch.2 ∧
      ((∀ w, m.fetch.1 = .ok w → m.fetch.2 = m.memory) →
        m'.memory = m.memory ∧ m'.step = (some f, m')) := by
  obtain rfl := eq_stalled_of_step_fails hkeep hfault
  refine ⟨?_, rfl, fun hquiet => ?_⟩
  · rw [stalled, ← hreach.annul_eq_false]
  · have hfetch : m.fetch.2 = m.memory := by
      cases hresult : m.fetch.1 with
      | ok w => exact hquiet w hresult
      | error g => exact hkeep.read32 (Prod.ext hresult rfl)
    exact ⟨hfetch, step_stalled hkeep hfetch hfault⟩

/-- A branch to itself, with a misaligned load in its delay slot. -/
def brokenSlot : Machine Ram where
  cpu := Cpu.reset.setPc 0x80000000
  memory := (Ram.blank.setWord 0 0x1000FFFF).setWord 4 0x8C020002

theorem brokenSlot_fails_atomically :
    brokenSlot.step.2.cpu.Reachable ∧
      brokenSlot.step.2.step = (some (.unaligned 2 4), brokenSlot.steps 2) ∧
      (brokenSlot.steps 2).cpu.pending = some 0x80000000 ∧
      (brokenSlot.steps 2).step = (some (.unaligned 2 4), brokenSlot.steps 2) := by
  have hreach : brokenSlot.step.2.cpu.Reachable := .step brokenSlot (.setPc 0x80000000 .reset)
  have hfault : brokenSlot.step.2.step = (some (.unaligned 2 4), brokenSlot.steps 2) :=
    Prod.ext (by decide) rfl
  obtain ⟨hcpu, -, hagain⟩ := step_fails_atomically Ram.faultsKeep hreach hfault
  refine ⟨hreach, hfault, ?_, (hagain fun _ _ => rfl).2⟩
  rw [hcpu]
  decide

end Machine

end Mips
