import Mips.Memory.Probe
import Mips.Proofs.Memory.Keeping
import Mips.Proofs.Machine.Trail
/-!
# Memories that answer alike

A relation between two memories, perhaps of different kinds, under which they answer every access
alike and stay related.  The same processor then does the same with either of them.
-/

namespace Mips

namespace Memory

/-- Related memories answer alike, and are still related after the access. -/
structure Agree {μ ν : Type} [Memory μ] [Memory ν] (R : μ → ν → Prop) : Prop where
  read8 : ∀ {m m'} (a : Word), R m m' →
    (Memory.read8 m a).1 = (Memory.read8 m' a).1 ∧ R (Memory.read8 m a).2 (Memory.read8 m' a).2
  read32 : ∀ {m m'} (a : Word), R m m' →
    (Memory.read32 m a).1 = (Memory.read32 m' a).1 ∧
      R (Memory.read32 m a).2 (Memory.read32 m' a).2
  write8 : ∀ {m m'} (a : Word) (b : Byte), R m m' →
    (Memory.write8 m a b).1 = (Memory.write8 m' a b).1 ∧
      R (Memory.write8 m a b).2 (Memory.write8 m' a b).2
  write32 : ∀ {m m'} (a w : Word), R m m' →
    (Memory.write32 m a w).1 = (Memory.write32 m' a w).1 ∧
      R (Memory.write32 m a w).2 (Memory.write32 m' a w).2

end Memory

section

variable {μ ν : Type} [Memory μ] [Memory ν] {R : μ → ν → Prop}

theorem Action.perform_agree (hagree : Memory.Agree R) (c : Cpu) {memory : μ} {memory' : ν}
    (hrelated : R memory memory') (a : Action) :
    (a.perform c memory).1 = (a.perform c memory').1 ∧
      R (a.perform c memory).2 (a.perform c memory').2 := by
  cases a with
  | retire | refuse => exact ⟨rfl, hrelated⟩
  | load8 dst a extend =>
    obtain ⟨hanswer, hafter⟩ := hagree.read8 a hrelated
    exact ⟨congrArg (Except.map _) hanswer, hafter⟩
  | load32 dst a extend =>
    obtain ⟨hanswer, hafter⟩ := hagree.read32 a hrelated
    exact ⟨congrArg (Except.map _) hanswer, hafter⟩
  | store8 a b =>
    obtain ⟨hanswer, hafter⟩ := hagree.write8 a b hrelated
    exact ⟨congrArg (Except.map _) hanswer, hafter⟩
  | store32 a w =>
    obtain ⟨hanswer, hafter⟩ := hagree.write32 a w hrelated
    exact ⟨congrArg (Except.map _) hanswer, hafter⟩

namespace Machine

/-- The same processor with related memories. -/
structure Related (R : μ → ν → Prop) (m : Machine μ) (m' : Machine ν) : Prop where
  cpu : m.cpu = m'.cpu
  memory : R m.memory m'.memory

variable {m : Machine μ} {m' : Machine ν}

theorem Related.fetch (hrelated : m.Related R m') (hagree : Memory.Agree R) :
    m.fetch.1 = m'.fetch.1 ∧ R m.fetch.2 m'.fetch.2 := by
  rw [Machine.fetch, Machine.fetch, hrelated.cpu]
  exact hagree.read32 m'.cpu.pc hrelated.memory

theorem Related.step (hrelated : m.Related R m') (hagree : Memory.Agree R) :
    m.step.1 = m'.step.1 ∧ m.step.2.Related R m'.step.2 := by
  obtain ⟨hfetch, hfetched⟩ := hrelated.fetch hagree
  have hattempt (w : Word) {memory : μ} {memory' : ν} (h : R memory memory') :
      (m.attempt w memory).1 = (m'.attempt w memory').1 ∧
        R (m.attempt w memory).2 (m'.attempt w memory').2 := by
    rw [attempt, attempt, hrelated.cpu]
    exact Action.perform_agree hagree _ h _
  obtain ⟨f, memory, hread, hstep⟩ | ⟨w, memory, f, after, hread, hdone, hstep⟩ |
    ⟨w, memory, e, after, hread, hdone, hstep⟩ := m.step_cases
  · rw [hread] at hfetch hfetched
    have hread' : m'.fetch = (.error f, m'.fetch.2) := Prod.ext hfetch.symm rfl
    rw [hstep, step_of_fetch_error hread', hrelated.cpu]
    exact ⟨rfl, rfl, hfetched⟩
  · rw [hread] at hfetch hfetched
    have hread' : m'.fetch = (.ok w, m'.fetch.2) := Prod.ext hfetch.symm rfl
    obtain ⟨hanswer, hafter⟩ := hattempt w hfetched
    rw [hdone] at hanswer hafter
    rw [hstep, step_of_attempt_error hread' (Prod.ext hanswer.symm rfl), hrelated.cpu]
    exact ⟨rfl, rfl, hafter⟩
  · rw [hread] at hfetch hfetched
    have hread' : m'.fetch = (.ok w, m'.fetch.2) := Prod.ext hfetch.symm rfl
    obtain ⟨hanswer, hafter⟩ := hattempt w hfetched
    rw [hdone] at hanswer hafter
    rw [hstep, step_of_attempt_ok hread' (Prod.ext hanswer.symm rfl), hrelated.cpu]
    exact ⟨rfl, rfl, hafter⟩

end Machine

end

/-! ## Probes -/

namespace Probe

variable {μ : Type} [Memory μ]

/-- The probes differ at most in the accesses that they have noted. -/
def SameFaults (p p' : Probe μ) : Prop := p.memory = p'.memory ∧ p.faults = p'.faults

omit [Memory μ] in
theorem pass_sameFaults {α : Type} {p p' : Probe μ} (hsame : p.SameFaults p') (x : Access)
    (run : μ → Except Fault α × μ) :
    (p.pass x run).1 = (p'.pass x run).1 ∧ (p.pass x run).2.SameFaults (p'.pass x run).2 := by
  obtain ⟨hmemory, hfaults⟩ := hsame
  unfold pass
  rw [hfaults, hmemory]
  dsimp only
  split
  · exact ⟨rfl, rfl, rfl⟩
  · exact ⟨rfl, rfl, rfl⟩

theorem sameFaults_agree : Memory.Agree (SameFaults (μ := μ)) where
  read8 _ hsame := pass_sameFaults hsame _ _
  read32 _ hsame := pass_sameFaults hsame _ _
  write8 _ _ hsame := pass_sameFaults hsame _ _
  write32 _ _ hsame := pass_sameFaults hsame _ _

omit [Memory μ] in
theorem accesses_pass {α : Type} (p : Probe μ) (x : Access) (run : μ → Except Fault α × μ) :
    (p.pass x run).2.accesses = p.accesses.push x := by
  unfold pass
  split <;> rfl

/-- A read does nothing but to be noted. -/
theorem read32_sameFaults (hread : Memory.ReadsKeep μ) (p : Probe μ) (a : Word) :
    (Memory.read32 p a).2.SameFaults p := by
  change (p.pass (.read32 a) (Memory.read32 · a)).2.SameFaults p
  unfold pass
  split
  · exact ⟨rfl, rfl⟩
  · exact ⟨hread.read32 p.memory a, rfl⟩

/-- The probe stands before the memory and lets every access through. -/
def Clear (p : Probe μ) (memory : μ) : Prop := p.memory = memory ∧ p.faults = []

omit [Memory μ] in
theorem pass_clear {α : Type} {p : Probe μ} {memory : μ} (hclear : p.Clear memory) (x : Access)
    (run : μ → Except Fault α × μ) :
    (p.pass x run).1 = (run memory).1 ∧ (p.pass x run).2.Clear (run memory).2 := by
  obtain ⟨rfl, hfaults⟩ := hclear
  unfold pass
  rw [hfaults]
  exact ⟨rfl, rfl, rfl⟩

theorem clear_agree : Memory.Agree (Clear (μ := μ)) where
  read8 _ hclear := pass_clear hclear _ _
  read32 _ hclear := pass_clear hclear _ _
  write8 _ _ hclear := pass_clear hclear _ _
  write32 _ _ hclear := pass_clear hclear _ _

/-- A probe is not felt unless it is told to let accesses fail. -/
theorem step_clear {m : Machine (Probe μ)} {m' : Machine μ} (hclear : m.Related Clear m') :
    m.step.1 = m'.step.1 ∧ m.step.2.Related Clear m'.step.2 :=
  hclear.step clear_agree

end Probe

end Mips
