import Mips.Machine
import Mips.Proofs.Cpu.Retire
import Mips.Proofs.Instruction.Flow
/-!
# What one step can do

A step ends in one of three ways: the fetch fails, the fetched word cannot be executed, or it
retires.  `Machine.step_cases` gives the state after each of them; what a run does is derived from
it alone.
-/

namespace Mips

@[simp] theorem Cpu.action_fetched (c : Cpu) (w v : Word) :
    (c.fetched w).action v = c.action v := rfl

namespace Action

variable {μ : Type} [Memory μ]

/-- The effects that an action may come to, when it is carried out on `memory`. -/
inductive Yields (memory : μ) : Action → Effect → Prop where
  | retire (e : Effect) : Yields memory (.retire e) e
  | load8 {dst : Reg} {a : Word} {extend : Byte → DWord} {b : Byte} :
      (Memory.read8 memory a).1 = .ok b →
        Yields memory (.load8 dst a extend) (.put dst (extend b))
  | load32 {dst : Reg} {a : Word} {extend : Word → DWord} {v : Word} :
      (Memory.read32 memory a).1 = .ok v →
        Yields memory (.load32 dst a extend) (.put dst (extend v))
  | store8 (a : Word) (b : Byte) : Yields memory (.store8 a b) {}
  | store32 (a w : Word) : Yields memory (.store32 a w) {}

theorem yields_of_perform_ok {c : Cpu} {memory memory' : μ} {a : Action} {e : Effect}
    (hperform : a.perform c memory = (.ok e, memory')) : a.Yields memory e := by
  cases a with
  | retire e' => cases hperform; exact .retire e
  | load8 dst a extend =>
    rcases hread : Memory.read8 memory a with ⟨_ | b, _⟩ <;>
      simp only [perform, hread] at hperform <;> cases hperform
    exact .load8 (congrArg Prod.fst hread)
  | load32 dst a extend =>
    rcases hread : Memory.read32 memory a with ⟨_ | v, _⟩ <;>
      simp only [perform, hread] at hperform <;> cases hperform
    exact .load32 (congrArg Prod.fst hread)
  | store8 a b =>
    rcases hwrite : Memory.write8 memory a b with ⟨_ | _, _⟩ <;>
      simp only [perform, hwrite] at hperform <;> cases hperform
    exact .store8 a b
  | store32 a w =>
    rcases hwrite : Memory.write32 memory a w with ⟨_ | _, _⟩ <;>
      simp only [perform, hwrite] at hperform <;> cases hperform
    exact .store32 a w
  | refuse => cases hperform

theorem perform_of_ne_refuse {a : Action} (ha : a ≠ .refuse) (c c' : Cpu) (memory : μ) :
    a.perform c memory = a.perform c' memory := by
  cases a with
  | refuse => exact absurd rfl ha
  | retire | load8 | load32 | store8 | store32 => rfl

theorem Yields.transfer_eq {memory : μ} {a : Action} {e : Effect} (hyields : a.Yields memory e) :
    e.transfer = a.transfer := by
  cases hyields <;> rfl

end Action

namespace Machine

variable {μ : Type} [Memory μ]

def fetch (m : Machine μ) : Except Fault Word × μ := Memory.read32 m.memory m.cpu.pc

def attempt (m : Machine μ) (w : Word) (memory : μ) : Except Fault Effect × μ :=
  (m.cpu.action w).perform (m.cpu.fetched w) memory

theorem step_of_fetch_error {m : Machine μ} {f : Fault} {memory : μ}
    (hfetch : m.fetch = (.error f, memory)) :
    m.step = (some f, ⟨{ m.cpu with annul := false }, memory⟩) := by
  unfold fetch at hfetch
  simp only [step, hfetch]

theorem step_of_attempt_error {m : Machine μ} {w : Word} {f : Fault} {memory memory' : μ}
    (hfetch : m.fetch = (.ok w, memory)) (hattempt : m.attempt w memory = (.error f, memory')) :
    m.step = (some f, ⟨m.cpu.fetched w, memory'⟩) := by
  unfold fetch at hfetch
  have hexecute : execute ⟨m.cpu.fetched w, memory⟩ w = (.error f, memory') := by
    unfold attempt at hattempt
    simp only [execute, Cpu.action_fetched, hattempt]
    rfl
  unfold Cpu.fetched at hexecute
  simp only [step, hfetch, hexecute]
  rfl

theorem step_of_attempt_ok {m : Machine μ} {w : Word} {e : Effect} {memory memory' : μ}
    (hfetch : m.fetch = (.ok w, memory)) (hattempt : m.attempt w memory = (.ok e, memory')) :
    m.step = (none, ⟨m.cpu.retire w e, memory'⟩) := by
  unfold fetch at hfetch
  have hexecute : execute ⟨m.cpu.fetched w, memory⟩ w =
      (.ok ((m.cpu.fetched w).commit e), memory') := by
    unfold attempt at hattempt
    simp only [execute, Cpu.action_fetched, hattempt]
    rfl
  unfold Cpu.fetched at hexecute
  simp only [step, hfetch, hexecute]
  rfl

/-- An instruction without an access to memory retires. -/
theorem step_of_action_retire {m : Machine μ} {w : Word} {e : Effect}
    (hfetch : m.fetch.1 = .ok w) (haction : m.cpu.action w = .retire e) :
    m.step = (none, ⟨m.cpu.retire w e, m.fetch.2⟩) := by
  have hattempt : m.attempt w m.fetch.2 = (.ok e, m.fetch.2) := by
    rw [attempt, haction]
    rfl
  exact step_of_attempt_ok (Prod.ext hfetch rfl) hattempt

/-- A word that the machine does not execute. -/
theorem step_of_refuse {m : Machine μ} {w : Word}
    (hfetch : m.fetch.1 = .ok w) (haction : m.cpu.action w = .refuse) :
    m.step = (some (.unimplemented m.cpu.pc w (disassemble w m.cpu.pc)),
      ⟨m.cpu.fetched w, m.fetch.2⟩) := by
  apply step_of_attempt_error (Prod.ext hfetch rfl)
  rw [attempt, haction]
  rfl

/-- The three ways in which a step ends. -/
theorem step_cases (m : Machine μ) :
    (∃ f memory, m.fetch = (.error f, memory) ∧
      m.step = (some f, ⟨{ m.cpu with annul := false }, memory⟩)) ∨
    (∃ w memory f memory', m.fetch = (.ok w, memory) ∧ m.attempt w memory = (.error f, memory') ∧
      m.step = (some f, ⟨m.cpu.fetched w, memory'⟩)) ∨
    (∃ w memory e memory', m.fetch = (.ok w, memory) ∧ m.attempt w memory = (.ok e, memory') ∧
      m.step = (none, ⟨m.cpu.retire w e, memory'⟩)) := by
  rcases hfetch : m.fetch with ⟨_ | w, memory⟩
  · exact .inl ⟨_, _, rfl, step_of_fetch_error hfetch⟩
  · rcases hattempt : m.attempt w memory with ⟨_ | e, memory'⟩
    · exact .inr (.inl ⟨_, _, _, _, rfl, hattempt, step_of_attempt_error hfetch hattempt⟩)
    · exact .inr (.inr ⟨_, _, _, _, rfl, hattempt, step_of_attempt_ok hfetch hattempt⟩)

theorem exists_of_step_retires {m m' : Machine μ} (hstep : m.step = (none, m')) :
    ∃ w memory e, m.fetch = (.ok w, memory) ∧ m.attempt w memory = (.ok e, m'.memory) ∧
      m'.cpu = m.cpu.retire w e := by
  obtain ⟨_, _, -, h⟩ | ⟨_, _, _, _, -, -, h⟩ | ⟨w, memory, e, _, hfetch, hattempt, h⟩ :=
    m.step_cases
  · simp [h] at hstep
  · simp [h] at hstep
  · obtain rfl : _ = m' := congrArg Prod.snd (h.symm.trans hstep)
    exact ⟨w, memory, e, hfetch, hattempt, rfl⟩

/-- The machine after `n` steps, whether they retire or fail. -/
def steps : Nat → Machine μ → Machine μ
  | 0, m => m
  | n + 1, m => steps n m.step.2

theorem steps_succ (n : Nat) (m : Machine μ) : m.steps (n + 1) = (m.steps n).step.2 := by
  induction n generalizing m with
  | zero => rfl
  | succ n ih => exact ih m.step.2

theorem annul_step (m : Machine μ) : m.step.2.cpu.annul = false := by
  obtain ⟨_, _, -, h⟩ | ⟨_, _, _, _, -, -, h⟩ | ⟨_, _, _, _, -, -, h⟩ := m.step_cases
  · rw [h]
  · rw [h]; rfl
  · rw [h, Cpu.retire_eq]

end Machine

end Mips
