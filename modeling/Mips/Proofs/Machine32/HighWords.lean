import Mips.Proofs.Machine.Trail
import Mips.Proofs.Machine32.Simulation
/-!
# High words do not matter

Only the comparisons of whole registers look at high words.  Two machines that differ in high words
alone are simulated by the same machine of 32 bits until such a comparison is executed, so they do
the same at every step of a run without one.
-/

namespace Mips

namespace Cpu

/-- The processors differ in nothing but the high words of their general and product registers. -/
structure AlikeLow (c c' : Cpu) : Prop where
  word : ∀ r, c.word r = c'.word r
  hi : c.hi.lo = c'.hi.lo
  lo : c.lo.lo = c'.lo.lo
  rest : c' = { c with gpr := c'.gpr, hi := c'.hi, lo := c'.lo }

theorem AlikeLow.narrow {c c' : Cpu} (halike : c.AlikeLow c') : c.narrow = c'.narrow := by
  have hgpr : c.gpr.map DWord.lo = c'.gpr.map DWord.lo := by
    apply Vector.ext
    intro i hi
    rw [Vector.getElem_map, Vector.getElem_map]
    exact halike.word ⟨i, hi⟩
  obtain ⟨-, hhi, hlo, hrest⟩ := halike
  unfold Cpu.narrow
  rw [hgpr, hhi, hlo, hrest]

theorem alikeLow_of_narrow {c c' : Cpu} (hnarrow : c.narrow = c'.narrow)
    (hannul : c.annul = c'.annul) (hhalted : c.halted = c'.halted)
    (hreason : c.haltReason = c'.haltReason) (hretired : c.retired = c'.retired)
    (hcurrent : c.current = c'.current) : c.AlikeLow c' where
  word r := by simpa [Cpu.word] using congrArg (·.reg r) hnarrow
  hi := congrArg Cpu32.hi hnarrow
  lo := congrArg Cpu32.lo hnarrow
  rest := by
    have hcontrol : c.control = c'.control := congrArg Cpu32.control hnarrow
    have hpc : c.pc = c'.pc := congrArg Cpu32.pc hnarrow
    have hpending : c.pending = c'.pending := congrArg Cpu32.pending hnarrow
    rw [hcontrol, hpc, hpending, hannul, hhalted, hreason, hretired, hcurrent]

end Cpu

namespace Machine

variable {μ : Type} [Memory μ]

structure AlikeLow (m m' : Machine μ) : Prop where
  cpu : m.cpu.AlikeLow m'.cpu
  memory : m.memory = m'.memory

def comparesWide (m : Machine μ) : Bool :=
  m.fetch.1.toOption.any fun w => (Opcode.decode w).comparesWide

/-- Where a step fetches, what it fetches and why it fails, if it does. -/
def glimpse (m : Machine μ) : Word × Except Fault Word × Option Fault :=
  (m.cpu.pc, m.fetch.1, m.step.1)

theorem simulated_of_narrow {m : Machine μ} (hnarrow : m.comparesWide = false) :
    m.Simulated := by
  intro w memory hfetch
  apply Cpu.execute_narrow_of_narrow
  rw [comparesWide, hfetch] at hnarrow
  exact hnarrow

section

variable {m m' : Machine μ}

omit [Memory μ] in
theorem AlikeLow.pc (halike : m.AlikeLow m') : m.cpu.pc = m'.cpu.pc :=
  congrArg Cpu32.pc halike.cpu.narrow

theorem AlikeLow.fetch (halike : m.AlikeLow m') : m.fetch = m'.fetch := by
  have hpc := halike.pc
  rw [Machine.fetch, Machine.fetch, hpc, halike.memory]

theorem AlikeLow.comparesWide (halike : m.AlikeLow m') : m.comparesWide = m'.comparesWide := by
  rw [Machine.comparesWide, Machine.comparesWide, halike.fetch]

theorem AlikeLow.step (halike : m.AlikeLow m') (hnarrow : m.comparesWide = false) :
    m.step.1 = m'.step.1 ∧ m.step.2.AlikeLow m'.step.2 := by
  have hnarrow' : m'.comparesWide = false := halike.comparesWide ▸ hnarrow
  have hsame : m.narrow = m'.narrow := by
    rw [Machine.narrow, Machine.narrow, halike.cpu.narrow, halike.memory]
  have hstep : (m.step.1, m.step.2.narrow) = (m'.step.1, m'.step.2.narrow) := by
    rw [← step_narrow_of_simulated (simulated_of_narrow hnarrow), hsame,
      step_narrow_of_simulated (simulated_of_narrow hnarrow')]
  obtain ⟨hfault, hlow⟩ := Prod.mk.inj hstep
  obtain ⟨hcpu, hmemory⟩ := Machine32.mk.inj hlow
  obtain ⟨hhalted, hreason, hannul, hretired, hcurrent⟩ := m.rest_step
  obtain ⟨hhalted', hreason', hannul', hretired', hcurrent'⟩ := m'.rest_step
  have hrest := halike.cpu.rest
  refine ⟨hfault, Cpu.alikeLow_of_narrow hcpu ?_ ?_ ?_ ?_ ?_, hmemory⟩
  · rw [hannul, hannul']
  · rw [hhalted, hhalted', hrest]
  · rw [hreason, hreason', hrest]
  · rw [hretired, hretired', hfault, hrest]
  · rw [hcurrent, hcurrent', halike.fetch, hrest]

omit [Memory μ] in
theorem AlikeLow.halt (halike : m.AlikeLow m') (f : Fault) : (m.halt f).AlikeLow (m'.halt f) := by
  obtain ⟨⟨hword, hhi, hlo, hrest⟩, hmemory⟩ := halike
  exact ⟨⟨hword, hhi, hlo, congrArg (Cpu.halt · f.message) hrest⟩, hmemory⟩

omit [Memory μ] in
theorem AlikeLow.resume (halike : m.AlikeLow m') : m.resume.AlikeLow m'.resume := by
  obtain ⟨⟨hword, hhi, hlo, hrest⟩, hmemory⟩ := halike
  exact ⟨⟨hword, hhi, hlo, congrArg Cpu.resume hrest⟩, hmemory⟩

/-- By induction on the budget: both machines attempt the same and stay alike. -/
theorem AlikeLow.proceed (halike : m.AlikeLow m') (n : Nat)
    (hnarrow : ∀ a ∈ m.attempts n, a.comparesWide = false) :
    (m.attempts n).map glimpse = (m'.attempts n).map glimpse ∧
      (m.proceed n).AlikeLow (m'.proceed n) := by
  induction n generalizing m m' with
  | zero => exact ⟨rfl, halike⟩
  | succ n ih =>
    have hsame : m.cpu.halted = m'.cpu.halted := by rw [halike.cpu.rest]
    cases hhalted : m.cpu.halted with
    | true =>
      have hhalted' : m'.cpu.halted = true := hsame ▸ hhalted
      rw [attempts_of_halted hhalted, attempts_of_halted hhalted', proceed_of_halted hhalted,
        proceed_of_halted hhalted']
      exact ⟨rfl, halike⟩
    | false =>
      have hhalted' : m'.cpu.halted = false := hsame ▸ hhalted
      have hfirst : m ∈ m.attempts (n + 1) := by
        rw [attempts, hhalted]
        exact .head _
      obtain ⟨hfault, hnext⟩ := halike.step (hnarrow m hfirst)
      have hglimpse : m.glimpse = m'.glimpse := by
        rw [glimpse, glimpse, halike.pc, halike.fetch, hfault]
      cases hstep : m.step.1 with
      | none =>
        have hretires : m.step = (none, m.step.2) := Prod.ext hstep rfl
        have hretires' : m'.step = (none, m'.step.2) := Prod.ext (hfault ▸ hstep) rfl
        rw [attempts_succ_of_retires hhalted hretires] at hnarrow ⊢
        rw [attempts_succ_of_retires hhalted' hretires',
          proceed_succ_of_retires hhalted hretires, proceed_succ_of_retires hhalted' hretires']
        obtain ⟨hattempts, hfinal⟩ := ih hnext fun a ha => hnarrow a (.tail _ ha)
        rw [List.map_cons, List.map_cons, hglimpse, hattempts]
        exact ⟨rfl, hfinal⟩
      | some f =>
        have hfails : m.step = (some f, m.step.2) := Prod.ext hstep rfl
        have hfails' : m'.step = (some f, m'.step.2) := Prod.ext (hfault ▸ hstep) rfl
        rw [attempts_succ_of_fails hhalted hfails, attempts_succ_of_fails hhalted' hfails',
          proceed_succ_of_fails hhalted hfails, proceed_succ_of_fails hhalted' hfails']
        exact ⟨congrArg (fun g => [g]) hglimpse, hnext.halt f⟩

/-- As long as no instruction compares whole registers, high words do not leak: two machines that
differ in nothing else retire the same number of instructions, fetch the same words at the same
addresses, fail at the same step with the same fault, and differ in nothing else afterwards. -/
theorem run_ignores_high_words (halike : m.AlikeLow m') (n : Nat)
    (hnarrow : ∀ a ∈ m.resume.attempts n, a.comparesWide = false) :
    m.retiredSince (m.run n) = m'.retiredSince (m'.run n) ∧
      (m.resume.attempts n).map glimpse = (m'.resume.attempts n).map glimpse ∧
      (m.run n).AlikeLow (m'.run n) := by
  obtain ⟨hattempts, hfinal⟩ := halike.resume.proceed n hnarrow
  refine ⟨?_, hattempts, hfinal⟩
  have hstart : m.cpu.retired = m'.cpu.retired := by rw [halike.cpu.rest]
  have hend : (m.run n).cpu.retired = (m'.run n).cpu.retired := by
    rw [run_eq, run_eq, hfinal.cpu.rest]
  rw [retiredSince, retiredSince, hstart, hend]

end

/-- Adds a register to itself, stores the sum at the address in the register, branches if it is
equal to another register, and meets a misaligned load in the delay slot. -/
def lowProgram (gpr : Vector DWord 32) : Machine Ram where
  cpu := { Cpu.reset with gpr, pc := 0x80000000 }
  memory := (((Ram.blank.setWord 0 0x00841021).setWord 4 0xAC820000).setWord 8 0x10850004).setWord
    12 0x8C420001

theorem lowProgram_ignores_high_words :
    let m := lowProgram (((Vector.replicate 32 0).set 4 0x100).set 5 0x100)
    let m' := lowProgram (((Vector.replicate 32 0).set 4 0xABCD00000100).set 5 0x700000100)
    m.AlikeLow m' ∧ (∀ a ∈ m.resume.attempts 9, a.comparesWide = false) ∧
      m.cpu.gpr ≠ m'.cpu.gpr ∧ (m.run 9).AlikeLow (m'.run 9) ∧
      (m'.run 9).cpu.haltReason = some "Unaligned memory access: 4-byte access at 0x00000201" := by
  intro m m'
  have halike : m.AlikeLow m' := ⟨⟨by decide, rfl, rfl, rfl⟩, rfl⟩
  have hnarrow : ∀ a ∈ m.resume.attempts 9, a.comparesWide = false := by decide
  obtain ⟨-, -, hfinal⟩ := run_ignores_high_words halike 9 hnarrow
  refine ⟨halike, hnarrow, by decide, hfinal, ?_⟩
  rw [hfinal.cpu.rest]
  decide

end Machine

end Mips
