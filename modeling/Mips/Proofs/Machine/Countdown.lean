import Mathlib.Tactic.Ring
import Mips.Proofs.Machine.Budget
import Mips.Proofs.Machine.Line
import Mips.Proofs.Machine.Sequencing
/-!
# A counted loop

`Machine.sumLoop` adds its counter to `v0` and counts down, until the counter is zero.  A round of
it is a straight line and a branch with its slot; what all rounds together come to is found by
induction on the count.
-/

namespace Mips

def Reg.t0 : Reg := ⟨8, by decide⟩

/-! ## Small numbers in registers -/

theorem toInt_ofNat_of_lt {w n : Nat} (hn : 2 * n < 2 ^ w) : (BitVec.ofNat w n).toInt = n := by
  have htoNat : (BitVec.ofNat w n).toNat = n := by
    rw [BitVec.toNat_ofNat, Nat.mod_eq_of_lt (by omega)]
  rw [BitVec.toInt_eq_toNat_of_lt (by rw [htoNat]; exact hn), htoNat]

theorem DWord.lo_ofNat (n : Nat) : DWord.lo (.ofNat 64 n) = .ofNat 32 n :=
  BitVec.setWidth_ofNat_of_le (by decide) n

theorem Word.sext_ofNat {n : Nat} (hn : n < 2 ^ 31) : Word.sext (.ofNat 32 n) = .ofNat 64 n := by
  apply BitVec.eq_of_toInt_eq
  rw [toInt_sext, toInt_ofNat_of_lt (by omega), toInt_ofNat_of_lt (by omega)]

theorem Calculation.value_add (v w : Word) :
    (wrapped (v.toInt + w.toInt)).value = (v + w).sext := by
  rw [value, BitVec.ofInt_add, BitVec.ofInt_toInt, BitVec.ofInt_toInt]

namespace Registers

/-- The registers with something added to the sum, and another count. -/
def summed (s : Registers) (sum : Word) (count : DWord) : Registers :=
  (s.put .v0 ((s.general .v0).lo + sum).sext).put .t0 count

theorem general_summed_t0 (s : Registers) (sum : Word) (count : DWord) :
    (s.summed sum count).general .t0 = count := by
  rw [summed, general_put, if_pos (by decide)]

theorem general_summed_v0 (s : Registers) (sum : Word) (count : DWord) :
    (s.summed sum count).general .v0 = ((s.general .v0).lo + sum).sext := by
  rw [summed, general_put, if_neg (by decide), general_put, if_pos (by decide)]

theorem summed_summed (s : Registers) (x y : Word) (d e : DWord) :
    (s.summed x d).summed y e = s.summed (x + y) e := by
  rw [summed, general_summed_v0, Word.lo_sext, summed, summed, BitVec.add_assoc,
    put_comm (r := .t0) _ _ _ (by decide), put_put, put_put]

/-- The sum and the counter after a round that found `n + 1` in the counter. -/
theorem next_round {s : Registers} {n : Nat} (hn : n + 1 < 2 ^ 31)
    (hcount : s.general .t0 = .ofNat 64 (n + 1)) :
    (s.next 0x00481021).next 0x2508FFFF = s.summed (.ofNat 32 (n + 1)) (.ofNat 64 n) := by
  have hadd : s.next 0x00481021 = s.put .v0 ((s.general .v0).lo + .ofNat 32 (n + 1)).sext := by
    rw [← DWord.lo_ofNat, ← hcount, ← Calculation.value_add]
    rfl
  rw [hadd, summed]
  generalize hsum : s.put .v0 _ = sum
  have hcount' : sum.general .t0 = .ofNat 64 (n + 1) := by
    rw [← hsum, general_put, if_neg (by decide), hcount]
  have himm : Word.immediate 0x2508FFFF = -1 := by decide
  have hpred : ((n + 1 : Nat) : Int) + -1 = n := by omega
  show sum.put .t0 (Calculation.wrapped ((sum.general .t0).lo.toInt + _)).value = _
  rw [hcount', DWord.lo_ofNat, toInt_ofNat_of_lt (by omega), himm, hpred, Calculation.value,
    BitVec.ofInt_natCast, Word.sext_ofNat (by omega)]

end Registers

namespace Machine

/-! ## Branches -/

/-- A branch that neither links nor skips its delay slot. -/
theorem step_branch {μ : Type} [Memory μ] {m : Machine μ} {w : Word}
    (hfetch : m.fetch.1 = .ok w) (hpending : m.cpu.pending = none)
    (hbranch : (Opcode.decode w).isBranch = true) (hlikely : (Opcode.decode w).isLikely = false)
    (hlink : w.linkReg? = none) :
    ∃ m', m.step = (none, m') ∧ m'.memory = m.fetch.2 ∧
      m'.cpu.sequencer = ⟨m.cpu.pc + 4,
        if w.taken m.cpu.reg then some (w.target m.cpu.pc m.cpu.reg) else none⟩ ∧
      m'.cpu.registers = m.cpu.registers := by
  have hleaves : (Opcode.decode w).leaves = true := by
    rw [Opcode.leaves, hbranch, Bool.or_true]
  have hnext : m.cpu.sequencer.next m.cpu.reg w = ⟨m.cpu.pc + 4,
      if w.taken m.cpu.reg then some (w.target m.cpu.pc m.cpu.reg) else none⟩ := by
    rw [Sequencer.next, Cpu.sequencer, hpending, hlikely]
    cases w.taken m.cpu.reg <;> rfl
  have hlinked : (m.cpu.linked w).registers = m.cpu.registers := by
    rw [Cpu.linked, hlink]
    rfl
  exact ⟨_, step_of_leaves hfetch hleaves, rfl, hnext, hlinked⟩

/-- Such a branch, and the instruction in its delay slot. -/
theorem drive_branch {m : Machine Ram} {a : Word} {program : List Word} {k : Nat}
    (hcarries : m.memory.Carries a program)
    (hstart : m.cpu.sequencer = ⟨a + .ofNat 32 (4 * k), none⟩) (hk : k + 1 < program.length)
    (hbranch : (Opcode.decode program[k]).isBranch = true)
    (hlikely : (Opcode.decode program[k]).isLikely = false) (hlink : program[k].linkReg? = none)
    (hslot : (Opcode.decode program[k + 1]).onRegisters = true) :
    ∃ m', m.drive 2 = (none, m') ∧ m'.memory = m.memory ∧
      m'.cpu.sequencer = ⟨if program[k].taken m.cpu.reg then program[k].target m.cpu.pc m.cpu.reg
        else a + .ofNat 32 (4 * (k + 2)), none⟩ ∧
      m'.cpu.registers = m.cpu.registers.next program[k + 1] := by
  have hpc : m.cpu.pc = a + .ofNat 32 (4 * k) := congrArg Sequencer.pc hstart
  have hfetch := fetch_of_carries hcarries (Nat.lt_of_succ_lt hk) hpc
  obtain ⟨m₁, hstep, hkeep, hsequencer, hregisters⟩ :=
    step_branch (congrArg Prod.fst hfetch) (congrArg Sequencer.pending hstart) hbranch hlikely
      hlink
  have hmemory : m₁.memory = m.memory := hkeep.trans (congrArg Prod.snd hfetch)
  rw [← hmemory] at hcarries
  have hpc₁ : m₁.cpu.pc = a + .ofNat 32 (4 * (k + 1)) := by
    rw [Ram.add_words_succ, ← hpc]
    exact congrArg Sequencer.pc hsequencer
  have hpending₁ : m₁.cpu.pending = _ := congrArg Sequencer.pending hsequencer
  have hfetch₁ := fetch_of_carries hcarries hk hpc₁
  obtain ⟨m₂, hstep₁, hmemory₁, hsequencer₁, hregisters₁⟩ :=
    step_onRegisters (congrArg Prod.fst hfetch₁) hslot
  refine ⟨m₂, drive_succ (drive_succ rfl hstep) hstep₁, ?_, ?_, ?_⟩
  · rw [hmemory₁, hfetch₁, hmemory]
  · rw [hsequencer₁, hpending₁, hpc₁, ← Ram.add_words_succ]
    cases program[k].taken m.cpu.reg <;> rfl
  · rw [hregisters₁, hregisters]

/-! ## The loop -/

/-- From its counter down to 1, all numbers are added to `v0`. -/
def sumLoop : List Word :=
  [0x00481021,  -- addu v0, v0, t0
   0x2508FFFF,  -- addiu t0, t0, -1
   0x1D00FFFD,  -- bgtz t0, -3
   0x00000000,  -- nop
   0x0000000D]  -- break

theorem drive_round {m : Machine Ram} {base : Word} {n : Nat}
    (hcarries : m.memory.Carries base sumLoop) (hstart : m.cpu.sequencer = ⟨base, none⟩)
    (hn : n + 1 < 2 ^ 31) (hcount : m.cpu.reg .t0 = .ofNat 64 (n + 1)) :
    ∃ m', m.drive 4 = (none, m') ∧ m'.memory = m.memory ∧
      m'.cpu.sequencer = ⟨if 0 < n then base else base + 16, none⟩ ∧
      m'.cpu.registers = m.cpu.registers.summed (.ofNat 32 (n + 1)) (.ofNat 64 n) := by
  have hpc : m.cpu.pc = base := congrArg Sequencer.pc hstart
  have hpending : m.cpu.pending = none := congrArg Sequencer.pending hstart
  -- The sum and the count.
  rw [← hpc] at hcarries
  obtain ⟨m₁, hline, hpassed⟩ :=
    drive_line hcarries hpending (n := 2) (by decide) (List.all_eq_true.mp rfl)
  have hregisters : m₁.cpu.registers = _ :=
    hpassed.registers.trans (Registers.next_round (s := m.cpu.registers) hn hcount)
  have hcount₁ : m₁.cpu.reg .t0 = .ofNat 64 n := by
    rw [← Cpu.general_registers, hregisters, Registers.general_summed_t0]
  -- The branch back.
  rw [← hpassed.memory] at hcarries
  obtain ⟨m₂, hback, hmemory, hsequencer, hregisters₂⟩ :=
    drive_branch (k := 2) hcarries hpassed.sequencer (by decide) rfl rfl rfl rfl
  have htaken : sumLoop[2].taken m₁.cpu.reg = decide (0 < n) := by
    show decide (0 < (m₁.cpu.reg .t0).toInt) = _
    rw [hcount₁, toInt_ofNat_of_lt (by omega)]
    exact decide_eq_decide.mpr Int.natCast_pos
  have htarget : sumLoop[2].target m₁.cpu.pc m₁.cpu.reg = base := by
    have hback : (Word.simm 0x1D00FFFD) <<< 2 = -12 := by decide
    have hpc₁ : m₁.cpu.pc = m.cpu.pc + 8 := congrArg Sequencer.pc hpassed.sequencer
    calc sumLoop[2].target m₁.cpu.pc m₁.cpu.reg
        = Word.branchTarget 0x1D00FFFD m₁.cpu.pc := by rw [Word.branchTarget_eq]; rfl
      _ = base + 8 + 4 + -12 := by rw [Word.branchTarget, hback, hpc₁, hpc]; rfl
      _ = base := by rw [BitVec.add_assoc, BitVec.add_assoc]; exact BitVec.add_zero base
  refine ⟨m₂, (drive_add hline 2).trans hback, ?_, ?_, ?_⟩
  · rw [hmemory, hpassed.memory]
  · rw [hsequencer, htaken, htarget, hpc]
    simp only [decide_eq_true_iff]
    rfl
  · rw [hregisters₂, hregisters]
    rfl

/-- All rounds. -/
theorem drive_rounds {m : Machine Ram} {base : Word} {n : Nat}
    (hcarries : m.memory.Carries base sumLoop) (hstart : m.cpu.sequencer = ⟨base, none⟩)
    (hn : n + 1 < 2 ^ 31) (hcount : m.cpu.reg .t0 = .ofNat 64 (n + 1)) :
    ∃ m', m.drive (4 * (n + 1)) = (none, m') ∧ m'.memory = m.memory ∧
      m'.cpu.sequencer = ⟨base + 16, none⟩ ∧
      m'.cpu.registers = m.cpu.registers.summed (.ofNat 32 ((n + 1) * (n + 2) / 2)) 0 := by
  induction n generalizing m with
  | zero => exact drive_round hcarries hstart hn hcount
  | succ n ih =>
    obtain ⟨m₁, hround, hmemory, hsequencer, hregisters⟩ :=
      drive_round hcarries hstart hn hcount
    have hcount₁ : m₁.cpu.reg .t0 = .ofNat 64 (n + 1) := by
      rw [← Cpu.general_registers, hregisters, Registers.general_summed_t0]
    rw [← hmemory] at hcarries
    obtain ⟨m₂, hrounds, hmemory₂, hsequencer₂, hregisters₂⟩ :=
      ih hcarries hsequencer (by omega) hcount₁
    have hsteps : 4 * (n + 1 + 1) = 4 + 4 * (n + 1) := by omega
    -- The rest of the rounds adds one number less.
    have htriangle : (n + 1 + 1) * (n + 1 + 2) / 2 = n + 1 + 1 + (n + 1) * (n + 2) / 2 := by
      have hsplit : (n + 1 + 1) * (n + 1 + 2) = (n + 1 + 1) * 2 + (n + 1) * (n + 2) := by ring
      omega
    refine ⟨m₂, ?_, hmemory₂.trans hmemory, hsequencer₂, ?_⟩
    · rw [hsteps, drive_add hround, hrounds]
    · rw [hregisters₂, hregisters, Registers.summed_summed, htriangle,
        BitVec.ofNat_add (n + 1 + 1)]

/-! ## Its end -/

/-- The loop counts down from any positive number that is a word, whatever the sum is at first, and
runs into the word behind it when its counter is zero. -/
theorem run_sumLoop {m : Machine Ram} {base : Word} {n : Nat}
    (hcarries : m.memory.Carries base sumLoop) (hpc : m.cpu.pc = base)
    (hpending : m.cpu.pending = none) (hcount : m.cpu.reg .t0 = .ofNat 64 n) (hpos : 1 ≤ n)
    (hlt : n < 2 ^ 31) (budget : Nat) :
    let final := m.run budget
    (4 * n < budget →
      m.retiredSince final = 4 * n ∧ final.cpu.halted = true ∧
      final.cpu.haltReason = some (Fault.unimplemented (base + 16) 0x0000000D "break").message ∧
      final.cpu.pc = base + 16 ∧ final.cpu.pending = none ∧
      final.cpu.registers = (m.cpu.registers.put .v0
        ((m.cpu.reg .v0).lo + .ofNat 32 (n * (n + 1) / 2)).sext).put .t0 0 ∧
      final.memory = m.memory) ∧
    (budget ≤ 4 * n → m.retiredSince final = budget ∧ final.cpu.halted = false) := by
  intro final
  obtain ⟨n, rfl⟩ := Nat.exists_eq_add_of_le' hpos
  have hstart : m.resume.cpu.sequencer = ⟨base, none⟩ := by
    rw [← hpc, ← hpending]
    rfl
  obtain ⟨m₁, hrounds, hmemory, hsequencer, hregisters⟩ :=
    drive_rounds (m := m.resume) hcarries hstart hlt hcount
  constructor
  · intro hbudget
    obtain ⟨k, rfl⟩ := Nat.exists_eq_add_of_lt hbudget
    have hpc₁ : m₁.cpu.pc = base + 16 := congrArg Sequencer.pc hsequencer
    have hcarries₁ : m₁.memory.Carries base sumLoop := by
      rw [hmemory]
      exact hcarries
    have hfetch := fetch_of_carries (k := 4) hcarries₁ (by decide) hpc₁
    have hbreak := step_of_refuse (congrArg Prod.fst hfetch) rfl
    have hfinal : final = _ := run_of_drive_of_fails hrounds hbreak k
    rw [hfinal]
    have hretired := retired_drive hrounds
    refine ⟨retiredSince_eq (by omega) hretired, rfl, ?_, hpc₁,
      congrArg Sequencer.pending hsequencer, hregisters, ?_⟩
    · rw [hpc₁]
      rfl
    · exact (congrArg Prod.snd hfetch).trans hmemory
  · intro hbudget
    obtain ⟨m₂, hdrive⟩ := exists_drive_of_le hrounds hbudget
    have hfinal : final = m₂ := run_of_drive hdrive
    have hfresh := fresh_drive (m := m.resume) ⟨rfl, rfl⟩ budget
    rw [hdrive] at hfresh
    have hretired := retired_drive hdrive
    rw [hfinal]
    exact ⟨retiredSince_eq (by omega) hretired, hfresh.1⟩

/-- Stands before the loop in the segment without a cache, with the longest count there is. -/
def longCount : Machine Ram where
  cpu := ((Cpu.reset.setReg .v0 0x1234567840000001).setReg .t0 0x7FFFFFFF).setPc 0xA0000100
  memory := Ram.blank.place (Ram.offset 0xA0000100) (Ram.image sumLoop)

theorem longCount_runs :
    longCount.memory.Carries 0xA0000100 sumLoop ∧ longCount.cpu.reg .t0 = .ofNat 64 (2 ^ 31 - 1) ∧
      longCount.retiredSince (longCount.run (2 ^ 33)) = 4 * (2 ^ 31 - 1) ∧
      (longCount.run (2 ^ 33)).cpu.pc = 0xA0000110 ∧
      (longCount.run (2 ^ 33)).cpu.reg .v0 = 1 ∧ (longCount.run (2 ^ 33)).cpu.reg .t0 = 0 ∧
      longCount.retiredSince (longCount.run (2 ^ 32)) = 2 ^ 32 := by
  have hcarries : longCount.memory.Carries 0xA0000100 sumLoop :=
    Ram.carries_place _ (by decide) (by decide)
  have hcount : longCount.cpu.reg .t0 = .ofNat 64 (2 ^ 31 - 1) := by decide
  obtain ⟨hretired, -, -, hpc, -, hregisters, -⟩ :=
    (run_sumLoop hcarries rfl rfl hcount (by decide) (by decide) (2 ^ 33)).1 (by decide)
  have hpart :=
    (run_sumLoop hcarries rfl rfl hcount (by decide) (by decide) (2 ^ 32)).2 (by decide)
  refine ⟨hcarries, hcount, hretired, hpc.trans (by decide), ?_, ?_, hpart.1⟩
  · rw [← Cpu.general_registers, hregisters]
    exact Registers.general_summed_v0 _ _ _
  · rw [← Cpu.general_registers, hregisters]
    exact Registers.general_summed_t0 _ _ _

end Machine

end Mips
