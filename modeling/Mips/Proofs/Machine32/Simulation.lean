import Mips.Memory.Ram
import Mips.Proofs.Machine.Canonical
import Mips.Proofs.Machine32.Interpreter
/-!
# Programs for 32 bits

A processor whose registers are all sign-extended words does, step by step, what the machine of 32
bits does on their low words, as long as no word is loaded without its sign.
-/

namespace Mips

private theorem set_eq_setIfInBounds {α : Type} {n : Nat} (xs : Vector α n) (r : Fin n) (x : α) :
    xs.set r x r.isLt = xs.setIfInBounds r x := by
  ext i hi
  rw [Vector.getElem_set, Vector.getElem_setIfInBounds]

/-- The instructions that compare all 64 bits of a register. -/
def Opcode.comparesWide : Opcode → Bool
  | .slt | .sltu | .slti => true
  | .blez | .bgtz | .bltz | .bgez | .bltzal | .bgezal => true
  | .beql | .bnel | .blezl | .bgtzl | .bltzl | .bgezl => true
  | _ => false

/-! ## Low words -/

def Cpu.narrow (c : Cpu) : Cpu32 where
  gpr := c.gpr.map DWord.lo
  hi := c.hi.lo
  lo := c.lo.lo
  control := c.control
  pc := c.pc
  pending := c.pending

namespace Cpu32

def changed (c : Cpu32) (e : Effect) : Cpu32 × Transfer :=
  let c := match e.write with
    | some (r, d) => c.setReg r d.lo
    | none => c
  let c := match e.product with
    | some (hi, lo) => { c with hi := hi.lo, lo := lo.lo }
    | none => c
  let c := match e.control with
    | some (r, v) => c.setControl r v
    | none => c
  (c, e.transfer)

theorem changed_put (c : Cpu32) (r : Reg) (d : DWord) : c.changed (.put r d) = c.put r d.lo := rfl

theorem changed_putWord (c : Cpu32) (r : Reg) (v : Word) :
    c.changed (.putWord r v) = c.put r v := by
  rw [Effect.putWord, changed_put, Word.lo_sext]

theorem changed_putBool (c : Cpu32) (r : Reg) (b : Bool) :
    c.changed (.putBool r b) = c.put r (if b then 1 else 0) := by
  cases b <;> rfl

theorem changed_multiply (c : Cpu32) (v w : Word) :
    c.changed { product := some (Cpu.multiply v w) } = c.multiply v w := by
  have hproduct : Cpu.multiply v w =
      (Word.sext (.ofInt 32 (v.toInt * w.toInt / 0x100000000)),
        Word.sext (.ofInt 32 (v.toInt * w.toInt))) := by
    rw [Cpu.multiply, DWord.sext_mul_sext, ← DWord.hi_ofInt, ← DWord.lo_ofInt]
  rw [hproduct]
  simp only [changed, multiply, Word.lo_sext]

theorem changed_link (c : Cpu32) (e : Effect) (r : Reg) (hwrite : e.write = none)
    (hproduct : e.product = none) (hcontrol : e.control = none) :
    c.changed (e.link r c.pc) = link r (c.changed e) := by
  simp only [changed, Effect.link, link, hwrite, hproduct, hcontrol, Word.lo_sext]

end Cpu32

namespace Cpu

@[simp] theorem reg_narrow (c : Cpu) (r : Reg) : c.narrow.reg r = (c.reg r).lo := by
  unfold narrow Cpu32.reg reg Vector.get
  simp

theorem changed_branch (c : Cpu) (w : Word) (taken : Bool) :
    c.narrow.changed (c.branch w taken) = c.narrow.branch w taken := by
  cases taken <;> rfl

theorem changed_branchLikely (c : Cpu) (w : Word) (taken : Bool) :
    c.narrow.changed (c.branchLikely w taken) = c.narrow.branchLikely w taken := by
  cases taken <;> rfl

theorem changed_jump_link (c : Cpu) (target : Word) (r : Reg) :
    c.narrow.changed ((Effect.jump target).link r c.pc) =
      Cpu32.link r (c.narrow, .branch target) :=
  c.narrow.changed_link (.jump target) r rfl rfl rfl

theorem changed_branch_link (c : Cpu) (w : Word) (taken : Bool) (r : Reg) :
    c.narrow.changed ((c.branch w taken).link r c.pc) =
      Cpu32.link r (c.narrow.branch w taken) := by
  rw [← changed_branch, branch_eq]
  exact c.narrow.changed_link _ r rfl rfl rfl

/-! ## One instruction -/

section

variable {μ : Type} [Memory μ]

def outcome (c : Cpu) (w : Word) (memory : μ) (a : Action) : Except Fault (Cpu32 × Transfer) × μ :=
  ((a.perform (c.fetched w) memory).1.map c.narrow.changed, (a.perform (c.fetched w) memory).2)

theorem outcome_retire (c : Cpu) (w : Word) (memory : μ) (e : Effect) :
    c.outcome w memory (.retire e) = (.ok (c.narrow.changed e), memory) := rfl

theorem outcome_load8 (c : Cpu) (w : Word) (memory : μ) (r : Reg) (a : Word)
    (extend : Byte → DWord) :
    c.outcome w memory (.load8 r a extend) =
      c.narrow.load r (fun b => (extend b).lo) (Memory.read8 memory a) := by
  rcases hread : Memory.read8 memory a with ⟨_ | _, _⟩ <;>
    simp only [outcome, Action.perform, hread] <;> rfl

theorem outcome_load32 (c : Cpu) (w : Word) (memory : μ) (r : Reg) (a : Word)
    (extend : Word → DWord) :
    c.outcome w memory (.load32 r a extend) =
      c.narrow.load r (fun v => (extend v).lo) (Memory.read32 memory a) := by
  rcases hread : Memory.read32 memory a with ⟨_ | _, _⟩ <;>
    simp only [outcome, Action.perform, hread] <;> rfl

theorem outcome_store8 (c : Cpu) (w : Word) (memory : μ) (a : Word) (b : Byte) :
    c.outcome w memory (.store8 a b) = c.narrow.store (Memory.write8 memory a b) := by
  rcases hwrite : Memory.write8 memory a b with ⟨_ | _, _⟩ <;>
    simp only [outcome, Action.perform, hwrite] <;> rfl

theorem outcome_store32 (c : Cpu) (w : Word) (memory : μ) (a v : Word) :
    c.outcome w memory (.store32 a v) = c.narrow.store (Memory.write32 memory a v) := by
  rcases hwrite : Memory.write32 memory a v with ⟨_ | _, _⟩ <;>
    simp only [outcome, Action.perform, hwrite] <;> rfl

/-- What does not compare whole registers looks at low words alone. -/
theorem execute_narrow_of_narrow (c : Cpu) {w : Word}
    (hnarrow : (Opcode.decode w).comparesWide = false) (memory : μ) :
    c.narrow.execute w memory = c.outcome w memory (c.action w) := by
  have hpc : c.narrow.pc = c.pc := rfl
  unfold Cpu32.execute action
  rw [reg_narrow, reg_narrow]
  generalize Opcode.decode w = op at hnarrow ⊢
  cases op <;> try cases hnarrow
  all_goals dsimp only
  case sll | srl | sra | sllv | srlv | srav | add | addu | sub | subu | addi | addiu | lui =>
    simp only [outcome_retire, Cpu32.changed_putWord]
  case and | or | xor | nor =>
    simp only [outcome_retire, Cpu32.changed_put, DWord.lo_and, DWord.lo_or, DWord.lo_xor,
      DWord.lo_not]
  case andi | ori | xori =>
    simp only [outcome_retire, Cpu32.changed_put, DWord.lo_and, DWord.lo_or, DWord.lo_xor,
      Word.lo_zext]
  case mult | multu => simp only [outcome_retire, Cpu32.changed_multiply]
  case mfc0 =>
    simp only [outcome_retire, Cpu32.changed_putWord]
    rfl
  case mfhi | mflo | mtc0 | cache | j | jr => rfl
  case jal | jalr => simp only [outcome_retire, changed_jump_link, hpc]
  case beq =>
    rw [outcome_retire, changed_branch]
    rfl
  case bne => rw [outcome_retire, changed_branch, bne_eq_decide]
  case lb =>
    simp only [outcome_load8, DWord.lo_signExtend]
    rfl
  case lbu =>
    simp only [outcome_load8, DWord.setWidth_byte, Word.lo_zext]
    rfl
  case lw =>
    split
    · rfl
    · simp only [outcome_load32, Word.lo_sext]
      rfl
  case lwu =>
    simp only [outcome_load32, Word.lo_zext]
    rfl
  case sb =>
    have hbyte : (c.reg w.rt).lo.setWidth 8 = (c.reg w.rt).setWidth 8 :=
      BitVec.setWidth_setWidth_of_le _ (by decide)
    rw [outcome_store8, hbyte]
    rfl
  case sw =>
    rw [outcome_store32]
    rfl
  all_goals rfl

/-- On sign-extended registers the comparisons of whole registers are those of low words. -/
theorem execute_narrow_of_wide {c : Cpu} (hcanon : c.Canonical) {w : Word}
    (hwide : (Opcode.decode w).comparesWide = true) (memory : μ) :
    c.narrow.execute w memory = c.outcome w memory (c.action w) := by
  have hrs := hcanon.reg w.rs
  have hrt := hcanon.reg w.rt
  have hpc : c.narrow.pc = c.pc := rfl
  unfold Cpu32.execute action
  rw [reg_narrow, reg_narrow]
  generalize Opcode.decode w = op at hwide ⊢
  cases op <;> try cases hwide
  all_goals dsimp only
  case slt | sltu =>
    simp only [outcome_retire, Cpu32.changed_putBool, hrs.slt hrt, decide_eq_true_eq]
  case slti =>
    simp only [outcome_retire, Cpu32.changed_putBool, hrs.slt w.simm.canonical_sext, Word.lo_sext,
      Word.toInt_simm, decide_eq_true_eq]
  case beql =>
    have heq : (c.reg w.rs == c.reg w.rt) = decide ((c.reg w.rs).lo = (c.reg w.rt).lo) :=
      decide_eq_decide.mpr (hrs.eq_iff hrt)
    rw [outcome_retire, changed_branchLikely, heq]
  case bnel =>
    have hne : (c.reg w.rs != c.reg w.rt) = decide ((c.reg w.rs).lo ≠ (c.reg w.rt).lo) := by
      rw [bne_eq_decide]
      exact decide_eq_decide.mpr (not_congr (hrs.eq_iff hrt))
    rw [outcome_retire, changed_branchLikely, hne]
  case blez => rw [outcome_retire, changed_branch, hrs.sle_zero]
  case bgtz => rw [outcome_retire, changed_branch, DWord.not_sle_zero, hrs.toInt_eq]
  case bltz => rw [outcome_retire, changed_branch, hrs.slt_zero]
  case bgez => rw [outcome_retire, changed_branch, DWord.not_slt_zero, hrs.toInt_eq]
  case blezl => rw [outcome_retire, changed_branchLikely, hrs.sle_zero]
  case bgtzl => rw [outcome_retire, changed_branchLikely, DWord.not_sle_zero, hrs.toInt_eq]
  case bltzl => rw [outcome_retire, changed_branchLikely, hrs.slt_zero]
  case bgezl => rw [outcome_retire, changed_branchLikely, DWord.not_slt_zero, hrs.toInt_eq]
  case bltzal => rw [outcome_retire, changed_branch_link, hrs.slt_zero]
  case bgezal => rw [outcome_retire, changed_branch_link, DWord.not_slt_zero, hrs.toInt_eq]

theorem execute_narrow {c : Cpu} (hcanon : c.Canonical) (w : Word) (memory : μ) :
    c.narrow.execute w memory = c.outcome w memory (c.action w) := by
  cases hwide : (Opcode.decode w).comparesWide with
  | false => exact c.execute_narrow_of_narrow hwide memory
  | true => exact execute_narrow_of_wide hcanon hwide memory

end

theorem narrow_setReg (c : Cpu) (r : Reg) (d : DWord) :
    (c.setReg r d).narrow = c.narrow.setReg r d.lo := by
  unfold setReg Cpu32.setReg
  split
  · rfl
  · rw [set_eq_setIfInBounds]
    simp only [narrow, Vector.map_setIfInBounds]

theorem narrow_retire (c : Cpu) (w : Word) (e : Effect) :
    (c.retire w e).narrow = (c.narrow.changed e).1.leave (c.narrow.changed e).2 := by
  obtain ⟨write, product, control, transfer⟩ := e
  have hgpr : ∀ r d, (c.setReg r d).gpr.map DWord.lo = (c.narrow.setReg r d.lo).gpr :=
    fun r d => congrArg Cpu32.gpr (c.narrow_setReg r d)
  rw [retire_eq]
  cases write <;> cases product <;> cases control <;>
    simp only [narrow, written, hgpr, set_eq_setIfInBounds] <;> rfl

end Cpu

/-! ## Runs -/

namespace Machine

variable {μ : Type} [Memory μ]

def narrow (m : Machine μ) : Machine32 μ := ⟨m.cpu.narrow, m.memory⟩

/-- The machine of 32 bits executes the coming instruction alike. -/
def Simulated (m : Machine μ) : Prop :=
  ∀ (w : Word) (memory : μ), m.fetch.1 = .ok w →
    m.cpu.narrow.execute w memory = m.cpu.outcome w memory (m.cpu.action w)

theorem execute_of_attempt {m : Machine μ} (hsimulated : m.Simulated) {w : Word}
    {memory memory' : μ} {result : Except Fault Effect} (hfetch : m.fetch = (.ok w, memory))
    (hattempt : m.attempt w memory = (result, memory')) :
    m.narrow.cpu.execute w memory = (result.map m.cpu.narrow.changed, memory') := by
  unfold attempt at hattempt
  rw [narrow, hsimulated w memory (congrArg Prod.fst hfetch), Cpu.outcome, hattempt]

theorem step_narrow_of_simulated {m : Machine μ} (hsimulated : m.Simulated) :
    m.narrow.step = (m.step.1, m.step.2.narrow) := by
  have hread : Memory.read32 m.narrow.memory m.narrow.cpu.pc = m.fetch := rfl
  obtain ⟨f, memory, hfetch, hstep⟩ | ⟨w, memory, f, memory', hfetch, hattempt, hstep⟩ |
    ⟨w, memory, e, memory', hfetch, hattempt, hstep⟩ := m.step_cases
  · rw [hstep, Machine32.step, hread, hfetch]
    rfl
  · rw [hstep, Machine32.step, hread, hfetch]
    dsimp only
    rw [execute_of_attempt hsimulated hfetch hattempt]
    rfl
  · rw [hstep, Machine32.step, hread, hfetch]
    dsimp only
    rw [execute_of_attempt hsimulated hfetch hattempt]
    exact congrArg (fun cpu => (none, Machine32.mk cpu memory'))
      (Cpu.narrow_retire m.cpu w e).symm

theorem step_narrow {m : Machine μ} (hcanon : m.cpu.Canonical) :
    m.narrow.step = (m.step.1, m.step.2.narrow) :=
  step_narrow_of_simulated fun w memory _ => Cpu.execute_narrow hcanon w memory

theorem steps_narrow (m : Machine μ) (n : Nat) (hcanon : m.cpu.Canonical)
    (hload : ∀ k < n, ¬ (m.steps k).LoadsUnsigned) :
    (m.steps n).cpu.Canonical ∧ m.narrow.steps n = (m.steps n).narrow := by
  induction n generalizing m with
  | zero => exact ⟨hcanon, rfl⟩
  | succ n ih =>
    have hcanon' := canonical_step hcanon (hload 0 (Nat.succ_pos n))
    have ih' := ih m.step.2 hcanon' fun k hk => hload (k + 1) (Nat.succ_lt_succ hk)
    refine ⟨ih'.1, ?_⟩
    rw [Machine32.steps, step_narrow hcanon]
    exact ih'.2

/-- Started with sign-extended registers, a run that loads no negative word without its sign is a
run of the machine of 32 bits: every state has sign-extended registers, its low words are the state
of the machine of 32 bits, and the same steps fail with the same faults.  The likely branches,
which compare whole registers, decide as the plain ones, which compare low words. -/
theorem runs_on_low_words (m : Machine μ) (n : Nat) (hcanon : m.cpu.Canonical)
    (hload : ∀ k < n, ¬ (m.steps k).LoadsUnsigned) :
    ∀ k ≤ n,
      (m.steps k).cpu.Canonical ∧
      (m.steps k).narrow = m.narrow.steps k ∧
      (m.steps k).step.1 = (m.narrow.steps k).step.1 ∧
      ∀ r s : Reg,
        let rs := (m.steps k).cpu.reg r
        let rt := (m.steps k).cpu.reg s
        Opcode.beq.condition rs rt = Opcode.beql.condition rs rt ∧
          Opcode.bne.condition rs rt = Opcode.bnel.condition rs rt := by
  intro k hk
  obtain ⟨hcanon', hnarrow⟩ :=
    steps_narrow m k hcanon fun j hj => hload j (Nat.lt_of_lt_of_le hj hk)
  refine ⟨hcanon', hnarrow.symm, ?_, fun r s => ?_⟩
  · rw [hnarrow, step_narrow hcanon']
  · have heq := (hcanon'.reg r).eq_iff (hcanon'.reg s)
    exact ⟨(decide_eq_decide.mpr heq).symm, (decide_eq_decide.mpr (not_congr heq)).symm⟩

/-- A program that loads a register with a negative word, compares whole registers and loads a
positive word without its sign. -/
def wordProgram : Machine Ram where
  cpu := Cpu.reset.setPc 0x80000000
  memory := ((Ram.blank.setWord 0 0x3C028000).setWord 4 0x50420002).setWord 8 0x9C040000

theorem wordProgram_runs_on_low_words :
    wordProgram.cpu.Canonical ∧ (∀ k < 3, ¬ (wordProgram.steps k).LoadsUnsigned) ∧
      (wordProgram.steps 3).narrow = wordProgram.narrow.steps 3 := by
  have hcanon : wordProgram.cpu.Canonical := ⟨by decide, by decide, by decide⟩
  have hload : ∀ k < 3, ¬ (wordProgram.steps k).LoadsUnsigned := by
    intro k hk hload
    obtain ⟨w, v, hfetch, hlwu, -, hread, hmsb⟩ := hload
    match k, hk with
    | 0, _ =>
      obtain rfl : 0x3C028000 = w := Except.ok.inj hfetch
      exact absurd hlwu (by decide)
    | 1, _ =>
      obtain rfl : 0x50420002 = w := Except.ok.inj hfetch
      exact absurd hlwu (by decide)
    | 2, _ =>
      obtain rfl : 0x9C040000 = w := Except.ok.inj hfetch
      obtain rfl : 0x3C028000 = v := Except.ok.inj hread
      exact absurd hmsb (by decide)
  exact ⟨hcanon, hload, (runs_on_low_words wordProgram 3 hcanon hload 3 (Nat.le_refl 3)).2.1⟩

end Machine

end Mips
