import Mathlib.Logic.Function.Basic
import Mips.Proofs.Machine.Calculation
import Mips.Proofs.Machine.Product
import Mips.Proofs.Machine.Refusal
import Mips.Proofs.Memory.Program
/-!
# Straight lines

Instructions that work on registers alone: `Registers.next` says what each of them makes of the
registers, over the integers where it calculates.  A row of them in memory is executed from its
first word to its last, and what it makes of the registers is the fold of its words.
-/

namespace Mips

/-! ## Register contents -/

namespace Calculation

def value : Calculation → DWord
  | exact x => .ofInt 64 x
  | wrapped x => Word.sext (.ofInt 32 x)

end Calculation

theorem DWord.Holds.eq_value {d : DWord} {x : Calculation} (hd : d.Holds x) : d = x.value := by
  cases x with
  | exact x =>
    obtain rfl : d.toInt = x := (hd d.toInt).mpr rfl
    exact BitVec.ofInt_toInt.symm
  | wrapped x =>
    let v : Word := .ofInt 32 x
    have hv : v.toInt ≡ x [ZMOD 2 ^ 32] := Word.toInt_modEq_of_bmod (BitVec.toInt_ofInt _)
    have heq : v.toInt = d.toInt := (hd v.toInt).mp ⟨v.le_toInt, v.toInt_lt, hv⟩
    apply BitVec.eq_of_toInt_eq
    rw [← heq, Calculation.value, Word.toInt_sext]

structure Registers where
  general : Reg → DWord
  hi : DWord
  lo : DWord
  control : ControlReg → Word

namespace Registers

/-- A general register is written, unless it is register 0. -/
def put (s : Registers) (r : Reg) (d : DWord) : Registers :=
  if r.val = 0 then s else { s with general := Function.update s.general r d }

theorem general_put (s : Registers) (r : Reg) (d : DWord) (t : Reg) :
    (s.put r d).general t = if r = t ∧ r ≠ 0 then d else s.general t := by
  have hzero : r = 0 ↔ r.val = 0 := Fin.ext_iff
  unfold put
  by_cases hr : r.val = 0
  · rw [if_pos hr, if_neg (fun h => h.2 (hzero.mpr hr))]
  · have hiff : t = r ↔ r = t ∧ r ≠ 0 :=
      ⟨fun h => ⟨h.symm, mt hzero.mp hr⟩, fun h => h.1.symm⟩
    rw [if_neg hr]
    show Function.update s.general r d t = _
    rw [Function.update_apply]
    exact if_congr hiff rfl rfl

theorem put_put (s : Registers) (r : Reg) (d e : DWord) : (s.put r d).put r e = s.put r e := by
  unfold put
  by_cases hr : r.val = 0
  · simp only [if_pos hr]
  · simp only [if_neg hr, Function.update_idem]

theorem put_comm (s : Registers) {r t : Reg} (d e : DWord) (hne : r ≠ t) :
    (s.put r d).put t e = (s.put t e).put r d := by
  unfold put
  by_cases hr : r.val = 0
  · simp only [if_pos hr]
  · by_cases ht : t.val = 0
    · simp only [if_pos ht]
    · simp only [if_neg hr, if_neg ht, Function.update_comm hne]

def next (s : Registers) (w : Word) : Registers :=
  let x := s.general w.rs
  let y := s.general w.rt
  match w.calculation? s.general with
  | some (r, result) => s.put r result.value
  | none =>
    match Opcode.decode w with
    | .and => s.put w.rd (x &&& y)
    | .or => s.put w.rd (x ||| y)
    | .xor => s.put w.rd (x ^^^ y)
    | .nor => s.put w.rd (~~~(x ||| y))
    | .andi => s.put w.rt (x &&& .ofNat 64 (w.bits 0 16))
    | .ori => s.put w.rt (x ||| .ofNat 64 (w.bits 0 16))
    | .xori => s.put w.rt (x ^^^ .ofNat 64 (w.bits 0 16))
    | .mult | .multu =>
      let product := x.lo.toInt * y.lo.toInt
      { s with
        hi := Word.sext (.ofInt 32 (product / 0x100000000))
        lo := Word.sext (.ofInt 32 product) }
    | .mfhi => s.put w.rd s.hi
    | .mflo => s.put w.rd s.lo
    | .mfc0 => s.put w.rt (s.control w.rd).sext
    | .mtc0 => { s with control := Function.update s.control w.rd y.lo }
    | _ => s

end Registers

/-! ## Instructions -/

theorem Word.zext_uimm (w : Word) : w.uimm.zext = .ofNat 64 (w.bits 0 16) := by
  apply BitVec.eq_of_toNat_eq
  rw [zext, BitVec.toNat_setWidth, BitVec.toNat_ofNat, toNat_uimm]

namespace Opcode

def onRegisters : Opcode → Bool
  | .sll | .srl | .sra | .sllv | .srlv | .srav
  | .add | .addu | .addi | .addiu | .sub | .subu
  | .slt | .sltu | .slti
  | .and | .or | .xor | .nor | .andi | .ori | .xori
  | .lui
  | .mult | .multu | .mfhi | .mflo
  | .mfc0 | .mtc0
  | .cache => true
  | _ => false

/-- These are all instructions of the machine that have no access to memory and do not leave the
sequential path. -/
theorem onRegisters_decode (w : Word) :
    (decode w).onRegisters =
      (!(decode w).isMissing && (decode w).accessSize?.isNone && !(decode w).leaves) := by
  have hclass := isClass_decode w
  generalize decode w = op at hclass ⊢
  cases op <;> first | rfl | cases hclass

end Opcode

namespace Cpu

def registers (c : Cpu) : Registers := ⟨c.reg, c.hi, c.lo, c.controlReg⟩

theorem general_registers (c : Cpu) : c.registers.general = c.reg := rfl

theorem registers_setReg (c : Cpu) (r : Reg) (d : DWord) :
    (c.setReg r d).registers = c.registers.put r d := by
  have hgeneral : (c.setReg r d).reg = (c.registers.put r d).general := by
    funext t
    rw [reg_setReg, Registers.general_put]
    rfl
  rw [registers, hgeneral, setReg_eq]
  unfold Registers.put
  split <;> rfl

theorem registers_retire_idle (c : Cpu) (w : Word) : (c.retire w {}).registers = c.registers := by
  rw [retire_eq]
  rfl

theorem registers_retire_put (c : Cpu) (w : Word) (r : Reg) (d : DWord) :
    (c.retire w (.put r d)).registers = c.registers.put r d := by
  rw [← registers_setReg, retire_eq, setReg_eq]
  simp only [Effect.put, written, setReg_eq]
  rfl

theorem registers_retire_product (c : Cpu) (w : Word) (hi lo : DWord) :
    (c.retire w { product := some (hi, lo) }).registers = { c.registers with hi, lo } := by
  rw [retire_eq]
  rfl

theorem registers_retire_control (c : Cpu) (w : Word) (r : ControlReg) (v : Word) :
    (c.retire w { control := some (r, v) }).registers =
      { c.registers with control := Function.update c.registers.control r v } := by
  have hcontrol : (c.retire w { control := some (r, v) }).controlReg =
      Function.update c.controlReg r v := by
    funext t
    rw [retire_eq, Function.update_apply]
    show (c.control.set r v r.isLt)[t.val] = _
    rw [Vector.getElem_set]
    exact if_congr (eq_comm.trans Fin.ext_iff.symm) rfl rfl
  rw [registers, hcontrol, retire_eq]
  rfl

/-- An instruction on registers retires, and moves on to the next word. -/
theorem action_of_onRegisters {c : Cpu} {w : Word} (hline : (Opcode.decode w).onRegisters = true) :
    ∃ e : Effect, c.action w = .retire e ∧ e.transfer = .next ∧
      (c.retire w e).registers = c.registers.next w := by
  unfold Registers.next
  rw [general_registers]
  cases hcalc : w.calculation? c.reg with
  | some result =>
    obtain ⟨r, x⟩ := result
    obtain ⟨d, haction, hd⟩ := action_of_calculation hcalc
    refine ⟨_, haction, rfl, ?_⟩
    rw [registers_retire_put, hd.eq_value]
  | none =>
    unfold Word.calculation? at hcalc
    unfold action
    generalize Opcode.decode w = op at hline hcalc ⊢
    cases op <;> try exact absurd hline (by decide)
    case mult | multu =>
      refine ⟨_, rfl, rfl, ?_⟩
      rw [multiply_eq]
      exact registers_retire_product c w _ _
    case andi | ori | xori =>
      refine ⟨_, rfl, rfl, ?_⟩
      rw [← Word.zext_uimm]
      exact registers_retire_put c w _ _
    case mtc0 => exact ⟨_, rfl, rfl, registers_retire_control c w _ _⟩
    case cache => exact ⟨_, rfl, rfl, registers_retire_idle c w⟩
    case and | or | xor | nor | mfhi | mflo | mfc0 =>
      exact ⟨_, rfl, rfl, registers_retire_put c w _ _⟩
    all_goals cases hcalc

end Cpu

namespace Machine

/-- One instruction.  In a delay slot it is followed by the target of the branch. -/
theorem step_onRegisters {μ : Type} [Memory μ] {m : Machine μ} {w : Word}
    (hfetch : m.fetch.1 = .ok w) (hline : (Opcode.decode w).onRegisters = true) :
    ∃ m', m.step = (none, m') ∧ m'.memory = m.fetch.2 ∧
      m'.cpu.sequencer = ⟨m.cpu.pending.getD (m.cpu.pc + 4), none⟩ ∧
      m'.cpu.registers = m.cpu.registers.next w := by
  obtain ⟨e, haction, htransfer, hregisters⟩ := Cpu.action_of_onRegisters (c := m.cpu) hline
  refine ⟨_, step_of_action_retire hfetch haction, rfl, ?_, hregisters⟩
  rw [Cpu.retire_eq, htransfer]
  unfold Cpu.sequencer
  cases m.cpu.pending <;> rfl

theorem fetch_of_carries {m : Machine Ram} {a : Word} {program : List Word} {k : Nat}
    (hcarries : m.memory.Carries a program) (hk : k < program.length)
    (hpc : m.cpu.pc = a + .ofNat 32 (4 * k)) : m.fetch = (.ok program[k], m.memory) := by
  have hread := hcarries.read32 hk
  rw [← hpc] at hread
  exact Prod.ext hread rfl

/-- The machine has executed `n` words of the program at which it stood before. -/
structure Passed (program : List Word) (n : Nat) (m m' : Machine Ram) : Prop where
  memory : m'.memory = m.memory
  sequencer : m'.cpu.sequencer = ⟨m.cpu.pc + .ofNat 32 (4 * n), none⟩
  registers : m'.cpu.registers = (program.take n).foldl Registers.next m.cpu.registers

/-- A row of instructions on registers is executed word by word. -/
theorem drive_line {m : Machine Ram} {program : List Word}
    (hcarries : m.memory.Carries m.cpu.pc program) (hpending : m.cpu.pending = none) {n : Nat}
    (hn : n ≤ program.length)
    (hline : ∀ w ∈ program.take n, (Opcode.decode w).onRegisters = true) :
    ∃ m', m.drive n = (none, m') ∧ m.Passed program n m' := by
  induction n with
  | zero =>
    refine ⟨m, rfl, rfl, ?_, rfl⟩
    rw [Cpu.sequencer, hpending, Nat.mul_zero]
    exact congrArg (Sequencer.mk · none) (BitVec.add_zero _).symm
  | succ n ih =>
    have htake : program.take (n + 1) = program.take n ++ [program[n]] :=
      List.take_succ_eq_append_getElem hn
    rw [htake] at hline
    obtain ⟨m', hdrive, hpassed⟩ :=
      ih (Nat.le_of_succ_le hn) fun w hw => hline w (List.mem_append_left _ hw)
    have hpc : m'.cpu.pc = m.cpu.pc + .ofNat 32 (4 * n) := congrArg Sequencer.pc hpassed.sequencer
    have hpending' : m'.cpu.pending = none := congrArg Sequencer.pending hpassed.sequencer
    rw [← hpassed.memory] at hcarries
    have hfetch := fetch_of_carries hcarries hn hpc
    obtain ⟨m'', hstep, hmemory, hsequencer, hregisters⟩ :=
      step_onRegisters (congrArg Prod.fst hfetch)
        (hline _ (List.mem_append_right _ List.mem_cons_self))
    refine ⟨m'', drive_succ hdrive hstep, ?_, ?_, ?_⟩
    · rw [hmemory, hfetch, hpassed.memory]
    · rw [hsequencer, hpending', hpc, Ram.add_words_succ]
      rfl
    · rw [hregisters, hpassed.registers, htake, List.foldl_append]
      rfl

end Machine

end Mips
