import Mips.Proofs.Machine.Step
import Mips.Proofs.Memory.Bytes
import Mips.Proofs.Word.Fields
/-!
# Why a step fails

A step with main memory fails for one of four reasons: the fetch is refused, or the machine does
not have the instruction, or the access of a load or store is refused, for where it starts or for
where it ends.  `Machine.fault?` looks for them in this order, from the state before the step alone;
`Machine.step_fault_eq` says that it finds the fault of the step.
-/

namespace Mips

namespace Opcode

/-- The opcodes that only send decoding on to another table. -/
def isClass : Opcode → Bool
  | .special | .regimm | .cop0 => true
  | _ => false

def isMissing : Opcode → Bool
  -- Division, and writes to the product registers.
  | .div | .divu | .mthi | .mtlo
  -- Arithmetic on doublewords.
  | .dmult | .dmultu | .ddiv | .ddivu | .dadd | .daddu | .dsub | .dsubu | .daddi | .daddiu
  | .dsll | .dsrl | .dsra | .dsll32 | .dsrl32 | .dsra32 | .dsllv | .dsrlv | .dsrav
  | .sltiu
  -- Exceptions and traps.
  | .syscall | .brk | .sync
  | .tge | .tgeu | .tlt | .tltu | .teq | .tne | .tgei | .tgeiu | .tlti | .tltiu | .teqi | .tnei
  | .bltzall | .bgezall
  -- Accesses to halfwords, to parts of words and to doublewords, and linked accesses.
  | .lh | .lhu | .sh | .lwl | .lwr | .swl | .swr
  | .ld | .sd | .ldl | .ldr | .sdl | .sdr
  | .ll | .lld | .sc | .scd
  -- Other coprocessors, and address translation.
  | .cop1 | .lwc1 | .swc1 | .ldc1 | .sdc1 | .ldc2 | .sdc2
  | .tlb
  | .unknown => true
  | _ => false

/-- The number of bytes that a load or store of this machine reaches. -/
def accessSize? : Opcode → Option Nat
  | .lb | .lbu | .sb => some 1
  | .lw | .lwu | .sw => some 4
  | _ => none

theorem isClass_decode (w : Word) : (decode w).isClass = false := by
  have hspecial : ∀ i, (specialTable.get i).isClass = false := by decide
  have hregimm : ∀ i, (regimmTable.get i).isClass = false := by decide
  have hcop0 : ∀ i, (cop0Table.get i).isClass = false := by decide
  unfold decode
  split
  · exact hspecial _
  · exact hregimm _
  · exact hcop0 _
  · next hspecial hregimm hcop0 =>
    generalize primaryTable.get w.major = op at hspecial hregimm hcop0 ⊢
    cases op
    case special => exact absurd rfl hspecial
    case regimm => exact absurd rfl hregimm
    case cop0 => exact absurd rfl hcop0
    all_goals rfl

end Opcode

namespace Cpu

/-- Why the instruction `w` fails, once it has been fetched.  A word that would be loaded into
register 0 is not asked for. -/
def refusal? (c : Cpu) (w : Word) : Option Fault :=
  let op := Opcode.decode w
  if op.isMissing then some (.unimplemented c.pc w (disassemble w c.pc))
  else if op = .lw ∧ w.rt.val = 0 then none
  else op.accessSize?.bind fun n =>
    Ram.refusal? n (.ofInt 32 ((c.reg w.rs).lo.toNat + w.immediate))

theorem effectiveAddress_eq (c : Cpu) (w : Word) :
    c.effectiveAddress w = .ofInt 32 ((c.reg w.rs).lo.toNat + w.immediate) := by
  rw [effectiveAddress, word, Word.simm_eq_signExtend, BitVec.signExtend, Word.toInt_imm,
    BitVec.ofInt_add, BitVec.ofInt_natCast, BitVec.ofNat_toNat, BitVec.setWidth_eq]

/-- A target that is an address is never refused. -/
theorem scheduleBranch_toNat (c : Cpu) (target : Word) :
    c.scheduleBranch target.toNat = some { c with pending := some target } := by
  have hlt : target.toNat < 2 ^ 32 := target.isLt
  have haddress : (0 : Int) ≤ target.toNat ∧ (target.toNat : Int) ≤ 0xFFFFFFFF := by omega
  rw [scheduleBranch, if_pos haddress, BitVec.ofInt_natCast, BitVec.ofNat_toNat,
    BitVec.setWidth_eq]

end Cpu

/-! ## Actions -/

def faultOf? {α : Type} : Except Fault α → Option Fault
  | .error f => some f
  | .ok _ => none

@[simp] theorem faultOf?_map {α β : Type} (g : α → β) (x : Except Fault α) :
    faultOf? (x.map g) = faultOf? x := by
  cases x <;> rfl

theorem Ram.faultOf?_located (n : Nat) (a : Word) : faultOf? (located n a) = refusal? n a := by
  unfold located
  cases refusal? n a <;> rfl

namespace Action

def refusal? (c : Cpu) : Action → Option Fault
  | retire _ => none
  | load8 _ a _ | store8 a _ => Ram.refusal? 1 a
  | load32 _ a _ | store32 a _ => Ram.refusal? 4 a
  | refuse => some (.unimplemented c.pc c.current (disassemble c.current c.pc))

theorem faultOf?_perform (c : Cpu) (r : Ram) (a : Action) :
    faultOf? (a.perform c r).1 = a.refusal? c := by
  cases a with
  | retire e => rfl
  | load8 dst a extend =>
    change faultOf? ((r.read8 a).map _) = _
    rw [faultOf?_map, Ram.read8, faultOf?_map, Ram.byteOffset_eq, Ram.faultOf?_located]
    rfl
  | load32 dst a extend =>
    change faultOf? ((r.read32 a).map _) = _
    rw [faultOf?_map, Ram.read32, faultOf?_map, Ram.wordOffset_eq, Ram.faultOf?_located]
    rfl
  | store8 a b =>
    have hwrite : faultOf? (r.write8 a b) = Ram.refusal? 1 a := by
      rw [Ram.write8, faultOf?_map, Ram.byteOffset_eq, Ram.faultOf?_located]
    rw [refusal?, ← hwrite]
    cases hresult : r.write8 a b <;> simp only [perform, Memory.write8, hresult] <;> rfl
  | store32 a w =>
    have hwrite : faultOf? (r.write32 a w) = Ram.refusal? 4 a := by
      rw [Ram.write32, faultOf?_map, Ram.wordOffset_eq, Ram.faultOf?_located]
    rw [refusal?, ← hwrite]
    cases hresult : r.write32 a w <;> simp only [perform, Memory.write32, hresult] <;> rfl
  | refuse => rfl

end Action

theorem Cpu.refusal?_action (c : Cpu) (w : Word) :
    (c.action w).refusal? (c.fetched w) = c.refusal? w := by
  have hclass := Opcode.isClass_decode w
  have hpc : (c.fetched w).pc = c.pc := rfl
  unfold action refusal?
  rw [← effectiveAddress_eq]
  generalize Opcode.decode w = op at hclass ⊢
  cases op
  case special | regimm | cop0 => cases hclass
  case lw =>
    by_cases hrt : w.rt.val = 0
    · simp only [hrt, if_true]
      rfl
    · simp only [hrt, if_false]
      rfl
  all_goals rfl

namespace Machine

def fault? (m : Machine Ram) : Option Fault :=
  match Ram.refusal? 4 m.cpu.pc with
  | some f => some f
  | none => m.cpu.refusal? (m.memory.wordAt (Ram.offset m.cpu.pc))

theorem fetch_eq (m : Machine Ram) :
    m.fetch = ((Ram.located 4 m.cpu.pc).map m.memory.wordAt, m.memory) := by
  rw [← Ram.read32_eq]
  rfl

theorem step_fst (m : Machine Ram) : m.step.1 = m.fault? := by
  have hfetch := m.fetch_eq
  unfold Ram.located at hfetch
  unfold fault?
  cases hrefusal : Ram.refusal? 4 m.cpu.pc with
  | some f =>
    rw [hrefusal] at hfetch
    rw [step_of_fetch_error hfetch]
  | none =>
    rw [hrefusal] at hfetch
    change m.fetch = (.ok (m.memory.wordAt (Ram.offset m.cpu.pc)), m.memory) at hfetch
    generalize m.memory.wordAt (Ram.offset m.cpu.pc) = w at hfetch ⊢
    dsimp only
    rw [← Cpu.refusal?_action, ← Action.faultOf?_perform _ m.memory]
    rcases hattempt : m.attempt w m.memory with ⟨f | e, memory⟩
    · rw [step_of_attempt_error hfetch hattempt]
      exact (congrArg (faultOf? ·.1) hattempt).symm
    · rw [step_of_attempt_ok hfetch hattempt]
      exact (congrArg (faultOf? ·.1) hattempt).symm

theorem fault?_ne_invalidBranchTarget (m : Machine Ram) (target : Int) :
    m.fault? ≠ some (.invalidBranchTarget target) := by
  have haccess (n : Nat) (a : Word) : Ram.refusal? n a ≠ some (.invalidBranchTarget target) := by
    unfold Ram.refusal?
    split
    · simp
    · split <;> simp
  unfold fault?
  cases hfetch : Ram.refusal? 4 m.cpu.pc with
  | some f =>
    have hf := haccess 4 m.cpu.pc
    rw [hfetch] at hf
    exact hf
  | none =>
    dsimp only
    unfold Cpu.refusal?
    generalize Opcode.decode (m.memory.wordAt (Ram.offset m.cpu.pc)) = op
    dsimp only
    split
    · simp
    · split
      · simp
      · cases op.accessSize? with
        | none => simp
        | some n => exact haccess n _

/-- A step fails exactly if there is a reason for it, and then with the fault that is found first.
The fault is never that of a branch: what an instruction jumps to is an address, and a branch to an
address can always be scheduled. -/
theorem step_fault_eq (m : Machine Ram) :
    m.step.1 = m.fault? ∧
      (∀ target, m.step.1 ≠ some (.invalidBranchTarget target)) ∧
      ∀ target : Word,
        m.cpu.scheduleBranch target.toNat = some { m.cpu with pending := some target } := by
  refine ⟨m.step_fst, ?_, m.cpu.scheduleBranch_toNat⟩
  intro target
  rw [step_fst]
  exact m.fault?_ne_invalidBranchTarget target

end Machine

end Mips
