import Mathlib.Tactic.ByContra
import Mips.Proofs.Machine.Sequencing
import Mips.Proofs.Memory.Bytes
/-!
# Footprints

An instruction word names the registers that it may write, and with its base register the bytes of
memory that it may store.  The footprint of an instruction is read off its opcode, and compared with
what its action does once for all opcodes; a step that retires then changes nothing else.
-/

namespace Mips

structure Footprint where
  general : Option Reg := none
  /-- Whether the pair of product registers is written. -/
  product : Bool := false
  control : Option ControlReg := none
  /-- The physical offsets of the bytes that are stored. -/
  bytes : List Nat := []

namespace Effect

def footprint (e : Effect) : Footprint where
  general := e.write.map Prod.fst
  product := e.product.isSome
  control := e.control.map Prod.fst

end Effect

namespace Action

def footprint : Action → Footprint
  | retire e => e.footprint
  | load8 dst _ _ | load32 dst _ _ => { general := some dst }
  | store8 a _ => { bytes := [Ram.offset a] }
  | store32 a _ =>
    { bytes := [Ram.offset a, Ram.offset a + 1, Ram.offset a + 2, Ram.offset a + 3] }
  | refuse => {}

end Action

namespace Cpu

def footprint (c : Cpu) (w : Word) : Footprint :=
  let i := Ram.offset (c.effectiveAddress w)
  match Opcode.decode w with
  | .sll | .srl | .sra | .sllv | .srlv | .srav
  | .add | .addu | .sub | .subu | .slt | .sltu | .and | .or | .xor | .nor
  | .mfhi | .mflo | .jalr => { general := some w.rd }
  | .addi | .addiu | .slti | .andi | .ori | .xori | .lui
  | .lb | .lbu | .lw | .lwu | .mfc0 => { general := some w.rt }
  | .jal | .bltzal | .bgezal => { general := some .ra }
  | .mult | .multu => { product := true }
  | .mtc0 => { control := some w.rd }
  | .sb => { bytes := [i] }
  | .sw => { bytes := [i, i + 1, i + 2, i + 3] }
  | _ => {}

theorem footprint_branch (c : Cpu) (w : Word) (taken : Bool) :
    (c.branch w taken).footprint = {} := by
  rw [branch_eq]
  rfl

theorem footprint_branchLikely (c : Cpu) (w : Word) (taken : Bool) :
    (c.branchLikely w taken).footprint = {} := by
  rw [branchLikely_eq]
  rfl

/-- A word that would be loaded into register 0 is not even asked for; every other instruction does
what its opcode says. -/
theorem footprint_action (c : Cpu) (w : Word) :
    c.action w = .retire {} ∨ (c.action w).footprint = c.footprint w := by
  unfold action footprint
  generalize Opcode.decode w = op
  cases op
  case lw =>
    dsimp only
    split
    · exact .inl rfl
    · exact .inr rfl
  case beq | bne | blez | bgtz | bltz | bgez => exact .inr (footprint_branch _ _ _)
  case beql | bnel | blezl | bgtzl | bltzl | bgezl => exact .inr (footprint_branchLikely _ _ _)
  case bltzal | bgezal =>
    right
    dsimp only
    rw [branch_eq]
    rfl
  all_goals exact .inr rfl

/-! ## Registers -/

theorem reg_retire (c : Cpu) (w : Word) (e : Effect) (r : Reg) :
    (c.retire w e).reg r = (c.written e.write).reg r := by
  rw [retire_eq]
  rfl

/-- The registers after an instruction that only puts a doubleword into one of them. -/
theorem reg_retire_put (c : Cpu) (w : Word) (r s : Reg) (d : DWord) :
    (c.retire w (.put r d)).reg s = if r = s ∧ r ≠ 0 then d else c.reg s := by
  rw [reg_retire]
  exact reg_setReg c r s d

theorem reg_retire_of_ne {c : Cpu} {w : Word} {e : Effect} {r : Reg}
    (hr : (c.retire w e).reg r ≠ c.reg r) : r ≠ 0 ∧ e.footprint.general = some r := by
  rw [reg_retire, reg_written] at hr
  obtain ⟨write, product, control, transfer⟩ := e
  cases write with
  | none => exact absurd rfl hr
  | some rd =>
    dsimp only at hr
    split at hr
    · next hdst =>
      obtain ⟨rfl, hne⟩ := hdst
      exact ⟨hne, rfl⟩
    · exact absurd rfl hr

theorem product_retire_of_ne {c : Cpu} {w : Word} {e : Effect}
    (hproduct : (c.retire w e).hi ≠ c.hi ∨ (c.retire w e).lo ≠ c.lo) :
    e.footprint.product = true := by
  rw [retire_eq] at hproduct
  obtain ⟨write, product, control, transfer⟩ := e
  cases product with
  | none => simp at hproduct
  | some p => rfl

theorem controlReg_retire_of_ne {c : Cpu} {w : Word} {e : Effect} {r : ControlReg}
    (hr : (c.retire w e).controlReg r ≠ c.controlReg r) : e.footprint.control = some r := by
  rw [retire_eq] at hr
  obtain ⟨write, product, control, transfer⟩ := e
  cases control with
  | none => exact absurd rfl hr
  | some rv =>
    obtain ⟨s, v⟩ := rv
    by_cases hs : s = r
    · exact congrArg some hs
    · have hval : s.val ≠ r.val := fun h => hs (Fin.ext h)
      have hkeep : (c.control.set s v s.isLt).get r = c.control.get r :=
        Vector.getElem_set_ne s.isLt r.isLt hval
      exact absurd hkeep hr

end Cpu

/-! ## Memory -/

namespace Ram

theorem eq_offset_of_write8 {r : Ram} {a : Word} {b : Byte} {i : Nat} (hi : i < size)
    (hbyte : (Memory.write8 r a b).2.byteAt i ≠ r.byteAt i) : i = offset a := by
  have hafter : (Memory.write8 r a b).2 = (r.write8 a b).toOption.getD r := by
    simp only [Memory.write8]
    cases r.write8 a b <;> rfl
  rw [hafter, write8, byteOffset_eq] at hbyte
  cases hlocated : located 1 a with
  | error f =>
    rw [hlocated] at hbyte
    exact absurd rfl hbyte
  | ok j =>
    obtain ⟨rfl, -, hj⟩ := located_ok hlocated
    rw [hlocated] at hbyte
    change (r.setByte (offset a) b).byteAt i ≠ r.byteAt i at hbyte
    rw [byteAt_setByte r b (by omega) hi] at hbyte
    have heq : offset a = i := (ite_ne_right_iff.mp hbyte).1
    exact heq.symm

theorem mem_range_of_write32 {r : Ram} {a w : Word} {i : Nat} (hi : i < size)
    (hbyte : (Memory.write32 r a w).2.byteAt i ≠ r.byteAt i) :
    offset a ≤ i ∧ i < offset a + 4 := by
  have hafter : (Memory.write32 r a w).2 = (r.write32 a w).toOption.getD r := by
    simp only [Memory.write32]
    cases r.write32 a w <;> rfl
  rw [hafter, write32, wordOffset_eq] at hbyte
  cases hlocated : located 4 a with
  | error f =>
    rw [hlocated] at hbyte
    exact absurd rfl hbyte
  | ok j =>
    obtain ⟨rfl, haligned, hj⟩ := located_ok hlocated
    rw [hlocated] at hbyte
    change (r.setWord (offset a) w).byteAt i ≠ r.byteAt i at hbyte
    rw [byteAt_setWord r w (offset_mod_four haligned) (by omega) hi] at hbyte
    exact (ite_ne_right_iff.mp hbyte).1

end Ram

namespace Action

theorem memory_perform_of_bytes_eq_nil {a : Action} (hbytes : a.footprint.bytes = []) (c : Cpu)
    (r : Ram) : (a.perform c r).2 = r := by
  cases a with
  | retire | load8 | load32 | refuse => rfl
  | store8 | store32 => cases hbytes

theorem mem_bytes_of_perform {a : Action} {c : Cpu} {r : Ram} {i : Nat} (hi : i < Ram.size)
    (hbyte : (a.perform c r).2.byteAt i ≠ r.byteAt i) : i ∈ a.footprint.bytes := by
  cases a with
  | retire | load8 | load32 | refuse => exact absurd rfl hbyte
  | store8 a b =>
    have heq : i = Ram.offset a := Ram.eq_offset_of_write8 hi hbyte
    rw [heq]
    exact List.mem_singleton_self _
  | store32 a w =>
    have hrange := Ram.mem_range_of_write32 hi hbyte
    simp only [footprint, List.mem_cons, List.not_mem_nil, or_false]
    omega

theorem Yields.footprint_eq {μ : Type} [Memory μ] {memory : μ} {a : Action} {e : Effect}
    (hyields : a.Yields memory e) : e.footprint = { a.footprint with bytes := [] } := by
  cases hyields <;> rfl

end Action

/-! ## Steps -/

namespace Machine

/-- The second machine differs from the first at most where the footprint says. -/
structure ChangedWithin (m m' : Machine Ram) (f : Footprint) : Prop where
  general : ∀ r, m'.cpu.reg r ≠ m.cpu.reg r → r ≠ 0 ∧ f.general = some r
  product : m'.cpu.hi ≠ m.cpu.hi ∨ m'.cpu.lo ≠ m.cpu.lo → f.product = true
  control : ∀ r, m'.cpu.controlReg r ≠ m.cpu.controlReg r → f.control = some r
  bytes : ∀ i < Ram.size, m'.memory.byteAt i ≠ m.memory.byteAt i → i ∈ f.bytes
  memory : f.bytes = [] → m'.memory = m.memory

theorem changedWithin_of_attempt {m m' : Machine Ram} {w : Word} {e : Effect}
    (hattempt : m.attempt w m.memory = (.ok e, m'.memory)) (hcpu : m'.cpu = m.cpu.retire w e) :
    m.ChangedWithin m' (m.cpu.action w).footprint := by
  have heffect : e.footprint = { (m.cpu.action w).footprint with bytes := [] } :=
    (Action.yields_of_perform_ok hattempt).footprint_eq
  have hmemory : m'.memory = ((m.cpu.action w).perform (m.cpu.fetched w) m.memory).2 :=
    (congrArg Prod.snd hattempt).symm
  constructor
  · intro r hr
    rw [hcpu] at hr
    have hdst := Cpu.reg_retire_of_ne hr
    rw [heffect] at hdst
    exact hdst
  · intro hproduct
    rw [hcpu] at hproduct
    have hwritten := Cpu.product_retire_of_ne hproduct
    rw [heffect] at hwritten
    exact hwritten
  · intro r hr
    rw [hcpu] at hr
    have hdst := Cpu.controlReg_retire_of_ne hr
    rw [heffect] at hdst
    exact hdst
  · intro i hi hbyte
    rw [hmemory] at hbyte
    exact Action.mem_bytes_of_perform hi hbyte
  · intro hbytes
    rw [hmemory]
    exact Action.memory_perform_of_bytes_eq_nil hbytes _ _

theorem ChangedWithin.of_empty {m m' : Machine Ram} (hchanged : m.ChangedWithin m' {})
    (f : Footprint) : m.ChangedWithin m' f where
  general r hr := nomatch (hchanged.general r hr).2
  product hproduct := nomatch hchanged.product hproduct
  control r hr := nomatch hchanged.control r hr
  bytes i hi hbyte := nomatch hchanged.bytes i hi hbyte
  memory _ := hchanged.memory rfl

theorem leaves_of_linkReg? {w : Word} {r : Reg} (hlink : w.linkReg? = some r) :
    (Opcode.decode w).leaves = true := by
  unfold Word.linkReg? at hlink
  generalize Opcode.decode w = op at hlink ⊢
  cases op <;> first | rfl | cases hlink

theorem reg_of_linkReg? {m m' : Machine Ram} {w : Word} {r : Reg} (hfetch : m.fetch.1 = .ok w)
    (hstep : m.step = (none, m')) (hlink : w.linkReg? = some r) (hr : r ≠ 0) :
    m'.cpu.reg r = (m.cpu.pc + 8).sext := by
  rw [step_of_leaves hfetch (leaves_of_linkReg? hlink)] at hstep
  obtain rfl := (Prod.mk.inj hstep).2
  change (m.cpu.linked w).reg r = _
  rw [Cpu.linked, Cpu.reg_written, hlink]
  exact if_pos ⟨rfl, hr⟩

/-- A step that retires changes no more than its instruction names: at most one general register,
which is never register 0, the pair of product registers or one control register, and the bytes
that are stored.  A linking instruction writes its return address whether or not it leaves. -/
theorem changes_within_footprint {m m' : Machine Ram} (hstep : m.step = (none, m')) :
    ∃ w, m.fetch.1 = .ok w ∧ m.ChangedWithin m' (m.cpu.footprint w) ∧
      (∀ r, w.linkReg? = some r → r ≠ 0 → m'.cpu.reg r = (m.cpu.pc + 8).sext) ∧
      m'.cpu.halted = m.cpu.halted ∧ m'.cpu.haltReason = m.cpu.haltReason ∧
      m'.cpu.retired = m.cpu.retired + 1 ∧ m'.cpu.current = w := by
  obtain ⟨w, memory, e, hfetch, hattempt, hcpu⟩ := exists_of_step_retires hstep
  have hword : m.fetch.1 = .ok w := congrArg Prod.fst hfetch
  have hmemory : memory = m.memory := (congrArg Prod.snd hfetch).symm
  rw [hmemory] at hattempt
  have hchanged : m.ChangedWithin m' (m.cpu.footprint w) := by
    have hwithin := changedWithin_of_attempt hattempt hcpu
    obtain hidle | hfootprint := m.cpu.footprint_action w
    · rw [hidle] at hwithin
      exact hwithin.of_empty _
    · rwa [hfootprint] at hwithin
  have hlink (r : Reg) (hr : w.linkReg? = some r) (hne : r ≠ 0) :
      m'.cpu.reg r = (m.cpu.pc + 8).sext := reg_of_linkReg? hword hstep hr hne
  refine ⟨w, hword, hchanged, hlink, ?_⟩
  rw [hcpu, Cpu.retire_eq]
  exact ⟨rfl, rfl, rfl, rfl⟩

/-- Stores a byte through a segment that is not the one of the program. -/
def byteStore : Machine Ram where
  cpu := { Cpu.reset with
    gpr := ((Vector.replicate 32 0).set 1 0xA0000100).set 2 0x12345678
    pc := 0x80000000 }
  memory := Ram.blank.setWord 0 0xA0220003

theorem byteStore_changes :
    byteStore.step = (none, byteStore.steps 1) ∧
      (∀ r, (byteStore.steps 1).cpu.reg r = byteStore.cpu.reg r) ∧
      (byteStore.steps 1).memory.byteAt 0x103 = 0x78 ∧
      ∀ i < Ram.size, i ≠ 0x103 →
        (byteStore.steps 1).memory.byteAt i = byteStore.memory.byteAt i := by
  have hstep : byteStore.step = (none, byteStore.steps 1) := Prod.ext (by decide) rfl
  obtain ⟨w, hfetch, hchanged, -⟩ := changes_within_footprint hstep
  obtain rfl : 0xA0220003 = w := Except.ok.inj hfetch
  refine ⟨hstep, ?_, by decide, ?_⟩
  · intro r
    by_contra hr
    have hdst : (byteStore.cpu.footprint 0xA0220003).general = some r := (hchanged.general r hr).2
    have hnone : (byteStore.cpu.footprint 0xA0220003).general = none := by decide
    rw [hnone] at hdst
    cases hdst
  · intro i hi hne
    by_contra hbyte
    have hmem : i ∈ (byteStore.cpu.footprint 0xA0220003).bytes := hchanged.bytes i hi hbyte
    exact hne (List.mem_singleton.mp hmem)

end Machine

end Mips
