import Mips.Proofs.Machine.Step
import Mips.Proofs.Word.Canonical
/-!
# Processors with sign-extended registers

Every instruction but one leaves only sign-extended words in the registers if it finds only such
words there.  The exception is the load that drops the sign.
-/

namespace Mips

namespace Cpu

/-- Every general register and both product registers hold sign-extended words. -/
structure Canonical (c : Cpu) : Prop where
  reg : ∀ r, (c.reg r).Canonical
  hi : c.hi.Canonical
  lo : c.lo.Canonical

end Cpu

namespace Effect

/-- What the effect leaves in a register, if it keeps it at all, is a sign-extended word. -/
structure Canonical (e : Effect) : Prop where
  write : ∀ r d, e.write = some (r, d) → r ≠ 0 → d.Canonical
  product : ∀ hi lo, e.product = some (hi, lo) → hi.Canonical ∧ lo.Canonical

theorem canonical_of_none {e : Effect} (hwrite : e.write = none) (hproduct : e.product = none) :
    e.Canonical := by
  constructor <;> simp [hwrite, hproduct]

theorem canonical_of_write {e : Effect} {r : Reg} {d : DWord} (hwrite : e.write = some (r, d))
    (hproduct : e.product = none) (hd : r ≠ 0 → d.Canonical) : e.Canonical := by
  constructor
  · intro s d' hwrite' hs
    obtain ⟨rfl, rfl⟩ := Prod.mk.inj (Option.some.inj (hwrite.symm.trans hwrite'))
    exact hd hs
  · simp [hproduct]

theorem canonical_put (r : Reg) {d : DWord} (hd : d.Canonical) : (put r d).Canonical :=
  canonical_of_write rfl rfl fun _ => hd

theorem canonical_link {e : Effect} (r : Reg) (pc : Word) (hproduct : e.product = none) :
    (e.link r pc).Canonical :=
  canonical_of_write rfl hproduct fun _ => Word.canonical_sext _

end Effect

namespace Action

/-- Whatever memory answers, the effect of the action is canonical. -/
def Canonical : Action → Prop
  | retire e => e.Canonical
  | load8 _ _ extend => ∀ b, (extend b).Canonical
  | load32 _ _ extend => ∀ v, (extend v).Canonical
  | _ => True

theorem Yields.canonical {μ : Type} [Memory μ] {memory : μ} {a : Action} {e : Effect}
    (hyields : a.Yields memory e) (ha : a.Canonical) : e.Canonical := by
  cases hyields with
  | retire => exact ha
  | load8 => exact Effect.canonical_put _ (ha _)
  | load32 => exact Effect.canonical_put _ (ha _)
  | store8 => exact Effect.canonical_of_none rfl rfl
  | store32 => exact Effect.canonical_of_none rfl rfl

end Action

namespace Cpu

theorem canonical_action {c : Cpu} (hcanon : c.Canonical) {w : Word}
    (hlwu : Opcode.decode w ≠ .lwu) : (c.action w).Canonical := by
  have hrs := hcanon.reg w.rs
  have hrt := hcanon.reg w.rt
  unfold action
  generalize Opcode.decode w = op at hlwu ⊢
  cases op
  case sll | srl | sra | sllv | srlv | srav | add | addu | sub | subu | addi | addiu | lui | mfc0 =>
    exact Effect.canonical_put _ (Word.canonical_sext _)
  case slt | sltu | slti => exact Effect.canonical_put _ (DWord.canonical_ofBool _)
  case and => exact Effect.canonical_put _ (hrs.and hrt)
  case or => exact Effect.canonical_put _ (hrs.or hrt)
  case xor => exact Effect.canonical_put _ (hrs.xor hrt)
  case nor => exact Effect.canonical_put _ (hrs.or hrt).not
  case andi => exact Effect.canonical_put _ (hrs.and w.canonical_zext_uimm)
  case ori => exact Effect.canonical_put _ (hrs.or w.canonical_zext_uimm)
  case xori => exact Effect.canonical_put _ (hrs.xor w.canonical_zext_uimm)
  case mult | multu =>
    refine ⟨fun _ _ hwrite => (nomatch hwrite), fun hi lo hproduct => ?_⟩
    obtain ⟨rfl, rfl⟩ := Prod.mk.inj (Option.some.inj hproduct)
    exact ⟨Word.canonical_sext _, Word.canonical_sext _⟩
  case mfhi => exact Effect.canonical_put _ hcanon.hi
  case mflo => exact Effect.canonical_put _ hcanon.lo
  case jal | jalr => exact Effect.canonical_link _ _ rfl
  case bltzal | bgezal =>
    dsimp only
    rw [branch_eq]
    exact Effect.canonical_link _ _ rfl
  case beq | bne | blez | bgtz | bltz | bgez =>
    dsimp only
    rw [branch_eq]
    exact Effect.canonical_of_none rfl rfl
  case beql | bnel | blezl | bgtzl | bltzl | bgezl =>
    dsimp only
    rw [branchLikely_eq]
    exact Effect.canonical_of_none rfl rfl
  case j | jr | cache | mtc0 => exact Effect.canonical_of_none rfl rfl
  case lb => exact DWord.canonical_signExtend_byte
  case lbu => exact DWord.canonical_setWidth_byte
  case lw =>
    dsimp only
    split
    · exact Effect.canonical_of_none rfl rfl
    · exact Word.canonical_sext
  case lwu => exact absurd rfl hlwu
  all_goals trivial

theorem canonical_retire {c : Cpu} (hcanon : c.Canonical) (w : Word) {e : Effect}
    (he : e.Canonical) : (c.retire w e).Canonical := by
  rw [retire_eq]
  constructor
  · intro s
    change ((c.written e.write).reg s).Canonical
    rw [reg_written]
    cases hwrite : e.write with
    | none => exact hcanon.reg s
    | some rd =>
      dsimp only
      split
      · next hs => exact he.write rd.1 rd.2 hwrite hs.2
      · exact hcanon.reg s
  · cases hproduct : e.product with
    | none => exact hcanon.hi
    | some p => exact (he.product p.1 p.2 hproduct).1
  · cases hproduct : e.product with
    | none => exact hcanon.lo
    | some p => exact (he.product p.1 p.2 hproduct).2

end Cpu

namespace Machine

variable {μ : Type} [Memory μ]

/-- The coming instruction loads a word whose highest bit is set, without its sign, into a register
that keeps it. -/
def LoadsUnsigned (m : Machine μ) : Prop :=
  ∃ w v, m.fetch.1 = .ok w ∧ Opcode.decode w = .lwu ∧ w.rt.val ≠ 0 ∧
    (Memory.read32 m.fetch.2 (m.cpu.effectiveAddress w)).1 = .ok v ∧ v.msb = true

theorem canonical_of_attempt {m : Machine μ} (hcanon : m.cpu.Canonical)
    (hload : ¬ m.LoadsUnsigned) {w : Word} {memory memory' : μ} {e : Effect}
    (hfetch : m.fetch = (.ok w, memory)) (hattempt : m.attempt w memory = (.ok e, memory')) :
    e.Canonical := by
  have hyields : (m.cpu.action w).Yields memory e := Action.yields_of_perform_ok hattempt
  by_cases hlwu : Opcode.decode w = .lwu
  · have haction : m.cpu.action w = .load32 w.rt (m.cpu.effectiveAddress w) Word.zext := by
      simp only [Cpu.action, hlwu]
    rw [haction] at hyields
    cases hyields with
    | @load32 _ _ _ v hread =>
      apply Effect.canonical_of_write rfl rfl
      intro hrt
      have hrt' : w.rt.val ≠ 0 := fun h => hrt (Fin.ext h)
      have hmsb : v.msb = false := by
        rw [← Bool.not_eq_true]
        intro hmsb
        exact hload ⟨w, v, by rw [hfetch], hlwu, hrt', by rw [hfetch, hread], hmsb⟩
      exact Word.canonical_zext hmsb
  · exact hyields.canonical (Cpu.canonical_action hcanon hlwu)

theorem canonical_step {m : Machine μ} (hcanon : m.cpu.Canonical) (hload : ¬ m.LoadsUnsigned) :
    m.step.2.cpu.Canonical := by
  obtain ⟨_, _, -, hstep⟩ | ⟨_, _, _, _, -, -, hstep⟩ | ⟨w, _, e, _, hfetch, hattempt, hstep⟩ :=
    m.step_cases
  · rw [hstep]
    exact ⟨hcanon.reg, hcanon.hi, hcanon.lo⟩
  · rw [hstep]
    exact ⟨hcanon.reg, hcanon.hi, hcanon.lo⟩
  · rw [hstep]
    exact Cpu.canonical_retire hcanon w (canonical_of_attempt hcanon hload hfetch hattempt)

end Machine

end Mips
