import Mips.Proofs.Cpu.Lifetime
import Mips.Proofs.Machine.Refusal
import Mips.Proofs.Machine.Sequencing
/-!
# Aligned instructions

Jumps and branches in the text of a program lead to multiples of four, and so does going on to the
next word.  Only a register or a host can name another address: from a processor at an aligned
address, everything that is fetched is aligned until one of them does.
-/

namespace Mips

namespace Word

/-! ## Targets -/

theorem Aligned.add {a b : Word} (ha : a.Aligned) (hb : b.Aligned) : (a + b).Aligned := by
  unfold Aligned at ha hb ⊢
  rw [BitVec.toNat_add]
  omega

theorem aligned_shiftLeft_two (a : Word) : Aligned (a <<< 2) := by
  unfold Aligned
  rw [BitVec.toNat_shiftLeft, Nat.shiftLeft_eq]
  omega

theorem Aligned.or {a b : Word} (ha : a.Aligned) (hb : b.Aligned) : (a ||| b).Aligned := by
  have ha4 : a.toNat % 2 ^ 2 = 0 := ha
  have hb4 : b.toNat % 2 ^ 2 = 0 := hb
  show (a ||| b).toNat % 2 ^ 2 = 0
  rw [BitVec.toNat_or, Nat.or_mod_two_pow, ha4, hb4]
  rfl

theorem Aligned.and {a : Word} (ha : a.Aligned) (b : Word) : (a &&& b).Aligned := by
  have ha4 : a.toNat % 2 ^ 2 = 0 := ha
  show (a &&& b).toNat % 2 ^ 2 = 0
  rw [BitVec.toNat_and, Nat.and_mod_two_pow, ha4, Nat.zero_and]

/-- Where a jump or branch goes is aligned, unless it is a register that says where. -/
theorem aligned_target_iff {pc : Word} (hpc : pc.Aligned) (w : Word) (regs : Reg → DWord) :
    (w.target pc regs).Aligned ↔
      (Opcode.decode w = .jr ∨ Opcode.decode w = .jalr → (regs w.rs).lo.Aligned) := by
  have hjump : (w.jumpTarget pc).Aligned := (hpc.and _).or (aligned_shiftLeft_two _)
  have hbranch : (w.branchTarget pc).Aligned := (hpc.add (b := 4) rfl).add (aligned_shiftLeft_two _)
  unfold target
  rw [← branchTarget_eq, ← jumpTarget_eq]
  generalize Opcode.decode w = op
  cases op
  case jr => exact ⟨fun h _ => h, fun h => h (.inl rfl)⟩
  case jalr => exact ⟨fun h _ => h, fun h => h (.inr rfl)⟩
  case j | jal => exact iff_of_true hjump (fun h => h.elim nofun nofun)
  all_goals exact iff_of_true hbranch (fun h => h.elim nofun nofun)

end Word

namespace Sequencer

structure Aligned (s : Sequencer) : Prop where
  pc : s.pc.Aligned
  pending : ∀ target, s.pending = some target → target.Aligned

theorem aligned_iff (s : Sequencer) :
    s.Aligned ↔ s.pc.Aligned ∧ s.pending.all (fun target => decide target.Aligned) = true := by
  simp only [Option.all_eq_true, decide_eq_true_eq]
  exact ⟨fun h => ⟨h.pc, h.pending⟩, fun h => ⟨h.1, h.2⟩⟩

instance (s : Sequencer) : Decidable s.Aligned := decidable_of_iff' _ s.aligned_iff

theorem aligned_next_iff {s : Sequencer} (hs : s.Aligned) (regs : Reg → DWord) (w : Word) :
    (s.next regs w).Aligned ↔
      (s.pending = none → w.taken regs = true → (w.target s.pc regs).Aligned) := by
  have hfour : (s.pc + 4).Aligned := hs.pc.add rfl
  have height : (s.pc + 8).Aligned := hs.pc.add rfl
  obtain ⟨pc, pending⟩ := s
  cases pending with
  | some target =>
    exact iff_of_true ⟨hs.pending target rfl, nofun⟩ nofun
  | none =>
    unfold next
    cases htaken : w.taken regs with
    | true =>
      simp only [if_true, true_implies]
      constructor
      · intro h
        exact h.pending _ rfl
      · intro h
        refine ⟨hfour, fun target htarget => ?_⟩
        rwa [← Option.some.inj htarget]
    | false =>
      refine iff_of_true ?_ nofun
      simp only [Bool.false_eq_true, if_false]
      split
      · exact ⟨height, nofun⟩
      · exact ⟨hfour, nofun⟩

end Sequencer

namespace Machine

variable {μ : Type} [Memory μ]

/-- The next instruction jumps to what a register holds, which is not aligned.  In the delay slot of
another branch it would not get there. -/
structure Misjumps (m : Machine μ) : Prop where
  pending : m.cpu.pending = none
  jumps : ∃ w, m.fetch.1 = .ok w ∧ (Opcode.decode w = .jr ∨ Opcode.decode w = .jalr) ∧
    ¬(m.cpu.word w.rs).Aligned

/-- One step loses the alignment exactly by such a jump. -/
theorem aligned_step_iff {m : Machine μ} (hm : m.cpu.sequencer.Aligned) :
    m.step.2.cpu.sequencer.Aligned ↔ ¬m.Misjumps := by
  have hisJump {w : Word} (hjump : Opcode.decode w = .jr ∨ Opcode.decode w = .jalr) :
      (Opcode.decode w).isJump = true := by
    rcases hjump with h | h <;> rw [h] <;> rfl
  rcases hstep : m.step with ⟨_ | f, m'⟩
  · obtain ⟨w, memory, -, hfetched, -⟩ := exists_of_step_retires hstep
    have hfetch : m.fetch.1 = .ok w := congrArg Prod.fst hfetched
    rw [step_sequencer hfetch hstep, Sequencer.aligned_next_iff hm,
      Word.aligned_target_iff hm.pc]
    constructor
    · intro haligned ⟨hpending, w', hfetch', hjump, hmisaligned⟩
      obtain rfl : w = w' := Except.ok.inj (hfetch.symm.trans hfetch')
      have htaken : w.taken m.cpu.reg = true := by
        rw [Word.taken, hisJump hjump, Bool.true_or]
      exact hmisaligned (haligned hpending htaken hjump)
    · intro hjumps hpending _ hjump
      by_contra hmisaligned
      exact hjumps ⟨hpending, w, hfetch, hjump, hmisaligned⟩
  · rw [sequencer_of_step_fails hstep]
    refine iff_of_true hm ?_
    intro ⟨_, w, hfetch, hjump, _⟩
    have hleaves : (Opcode.decode w).leaves = true := by
      rw [Opcode.leaves, hisJump hjump, Bool.true_or]
    have hretires := step_of_leaves hfetch hleaves
    rw [hstep] at hretires
    cases hretires

theorem aligned_steps {m : Machine μ} (hm : m.cpu.sequencer.Aligned) {n : Nat}
    (hjumps : ∀ k < n, ¬(m.steps k).Misjumps) : ∀ k ≤ n, (m.steps k).cpu.sequencer.Aligned := by
  intro k hk
  induction k with
  | zero => exact hm
  | succ k ih =>
    rw [steps_succ]
    exact (aligned_step_iff (ih (Nat.le_of_succ_le hk))).mpr (hjumps k hk)

/-- A run and its end, with any observer. -/
theorem aligned_loop {ω : Type} (o : Observer μ ω) (n : Nat) {m : Machine μ} (notes : ω)
    (hm : m.cpu.sequencer.Aligned) (hjumps : ∀ p ∈ trail o n m notes, ¬p.1.Misjumps) :
    (∀ p ∈ trail o n m notes, p.1.cpu.sequencer.Aligned) ∧
      (loop o n m notes).1.cpu.sequencer.Aligned := by
  refine loop_trail_induction (o := o) (P := fun m _ trail final =>
    m.cpu.sequencer.Aligned → (∀ p ∈ trail, ¬p.1.Misjumps) →
      (∀ p ∈ trail, p.1.cpu.sequencer.Aligned) ∧ final.1.cpu.sequencer.Aligned)
    ?_ ?_ ?_ n m notes hm hjumps
  · intro m notes hm _
    exact ⟨nofun, hm⟩
  · intro cpu memory notes seen noted m' trail final _ hstep ih hm hjumps
    rw [List.forall_mem_cons] at hjumps ⊢
    have hnext := (aligned_step_iff (m := ⟨cpu, seen⟩) hm).mpr hjumps.1
    rw [hstep] at hnext
    obtain ⟨htrail, hfinal⟩ := ih hnext hjumps.2
    exact ⟨⟨hm, htrail⟩, hfinal⟩
  · intro cpu memory notes seen noted m' f _ hstep hm _
    have hsame := sequencer_of_step_fails hstep
    have hfinal : m'.cpu.sequencer.Aligned := by
      rw [hsame]
      exact hm
    exact ⟨List.forall_mem_singleton.mpr hm, hfinal⟩

theorem fetch_of_aligned {m : Machine Ram} (hpc : m.cpu.pc.Aligned) :
    m.fetch.1 = if Ram.offset m.cpu.pc + 4 ≤ Ram.size
      then .ok (m.memory.wordAt (Ram.offset m.cpu.pc)) else .error (.invalidAccess m.cpu.pc) := by
  have hmod : m.cpu.pc.toNat % 4 = 0 := hpc
  rw [fetch_eq, Ram.located, Ram.refusal?, if_neg (Decidable.not_not.mpr hmod)]
  by_cases hfits : Ram.offset m.cpu.pc + 4 ≤ Ram.size
  · rw [if_pos hfits, if_neg (Nat.not_lt.mpr hfits)]
    rfl
  · rw [if_neg hfits, if_pos (Nat.lt_of_not_le hfits)]
    rfl

end Machine

namespace Cpu

/-- The event gives the processor an address that is not aligned. -/
def Misleads (c : Cpu) : Event → Prop
  | .set (.setPc a) => ¬a.Aligned
  | .set (.scheduleBranch target) =>
    0 ≤ target ∧ target ≤ 0xFFFFFFFF ∧ ¬Word.Aligned (.ofInt 32 target)
  | .set _ => False
  | @Event.step _ _ memory => (Machine.mk c memory).Misjumps
  | @Event.run _ _ _ o budget memory notes =>
    ∃ p ∈ Machine.trail o budget ⟨c.resume, memory⟩ notes, p.1.Misjumps

theorem aligned_after {c : Cpu} {e : Event} (hc : c.sequencer.Aligned) (he : ¬c.Misleads e) :
    (c.after e).sequencer.Aligned := by
  have hsetReg (r : Reg) (d : DWord) : (c.setReg r d).sequencer.Aligned := by
    rw [setReg_eq]
    exact hc
  cases e with
  | step memory => exact (Machine.aligned_step_iff (m := ⟨c, memory⟩) hc).mpr he
  | run o budget memory notes =>
    have hjumps : ∀ p ∈ Machine.trail o budget ⟨c.resume, memory⟩ notes, ¬p.1.Misjumps :=
      fun p hp hmisjumps => he ⟨p, hp, hmisjumps⟩
    exact (Machine.aligned_loop o budget notes hc hjumps).2
  | set s =>
    cases s with
    | setReg r d => exact hsetReg r d
    | setSigned r w => exact hsetReg r w.sext
    | setUnsigned r w => exact hsetReg r w.zext
    | setPc a => exact ⟨Decidable.not_not.mp he, nofun⟩
    | requestHalt => exact hc
    | reset => exact ⟨rfl, nofun⟩
    | scheduleBranch target =>
      show (c.set (.scheduleBranch target)).2.sequencer.Aligned
      rw [set_scheduleBranch]
      split
      · next htarget =>
        refine ⟨hc.pc, fun address haddress => ?_⟩
        rw [← Option.some.inj haddress]
        by_contra hmisaligned
        exact he ⟨htarget.1, htarget.2, hmisaligned⟩
      · exact hc

/-- The first event after which something is not aligned. -/
theorem exists_misleads {c : Cpu} {es : List Event} (hc : c.sequencer.Aligned)
    (hes : ¬(es.foldl after c).sequencer.Aligned) :
    ∃ xs e ys, es = xs ++ e :: ys ∧ (xs.foldl after c).sequencer.Aligned ∧
      (xs.foldl after c).Misleads e := by
  induction es generalizing c with
  | nil => exact absurd hc hes
  | cons e es ih =>
    by_cases he : c.Misleads e
    · exact ⟨[], e, es, rfl, hc, he⟩
    · obtain ⟨xs, x, ys, hsplit, haligned, hmisleads⟩ := ih (aligned_after hc he) hes
      exact ⟨e :: xs, x, ys, congrArg (List.cons e) hsplit, haligned, hmisleads⟩

/-- From a processor at an aligned address.  A step, with any memory, keeps to aligned addresses
unless it jumps to a register that holds another one; so do all steps in a row, and so does a run
with main memory, in which no fetch is then refused for its address.  Whatever happens to the
processor, if it ends up at an address that is not aligned, then it was led there from an aligned
one: by such a jump, or by a host that set this address or scheduled a branch to it. -/
theorem alignment_kept {c : Cpu} (hc : c.sequencer.Aligned) :
    (∀ {μ : Type} [Memory μ] (memory : μ),
      (Machine.mk c memory).step.2.cpu.sequencer.Aligned ↔ ¬(Machine.mk c memory).Misjumps) ∧
    (∀ {μ : Type} [Memory μ] (memory : μ) (n : Nat),
      (∀ k < n, ¬((Machine.mk c memory).steps k).Misjumps) →
        ∀ k ≤ n, ((Machine.mk c memory).steps k).cpu.sequencer.Aligned) ∧
    (∀ {ω : Type} (o : Observer Ram ω) (budget : Nat) (memory : Ram) (notes : ω),
      let trail := Machine.trail o budget ⟨c.resume, memory⟩ notes
      (∀ p ∈ trail, ¬p.1.Misjumps) →
        (∀ p ∈ trail, p.1.cpu.sequencer.Aligned ∧
          ∀ a size, p.1.fetch.1 ≠ .error (.unaligned a size)) ∧
        ((Machine.mk c memory).runWith o budget notes).1.cpu.sequencer.Aligned) ∧
    ∀ es : List Event, ¬(es.foldl after c).sequencer.Aligned →
      ∃ xs e ys, es = xs ++ e :: ys ∧ (xs.foldl after c).sequencer.Aligned ∧
        (xs.foldl after c).Misleads e := by
  refine ⟨fun memory => Machine.aligned_step_iff hc, fun memory n => Machine.aligned_steps hc, ?_,
    fun es => exists_misleads hc⟩
  intro ω o budget memory notes trail hjumps
  obtain ⟨htrail, hfinal⟩ := Machine.aligned_loop o budget notes hc hjumps
  refine ⟨fun p hp => ⟨htrail p hp, fun a size => ?_⟩, hfinal⟩
  rw [Machine.fetch_of_aligned (htrail p hp).pc]
  split
  · nofun
  · nofun

/-- A jump to an address that is not aligned: first in the delay slot of a branch, then behind
it. -/
def strayCode : Ram :=
  ((Ram.blank.setWord 0 0x10000001).setWord 4 0x00400008).setWord 8 0x00400008

def strayCpu : Cpu := (reset.setReg .v0 2).setPc 0x80000000

theorem strayCpu_alignment_kept :
    strayCpu.sequencer.Aligned ∧
      ((Machine.mk strayCpu strayCode).steps 1).fetch.1 = .ok 0x00400008 ∧
      ((Machine.mk strayCpu strayCode).steps 2).cpu.sequencer.Aligned ∧
      ¬((List.replicate 4 (.step strayCode)).foldl after strayCpu).sequencer.Aligned ∧
      ∃ xs e ys, List.replicate 4 (.step strayCode) = xs ++ e :: ys ∧
        (xs.foldl after strayCpu).sequencer.Aligned ∧ (xs.foldl after strayCpu).Misleads e := by
  have hc : strayCpu.sequencer.Aligned := by decide
  have hes : ¬((List.replicate 4 (.step strayCode)).foldl after strayCpu).sequencer.Aligned := by
    decide
  have hjumps : ∀ k < 2, ¬((Machine.mk strayCpu strayCode).steps k).Misjumps := by
    intro k hk ⟨hpending, w, hfetch, hjump, _⟩
    have hcases : k = 0 ∨ k = 1 := by omega
    rcases hcases with rfl | rfl
    · obtain rfl : 0x10000001 = w := Except.ok.inj hfetch
      revert hjump
      decide
    · revert hpending
      decide
  obtain ⟨-, hsteps, -, hfirst⟩ := alignment_kept hc
  exact ⟨hc, rfl, hsteps strayCode 2 hjumps 2 (Nat.le_refl 2), hes, hfirst _ hes⟩

end Cpu

end Mips
