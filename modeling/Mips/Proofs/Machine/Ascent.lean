import Mips.Proofs.Machine.Alignment
import Mips.Proofs.Memory.Program
/-!
# Runs on the straight path

Without a jump or a taken branch, a run goes up through main memory by one or two words with each
instruction.  It comes to the end of memory before it could get anywhere else: the segments in
which memory shows up are too far apart for a step from one to the next.
-/

namespace Mips.Machine

/-- The next instruction is a jump, or a branch that is taken. -/
def Leaves (m : Machine Ram) : Prop :=
  ∃ w, m.fetch.1 = .ok w ∧ w.taken m.cpu.reg = true

/-- A step up from a word of memory, to the next word or to the one after it.  Neither the address
nor what it has in common with its mirrors wraps around. -/
structure Climbs (m m' : Machine Ram) : Prop where
  aligned : m.cpu.pc.Aligned
  fits : Ram.offset m.cpu.pc + 4 ≤ Ram.size
  pending : m'.cpu.pending = none
  up : ∃ d, (d = 4 ∨ d = 8) ∧ m'.cpu.pc.toNat = m.cpu.pc.toNat + d ∧
    Ram.offset m'.cpu.pc = Ram.offset m.cpu.pc + d

theorem climbs_of_retires {m m' : Machine Ram} (hpending : m.cpu.pending = none)
    (hstays : ¬m.Leaves) (hstep : m.step = (none, m')) : m.Climbs m' := by
  obtain ⟨w, memory, -, hfetched, -⟩ := exists_of_step_retires hstep
  have hfetch : m.fetch.1 = .ok w := congrArg Prod.fst hfetched
  have htaken : w.taken m.cpu.reg = false :=
    Bool.eq_false_iff.mpr fun htaken => hstays ⟨w, hfetch, htaken⟩
  have hsize : Ram.size = 2 ^ 23 := rfl
  obtain ⟨haligned, hfits⟩ : m.cpu.pc.Aligned ∧ Ram.offset m.cpu.pc + 4 ≤ Ram.size := by
    rw [fetch_eq] at hfetch
    cases hlocated : Ram.located 4 m.cpu.pc with
    | error f =>
      rw [hlocated] at hfetch
      cases hfetch
    | ok i =>
      obtain ⟨rfl, haligned, hfits⟩ := Ram.located_ok hlocated
      exact ⟨haligned, hfits⟩
  have hnext : m'.cpu.sequencer =
      ⟨m.cpu.pc + if (Opcode.decode w).isLikely then .ofNat 32 8 else .ofNat 32 4, none⟩ := by
    rw [step_sequencer hfetch hstep, Sequencer.next, Cpu.sequencer, hpending, htaken]
    cases (Opcode.decode w).isLikely <;> rfl
  have hpc : m'.cpu.pc = _ := congrArg Sequencer.pc hnext
  refine ⟨haligned, hfits, congrArg Sequencer.pending hnext, ?_⟩
  rw [hpc]
  split
  · exact ⟨8, .inr rfl, Ram.toNat_add_of_lt (by omega), Ram.offset_add_of_lt (by omega)⟩
  · exact ⟨4, .inl rfl, Ram.toNat_add_of_lt (by omega), Ram.offset_add_of_lt (by omega)⟩

namespace Climbs

variable {m m' : Machine Ram}

theorem offset_lt (hclimbs : m.Climbs m') :
    Ram.offset m.cpu.pc + 4 ≤ Ram.offset m'.cpu.pc := by
  obtain ⟨d, hd, -, hoffset⟩ := hclimbs.up
  omega

theorem aligned_next (hclimbs : m.Climbs m') : m'.cpu.pc.Aligned := by
  have haligned : m.cpu.pc.toNat % 4 = 0 := hclimbs.aligned
  obtain ⟨d, hd, htoNat, -⟩ := hclimbs.up
  show m'.cpu.pc.toNat % 4 = 0
  omega

/-- There is no step from behind the end of memory. -/
theorem stuck_of_beyond (hclimbs : m.Climbs m') (hstep : m.step = (none, m'))
    (hbeyond : Ram.size ≤ Ram.offset m'.cpu.pc) : m'.Stuck (.invalidAccess m'.cpu.pc) := by
  have hannul : m'.cpu.annul = false := by
    have h := m.annul_step
    rwa [hstep] at h
  have hfetch : m'.fetch = (.error (.invalidAccess m'.cpu.pc), m'.memory) := by
    refine Prod.ext ?_ rfl
    rw [fetch_of_aligned hclimbs.aligned_next, if_neg (by omega)]
  rw [Stuck, step_of_fetch_error hfetch, ← hannul]

end Climbs

/-- A run on the straight path: the budget for it, where it starts, the attempts that it makes, and
where it ends. -/
inductive Ascends : Nat → Machine Ram → List (Machine Ram) → Machine Ram → Prop where
  | spent (m : Machine Ram) : Ascends 0 m [] m
  | fails {m m' : Machine Ram} {f : Fault} (n : Nat) (hstep : m.step = (some f, m')) :
      Ascends (n + 1) m [m] (m'.halt f)
  | climbs {n : Nat} {m m' final : Machine Ram} {attempts : List (Machine Ram)}
      (hstep : m.step = (none, m')) (hclimbs : m.Climbs m')
      (htail : Ascends n m' attempts final) : Ascends (n + 1) m (m :: attempts) final

theorem ascends_of_stays {m : Machine Ram} (hfresh : m.cpu.Fresh) (hpending : m.cpu.pending = none)
    {n : Nat} (hstays : ∀ a ∈ m.attempts n, ¬a.Leaves) :
    Ascends n m (m.attempts n) (m.proceed n) := by
  induction n generalizing m with
  | zero => exact .spent m
  | succ n ih =>
    rcases hstep : m.step with ⟨_ | f, m'⟩
    · rw [attempts_succ_of_retires hfresh.1 hstep, List.forall_mem_cons] at hstays
      rw [attempts_succ_of_retires hfresh.1 hstep, proceed_succ_of_retires hfresh.1 hstep]
      have hclimbs := climbs_of_retires hpending hstays.1 hstep
      exact .climbs hstep hclimbs (ih (fresh_step hfresh hstep) hclimbs.pending hstays.2)
    · rw [attempts_succ_of_fails hfresh.1 hstep, proceed_succ_of_fails hfresh.1 hstep]
      exact .fails n hstep

namespace Ascends

variable {n : Nat} {m final : Machine Ram} {attempts : List (Machine Ram)}

theorem climbs_of_mem (h : Ascends n m attempts final) :
    ∀ a ∈ attempts, a.step.1 = none → a.Climbs a.step.2 := by
  induction h with
  | spent m => nofun
  | fails n hstep =>
    refine List.forall_mem_singleton.mpr fun hretires => ?_
    rw [hstep] at hretires
    cases hretires
  | climbs hstep hclimbs _ ih =>
    rw [List.forall_mem_cons]
    refine ⟨fun _ => ?_, ih⟩
    rw [hstep]
    exact hclimbs

theorem offset_le (h : Ascends n m attempts final) :
    ∀ a ∈ attempts, Ram.offset m.cpu.pc ≤ Ram.offset a.cpu.pc := by
  induction h with
  | spent m => nofun
  | fails n _ => exact List.forall_mem_singleton.mpr (Nat.le_refl _)
  | climbs _ hclimbs _ ih =>
    have hlt := hclimbs.offset_lt
    refine List.forall_mem_cons.mpr ⟨Nat.le_refl _, fun a ha => ?_⟩
    have hle := ih a ha
    omega

theorem pairwise (h : Ascends n m attempts final) :
    attempts.Pairwise fun a b => Ram.offset a.cpu.pc < Ram.offset b.cpu.pc := by
  induction h with
  | spent m => exact .nil
  | fails n _ => exact List.pairwise_singleton _ _
  | climbs _ hclimbs htail ih =>
    have hlt := hclimbs.offset_lt
    refine .cons (fun a ha => ?_) ih
    have hle := htail.offset_le a ha
    omega

/-- Each instruction takes a word of what is left of memory. -/
theorem successes_le (h : Ascends n m attempts final) :
    4 * successes attempts ≤ Ram.size - Ram.offset m.cpu.pc := by
  induction h with
  | spent m => exact Nat.zero_le _
  | fails n hstep =>
    have hnone : successes [_] = 0 := List.countP_singleton.trans (by rw [hstep]; rfl)
    rw [hnone]
    exact Nat.zero_le _
  | climbs hstep hclimbs _ ih =>
    have hlt := hclimbs.offset_lt
    have hfits := hclimbs.fits
    rw [successes_cons_of_retires hstep]
    omega

/-- With a budget for more than that the run cannot spend it. -/
theorem halts (h : Ascends n m attempts final)
    (hbudget : Ram.size - Ram.offset m.cpu.pc < 4 * n) :
    ∃ f : Fault, final.cpu.halted = true ∧ final.cpu.haltReason = some f.message := by
  induction h with
  | spent m => omega
  | @fails _ _ f n _ => exact ⟨f, rfl, rfl⟩
  | climbs _ hclimbs _ ih =>
    have hlt := hclimbs.offset_lt
    have hfits := hclimbs.fits
    exact ih (by omega)

theorem final_of_stuck (h : Ascends n m attempts final) {f : Fault} (hstuck : m.Stuck f) :
    final = m ∨ final = m.halt f := by
  unfold Stuck at hstuck
  cases h with
  | spent m => exact .inl rfl
  | fails n hstep =>
    obtain ⟨hf, rfl⟩ := Prod.mk.inj (hstep.symm.trans hstuck)
    rw [Option.some.inj hf]
    exact .inr rfl
  | climbs hstep _ _ =>
    rw [hstep] at hstuck
    cases hstuck

/-- Once behind the end of memory, the run stays where it is. -/
theorem final_of_beyond (h : Ascends n m attempts final) :
    ∀ a ∈ attempts, a.step.1 = none → Ram.size ≤ Ram.offset a.step.2.cpu.pc →
      a.step.2.Stuck (.invalidAccess a.step.2.cpu.pc) ∧
        (final = a.step.2 ∨ final = a.step.2.halt (.invalidAccess a.step.2.cpu.pc)) := by
  induction h with
  | spent m => nofun
  | fails n hstep =>
    refine List.forall_mem_singleton.mpr fun hretires => ?_
    rw [hstep] at hretires
    cases hretires
  | climbs hstep hclimbs htail ih =>
    refine List.forall_mem_cons.mpr ⟨fun _ hbeyond => ?_, ih⟩
    rw [hstep] at hbeyond ⊢
    have hstuck := hclimbs.stuck_of_beyond hstep hbeyond
    exact ⟨hstuck, htail.final_of_stuck hstuck⟩

end Ascends

/-- A run that starts without a branch to be made and meets no jump and no branch that is taken.
It retires no more instructions than memory has words.  From one attempt to the next the offset
into memory grows, and each instruction moves on by one or two words without a wrap.  A larger
budget is never spent: the run is halted by a fault.  If an instruction moves on behind the end of
memory, then the run ends there; every fetch from there is refused. -/
theorem straight_run_ends {m : Machine Ram} (hpending : m.cpu.pending = none) {budget : Nat}
    (hstays : ∀ a ∈ m.resume.attempts budget, ¬a.Leaves) :
    m.retiredSince (m.run budget) = successes (m.resume.attempts budget) ∧
      m.retiredSince (m.run budget) ≤ 2 ^ 21 ∧
      (m.resume.attempts budget).Pairwise
        (fun a b => Ram.offset a.cpu.pc < Ram.offset b.cpu.pc) ∧
      (∀ a ∈ m.resume.attempts budget, a.step.1 = none →
        ∃ d, (d = 4 ∨ d = 8) ∧ a.step.2.cpu.pc.toNat = a.cpu.pc.toNat + d ∧
          Ram.offset a.step.2.cpu.pc = Ram.offset a.cpu.pc + d) ∧
      (2 ^ 21 < budget → ∃ f : Fault,
        (m.run budget).cpu.halted = true ∧ (m.run budget).cpu.haltReason = some f.message) ∧
      ∀ a ∈ m.resume.attempts budget, a.step.1 = none →
        Ram.size ≤ Ram.offset a.step.2.cpu.pc →
          a.step.2.Stuck (.invalidAccess a.step.2.cpu.pc) ∧
            (m.run budget = a.step.2 ∨
              m.run budget = a.step.2.halt (.invalidAccess a.step.2.cpu.pc)) := by
  have h : Ascends budget m.resume (m.resume.attempts budget) (m.run budget) :=
    ascends_of_stays (m := m.resume) ⟨rfl, rfl⟩ hpending hstays
  have hsize : Ram.size = 2 ^ 23 := rfl
  have hbound := h.successes_le
  have hretired : (m.run budget).cpu.retired = m.cpu.retired + _ := retired_proceed m.resume budget
  have hcount := retiredSince_eq (by omega) hretired
  refine ⟨hcount, by omega, h.pairwise, fun a ha hstep => (h.climbs_of_mem a ha hstep).up, ?_,
    h.final_of_beyond⟩
  intro hbudget
  exact h.halts (by omega)

/-- A likely branch that is not taken, in the last word of memory. -/
def lastSkip : Machine Ram where
  cpu := { Cpu.reset with pc := 0xA07FFFFC }
  memory := Ram.blank.setWord 0x7FFFFC 0x54000004

theorem lastSkip_run_ends :
    lastSkip.cpu.pending = none ∧ lastSkip.step.2.cpu.pc = 0xA0800004 ∧
      (∀ a ∈ lastSkip.resume.attempts (2 ^ 21 + 1), ¬a.Leaves) ∧
      (lastSkip.run (2 ^ 21 + 1)).cpu.halted = true ∧
      (lastSkip.run (2 ^ 21 + 1)).cpu.pc = 0xA0800004 ∧
      (lastSkip.run (2 ^ 21 + 1)).cpu.haltReason =
        some (Fault.invalidAccess 0xA0800004).message := by
  have hstep : lastSkip.resume.step = (none, lastSkip.step.2) := Prod.ext (by decide) rfl
  have hstep' : lastSkip.step.2.step.1 = some (.invalidAccess 0xA0800004) := by decide
  have hattempts : lastSkip.resume.attempts (2 ^ 21 + 1) = [lastSkip.resume, lastSkip.step.2] := by
    rw [attempts_succ_of_retires rfl hstep]
    exact congrArg _ (attempts_succ_of_fails rfl (Prod.ext hstep' rfl) (2 ^ 21 - 1))
  have hstays : ∀ a ∈ lastSkip.resume.attempts (2 ^ 21 + 1), ¬a.Leaves := by
    rw [hattempts, List.forall_mem_cons, List.forall_mem_singleton]
    constructor
    · intro ⟨w, hfetch, htaken⟩
      obtain rfl : 0x54000004 = w := Except.ok.inj hfetch
      revert htaken
      decide
    · intro ⟨w, hfetch, _⟩
      cases hfetch
  obtain ⟨-, -, -, -, hhalts, hends⟩ := straight_run_ends (m := lastSkip) rfl hstays
  obtain ⟨f, hhalted, -⟩ := hhalts (Nat.lt_succ_self _)
  have hmem : lastSkip.resume ∈ lastSkip.resume.attempts (2 ^ 21 + 1) := by
    rw [hattempts]
    exact List.mem_cons_self
  have hbehind := (hends _ hmem (congrArg Prod.fst hstep) (by rw [hstep]; decide)).2
  rw [hstep] at hbehind
  rcases hbehind with hfinal | hfinal
  · rw [hfinal] at hhalted
    exact absurd hhalted (by decide)
  · rw [hfinal]
    exact ⟨rfl, rfl, hstays, rfl, rfl, rfl⟩

end Mips.Machine
