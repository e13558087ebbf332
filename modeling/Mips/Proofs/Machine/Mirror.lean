import Mathlib.Data.List.Forall2
import Mathlib.Data.Nat.ModEq
import Mips.Proofs.Machine.Refusal
import Mips.Proofs.Machine.Trail
/-!
# Code seen through another segment

Main memory shows up in every segment, so the same code can be run at several addresses.  Two
processors mirror each other if they differ at most in the segments that they execute from.  As
long as none of them writes down where it is, they do the same: a branch moves relative to its
address, and a jump keeps the address bits of its region, of which one still counts.
-/

namespace Mips

namespace Word

/-- The addresses differ at most in the bits that select a segment. -/
def Mirrors (a b : Word) : Prop := a.toNat ≡ b.toNat [MOD 2 ^ 29]

namespace Mirrors

variable {a b : Word}

theorem refl (a : Word) : a.Mirrors a := Nat.ModEq.refl a.toNat

theorem offset_eq (hab : a.Mirrors b) : Ram.offset a = Ram.offset b := by
  rw [Ram.offset_eq_mod, Ram.offset_eq_mod]
  exact hab

theorem mod_four_eq (hab : a.Mirrors b) : a.toNat % 4 = b.toNat % 4 :=
  Nat.ModEq.of_dvd (by decide) hab

theorem add (hab : a.Mirrors b) (k : Word) : (a + k).Mirrors (b + k) := by
  have hwrap (x : Nat) : x % 2 ^ 32 ≡ x [MOD 2 ^ 29] :=
    (Nat.mod_modEq x (2 ^ 32)).of_dvd (by decide)
  have hsum (x : Word) : (x + k).toNat ≡ x.toNat + k.toNat [MOD 2 ^ 29] := by
    rw [BitVec.toNat_add]
    exact hwrap _
  calc (a + k).toNat ≡ a.toNat + k.toNat [MOD 2 ^ 29] := hsum a
    _ ≡ b.toNat + k.toNat [MOD 2 ^ 29] := hab.add_right k.toNat
    _ ≡ (b + k).toNat [MOD 2 ^ 29] := (hsum b).symm

theorem branchTarget (hab : a.Mirrors b) (w : Word) :
    (w.branchTarget a).Mirrors (w.branchTarget b) :=
  (hab.add 4).add _

/-- The region of a jump is one of 2 ^ 28 bytes, so its lowest bit is no segment bit. -/
theorem jumpTarget (hab : a.Mirrors b) (w : Word) :
    (w.jumpTarget a).Mirrors (w.jumpTarget b) := by
  have hmod : a.toNat % 2 ^ 29 = b.toNat % 2 ^ 29 := hab
  change (w.jumpTarget a).toNat % 2 ^ 29 = (w.jumpTarget b).toNat % 2 ^ 29
  simp only [Word.jumpTarget, BitVec.toNat_or, BitVec.toNat_and, Nat.or_mod_two_pow,
    Nat.and_mod_two_pow, hmod]

end Mirrors

theorem target_mirrors {a b : Word} (hab : a.Mirrors b) (w : Word) (regs : Reg → DWord) :
    (w.target a regs).Mirrors (w.target b regs) := by
  unfold target
  rw [← branchTarget_eq, ← branchTarget_eq, ← jumpTarget_eq, ← jumpTarget_eq]
  split
  · exact hab.jumpTarget w
  · exact hab.jumpTarget w
  · exact .refl _
  · exact .refl _
  · exact hab.branchTarget w

end Word

/-- The same fault, at addresses that mirror each other. -/
inductive Fault.Mirrors : Fault → Fault → Prop where
  | refl (f : Fault) : Mirrors f f
  | unimplemented {a b : Word} (w : Word) (hab : a.Mirrors b) :
      Mirrors (.unimplemented a w (disassemble w a)) (.unimplemented b w (disassemble w b))
  | invalidAccess {a b : Word} (hab : a.Mirrors b) : Mirrors (.invalidAccess a) (.invalidAccess b)
  | unaligned {a b : Word} (size : Nat) (hab : a.Mirrors b) :
      Mirrors (.unaligned a size) (.unaligned b size)

inductive Transfer.Mirrors : Transfer → Transfer → Prop where
  | next : Mirrors .next .next
  | branch {a b : Word} (hab : a.Mirrors b) : Mirrors (.branch a) (.branch b)
  | skip : Mirrors .skip .skip

structure Effect.Mirrors (e e' : Effect) : Prop where
  write : e.write = e'.write
  product : e.product = e'.product
  control : e.control = e'.control
  transfer : e.transfer.Mirrors e'.transfer

/-- The processors differ at most in the segments of their addresses, and in what no instruction
looks at. -/
structure Cpu.Mirrors (c c' : Cpu) : Prop where
  gpr : c.gpr = c'.gpr
  hi : c.hi = c'.hi
  lo : c.lo = c'.lo
  control : c.control = c'.control
  pc : c.pc.Mirrors c'.pc
  pending : Option.Rel Word.Mirrors c.pending c'.pending

structure Machine.Mirrors (m m' : Machine Ram) : Prop where
  cpu : m.cpu.Mirrors m'.cpu
  memory : m.memory = m'.memory

/-! ## Effects -/

namespace Transfer.Mirrors

variable {t t' : Transfer} {scheduled scheduled' : Option Word}

theorem refl (t : Transfer) : t.Mirrors t := by
  cases t with
  | next => exact .next
  | branch a => exact .branch (.refl a)
  | skip => exact .skip

theorem pcAfter (ht : t.Mirrors t') {pc pc' : Word} (hpc : pc.Mirrors pc')
    (hscheduled : Option.Rel Word.Mirrors scheduled scheduled') :
    (t.pcAfter pc scheduled).Mirrors (t'.pcAfter pc' scheduled') := by
  cases hscheduled with
  | some htarget => exact htarget
  | none =>
    cases ht with
    | next | branch => exact hpc.add 4
    | skip => exact hpc.add 8

theorem pendingAfter (ht : t.Mirrors t')
    (hscheduled : Option.Rel Word.Mirrors scheduled scheduled') :
    Option.Rel Word.Mirrors (t.pendingAfter scheduled) (t'.pendingAfter scheduled') := by
  cases hscheduled with
  | some => exact .none
  | none =>
    cases ht with
    | next | skip => exact .none
    | branch hab => exact .some hab

end Transfer.Mirrors

theorem Effect.Mirrors.refl (e : Effect) : e.Mirrors e := ⟨rfl, rfl, rfl, .refl _⟩

theorem Word.flow_mirrors {a b : Word} (hab : a.Mirrors b) (w : Word) (regs : Reg → DWord) :
    (w.flow a regs).Mirrors (w.flow b regs) := by
  unfold flow
  split
  · exact .branch (target_mirrors hab w regs)
  · exact .refl _

namespace Cpu.Mirrors

variable {c c' : Cpu}

/-- Flags, reasons, the counter and the word in hand do not count. -/
theorem rest (hmirrors : c.Mirrors c') {annul annul' halted halted' : Bool}
    {haltReason haltReason' : Option String} {retired retired' : BitVec 64}
    {current current' : Word} :
    { c with annul, halted, haltReason, retired, current }.Mirrors
      { c' with
        annul := annul', halted := halted', haltReason := haltReason', retired := retired'
        current := current' } :=
  ⟨hmirrors.gpr, hmirrors.hi, hmirrors.lo, hmirrors.control, hmirrors.pc, hmirrors.pending⟩

theorem retire (hmirrors : c.Mirrors c') (w : Word) {e e' : Effect} (he : e.Mirrors e') :
    (c.retire w e).Mirrors (c'.retire w e') := by
  have hgpr : (c.written e.write).gpr = (c'.written e'.write).gpr := by
    rw [he.write]
    cases e'.write with
    | none => exact hmirrors.gpr
    | some rd => simp only [written, setReg_eq, hmirrors.gpr]
  rw [retire_eq, retire_eq]
  refine ⟨hgpr, ?_, ?_, ?_, he.transfer.pcAfter hmirrors.pc hmirrors.pending,
    he.transfer.pendingAfter hmirrors.pending⟩
  · simp only [he.product, hmirrors.hi]
  · simp only [he.product, hmirrors.lo]
  · simp only [he.control, hmirrors.control]

/-- An instruction that stays on the sequential path does not look at its address. -/
theorem action_of_stays (hmirrors : c.Mirrors c') {w : Word}
    (hstays : (Opcode.decode w).leaves = false) : c.action w = c'.action w := by
  obtain ⟨gpr, hi, lo, control, pc, pending, annul, halted, reason, retired, current⟩ := c
  obtain ⟨rfl, rfl, rfl, rfl, -, -⟩ := hmirrors
  unfold action
  generalize Opcode.decode w = op at hstays ⊢
  cases op <;> try exact absurd hstays (by decide)
  all_goals rfl

theorem action_of_leaves (hmirrors : c.Mirrors c') {w : Word}
    (hleaves : (Opcode.decode w).leaves = true) (hlink : w.linkReg? = none) :
    ∃ e e' : Effect, e.Mirrors e' ∧ c.action w = .retire e ∧ c'.action w = .retire e' := by
  have hreg : c.reg = c'.reg := by
    funext r
    rw [reg, reg, hmirrors.gpr]
  have hflow : (w.flow c.pc c.reg).Mirrors (w.flow c'.pc c'.reg) := by
    rw [hreg]
    exact Word.flow_mirrors hmirrors.pc w c'.reg
  have haction (c : Cpu) : c.action w = .retire { transfer := w.flow c.pc c.reg } := by
    rw [Cpu.action_of_leaves hleaves, hlink]
    rfl
  refine ⟨_, _, ?_, haction c, haction c'⟩
  exact ⟨rfl, rfl, rfl, hflow⟩

end Cpu.Mirrors

/-! ## Steps -/

theorem Ram.refusal?_mirrors {a b : Word} (hab : a.Mirrors b) :
    Option.Rel Fault.Mirrors (refusal? 4 a) (refusal? 4 b) := by
  unfold refusal?
  rw [hab.mod_four_eq, hab.offset_eq]
  split
  · exact .some (.unaligned 4 hab)
  · split
    · exact .some (.invalidAccess hab)
    · exact .none

namespace Machine

/-- Whether the coming instruction writes down a return address. -/
def links (m : Machine Ram) : Bool :=
  m.fetch.1.toOption.any fun w => Opcode.decode w ∈ [.jal, .jalr, .bltzal, .bgezal]

theorem linkReg?_of_not_links {m : Machine Ram} (hlink : m.links = false) {w : Word}
    (hfetch : m.fetch.1 = .ok w) : w.linkReg? = none := by
  rw [links, hfetch] at hlink
  have hop : Opcode.decode w ∉ [.jal, .jalr, .bltzal, .bgezal] := of_decide_eq_false hlink
  unfold Word.linkReg?
  generalize Opcode.decode w = op at hop
  cases op <;> first | rfl | exact absurd hop (by decide)

namespace Mirrors

variable {m m' : Machine Ram}

theorem fetch (hmirrors : m.Mirrors m') :
    (∃ w, m.fetch = (.ok w, m.memory) ∧ m'.fetch = (.ok w, m'.memory)) ∨
      ∃ f f' : Fault, f.Mirrors f' ∧ m.fetch = (.error f, m.memory) ∧
        m'.fetch = (.error f', m'.memory) := by
  have hrefusal := Ram.refusal?_mirrors hmirrors.cpu.pc
  rw [fetch_eq, fetch_eq]
  unfold Ram.located
  cases hm : Ram.refusal? 4 m.cpu.pc with
  | none =>
    cases hm' : Ram.refusal? 4 m'.cpu.pc with
    | none =>
      refine .inl ⟨_, rfl, ?_⟩
      rw [hmirrors.cpu.pc.offset_eq, hmirrors.memory]
      rfl
    | some f' =>
      rw [hm, hm'] at hrefusal
      cases hrefusal
  | some f =>
    cases hm' : Ram.refusal? 4 m'.cpu.pc with
    | none =>
      rw [hm, hm'] at hrefusal
      cases hrefusal
    | some f' =>
      rw [hm, hm'] at hrefusal
      cases hrefusal with
      | some hf => exact .inr ⟨f, f', hf, rfl, rfl⟩

theorem attempt (hmirrors : m.Mirrors m') {w : Word} (hlink : w.linkReg? = none) (memory : Ram) :
    (∃ (e e' : Effect) (after : Ram), e.Mirrors e' ∧ m.attempt w memory = (.ok e, after) ∧
        m'.attempt w memory = (.ok e', after)) ∨
      ∃ (f f' : Fault) (after : Ram), f.Mirrors f' ∧ m.attempt w memory = (.error f, after) ∧
        m'.attempt w memory = (.error f', after) := by
  unfold Machine.attempt
  cases hleaves : (Opcode.decode w).leaves with
  | true =>
    obtain ⟨e, e', he, haction, haction'⟩ := hmirrors.cpu.action_of_leaves hleaves hlink
    rw [haction, haction']
    exact .inl ⟨e, e', memory, he, rfl, rfl⟩
  | false =>
    rw [← hmirrors.cpu.action_of_stays hleaves]
    by_cases hrefuse : m.cpu.action w = .refuse
    · rw [hrefuse]
      exact .inr ⟨_, _, memory, .unimplemented w hmirrors.cpu.pc, rfl, rfl⟩
    · rw [← Action.perform_of_ne_refuse hrefuse (m.cpu.fetched w) (m'.cpu.fetched w)]
      rcases (m.cpu.action w).perform (m.cpu.fetched w) memory with ⟨f | e, after⟩
      · exact .inr ⟨f, f, after, .refl f, rfl, rfl⟩
      · exact .inl ⟨e, e, after, .refl e, rfl, rfl⟩

/-- One instruction that does not link. -/
theorem step (hmirrors : m.Mirrors m') (hlink : m.links = false) :
    Option.Rel Fault.Mirrors m.step.1 m'.step.1 ∧ m.step.2.Mirrors m'.step.2 := by
  have hcpu := hmirrors.cpu
  have hmemory := hmirrors.memory
  obtain ⟨w, hfetch, hfetch'⟩ | ⟨f, f', hf, hfetch, hfetch'⟩ := hmirrors.fetch
  · have hnone : w.linkReg? = none := linkReg?_of_not_links hlink (congrArg Prod.fst hfetch)
    rw [← hmemory] at hfetch'
    obtain ⟨e, e', after, he, hok, hok'⟩ | ⟨f, f', after, hf, herror, herror'⟩ :=
      hmirrors.attempt hnone m.memory
    · rw [step_of_attempt_ok hfetch hok, step_of_attempt_ok hfetch' hok']
      exact ⟨.none, hcpu.retire w he, rfl⟩
    · rw [step_of_attempt_error hfetch herror, step_of_attempt_error hfetch' herror']
      exact ⟨.some hf, hcpu.rest, rfl⟩
  · rw [step_of_fetch_error hfetch, step_of_fetch_error hfetch']
    exact ⟨.some hf, hcpu.rest, hmemory⟩

end Mirrors

/-! ## Runs -/

/-- An instruction that both machines attempt: it retires on both or fails alike, and they are
mirrors before and after it. -/
structure InStep (m m' : Machine Ram) : Prop where
  before : m.Mirrors m'
  fault : Option.Rel Fault.Mirrors m.step.1 m'.step.1
  after : m.step.2.Mirrors m'.step.2

/-- Both machines are halted or neither is, and they report the same fault. -/
structure HaltedAlike (m m' : Machine Ram) : Prop where
  halted : m.cpu.halted = m'.cpu.halted
  reason : Option.Rel (fun s s' => ∃ f f' : Fault, f.Mirrors f' ∧ s = f.message ∧ s' = f'.message)
    m.cpu.haltReason m'.cpu.haltReason

theorem HaltedAlike.step {m m' : Machine Ram} (halike : m.HaltedAlike m') :
    m.step.2.HaltedAlike m'.step.2 := by
  obtain ⟨hhalted, hreason, -⟩ := m.rest_step
  obtain ⟨hhalted', hreason', -⟩ := m'.rest_step
  constructor
  · rw [hhalted, hhalted', halike.halted]
  · rw [hreason, hreason']
    exact halike.reason

theorem successes_of_forall₂ {as bs : List (Machine Ram)} (hsteps : List.Forall₂ InStep as bs) :
    successes as = successes bs := by
  induction hsteps with
  | nil => rfl
  | @cons a b as bs hstep _ ih =>
    have hfault {r r' : Option Fault} (hrel : Option.Rel Fault.Mirrors r r') :
        r.isNone = r'.isNone := by
      cases hrel <;> rfl
    unfold successes at ih ⊢
    rw [List.countP_cons, List.countP_cons, ih, hfault hstep.fault]

theorem Mirrors.proceed {m m' : Machine Ram} (hmirrors : m.Mirrors m') (halike : m.HaltedAlike m')
    (n : Nat) (hlink : ∀ a ∈ m.attempts n, a.links = false) :
    List.Forall₂ InStep (m.attempts n) (m'.attempts n) ∧
      (m.proceed n).Mirrors (m'.proceed n) ∧ (m.proceed n).HaltedAlike (m'.proceed n) := by
  induction n generalizing m m' with
  | zero => exact ⟨.nil, hmirrors, halike⟩
  | succ n ih =>
    have hhalted' := halike.halted.symm
    cases hhalted : m.cpu.halted with
    | true =>
      rw [hhalted] at hhalted'
      rw [attempts_of_halted hhalted, attempts_of_halted hhalted', proceed_of_halted hhalted,
        proceed_of_halted hhalted']
      exact ⟨.nil, hmirrors, halike⟩
    | false =>
      rw [hhalted] at hhalted'
      have hfirst : m ∈ m.attempts (n + 1) := by
        rw [attempts, if_neg (by rw [hhalted]; exact Bool.false_ne_true)]
        exact List.mem_cons_self
      obtain ⟨hfault, hafter⟩ := hmirrors.step (hlink m hfirst)
      have hinstep : m.InStep m' := ⟨hmirrors, hfault, hafter⟩
      have hflags := halike.step
      rcases hstep : m.step with ⟨r, next⟩
      rcases hstep' : m'.step with ⟨r', next'⟩
      rw [hstep, hstep'] at hfault hafter hflags
      cases hfault with
      | none =>
        rw [attempts_succ_of_retires hhalted hstep] at hlink
        rw [attempts_succ_of_retires hhalted hstep, attempts_succ_of_retires hhalted' hstep',
          proceed_succ_of_retires hhalted hstep, proceed_succ_of_retires hhalted' hstep']
        obtain ⟨hsteps, hfinal⟩ := ih hafter hflags fun a ha => hlink a (List.mem_cons_of_mem _ ha)
        exact ⟨.cons hinstep hsteps, hfinal⟩
      | @some f f' hf =>
        rw [attempts_succ_of_fails hhalted hstep, attempts_succ_of_fails hhalted' hstep',
          proceed_succ_of_fails hhalted hstep, proceed_succ_of_fails hhalted' hstep']
        have hhalt : (next.halt f).Mirrors (next'.halt f') := ⟨hafter.cpu.rest, hafter.memory⟩
        exact ⟨.cons hinstep .nil, hhalt, rfl, .some ⟨f, f', hf, rfl, rfl⟩⟩

/-- Machines that mirror each other stay together during every run that writes down no return
address.  They attempt the same number of instructions; each of these retires on both or fails
alike, and leaves equal registers and memories and addresses that mirror each other.  They retire
as many instructions, and a fault halts both or neither. -/
theorem mirrored_runs {m m' : Machine Ram} (hmirrors : m.Mirrors m') (n : Nat)
    (hlink : ∀ a ∈ m.resume.attempts n, a.links = false) :
    List.Forall₂ InStep (m.resume.attempts n) (m'.resume.attempts n) ∧
      (m.run n).Mirrors (m'.run n) ∧ (m.run n).HaltedAlike (m'.run n) ∧
      m.retiredSince (m.run n) = m'.retiredSince (m'.run n) := by
  have hresume : m.resume.Mirrors m'.resume := ⟨hmirrors.cpu.rest, hmirrors.memory⟩
  obtain ⟨hsteps, hfinal, halike⟩ := hresume.proceed ⟨rfl, .none⟩ n hlink
  have hcount (m : Machine Ram) :
      m.retiredSince (m.run n) = successes (m.resume.attempts n) % 2 ^ 64 :=
    retiredSince_mod (m.resume.retired_proceed n)
  refine ⟨hsteps, hfinal, halike, ?_⟩
  rw [hcount, hcount, successes_of_forall₂ hsteps]

/-- A jump and a branch with their delay slots, and an instruction that the machine does not
have. -/
def segmentProgram (pc : Word) : Machine Ram where
  cpu := { Cpu.reset with pc }
  memory := (((Ram.blank.setWord 0 0x08000040).setWord 0x100 0x10000001).setWord 0x104
    0x24020007).setWord 0x108 0xFC000000

theorem segmentProgram_mirrored :
    let m := segmentProgram 0x80000000
    let m' := segmentProgram 0xA0000000
    m.Mirrors m' ∧ (∀ a ∈ m.resume.attempts 9, a.links = false) ∧
      (m.resume.attempts 9).length = 5 ∧ (m'.resume.attempts 9).length = 5 ∧
      (m.run 9).cpu.pc = 0x80000108 ∧ (m'.run 9).cpu.pc = 0xA0000108 ∧
      (m.run 9).Mirrors (m'.run 9) ∧ m'.retiredSince (m'.run 9) = 4 := by
  intro m m'
  have hmirrors : m.Mirrors m' :=
    ⟨⟨rfl, rfl, rfl, rfl, show (0x80000000 : Nat) ≡ 0xA0000000 [MOD 2 ^ 29] by decide, .none⟩, rfl⟩
  have hlink : ∀ a ∈ m.resume.attempts 9, a.links = false := by decide
  obtain ⟨hsteps, hfinal, -, hcount⟩ := mirrored_runs hmirrors 9 hlink
  have hlength : (m.resume.attempts 9).length = 5 := by decide
  refine ⟨hmirrors, hlink, hlength, ?_, by decide, by decide, hfinal, ?_⟩
  · rw [← hsteps.length_eq, hlength]
  · rw [← hcount]
    decide

end Machine

end Mips
