import Mips.Memory.Ram
import Mips.Proofs.Machine.Step
/-!
# Delay slots

Where instructions are fetched is decided by a machine of its own: a `Sequencer` holds the address
of the next instruction and the branch that waits for its delay slot, and reads nothing but the
general registers and the words of the program.  `Machine.Retires.sequencing` says that every run
of the processor follows it.
-/

namespace Mips

/-- The address of the next instruction, and where control goes after it if a branch is due. -/
structure Sequencer where
  pc : Word
  pending : Option Word
  deriving DecidableEq, Repr

/-- The sequencer after the word `w`, which reads the registers `regs`.  In a delay slot the branch
that is due is made, whatever `w` is. -/
def Sequencer.next (s : Sequencer) (regs : Reg → DWord) (w : Word) : Sequencer :=
  match s.pending with
  | some target => ⟨target, none⟩
  | none =>
    if w.taken regs then ⟨s.pc + 4, some (w.target s.pc regs)⟩
    else if (Opcode.decode w).isLikely then ⟨s.pc + 8, none⟩
    else ⟨s.pc + 4, none⟩

namespace Cpu

def sequencer (c : Cpu) : Sequencer := ⟨c.pc, c.pending⟩

/-- The processor after the return address of `w`, if it links, has been written. -/
def linked (c : Cpu) (w : Word) : Cpu := c.written (w.linkReg?.map fun r => (r, (c.pc + 8).sext))

theorem sequencer_retire {c : Cpu} {w : Word} {e : Effect}
    (htransfer : e.transfer = w.flow c.pc c.reg) :
    (c.retire w e).sequencer = c.sequencer.next c.reg w := by
  rw [retire_eq, htransfer]
  unfold sequencer Sequencer.next Word.flow
  cases c.pending with
  | some target => rfl
  | none =>
    dsimp only
    split
    · rfl
    · split <;> rfl

end Cpu

namespace Machine

variable {μ : Type} [Memory μ]

/-- An instruction that has retired: the machine before it and the word that it fetched. -/
structure Retirement (μ : Type) where
  before : Machine μ
  word : Word

/-- A run from the first machine to the second in which every step retires. -/
inductive Retires : Machine μ → List (Retirement μ) → Machine μ → Prop where
  | refl (m : Machine μ) : Retires m [] m
  | next {m m' m'' : Machine μ} {w : Word} {trace : List (Retirement μ)}
      (hfetch : m.fetch.1 = .ok w) (hstep : m.step = (none, m')) (htail : Retires m' trace m'') :
      Retires m (⟨m, w⟩ :: trace) m''

theorem exists_retires (m : Machine μ) (n : Nat)
    (hretire : ∀ k < n, (m.steps k).step.1 = none) :
    ∃ trace, trace.length = n ∧ Retires m trace (m.steps n) := by
  induction n generalizing m with
  | zero => exact ⟨[], rfl, .refl m⟩
  | succ n ih =>
    have hstep : m.step = (none, m.step.2) := Prod.ext (hretire 0 (Nat.succ_pos n)) rfl
    obtain ⟨w, memory, e, hfetch, -, -⟩ := exists_of_step_retires hstep
    obtain ⟨trace, hlength, htail⟩ :=
      ih m.step.2 fun k hk => hretire (k + 1) (Nat.succ_lt_succ hk)
    refine ⟨⟨m, w⟩ :: trace, congrArg Nat.succ hlength, ?_⟩
    exact .next (congrArg Prod.fst hfetch) hstep htail

theorem step_sequencer {m m' : Machine μ} {w : Word} (hfetch : m.fetch.1 = .ok w)
    (hstep : m.step = (none, m')) :
    m'.cpu.sequencer = m.cpu.sequencer.next m.cpu.reg w := by
  obtain ⟨w', memory, e, hfetch', hattempt, hcpu⟩ := exists_of_step_retires hstep
  obtain rfl : w' = w := by simpa [hfetch'] using hfetch
  rw [hcpu]
  apply Cpu.sequencer_retire
  rw [(Action.yields_of_perform_ok hattempt).transfer_eq]
  cases hleaves : (Opcode.decode w').leaves with
  | true => rw [Cpu.action_of_leaves hleaves]; rfl
  | false =>
    rw [Cpu.transfer_action_of_stays hleaves, Word.flow_of_stays hleaves]

theorem sequencer_of_step_fails {m m' : Machine μ} {f : Fault} (hstep : m.step = (some f, m')) :
    m'.cpu.sequencer = m.cpu.sequencer := by
  obtain rfl : m.step.2 = m' := congrArg Prod.snd hstep
  obtain ⟨_, _, -, h⟩ | ⟨_, _, _, _, -, -, h⟩ | ⟨_, _, _, _, -, -, h⟩ := m.step_cases
  · rw [h]
    rfl
  · rw [h]
    rfl
  · rw [h] at hstep
    cases hstep

/-- A jump or branch never fails once it has been fetched.  It moves the sequencer on and writes
its return address; nothing else depends on it. -/
theorem step_of_leaves {m : Machine μ} {w : Word} (hfetch : m.fetch.1 = .ok w)
    (hleaves : (Opcode.decode w).leaves = true) :
    let s := m.cpu.sequencer.next m.cpu.reg w
    m.step = (none,
      ⟨{ m.cpu.linked w with
          pc := s.pc, pending := s.pending, annul := false, retired := m.cpu.retired + 1,
          current := w },
        m.fetch.2⟩) := by
  intro s
  rw [step_of_action_retire hfetch (Cpu.action_of_leaves hleaves)]
  have hs : s = (m.cpu.retire w
      { write := w.linkReg?.map fun r => (r, (m.cpu.pc + 8).sext)
        transfer := w.flow m.cpu.pc m.cpu.reg }).sequencer :=
    (Cpu.sequencer_retire rfl).symm
  rw [hs, Cpu.retire_eq, Cpu.linked, Cpu.written_eq]
  rfl

/-- Every run follows the sequencer: its last state is where the sequencer goes under the words of
the run, with the registers that each of them found.  Each single step moves as the sequencer
does, and a jump or branch changes nothing else but its link register, also when it stands in a
delay slot. -/
theorem Retires.sequencing {m m' : Machine μ} {trace : List (Retirement μ)}
    (hrun : Retires m trace m') :
    m'.cpu.sequencer =
        trace.foldl (fun s r => s.next r.before.cpu.reg r.word) m.cpu.sequencer ∧
      ∀ r ∈ trace,
        r.before.step.2.cpu.sequencer =
            r.before.cpu.sequencer.next r.before.cpu.reg r.word ∧
          ((Opcode.decode r.word).leaves = true →
            r.before.step.2 =
              ⟨{ r.before.cpu.linked r.word with
                  pc := r.before.step.2.cpu.pc
                  pending := r.before.step.2.cpu.pending
                  annul := false
                  retired := r.before.cpu.retired + 1
                  current := r.word },
                r.before.fetch.2⟩) := by
  induction hrun with
  | refl m => simp
  | @next m m' m'' w trace hfetch hstep htail ih =>
    refine ⟨?_, ?_⟩
    · rw [ih.1, step_sequencer hfetch hstep]
      rfl
    · intro r hr
      rcases List.mem_cons.mp hr with rfl | hr
      · refine ⟨?_, fun hleaves => ?_⟩
        · rw [hstep]
          exact step_sequencer hfetch hstep
        · rw [step_of_leaves hfetch hleaves]
      · exact ih.2 r hr

/-- A jump through the register that it links, with a likely branch that is not taken in its delay
slot. -/
def linkedJump : Machine Ram where
  cpu := { Cpu.reset with
    gpr := (Vector.replicate 32 0).set 31 0x80000100
    pc := 0x80000000 }
  memory := (Ram.blank.setWord 0 0x03E0F809).setWord 4 0x54000004

theorem linkedJump_sequencing :
    Retires linkedJump [⟨linkedJump, 0x03E0F809⟩, ⟨linkedJump.step.2, 0x54000004⟩]
        (linkedJump.steps 2) ∧
      (linkedJump.steps 2).cpu.sequencer = ⟨0x80000100, none⟩ := by
  have hrun : Retires linkedJump [⟨linkedJump, 0x03E0F809⟩, ⟨linkedJump.step.2, 0x54000004⟩]
      (linkedJump.steps 2) :=
    .next rfl (Prod.ext (by decide) rfl) (.next rfl (Prod.ext (by decide) rfl) (.refl _))
  refine ⟨hrun, ?_⟩
  rw [(Retires.sequencing hrun).1]
  decide

end Machine

end Mips
