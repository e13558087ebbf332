import Mips.Proofs.Cpu.Setting
import Mips.Proofs.Machine.Run
import Mips.Proofs.Session
import Mips.Snapshot.Basic
/-!
# What a snapshot leaves out

A snapshot does not show the word fetched last, the reason of the last halt and whether a skip is
noted.  None of the three is ever read before it is written again: two processors with equal
snapshots and equal memories answer every list of requests alike.
-/

namespace Mips

namespace Cpu

variable {c c' : Cpu}

theorem exists_hidden_of_snapshot_eq (hsnapshot : c.snapshot = c'.snapshot) :
    ∃ annul haltReason current, c' = { c with annul, haltReason, current } := by
  obtain ⟨_, _, _, _, _, _, _, _, _, _, _⟩ := c
  obtain ⟨_, _, _, _, _, _, _, _, _, _, _⟩ := c'
  simp only [snapshot, Snapshot.mk.injEq] at hsnapshot
  obtain ⟨rfl, rfl, rfl, rfl, rfl, rfl, rfl, rfl⟩ := hsnapshot
  exact ⟨_, _, _, rfl⟩

theorem snapshot_setReg (hsnapshot : c.snapshot = c'.snapshot) (r : Reg) (d : DWord) :
    (c.setReg r d).snapshot = (c'.setReg r d).snapshot := by
  obtain ⟨_, _, _, rfl⟩ := exists_hidden_of_snapshot_eq hsnapshot
  rw [setReg_eq, setReg_eq]
  rfl

theorem snapshot_retire (hsnapshot : c.snapshot = c'.snapshot) (w : Word) (e : Effect) :
    (c.retire w e).snapshot = (c'.retire w e).snapshot := by
  have hgpr : (c.written e.write).gpr = (c'.written e.write).gpr := by
    cases e.write with
    | none => exact congrArg Snapshot.gpr hsnapshot
    | some rd => exact congrArg Snapshot.gpr (snapshot_setReg hsnapshot rd.1 rd.2)
  obtain ⟨_, _, _, rfl⟩ := exists_hidden_of_snapshot_eq hsnapshot
  rw [retire_eq, retire_eq, hgpr]
  rfl

/-- A setting does not look at what is hidden. -/
theorem snapshot_set (hsnapshot : c.snapshot = c'.snapshot) (s : Setting) :
    (c.set s).1 = (c'.set s).1 ∧ (c.set s).2.snapshot = (c'.set s).2.snapshot := by
  cases s with
  | setReg r d => exact ⟨rfl, snapshot_setReg hsnapshot r d⟩
  | setSigned r w => exact ⟨rfl, snapshot_setReg hsnapshot r w.sext⟩
  | setUnsigned r w => exact ⟨rfl, snapshot_setReg hsnapshot r w.zext⟩
  | scheduleBranch target =>
    obtain ⟨_, _, _, rfl⟩ := exists_hidden_of_snapshot_eq hsnapshot
    rw [set_scheduleBranch, set_scheduleBranch]
    split <;> exact ⟨rfl, rfl⟩
  | setPc a | requestHalt | reset =>
    obtain ⟨_, _, _, rfl⟩ := exists_hidden_of_snapshot_eq hsnapshot
    exact ⟨rfl, rfl⟩

theorem haltReason_set (hreason : c.haltReason = c'.haltReason) (s : Setting) :
    (c.set s).2.haltReason = (c'.set s).2.haltReason := by
  have hsetReg (r : Reg) (d : DWord) : (c.setReg r d).haltReason = (c'.setReg r d).haltReason := by
    rw [setReg_eq, setReg_eq]
    exact hreason
  cases s with
  | setReg r d => exact hsetReg r d
  | setSigned r w => exact hsetReg r w.sext
  | setUnsigned r w => exact hsetReg r w.zext
  | scheduleBranch target =>
    rw [set_scheduleBranch, set_scheduleBranch]
    split <;> exact hreason
  | setPc a | requestHalt => exact hreason
  | reset => rfl

end Cpu

namespace Machine

variable {μ : Type} [Memory μ]

inductive Request where
  | set (s : Cpu.Setting)
  | step
  | run (budget : Nat)

inductive Reply where
  | done (fault : Option Fault)
  | retired (n : Nat)
  deriving DecidableEq, Repr

def serve (m : Machine μ) : Request → Reply × Machine μ
  | .set s => (.done (m.cpu.set s).1, ⟨(m.cpu.set s).2, m.memory⟩)
  | .step => (.done m.step.1, m.step.2)
  | .run budget => (.retired (m.retiredSince (m.run budget)), m.run budget)

/-- A request, and all that can be seen afterwards: the reply, the snapshot and the memory. -/
def observe (m : Machine μ) (r : Request) : (Reply × Snapshot × μ) × Machine μ :=
  let served := m.serve r
  ((served.1, served.2.cpu.snapshot, served.2.memory), served.2)

/-- The machines differ in nothing but what a snapshot leaves out. -/
structure Alike (m m' : Machine μ) : Prop where
  snapshot : m.cpu.snapshot = m'.cpu.snapshot
  memory : m.memory = m'.memory

end Machine

/-- An access is made without a look at the processor; an instruction that is missing is reported
with its address and the word just fetched. -/
theorem Action.perform_congr {μ : Type} [Memory μ] {c c' : Cpu} (hpc : c.pc = c'.pc)
    (hcurrent : c.current = c'.current) (memory : μ) (a : Action) :
    a.perform c memory = a.perform c' memory := by
  cases a with
  | refuse => rw [perform, perform, hpc, hcurrent]
  | retire | load8 | load32 | store8 | store32 => rfl

namespace Machine

variable {μ : Type} [Memory μ] {m m' : Machine μ}

theorem Alike.attempt (halike : m.Alike m') (w : Word) (memory : μ) :
    m.attempt w memory = m'.attempt w memory := by
  obtain ⟨_, _, _, hcpu⟩ := Cpu.exists_hidden_of_snapshot_eq halike.snapshot
  have haction : m.cpu.action w = m'.cpu.action w := by
    rw [hcpu]
    rfl
  have hpc : (m.cpu.fetched w).pc = (m'.cpu.fetched w).pc :=
    congrArg Snapshot.pc halike.snapshot
  have hcurrent : (m.cpu.fetched w).current = (m'.cpu.fetched w).current := rfl
  rw [Machine.attempt, Machine.attempt, haction]
  exact Action.perform_congr hpc hcurrent memory _

theorem Alike.step (halike : m.Alike m') : m.step.1 = m'.step.1 ∧ m.step.2.Alike m'.step.2 := by
  have hfetch : m.fetch = m'.fetch := by
    rw [fetch, fetch, halike.memory]
    exact congrArg (Memory.read32 m'.memory) (congrArg Snapshot.pc halike.snapshot)
  obtain ⟨f, memory, hread, hstep⟩ | ⟨w, memory, f, memory', hread, hattempt, hstep⟩ |
    ⟨w, memory, e, memory', hread, hattempt, hstep⟩ := m.step_cases
  · rw [hstep, step_of_fetch_error (hfetch ▸ hread)]
    exact ⟨rfl, halike.snapshot, rfl⟩
  · rw [hstep, step_of_attempt_error (hfetch ▸ hread) (halike.attempt w memory ▸ hattempt)]
    exact ⟨rfl, halike.snapshot, rfl⟩
  · rw [hstep, step_of_attempt_ok (hfetch ▸ hread) (halike.attempt w memory ▸ hattempt)]
    exact ⟨rfl, Cpu.snapshot_retire halike.snapshot w e, rfl⟩

theorem haltReason_step (m : Machine μ) : m.step.2.cpu.haltReason = m.cpu.haltReason := by
  obtain ⟨_, _, -, h⟩ | ⟨_, _, _, _, -, -, h⟩ | ⟨_, _, _, _, -, -, h⟩ := m.step_cases
  · rw [h]
  · rw [h]; rfl
  · rw [h, Cpu.retire_eq]

omit [Memory μ] in
theorem Alike.halt (halike : m.Alike m') (f : Fault) : (m.halt f).Alike (m'.halt f) := by
  obtain ⟨_, _, _, hcpu⟩ := Cpu.exists_hidden_of_snapshot_eq halike.snapshot
  refine ⟨?_, halike.memory⟩
  rw [Machine.halt, Machine.halt, hcpu]
  rfl

omit [Memory μ] in
theorem Alike.resume (halike : m.Alike m') : m.resume.Alike m'.resume := by
  obtain ⟨_, _, _, hcpu⟩ := Cpu.exists_hidden_of_snapshot_eq halike.snapshot
  refine ⟨?_, halike.memory⟩
  rw [Machine.resume, Machine.resume, hcpu]
  rfl

/-- By induction on the budget: the machines stay alike, and also agree on why they halt. -/
theorem Alike.proceed (halike : m.Alike m') (hreason : m.cpu.haltReason = m'.cpu.haltReason)
    (n : Nat) :
    (m.proceed n).Alike (m'.proceed n) ∧
      (m.proceed n).cpu.haltReason = (m'.proceed n).cpu.haltReason := by
  induction n generalizing m m' with
  | zero => exact ⟨halike, hreason⟩
  | succ n ih =>
    have hhalted : m.cpu.halted = m'.cpu.halted := congrArg Snapshot.halted halike.snapshot
    obtain ⟨hfault, hnext⟩ := halike.step
    have hreason' : m.step.2.cpu.haltReason = m'.step.2.cpu.haltReason := by
      rw [haltReason_step, haltReason_step, hreason]
    cases hrunning : m.cpu.halted with
    | true =>
      rw [proceed_of_halted hrunning, proceed_of_halted (hhalted ▸ hrunning)]
      exact ⟨halike, hreason⟩
    | false =>
      cases hstep : m.step.1 with
      | none =>
        rw [proceed_succ_of_retires hrunning (Prod.ext hstep rfl),
          proceed_succ_of_retires (hhalted ▸ hrunning) (Prod.ext (hfault ▸ hstep) rfl)]
        exact ih hnext hreason'
      | some f =>
        rw [proceed_succ_of_fails hrunning (Prod.ext hstep rfl),
          proceed_succ_of_fails (hhalted ▸ hrunning) (Prod.ext (hfault ▸ hstep) rfl)]
        exact ⟨hnext.halt f, rfl⟩

theorem Alike.run (halike : m.Alike m') (n : Nat) :
    (m.run n).Alike (m'.run n) ∧ (m.run n).cpu.haltReason = (m'.run n).cpu.haltReason :=
  halike.resume.proceed rfl n

/-- One request. -/
theorem Alike.serve (halike : m.Alike m') (r : Request) :
    (m.serve r).1 = (m'.serve r).1 ∧ (m.serve r).2.Alike (m'.serve r).2 := by
  cases r with
  | set s =>
    obtain ⟨hfault, hsnapshot⟩ := Cpu.snapshot_set halike.snapshot s
    exact ⟨congrArg Reply.done hfault, hsnapshot, halike.memory⟩
  | step =>
    obtain ⟨hfault, hnext⟩ := halike.step
    exact ⟨congrArg Reply.done hfault, hnext⟩
  | run n =>
    obtain ⟨hfinal, -⟩ := halike.run n
    have hstart : m.cpu.retired = m'.cpu.retired := congrArg Snapshot.retired halike.snapshot
    have hend : (m.run n).cpu.retired = (m'.run n).cpu.retired :=
      congrArg Snapshot.retired hfinal.snapshot
    refine ⟨?_, hfinal⟩
    rw [Machine.serve, Machine.serve, retiredSince, retiredSince, hstart, hend]

theorem Alike.haltReason_serve (halike : m.Alike m') {r : Request}
    (hreason : m.cpu.haltReason = m'.cpu.haltReason ∨ ∃ n, r = .run n) :
    (m.serve r).2.cpu.haltReason = (m'.serve r).2.cpu.haltReason := by
  obtain hreason | ⟨n, rfl⟩ := hreason
  · cases r with
    | set s => exact Cpu.haltReason_set hreason s
    | step => rw [Machine.serve, Machine.serve, haltReason_step, haltReason_step, hreason]
    | run n => exact (halike.run n).2
  · exact (halike.run n).2

theorem Alike.haltReason_final (halike : m.Alike m') {rs : List Request}
    (hreason : m.cpu.haltReason = m'.cpu.haltReason ∨ ∃ n, .run n ∈ rs) :
    (Session.final observe m rs).cpu.haltReason =
      (Session.final observe m' rs).cpu.haltReason := by
  induction rs generalizing m m' with
  | nil =>
    obtain hreason | ⟨n, hmem⟩ := hreason
    · exact hreason
    · cases hmem
  | cons r rs ih =>
    have hnext := (halike.serve r).2
    apply ih hnext
    obtain hreason | ⟨n, hmem⟩ := hreason
    · exact .inl (halike.haltReason_serve (.inl hreason))
    · obtain hhead | htail := List.mem_cons.mp hmem
      · exact .inl (halike.haltReason_serve (.inr ⟨n, hhead.symm⟩))
      · exact .inr ⟨n, htail⟩

/-- Processors with equal snapshots cannot be told apart from outside: with equal memories, they
give the same replies, snapshots and memories in every session.  Once both have made a run, they
also agree on why it ended. -/
theorem equal_snapshots_indistinguishable {m m' : Machine μ}
    (hsnapshot : m.cpu.snapshot = m'.cpu.snapshot) (hmemory : m.memory = m'.memory)
    (rs : List Request) :
    Session.answers observe m rs = Session.answers observe m' rs ∧
      ∀ n, .run n ∈ rs →
        (Session.final observe m rs).cpu.haltReason =
          (Session.final observe m' rs).cpu.haltReason := by
  have halike : m.Alike m' := ⟨hsnapshot, hmemory⟩
  have hobserve (m m' : Machine μ) (r : Request) (halike : m.Alike m') :
      (m.observe r).1 = (m'.observe r).1 ∧ (m.observe r).2.Alike (m'.observe r).2 := by
    obtain ⟨hreply, hnext⟩ := halike.serve r
    refine ⟨?_, hnext⟩
    simp only [observe, hreply, hnext.snapshot, hnext.memory]
  obtain ⟨hanswers, -⟩ := Session.answers_eq_of_related hobserve halike rs
  exact ⟨hanswers, fun n hmem => halike.haltReason_final (.inr ⟨n, hmem⟩)⟩

/-- The same snapshot with and without a fault: one processor was halted by its instruction, the
other by its host. -/
theorem brokenSlot_indistinguishable :
    let m := brokenSlot.run 3
    let m' : Machine Ram := ⟨brokenSlot.step.2.cpu.requestHalt, brokenSlot.step.2.memory⟩
    let rs := [Request.step, .set (.setReg 3 7), .run 2, .set (.setPc 0x80000000), .run 1]
    m.cpu.haltReason ≠ m'.cpu.haltReason ∧ m.cpu.current ≠ m'.cpu.current ∧
      Session.answers observe m rs = Session.answers observe m' rs ∧
      (Session.final observe m rs).cpu.haltReason =
        (Session.final observe m' rs).cpu.haltReason := by
  intro m m' rs
  have hsnapshot : m.cpu.snapshot = m'.cpu.snapshot := by decide
  obtain ⟨hanswers, hreason⟩ := equal_snapshots_indistinguishable hsnapshot rfl rs
  have hrun : .run 2 ∈ rs := .tail _ (.tail _ (.head _))
  exact ⟨by decide, by decide, hanswers, hreason 2 hrun⟩

end Machine

end Mips
