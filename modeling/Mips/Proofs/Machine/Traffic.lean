import Mips.Proofs.Machine.Refusal
import Mips.Proofs.Memory.Related
import Mips.Proofs.Trace.Monitor
/-!
# Memory traffic

The accesses that a step makes are told by its processor and its instruction: one word is fetched,
and a load or store makes one access more.  A probe sees these accesses and no others, during a
whole run, except that a tracer fetches each word once more before it is executed.
-/

namespace Mips

namespace Access

variable {μ : Type} [Memory μ]

def make (memory : μ) : Access → Option Fault × μ
  | read8 a => (faultOf? (Memory.read8 memory a).1, (Memory.read8 memory a).2)
  | read32 a => (faultOf? (Memory.read32 memory a).1, (Memory.read32 memory a).2)
  | write8 a b => (faultOf? (Memory.write8 memory a b).1, (Memory.write8 memory a b).2)
  | write32 a w => (faultOf? (Memory.write32 memory a w).1, (Memory.write32 memory a w).2)

theorem accesses_make (p : Probe μ) (x : Access) :
    (x.make p).2.accesses = p.accesses.push x := by
  cases x <;> exact p.accesses_pass _ _

theorem make_agree {ν : Type} [Memory ν] {R : μ → ν → Prop} (hagree : Memory.Agree R)
    {memory : μ} {memory' : ν} (hrelated : R memory memory') (x : Access) :
    (x.make memory).1 = (x.make memory').1 := by
  cases x with
  | read8 a => exact congrArg faultOf? (hagree.read8 a hrelated).1
  | read32 a => exact congrArg faultOf? (hagree.read32 a hrelated).1
  | write8 a b => exact congrArg faultOf? (hagree.write8 a b hrelated).1
  | write32 a w => exact congrArg faultOf? (hagree.write32 a w hrelated).1

end Access

/-! ## Actions -/

namespace Action

variable {μ : Type} [Memory μ]

def access? : Action → Option Access
  | load8 _ a _ => some (.read8 a)
  | load32 _ a _ => some (.read32 a)
  | store8 a b => some (.write8 a b)
  | store32 a w => some (.write32 a w)
  | retire _ | refuse => none

theorem perform_of_access {a : Action} {x : Access} (haccess : a.access? = some x) (c : Cpu)
    (memory : μ) :
    faultOf? (a.perform c memory).1 = (x.make memory).1 ∧
      (a.perform c memory).2 = (x.make memory).2 := by
  cases a <;> cases haccess
  all_goals exact ⟨faultOf?_map _ _, rfl⟩

theorem memory_perform_of_none {a : Action} (haccess : a.access? = none) (c : Cpu) (memory : μ) :
    (a.perform c memory).2 = memory := by
  cases a with
  | retire | refuse => rfl
  | load8 | load32 | store8 | store32 => cases haccess

end Action

/-- The access that the instruction `w` makes once it has been fetched.  A word that would be loaded
into register 0 is not asked for. -/
def Cpu.access? (c : Cpu) (w : Word) : Option Access :=
  let a := .ofInt 32 ((c.reg w.rs).lo.toNat + w.immediate)
  match Opcode.decode w with
  | .lb | .lbu => some (.read8 a)
  | .lw => if w.rt.val = 0 then none else some (.read32 a)
  | .lwu => some (.read32 a)
  | .sb => some (.write8 a ((c.reg w.rt).setWidth 8))
  | .sw => some (.write32 a (c.reg w.rt).lo)
  | _ => none

theorem Cpu.access?_action (c : Cpu) (w : Word) : (c.action w).access? = c.access? w := by
  unfold action access?
  rw [← effectiveAddress_eq]
  generalize Opcode.decode w = op
  cases op
  case lw =>
    by_cases hrt : w.rt.val = 0
    · simp only [hrt, if_true]
      rfl
    · simp only [hrt, if_false]
      rfl
  all_goals rfl

/-! ## Steps -/

namespace Machine

variable {μ : Type} [Memory μ]

/-- The accesses of a step in their order, each with the fault by which it fails, if it does. -/
def traffic (m : Machine μ) : List (Access × Option Fault) :=
  (.read32 m.cpu.pc, faultOf? m.fetch.1) ::
    match m.fetch.1 with
    | .error _ => []
    | .ok w => (m.cpu.access? w).toList.map fun x => (x, (x.make m.fetch.2).1)

def accesses (m : Machine μ) : List Access := m.traffic.map Prod.fst

theorem traffic_of_fetch_error {m : Machine μ} {f : Fault} {memory : μ}
    (hfetch : m.fetch = (.error f, memory)) :
    m.traffic = [(.read32 m.cpu.pc, some f)] := by
  simp only [traffic, hfetch]
  rfl

theorem traffic_of_fetch {m : Machine μ} {w : Word} {memory : μ}
    (hfetch : m.fetch = (.ok w, memory)) :
    m.traffic = (.read32 m.cpu.pc, none) ::
      (m.cpu.access? w).toList.map fun x => (x, (x.make memory).1) := by
  simp only [traffic, hfetch]
  rfl

theorem step_of_traffic_fails {m : Machine μ} {f : Fault}
    (hfails : m.traffic.findSome? Prod.snd = some f) : m.step.1 = some f := by
  rcases hfetch : m.fetch with ⟨g | w, memory⟩
  · rw [traffic_of_fetch_error hfetch] at hfails
    rw [step_of_fetch_error hfetch]
    exact hfails
  · rw [traffic_of_fetch hfetch, List.findSome?_cons] at hfails
    cases haccess : m.cpu.access? w with
    | none =>
      rw [haccess] at hfails
      cases hfails
    | some x =>
      have hmake : (x.make memory).1 = some f := by simpa [haccess] using hfails
      have hfault : faultOf? (m.attempt w memory).1 = some f := by
        rw [← hmake]
        exact (Action.perform_of_access ((m.cpu.access?_action w).trans haccess) _ memory).1
      rcases hattempt : m.attempt w memory with ⟨g | e, memory'⟩
      · rw [hattempt] at hfault
        rw [step_of_attempt_error hfetch hattempt]
        exact hfault
      · rw [hattempt] at hfault
        cases hfault

theorem accesses_attempt (m : Machine (Probe μ)) (w : Word) (p : Probe μ) :
    (m.attempt w p).2.accesses.toList = p.accesses.toList ++ (m.cpu.access? w).toList := by
  rw [← m.cpu.access?_action, attempt]
  cases haccess : (m.cpu.action w).access? with
  | none => simp [Action.memory_perform_of_none haccess]
  | some x => simp [(Action.perform_of_access haccess _ p).2, x.accesses_make p]

theorem accesses_step (m : Machine (Probe μ)) :
    m.step.2.memory.accesses.toList = m.memory.accesses.toList ++ m.accesses := by
  have hread : m.fetch.2.accesses.toList = m.memory.accesses.toList ++ [.read32 m.cpu.pc] := by
    rw [← Array.toList_push]
    exact congrArg Array.toList ((Access.read32 m.cpu.pc).accesses_make m.memory)
  obtain ⟨f, p, hfetch, hstep⟩ | ⟨w, p, f, p', hfetch, hattempt, hstep⟩ |
    ⟨w, p, e, p', hfetch, hattempt, hstep⟩ := m.step_cases
  · rw [hfetch] at hread
    rw [hstep, accesses, traffic_of_fetch_error hfetch]
    exact hread
  all_goals
    have hmore := m.accesses_attempt w p
    rw [hattempt] at hmore
    rw [hfetch] at hread
    rw [hstep, accesses, traffic_of_fetch hfetch, hmore, hread]
    simp [Function.comp_def]

theorem Related.traffic {ν : Type} [Memory ν] {R : μ → ν → Prop} {m : Machine μ}
    {m' : Machine ν} (hrelated : m.Related R m') (hagree : Memory.Agree R) :
    m.traffic = m'.traffic := by
  obtain ⟨hfetch, hfetched⟩ := hrelated.fetch hagree
  have hmake (x : Access) : (x.make m.fetch.2).1 = (x.make m'.fetch.2).1 :=
    x.make_agree hagree hfetched
  rw [Machine.traffic, Machine.traffic, hfetch, hrelated.cpu]
  simp only [hmake]

/-! ## Runs -/

variable {ω : Type}

/-- If `looks` tells what an observer asks of the memory before an instruction, then the accesses
of a run under its eyes are its looks and the accesses of the attempts, in turn. -/
theorem accesses_loop {o : Observer (Probe μ) ω} {looks : ω → Cpu → List Access}
    (hbefore : ∀ c p notes,
      (o.before c p notes).1.accesses.toList = p.accesses.toList ++ looks notes c)
    (n : Nat) (m : Machine (Probe μ)) (notes : ω) :
    (loop o n m notes).1.memory.accesses.toList =
      m.memory.accesses.toList ++
        (trail o n m notes).flatMap fun (a, seen) => looks seen a.cpu ++ a.accesses := by
  have hattempt {cpu : Cpu} {p p' : Probe μ} {notes noted : ω} {r : Option Fault}
      {m' : Machine (Probe μ)} (hlook : o.before cpu p notes = (p', noted))
      (hstep : step ⟨cpu, p'⟩ = (r, m')) :
      m'.memory.accesses.toList =
        p.accesses.toList ++ (looks notes cpu ++ accesses ⟨cpu, p'⟩) := by
    have hseen := hbefore cpu p notes
    have hmade := accesses_step ⟨cpu, p'⟩
    rw [hlook] at hseen
    rw [hstep] at hmade
    exact hmade.trans (hseen ▸ List.append_assoc _ _ _)
  refine loop_trail_induction (o := o) (P := fun m _ trail final =>
    final.1.memory.accesses.toList =
      m.memory.accesses.toList ++ trail.flatMap fun (a, seen) => looks seen a.cpu ++ a.accesses)
    ?_ ?_ ?_ n m notes
  · intro m notes
    exact (List.append_nil _).symm
  · intro cpu p notes p' noted m' trail final hlook hstep ih
    rw [ih, hattempt hlook hstep, List.flatMap_cons, List.append_assoc]
  · intro cpu p notes p' noted m' f hlook hstep
    rw [List.flatMap_singleton, ← hattempt hlook hstep]
    rfl

/-- An observer whose looks are not felt sees the attempts of the run that nobody observes. -/
theorem traffic_trail {o : Observer (Probe μ) ω}
    (hbefore : ∀ c p notes, (o.before c p notes).1.SameFaults p) (n : Nat)
    {m m' : Machine (Probe μ)} (hrelated : m.Related Probe.SameFaults m') (notes : ω) :
    (trail o n m notes).map (fun a => a.1.traffic) = (m'.attempts n).map traffic := by
  induction n generalizing m m' notes with
  | zero => rfl
  | succ n ih =>
    obtain ⟨cpu, p⟩ := m
    obtain ⟨cpu', p'⟩ := m'
    obtain rfl : cpu = cpu' := hrelated.cpu
    cases hhalted : cpu.halted with
    | true => simp [trail, attempts, hhalted]
    | false =>
      obtain ⟨hmemory, hfaults⟩ := hbefore cpu p notes
      have hlooked : Related Probe.SameFaults ⟨cpu, (o.before cpu p notes).1⟩ ⟨cpu, p'⟩ :=
        ⟨rfl, hmemory.trans hrelated.memory.1, hfaults.trans hrelated.memory.2⟩
      have htraffic := hlooked.traffic Probe.sameFaults_agree
      obtain ⟨hfault, hnext⟩ := hlooked.step Probe.sameFaults_agree
      rcases hstep : step ⟨cpu, (o.before cpu p notes).1⟩ with ⟨_ | f, next⟩
      all_goals
        rw [hstep] at hfault hnext
        have hstep' : step ⟨cpu, p'⟩ = (_, (step ⟨cpu, p'⟩).2) := Prod.ext hfault.symm rfl
        simp only [trail, hhalted, hstep, Bool.false_eq_true, if_false, List.map_cons, htraffic]
      · rw [attempts_succ_of_retires hhalted hstep', List.map_cons, ih hnext]
      · rw [attempts_succ_of_fails hhalted hstep']
        rfl

theorem accesses_run (m : Machine (Probe μ)) (n : Nat) :
    (m.run n).memory.accesses.toList =
      m.memory.accesses.toList ++ (m.resume.attempts n).flatMap accesses := by
  have hbefore (c : Cpu) (p : Probe μ) (notes : Unit) :
      (Observer.silent.before c p notes).1.accesses.toList = p.accesses.toList ++ [] :=
    (List.append_nil p.accesses.toList).symm
  have hloop := accesses_loop hbefore n m.resume ()
  rw [← trail_silent, List.flatMap_map]
  exact hloop

end Machine

namespace Monitor

variable {μ : Type} [Memory μ]

/-- What the tracer asks of the memory before an instruction. -/
def looks (m : Monitor) (c : Cpu) : List Access :=
  if m.tracer.any Tracer.active then [.read32 c.pc] else []

theorem accesses_beforeStep (c : Cpu) (p : Probe μ) (m : Monitor) :
    (beforeStep c p m).1.accesses.toList = p.accesses.toList ++ m.looks c := by
  obtain ⟨_ | t, files, log⟩ := m
  · exact (List.append_nil _).symm
  · obtain ⟨log', hbefore⟩ := beforeStep_traced t files log c p
    rw [hbefore, t.memory_trace_eq, looks, Option.any_some]
    split
    · rw [← Array.toList_push]
      exact congrArg Array.toList ((Access.read32 c.pc).accesses_make p)
    · exact (List.append_nil _).symm

theorem beforeStep_sameFaults (hread : Memory.ReadsKeep μ) (c : Cpu) (p : Probe μ)
    (m : Monitor) : (beforeStep c p m).1.SameFaults p := by
  obtain ⟨_ | t, files, log⟩ := m
  · exact ⟨rfl, rfl⟩
  · obtain ⟨log', hbefore⟩ := beforeStep_traced t files log c p
    rw [hbefore, t.memory_trace_eq]
    split
    · exact Probe.read32_sameFaults hread p c.pc
    · exact ⟨rfl, rfl⟩

end Monitor

namespace Machine

variable {μ : Type} [Memory μ]

/-- A step asks the memory for exactly the accesses that its processor and its instruction tell,
and fails with the fault of the first that fails.  A run asks for those of its attempts, a fault
being the reason of the halt; under the eyes of a monitor a word is read at the program counter
before each attempt as long as the tracer is active, and if reading changes nothing, then the
attempts are the same. -/
theorem traffic_exact (m : Machine (Probe μ)) :
    (m.step.2.memory.accesses.toList = m.memory.accesses.toList ++ m.accesses ∧
      ∀ f, m.traffic.findSome? Prod.snd = some f → m.step.1 = some f) ∧
    (∀ n,
      (m.run n).memory.accesses.toList =
        m.memory.accesses.toList ++ (m.resume.attempts n).flatMap accesses ∧
      ∀ a ∈ m.resume.attempts n, ∀ f, a.traffic.findSome? Prod.snd = some f →
        (m.run n).cpu.halted = true ∧ (m.run n).cpu.haltReason = some f.message) ∧
    ∀ n monitor,
      let traced := trail Monitor.observer n m.resume monitor
      (m.runWith Monitor.observer n monitor).1.memory.accesses.toList =
        m.memory.accesses.toList ++
          traced.flatMap (fun (a, seen) => seen.looks a.cpu ++ a.accesses) ∧
      (Memory.ReadsKeep μ →
        traced.map (fun a => a.1.traffic) = (m.resume.attempts n).map traffic) := by
  refine ⟨⟨m.accesses_step, fun f hfails => step_of_traffic_fails hfails⟩, ?_, ?_⟩
  · intro n
    refine ⟨m.accesses_run n, ?_⟩
    intro a hattempt f hfails
    exact proceed_of_attempt_fails hattempt (step_of_traffic_fails hfails)
  · intro n monitor
    constructor
    · exact accesses_loop (o := Monitor.observer) Monitor.accesses_beforeStep n m.resume monitor
    · intro hread
      have hsame : m.resume.Related Probe.SameFaults m.resume := ⟨rfl, rfl, rfl⟩
      exact traffic_trail (o := Monitor.observer) (Monitor.beforeStep_sameFaults hread) n hsame monitor

/-- Loads a word into register 0, which needs no access; loads another one without its sign, which
does even so, from an address where accesses fail. -/
def probedProgram : Machine (Probe Ram) where
  cpu := { Cpu.reset with pc := 0 }
  memory := Probe.inject
    { memory := (Ram.blank.setWord 0 0x8C000100).setWord 4 0x9C000100 } 0x100 (.unaligned 7 8)

/-- A monitor that traces one more line. -/
def oneLineMonitor : Monitor where
  tracer := some { output := ⟨["trace"], false, 0, ""⟩, watched := [], limit := some 1 }

theorem probedProgram_traffic :
    (probedProgram.run 9).memory.accesses.toList = [.read32 0, .read32 4, .read32 0x100] ∧
      (probedProgram.run 9).cpu.haltReason = some (Fault.unaligned 7 8).message ∧
      (probedProgram.runWith Monitor.observer 9 oneLineMonitor).1.memory.accesses.toList =
        [.read32 0, .read32 0, .read32 4, .read32 0x100] ∧
      (trail Monitor.observer 9 probedProgram.resume oneLineMonitor).map (fun a => a.1.traffic) =
        (probedProgram.resume.attempts 9).map traffic := by
  obtain ⟨-, hruns, htraced⟩ := traffic_exact probedProgram
  obtain ⟨haccesses, hhalt⟩ := hruns 9
  obtain ⟨hlooked, hsame⟩ := htraced 9 oneLineMonitor
  have hfails : ∃ a ∈ probedProgram.resume.attempts 9,
      a.traffic.findSome? Prod.snd = some (.unaligned 7 8) := by decide
  obtain ⟨a, hattempt, hfault⟩ := hfails
  refine ⟨?_, (hhalt a hattempt _ hfault).2, ?_, hsame Ram.readsKeep⟩
  · rw [haccesses]
    decide
  · rw [hlooked]
    decide +kernel

end Machine

end Mips
