import Mips.Board
import Mips.Proofs.Host.Files
import Mips.Proofs.Machine.Run
/-!
# What a monitor touches

A monitor reads memory and writes to the file of its trace.  A run under its eyes therefore goes as
it goes unobserved, and no other file changes.
-/

namespace Mips

/-! ## Observers -/

namespace Machine

variable {μ ω : Type} [Memory μ]

theorem loop_eq_proceed {o : Observer μ ω} (hbefore : ∀ c m notes, (o.before c m notes).1 = m)
    (n : Nat) (m : Machine μ) (notes : ω) : (loop o n m notes).1 = m.proceed n := by
  induction n generalizing m notes with
  | zero => rfl
  | succ n ih =>
    obtain ⟨cpu, memory⟩ := m
    cases hhalted : cpu.halted with
    | true =>
      rw [proceed_of_halted hhalted]
      simp only [loop, hhalted, if_true]
    | false =>
      rcases hstep : step ⟨cpu, memory⟩ with ⟨_ | f, m'⟩
      · rw [proceed_succ_of_retires hhalted hstep]
        simp only [loop, hhalted, Bool.false_eq_true, if_false, hbefore, hstep]
        exact ih m' _
      · rw [proceed_succ_of_fails hhalted hstep]
        simp only [loop, hhalted, Bool.false_eq_true, if_false, hbefore, hstep]
        rfl

/-- What an observer keeps true of its notes, whatever it sees, is true of them at the end. -/
theorem loop_notes {o : Observer μ ω} {P : ω → Prop}
    (hbefore : ∀ c m notes, P notes → P (o.before c m notes).2)
    (hretired : ∀ c c' notes, P notes → P (o.retired c c' notes))
    (hfaulted : ∀ c f notes, P notes → P (o.faulted c f notes))
    (n : Nat) (m : Machine μ) {notes : ω} (hnotes : P notes) : P (loop o n m notes).2 := by
  induction n generalizing m notes with
  | zero => exact hnotes
  | succ n ih =>
    obtain ⟨cpu, memory⟩ := m
    rw [loop]
    split
    · exact hnotes
    · have hseen := hbefore cpu memory notes hnotes
      dsimp only
      split
      · exact ih _ (hretired _ _ _ hseen)
      · exact hfaulted _ _ _ hseen

/-- What an observer keeps true between the notes of two runs, whatever it sees, is true between
them at the end. -/
theorem loop_agree {o : Observer μ ω} {R : ω → ω → Prop}
    (hmemory : ∀ c m notes, (o.before c m notes).1 = m)
    (hbefore : ∀ c m notes notes', R notes notes' →
      R (o.before c m notes).2 (o.before c m notes').2)
    (hretired : ∀ c c' notes notes', R notes notes' →
      R (o.retired c c' notes) (o.retired c c' notes'))
    (hfaulted : ∀ c f notes notes', R notes notes' →
      R (o.faulted c f notes) (o.faulted c f notes'))
    (n : Nat) (m : Machine μ) {notes notes' : ω} (hnotes : R notes notes') :
    R (loop o n m notes).2 (loop o n m notes').2 := by
  induction n generalizing m notes notes' with
  | zero => exact hnotes
  | succ n ih =>
    obtain ⟨cpu, memory⟩ := m
    rw [loop, loop]
    split
    · exact hnotes
    · have hseen := hbefore cpu memory notes notes' hnotes
      simp only [hmemory]
      split
      · exact ih _ (hretired _ _ _ _ hseen)
      · exact hfaulted _ _ _ _ hseen

end Machine

/-! ## Output -/

namespace Output

variable {kept : Path → Prop} {o : Output}

theorem changes_hand (o : Output) (text : String) :
    Files.Changes o.path fun files => (o.hand files text).2 := Files.Changes.none.modify _

/-- What an output answers does not depend on the files, of which it changes none but its own. -/
theorem flush_eq (o : Output) :
    ∃ ok o' change, Files.Changes o.path change ∧ o'.path = o.path ∧
      ∀ files, o.flush files = (ok, o', change files) := by
  unfold flush
  split
  · exact ⟨true, o, id, .none, rfl, fun _ => rfl⟩
  · split
    · exact ⟨false, o, id, .none, rfl, fun _ => rfl⟩
    · exact ⟨true, _, _, changes_hand o o.pending, by rfl, fun _ => rfl⟩

theorem write_eq (o : Output) (text : String) :
    ∃ ok o' change, Files.Changes o.path change ∧ o'.path = o.path ∧
      ∀ files, o.write files text = (ok, o', change files) := by
  unfold write
  split
  · exact ⟨true, _, id, .none, by rfl, fun _ => rfl⟩
  · obtain ⟨ok, o', change, hchange, hpath, hflush⟩ := o.flush_eq
    simp only [hflush]
    cases ok with
    | false => exact ⟨false, _, change, hchange, by exact hpath, fun _ => rfl⟩
    | true =>
      dsimp only
      split
      · exact ⟨true, _, change, hchange, by exact hpath, fun _ => rfl⟩
      · have hboth := (hpath ▸ changes_hand o' text).comp hchange
        exact ⟨true, _, _, hboth, by exact hpath, fun _ => rfl⟩

/-- Opening a new output empties its file. -/
theorem place_of_create {files files' : Files} {name : String}
    (hcreate : create files name = .ok (o, files')) :
    files.place name = .ok o.path ∧ (¬ kept o.path → files.Keep kept files') := by
  unfold create at hcreate
  cases htarget : files.target name with
  | error e =>
    rw [htarget] at hcreate
    cases hcreate
  | ok p =>
    rw [htarget] at hcreate
    cases hcreate
    exact ⟨Files.place_of_target htarget, fun hpath => Files.keep_modify hpath _⟩

end Output

/-! ## Tracers -/

namespace Tracer

variable {μ : Type} [Memory μ] {kept : Path → Prop} {t : Tracer}

/-- All that a tracer asks of memory is the coming word, and that only if it writes a line. -/
theorem memory_trace_eq (t : Tracer) (files : Files) (c : Cpu) (memory : μ) :
    (t.trace files c memory).2.1 =
      if t.active then (Memory.read32 memory c.pc).2 else memory := by
  unfold trace
  split
  · rcases Memory.read32 memory c.pc with ⟨_ | w, memory'⟩
    · rfl
    · dsimp only
      split <;> rfl
  · rfl

theorem memory_trace (hread : Memory.ReadsKeep μ) (t : Tracer) (files : Files) (c : Cpu)
    (memory : μ) : (t.trace files c memory).2.1 = memory := by
  rw [memory_trace_eq, hread.read32]
  split <;> rfl

theorem flush_eq (t : Tracer) :
    ∃ result t' change, Files.Changes t.output.path change ∧ t'.output.path = t.output.path ∧
      ∀ files, t.flush files = (result, t', change files) := by
  obtain ⟨ok, o', change, hchange, hpath, hflush⟩ := t.output.flush_eq
  unfold flush
  simp only [hflush]
  cases ok with
  | true => exact ⟨_, _, change, hchange, by exact hpath, fun _ => rfl⟩
  | false => exact ⟨_, _, change, hchange, by exact hpath, fun _ => rfl⟩

theorem trace_eq (t : Tracer) (c : Cpu) (memory : μ) :
    ∃ result memory' t' change, Files.Changes t.output.path change ∧
      t'.output.path = t.output.path ∧
      ∀ files, t.trace files c memory = (result, memory', t', change files) := by
  unfold trace
  split
  · rcases Memory.read32 memory c.pc with ⟨_ | w, memory'⟩
    · exact ⟨_, _, t, id, .none, rfl, fun _ => rfl⟩
    · obtain ⟨ok, o', change, hchange, hpath, hwrite⟩ :=
        t.output.write_eq (traceLine t.watched c w)
      simp only [hwrite]
      cases ok with
      | true => exact ⟨_, _, _, change, hchange, by exact hpath, fun _ => rfl⟩
      | false => exact ⟨_, _, _, change, hchange, by exact hpath, fun _ => rfl⟩
  · exact ⟨_, _, t, id, .none, rfl, fun _ => rfl⟩

theorem place_of_create {files files' : Files} {name : String}
    (hcreate : create files name = .ok (t, files')) :
    files.place name = .ok t.output.path ∧ (¬ kept t.output.path → files.Keep kept files') := by
  unfold create at hcreate
  split at hcreate
  · cases hcreate
  · next houtput =>
    cases hcreate
    exact Output.place_of_create houtput

end Tracer

/-! ## Monitors -/

namespace Monitor

/-- The monitor has left the kept places alone, and writes its trace to another one. -/
structure Spares (kept : Path → Prop) (files : Files) (m : Monitor) : Prop where
  files : files.Keep kept m.files
  output : ∀ t, m.tracer = some t → ¬ kept t.output.path

variable {kept : Path → Prop} {files : Files} {m : Monitor}

theorem Spares.traced {t t' : Tracer} {files' files'' : Files} {log log' : Log}
    (hspares : Spares kept files ⟨some t, files', log⟩) (hkeep : files'.Keep kept files'')
    (hpath : t'.output.path = t.output.path) :
    Spares kept files ⟨some t', files'', log'⟩ where
  files := hspares.files.trans hkeep
  output u hu := by
    cases hu
    rw [hpath]
    exact hspares.output t rfl

/-- A tracer's trouble is only seen in the log. -/
theorem beforeStep_traced {μ : Type} [Memory μ] (t : Tracer) (files : Files) (log : Log) (c : Cpu)
    (memory : μ) :
    ∃ log', beforeStep c memory ⟨some t, files, log⟩ =
      ((t.trace files c memory).2.1,
        ⟨some (t.trace files c memory).2.2.1, (t.trace files c memory).2.2.2, log'⟩) := by
  unfold beforeStep
  dsimp only
  split
  · next htrace => exact ⟨_, by rw [htrace]⟩
  · next htrace => exact ⟨_, by rw [htrace]⟩

theorem flush_traced (t : Tracer) (files : Files) (log : Log) :
    ∃ log', flush ⟨some t, files, log⟩ =
      ⟨some (t.flush files).2.1, (t.flush files).2.2, log'⟩ := by
  unfold flush
  dsimp only
  split
  · next hflush => exact ⟨_, by rw [hflush]⟩
  · next hflush => exact ⟨_, by rw [hflush]⟩

theorem memory_beforeStep {μ : Type} [Memory μ] (hread : Memory.ReadsKeep μ) (c : Cpu)
    (memory : μ) (m : Monitor) : (beforeStep c memory m).1 = memory := by
  obtain ⟨_ | t, files, log⟩ := m
  · rfl
  · obtain ⟨log', hbefore⟩ := beforeStep_traced t files log c memory
    rw [hbefore]
    exact t.memory_trace hread files c memory

theorem Spares.beforeStep {μ : Type} [Memory μ] (hspares : m.Spares kept files) (c : Cpu)
    (memory : μ) : (beforeStep c memory m).2.Spares kept files := by
  obtain ⟨_ | t, files', log⟩ := m
  · exact hspares
  · obtain ⟨_, _, _, _, hchange, hpath, htrace⟩ := t.trace_eq c memory
    obtain ⟨log', hbefore⟩ := beforeStep_traced t files' log c memory
    rw [hbefore, htrace]
    exact hspares.traced (Files.keep_changes (hspares.output t rfl) hchange files') hpath

theorem Spares.flush (hspares : m.Spares kept files) : m.flush.Spares kept files := by
  obtain ⟨_ | t, files', log⟩ := m
  · exact hspares
  · obtain ⟨_, _, _, hchange, hpath, hflush⟩ := t.flush_eq
    obtain ⟨log', hflushed⟩ := flush_traced t files' log
    rw [hflushed, hflush]
    exact hspares.traced (Files.keep_changes (hspares.output t rfl) hchange files') hpath

theorem Spares.dropTracer (hspares : m.Spares kept files) : m.dropTracer.Spares kept files := by
  obtain ⟨_ | t, files', log⟩ := m
  · exact hspares
  · obtain ⟨_, _, _, hchange, -, hflush⟩ := t.flush_eq
    have hkeep := Files.keep_changes (hspares.output t rfl) hchange files'
    refine ⟨?_, fun _ h => nomatch h⟩
    simp only [Monitor.dropTracer, Tracer.drop, hflush]
    exact hspares.files.trans hkeep

/-- A new trace takes the place of the old one. -/
theorem Spares.opened (hspares : m.Spares kept files) {t : Tracer} {files' : Files}
    {name : String} (hcreate : Tracer.create m.files name = .ok (t, files'))
    (hname : ∀ p, files.place name = .ok p → ¬ kept p) (limit : Nat) :
    Spares kept files
      { ({ m with files := files' } : Monitor).dropTracer with
        tracer := some (t.withLimit limit) } := by
  obtain ⟨hplace, hkeep⟩ := Tracer.place_of_create hcreate
  have hpath : ¬ kept t.output.path := hname _ (hspares.files.place_ok.mp hplace)
  have hboth : Spares kept files { m with files := files' } :=
    ⟨hspares.files.trans (hkeep hpath), hspares.output⟩
  refine ⟨hboth.dropTracer.files, ?_⟩
  intro u hu
  cases hu
  exact hpath

/-! ## Monitored runs -/

variable {μ : Type} [Memory μ]

/-- A run goes the same way with a monitor and without. -/
theorem runWith_observer (hread : Memory.ReadsKeep μ) (m : Machine μ) (n : Nat)
    (monitor : Monitor) : (m.runWith observer n monitor).1 = m.run n :=
  Machine.loop_eq_proceed (memory_beforeStep hread) n m.resume monitor

theorem Spares.run (hspares : m.Spares kept files) (machine : Machine μ) (n : Nat) :
    (machine.runWith observer n m).2.Spares kept files := by
  apply Machine.loop_notes
  · exact fun c memory _ h => h.beforeStep c memory
  · exact fun _ _ _ h => ⟨h.files, h.output⟩
  · exact fun _ _ _ h => ⟨h.files, h.output⟩
  · exact hspares

end Monitor

end Mips
