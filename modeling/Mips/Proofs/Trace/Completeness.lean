import Mips.Proofs.Host.Output
import Mips.Proofs.Machine.Trail
import Mips.Proofs.System.Tracing
import Mips.Proofs.Trace.Line
/-!
# Traces are complete

An enabled tracer writes one line for each attempt that gets its word, until its limit is reached.
The invariant `Tracer.Recorded` tells its state from the attempts so far, and is kept by every
look, run and sequence of runs.
-/

namespace Mips

namespace Machine

variable {μ : Type} [Memory μ]

/-- What there is to tell of an attempt: the state before it and the word it has fetched, if it
gets one. -/
def told (a : Machine μ) : List (Cpu × Word) :=
  if a.fetch.1.isOk then [(a.cpu, a.step.2.cpu.current)] else []

theorem told_of_fetch_ok {a : Machine μ} {w : Word} {memory : μ}
    (hfetch : a.fetch = (.ok w, memory)) : a.told = [(a.cpu, w)] := by
  obtain ⟨-, -, -, -, hcurrent⟩ := a.rest_step
  rw [hfetch] at hcurrent
  rw [told, hcurrent, hfetch]
  rfl

theorem told_of_fetch_error {a : Machine μ} {f : Fault} {memory : μ}
    (hfetch : a.fetch = (.error f, memory)) : a.told = [] := by
  rw [told, hfetch]
  rfl

end Machine

/-! ## Tracers -/

namespace Tracer

/-- A tracer with a limit and a choice of registers, or without. -/
def configure (t : Tracer) (limit : Option Nat) (numbers : Option (List Nat)) : Tracer :=
  let t := limit.elim t t.withLimit
  numbers.elim t t.withWatched

theorem watched_withWatched (t : Tracer) (numbers : List Nat) :
    (t.withWatched numbers).watched.map Fin.val = (numbers.filter (· < 32)).take 8 := by
  have hofNat : (fun n => (Reg.ofNat? n).map Fin.val) = Option.guard fun n => n < 32 := by
    funext n
    by_cases hn : n < 32 <;> simp [Reg.ofNat?, Option.guard, hn]
  rw [withWatched, List.map_take, List.map_filterMap, hofNat, List.filterMap_eq_filter]
  rfl

/-- As many of the entries as the tracer shows. -/
def shown {α : Type} (t : Tracer) (entries : List α) : List α :=
  t.limit.elim entries entries.take

def text (t : Tracer) (entries : List (Cpu × Word)) : String :=
  String.join ((t.shown entries).map fun (c, w) => traceLine t.watched c w)

variable {start t : Tracer} {files : Files} {past : List (Cpu × Word)}

/-- The tracer `start`, later: it has written the lines of the entries so far. -/
structure Recorded (start t : Tracer) (files : Files) (past : List (Cpu × Word)) : Prop where
  eq : t = { start with output := t.output, lines := (start.shown past).length }
  output : t.output.Holds files (start.text past)

theorem Recorded.shown_concat (hrecorded : start.Recorded t files past)
    (henabled : start.enabled = true) (entry : Cpu × Word) :
    start.shown (past ++ [entry]) =
      start.shown past ++ if t.active then [entry] else [] := by
  rw [hrecorded.eq, active, henabled]
  cases hlimit : start.limit with
  | none => simp [shown, hlimit]
  | some limit =>
    by_cases hroom : past.length < limit
    · have hlines : min limit past.length < limit := by omega
      have hone : [entry].take (limit - past.length) = [entry] := by
        apply List.take_of_length_le
        rw [List.length_singleton]
        omega
      simp [shown, hlimit, List.take_append, hlines, hone]
    · have hlines : ¬ min limit past.length < limit := by omega
      have hnone : limit - past.length = 0 := by omega
      simp [shown, hlimit, List.take_append, hlines, hnone]

theorem Recorded.skip (hrecorded : start.Recorded t files past) {now : List (Cpu × Word)}
    (hshown : start.shown now = start.shown past) : start.Recorded t files now where
  eq := by rw [hshown]; exact hrecorded.eq
  output := by rw [text, hshown]; exact hrecorded.output

theorem Recorded.write (hrecorded : start.Recorded t files past) {c : Cpu} {w : Word}
    (hshown : start.shown (past ++ [(c, w)]) = start.shown past ++ [(c, w)]) :
    ∃ o files', t.output.write files (traceLine t.watched c w) = (true, o, files') ∧
      start.Recorded { t with output := o, lines := t.lines + 1 } files' (past ++ [(c, w)]) := by
  have hwatched : t.watched = start.watched := by rw [hrecorded.eq]
  have htext : start.text (past ++ [(c, w)]) = start.text past ++ traceLine t.watched c w := by
    rw [text, hshown, hwatched]
    simp [text]
  obtain ⟨o, files', hwrite, hholds⟩ := hrecorded.output.write (traceLine t.watched c w)
  refine ⟨o, files', hwrite, ?_, htext ▸ hholds⟩
  rw [hshown, hrecorded.eq]
  simp

variable {μ : Type} [Memory μ]

theorem Recorded.trace (hrecorded : start.Recorded t files past) (henabled : start.enabled = true)
    (c : Cpu) (memory : μ) :
    start.Recorded (t.trace files c memory).2.2.1 (t.trace files c memory).2.2.2
      (past ++ (⟨c, memory⟩ : Machine μ).told) := by
  rcases hfetch : (⟨c, memory⟩ : Machine μ).fetch with ⟨f | w, after⟩
  all_goals have hread : Memory.read32 memory c.pc = _ := hfetch
  · rw [Machine.told_of_fetch_error hfetch, List.append_nil, Tracer.trace, hread]
    split <;> exact hrecorded
  · have hconcat := hrecorded.shown_concat henabled (c, w)
    rw [Machine.told_of_fetch_ok hfetch, Tracer.trace, hread]
    cases hactive : t.active with
    | true =>
      rw [hactive] at hconcat
      obtain ⟨o, files', hwrite, hnow⟩ := hrecorded.write hconcat
      rw [if_pos rfl]
      dsimp only
      rw [hwrite]
      exact hnow
    | false =>
      rw [hactive] at hconcat
      exact hrecorded.skip (hconcat.trans (List.append_nil _))

theorem output_of_create {files files' : Files} {name : String}
    (hcreate : create files name = .ok (t, files')) :
    t = { output := t.output, watched := defaultWatched } ∧
      Output.create files name = .ok (t.output, files') := by
  unfold create at hcreate
  cases houtput : Output.create files name with
  | error e =>
    rw [houtput] at hcreate
    cases hcreate
  | ok opened =>
    rw [houtput] at hcreate
    cases hcreate
    exact ⟨rfl, rfl⟩

theorem configure_new (o : Output) (limit : Option Nat) (numbers : Option (List Nat)) :
    ∃ watched, configure { output := o, watched := defaultWatched } limit numbers =
        { output := o, watched, limit } ∧
      watched.map Fin.val =
        numbers.elim [2, 3, 4] (fun numbers => (numbers.filter (· < 32)).take 8) := by
  cases numbers with
  | none =>
    refine ⟨defaultWatched, ?_, rfl⟩
    cases limit <;> rfl
  | some numbers =>
    refine ⟨_, ?_, watched_withWatched { output := o, watched := [] } numbers⟩
    cases limit <;> rfl

theorem recorded_new {o : Output} {watched : List Reg} {limit : Option Nat}
    (hholds : o.Holds files "") :
    Recorded { output := o, watched, limit } { output := o, watched, limit } files [] := by
  have hempty : shown { output := o, watched, limit } ([] : List (Cpu × Word)) = [] := by
    cases limit with
    | none => rfl
    | some limit => exact List.take_nil
  constructor
  · rw [hempty]
    rfl
  · rw [text, hempty]
    exact hholds

end Tracer

/-! ## Monitored runs -/

namespace Monitor

variable {μ : Type} [Memory μ]

/-- The monitor after some runs, each from a machine of its own. -/
def follow : List (Machine μ × Nat) → Monitor → Monitor
  | [], monitor => monitor
  | (m, n) :: runs, monitor => follow runs (m.runWith observer n monitor).2

/-- The machines from which these runs attempt an instruction, in their order. -/
def tried : List (Machine μ × Nat) → Monitor → List (Machine μ)
  | [], _ => []
  | (m, n) :: runs, monitor =>
    (Machine.trail observer n m.resume monitor).map Prod.fst ++
      tried runs (m.runWith observer n monitor).2

/-- The tracer `start`, later: it has written the lines of the entries so far. -/
def Recorded (start : Tracer) (monitor : Monitor) (past : List (Cpu × Word)) : Prop :=
  ∃ t, monitor.tracer = some t ∧ start.Recorded t monitor.files past

variable {start : Tracer} {monitor : Monitor} {past : List (Cpu × Word)}

theorem Recorded.beforeStep (hrecorded : Recorded start monitor past)
    (henabled : start.enabled = true) (c : Cpu) (memory : μ) :
    Recorded start (beforeStep c memory monitor).2
      (past ++ (⟨c, memory⟩ : Machine μ).told) := by
  obtain ⟨_, files, log⟩ := monitor
  obtain ⟨t, rfl, htracer⟩ := hrecorded
  obtain ⟨log', hbefore⟩ := beforeStep_traced t files log c memory
  rw [hbefore]
  exact ⟨_, rfl, htracer.trace henabled c memory⟩

/-- The look leaves the memory alone, so the step fetches the word that was shown. -/
theorem Recorded.look (hread : Memory.ReadsKeep μ) (henabled : start.enabled = true)
    (hrecorded : Recorded start monitor past) {cpu : Cpu} {memory seen : μ} {noted : Monitor}
    (hlook : observer.before cpu memory monitor = (seen, noted)) :
    Recorded start noted (past ++ (⟨cpu, seen⟩ : Machine μ).told) := by
  have hseen : seen = memory := by
    rw [← memory_beforeStep hread cpu memory monitor]
    exact (congrArg Prod.fst hlook).symm
  have hnoted : noted = (Monitor.beforeStep cpu memory monitor).2 :=
    (congrArg Prod.snd hlook).symm
  rw [hseen, hnoted]
  exact hrecorded.beforeStep henabled cpu memory

theorem Recorded.loop (hread : Memory.ReadsKeep μ) (henabled : start.enabled = true)
    (hrecorded : Recorded start monitor past) (n : Nat) (m : Machine μ) :
    Recorded start (Machine.loop observer n m monitor).2
      (past ++ ((Machine.trail observer n m monitor).map Prod.fst).flatMap Machine.told) := by
  refine Machine.loop_trail_induction (o := observer) (P := fun _ monitor trail final =>
    ∀ past, Recorded start monitor past →
      Recorded start final.2 (past ++ (trail.map Prod.fst).flatMap Machine.told))
    ?_ ?_ ?_ n m monitor past hrecorded
  · intro _ monitor past hrecorded
    simpa using hrecorded
  · intro cpu memory monitor seen noted m' trail final hlook hstep ih past hrecorded
    have hlooked := hrecorded.look hread henabled hlook
    have hretired : Recorded start ((observer (μ := μ)).retired cpu m'.cpu noted)
        (past ++ (⟨cpu, seen⟩ : Machine μ).told) := hlooked
    simpa using ih _ hretired
  · intro cpu memory monitor seen noted m' f hlook hstep past hrecorded
    have hlooked := hrecorded.look hread henabled hlook
    have hfaulted : Recorded start ((observer (μ := μ)).faulted m'.cpu f noted)
        (past ++ (⟨cpu, seen⟩ : Machine μ).told) := hlooked
    simpa using hfaulted

theorem Recorded.follow (hread : Memory.ReadsKeep μ) (henabled : start.enabled = true)
    (hrecorded : Recorded start monitor past) (runs : List (Machine μ × Nat)) :
    Recorded start (follow runs monitor) (past ++ (tried runs monitor).flatMap Machine.told) := by
  induction runs generalizing monitor past with
  | nil => simpa [Monitor.follow, tried] using hrecorded
  | cons run runs ih =>
    obtain ⟨m, n⟩ := run
    have hrun : Recorded start (m.runWith observer n monitor).2 _ :=
      hrecorded.loop hread henabled n m.resume
    simpa [Monitor.follow, tried] using ih hrun

theorem Spares.follow {kept : Path → Prop} {files : Files} (hspares : monitor.Spares kept files)
    (runs : List (Machine μ × Nat)) : (follow runs monitor).Spares kept files := by
  induction runs generalizing monitor with
  | nil => exact hspares
  | cons run runs ih => exact ih (hspares.run run.1 run.2)

theorem Recorded.flush (hrecorded : Recorded start monitor past) :
    ∃ t executable, monitor.flush.tracer = some t ∧
      monitor.flush.files.node? t.output.path =
        some (.file (start.text past).toUTF8 executable) := by
  obtain ⟨_, files, log⟩ := monitor
  obtain ⟨t, rfl, htracer⟩ := hrecorded
  obtain ⟨log', hmonitor⟩ := flush_traced t files log
  obtain ⟨o, files', hflush, hholds, hempty⟩ := htracer.output.flush
  obtain ⟨executable, hnode⟩ := hholds.node? hempty
  have htracer' : t.flush files = (.ok (), { t with output := o }, files') := by
    rw [Tracer.flush]
    dsimp only at hflush
    rw [hflush]
  rw [hmonitor, htracer']
  exact ⟨_, executable, rfl, hnode⟩

/-- The trace is found under its name, since nothing else has changed meanwhile. -/
theorem Recorded.text? (hrecorded : Recorded start monitor past) {files : Files} {name : String}
    (hspares : monitor.Spares (· ≠ start.output.path) files)
    (hplace : files.place name = .ok start.output.path) :
    monitor.flush.files.text? name = some (start.text past) := by
  have hflushed := hspares.flush
  obtain ⟨t, executable, htracer, hnode⟩ := hrecorded.flush
  have hpath : t.output.path = start.output.path := not_not.mp (hflushed.output t htracer)
  have hplaced : monitor.flush.files.place name = .ok t.output.path := by
    rw [hflushed.files.place_ok, hpath]
    exact hplace
  rw [Files.text?, Files.content?, Files.lookup, hplaced]
  dsimp only [Except.toOption, Option.bind_some]
  rw [hnode]
  exact dif_pos (start.text past).isValidUTF8

/-- An enabled tracer that writes to a file with room tells of every attempt that gets its word,
whatever is run and whatever happens to the machine between the runs, up to the tracer's limit.
The file holds one line for each, from which the entry can be read back, and no more than eight
registers are shown. -/
theorem trace_complete {files files' : Files} {name : String} {t : Tracer}
    (hcreate : Tracer.create files name = .ok (t, files')) (hroom : t.output.full = false)
    (limit : Option Nat) (numbers : Option (List Nat)) (log : Log)
    (runs : List (Machine Ram × Nat)) :
    let start := t.configure limit numbers
    let monitor : Monitor := ⟨some start, files', log⟩
    let all := (tried runs monitor).flatMap Machine.told
    let told := limit.elim all all.take
    let text := String.join (told.map fun (c, w) => traceLine start.watched c w)
    (follow runs monitor).flush.files.text? name = some text ∧
      (follow runs monitor).tracer.map Tracer.lines = some told.length ∧
      (text.toList.splitOn '\n').dropLast.map TraceEntry.read? =
        (told.map fun (c, w) => some (.ofCpu start.watched c w)) ∧
      start.watched.map Fin.val =
        numbers.elim [2, 3, 4] (fun numbers => (numbers.filter (· < 32)).take 8) ∧
      start.watched.length ≤ 8 := by
  intro start monitor all told text
  obtain ⟨ht, houtput⟩ := Tracer.output_of_create hcreate
  obtain ⟨watched, hconfigure, hwatched⟩ := Tracer.configure_new t.output limit numbers
  have hstart : start = { output := t.output, watched, limit } := by
    rw [← hconfigure, ← ht]
  have hshown : start.shown all = told := by rw [hstart]; rfl
  have hnew : Recorded start monitor [] := by
    refine ⟨start, rfl, ?_⟩
    rw [hstart]
    exact Tracer.recorded_new (Output.holds_of_create houtput hroom)
  have hrecorded : Recorded start (Monitor.follow runs monitor) all :=
    hnew.follow Ram.readsKeep (congrArg Tracer.enabled hstart) runs
  refine ⟨?_, ?_, TraceEntry.read?_lines start.watched told, ?_, ?_⟩
  · have hspares : monitor.Spares (· ≠ start.output.path) files' := by
      refine ⟨.refl files', ?_⟩
      rintro _ ⟨⟩ hother
      exact hother rfl
    have hpath : start.output.path = t.output.path := congrArg (·.output.path) hstart
    obtain ⟨hplace, hkeep⟩ := @Tracer.place_of_create (· ≠ t.output.path) _ _ _ _ hcreate
    have hplaced : files'.place name = .ok start.output.path := by
      rw [(hkeep fun hother => hother rfl).place_ok, hpath]
      exact hplace
    rw [(hrecorded.text? (hspares.follow runs) hplaced), Tracer.text, hshown]
  · obtain ⟨t', htracer, ht'⟩ := hrecorded
    rw [htracer, ht'.eq, hshown]
    rfl
  · rw [hstart]
    exact hwatched
  · rw [hstart, ← List.length_map (f := Fin.val), hwatched]
    cases numbers with
    | none => decide
    | some numbers => exact List.length_take_le 8 _

/-- Stores a register over the third instruction, and comes to a misaligned load after it. -/
def patchingProgram : Machine Ram where
  cpu := Cpu.reset.setReg .v0 0x2402002A
  memory := ((Ram.blank.setWord 0 0xAC020008).setWord 8 0x0000000C).setWord 12 0x8C030001

theorem patchingProgram_traced :
    let t : Tracer := { output := ⟨["t"], false, 0, ""⟩, watched := Tracer.defaultWatched }
    let files' := Files.write {} ["t"] .empty
    let lost := { patchingProgram with cpu := { patchingProgram.cpu with pc := 0x800000 } }
    let runs := [(patchingProgram, 9), (lost, 3), (patchingProgram, 2)]
    let monitor : Monitor := ⟨some (t.configure (some 5) (some [2, 77])), files', {}⟩
    Tracer.create {} "t" = .ok (t, files') ∧ t.output.full = false ∧
      (follow runs monitor).flush.files.text? "t" = some (String.join [
        "PC=0x00000000 [0xAC020008] sw v0, 8(r0)                   | v0=000000002402002A\n",
        "PC=0x00000004 [0x00000000] nop                            | v0=000000002402002A\n",
        "PC=0x00000008 [0x2402002A] addiu v0, r0, 42               | v0=000000002402002A\n",
        "PC=0x0000000C [0x8C030001] lw v1, 1(r0)                   | v0=000000000000002A\n",
        "PC=0x00000000 [0xAC020008] sw v0, 8(r0)                   | v0=000000002402002A\n"]) := by
  intro t files' lost runs monitor
  have hcreate : Tracer.create {} "t" = .ok (t, files') := by
    rw [Tracer.create, Output.create, Files.target, Files.IsPart.place_eq (by decide)]
    rfl
  obtain ⟨htext, -⟩ := trace_complete hcreate rfl (some 5) (some [2, 77]) {} runs
  refine ⟨hcreate, rfl, ?_⟩
  rw [htext]
  decide +kernel

end Monitor

end Mips
