import Mips.Proofs.Config.Document
import Mips.Proofs.Host.Environment
import Mips.Proofs.Host.Search
import Mips.Proofs.Launch.Arguments
import Mips.Proofs.Snapshot.RoundTrip
import Mips.Proofs.System.Start
/-!
# What a launch comes to

A launch runs the image that its command line names, with the settings of the command line before
those of the configuration file.  Its exit status says whether the run could be set up, and its
output shows the state that single steps lead to; neither the trace nor the log shows in it.
-/

namespace Mips

def RunConfig.standard : RunConfig where
  loadAddress := 0x80000000
  entryPoint := none
  instructions := 100000
  tracePath := none
  traceLimit := 10000

namespace LaunchOptions

variable {o : LaunchOptions} {files : Files} {c : RunConfig} {content : ByteArray}

/-- The configuration that the settings of a command line are put before: the defaults, or what the
named file gives in their place.  The file has to be a document in which each entry is a setting of
a field. -/
inductive Base (o : LaunchOptions) (files : Files) : RunConfig → Prop
  | standard (hnone : o.config = none) : Base o files .standard
  | file {name text : String} {t : Toml.Table} {c : RunConfig} (hname : o.config = some name)
    (htext : files.text? name = some text) (htable : Toml.Document.ofText? text = some t)
    (hfits : ∀ e ∈ t, RunConfig.Fits e) (hgiven : RunConfig.standard.Overrides t c) :
    Base o files c

theorem base_ok_iff : o.base files = .ok c ↔ o.Base files c := by
  unfold base
  constructor
  · intro h
    split at h
    · next name hname =>
      unfold RunConfig.ofFile at h
      split at h
      · next text htext =>
        obtain ⟨t, htable, hfits, hgiven⟩ := RunConfig.ofText_ok_iff.mp h
        exact .file hname htext htable hfits hgiven
      · cases h
    · next hnone =>
      cases h
      exact .standard hnone
  · rintro (hnone | ⟨hname, htext, htable, hfits, hgiven⟩)
    · rw [hnone]
      rfl
    · have htext' := RunConfig.ofText_ok_iff.mpr ⟨_, htable, hfits, hgiven⟩
      rw [hname]
      simp only [RunConfig.ofFile, htext]
      exact htext'

/-- A file of one line says how many instructions are executed, and nothing else. -/
theorem base_of_instructions {name : String} {n : Nat} (hname : o.config = some name)
    (htext : files.text? name =
      some (Toml.Document.ofLines [RunConfig.lineOf .instructions (RunConfig.spells_decimal n)]))
    (hn : n < 2 ^ 64) : o.Base files { RunConfig.standard with instructions := n } := by
  let line := RunConfig.lineOf .instructions (RunConfig.spells_decimal n)
  have htable : Toml.Document.ofText? (Toml.Document.ofLines [line]) =
      some [("instructions".toList, .integer n)] := (Toml.Document.lists_ofLines [line]).ofText?
  have hmeans : ConfigField.instructions.Means (.integer n) (.counter n) := ⟨n, hn, rfl, rfl⟩
  have hfits : ∀ e ∈ [("instructions".toList, Toml.Value.integer n)], RunConfig.Fits e :=
    List.forall_mem_singleton.mpr ⟨.instructions, _, rfl, hmeans⟩
  refine .file hname htext htable hfits fun field => ?_
  cases field with
  | instructions => exact .inl ⟨_, List.mem_singleton_self _, hmeans⟩
  | _ => exact .inr ⟨by simp [ConfigField.name], rfl⟩

/-- The run of a command line can be set up: there is a configuration, and with the settings of the
command line put before it there is an image that fits and a file for the trace. -/
structure Ready (o : LaunchOptions) (files : Files) (c : RunConfig) (content : ByteArray) :
    Prop where
  config : o.Base files c
  image : files.content? o.image = some content
  fits : Ram.offset (o.loadAddress.getD c.loadAddress) + content.size ≤ Ram.size
  trace : ∀ path, o.trace.or c.tracePath = some path → ∃ p, files.target path = .ok p

theorem ready_iff : o.Ready files c content ↔
    o.base files = .ok c ∧ System.Startable files (o.merge c) o.image content := by
  rw [base_ok_iff]
  exact ⟨fun h => ⟨h.config, h.image, h.fits, h.trace⟩,
    fun h => ⟨h.1, h.2.image, h.2.fits, h.2.trace⟩⟩

end LaunchOptions

namespace Machine

/-- What is shown of the processor after a run, by single steps. -/
theorem shown_run {m : Machine Ram} (hfresh : m.cpu.Fresh) (n : Nat) :
    (m.run n).cpu.haltReason.isSome = (m.drive n).1.isSome ∧
      (m.run n).cpu.dump = (m.drive n).2.cpu.dump ∧
      (m.run n).cpu.snapshot =
        { (m.drive n).2.cpu.snapshot with halted := (m.drive n).1.isSome } := by
  have hresume : m.resume = m := by
    rw [resume, Cpu.resume_of_fresh hfresh]
  have hfresh' := fresh_drive hfresh n
  rw [run_eq, hresume, proceed_eq_drive hfresh]
  rcases hdrive : m.drive n with ⟨_ | f, m'⟩
  · rw [hdrive] at hfresh'
    obtain ⟨hhalted, hreason⟩ := hfresh'
    refine ⟨congrArg Option.isSome hreason, rfl, ?_⟩
    dsimp only [Cpu.snapshot]
    rw [hhalted]
    rfl
  · exact ⟨rfl, rfl, rfl⟩

end Machine

namespace Launch

def shown (o : LaunchOptions) (c : Cpu) : String :=
  (if c.haltReason.isSome then c.dump else "") ++
    if o.dumpState then c.snapshot.text ++ "\n" else ""

theorem conclude_eq (o : LaunchOptions) (retired : Nat) (s : System) :
    (conclude o retired s).status = .success ∧
      (conclude o retired s).output = shown o s.board.cpu := by
  unfold shown
  cases hreason : s.board.cpu.haltReason <;> simp only [conclude, hreason, finish]
  · exact ⟨trivial, rfl⟩
  · exact ⟨trivial, rfl⟩

variable {o : LaunchOptions} {c : RunConfig} {s : System}

theorem execute_of_startable {content : ByteArray}
    (hstartable : System.Startable s.board.monitor.files c o.image content) :
    let start : Machine Ram :=
      ⟨s.board.cpu.setPc c.entry, s.board.ram.place (Ram.offset c.loadAddress) content⟩
    (execute o c s).status = .success ∧
      (execute o c s).output = shown o (start.run c.instructions).cpu := by
  intro start
  unfold execute
  generalize hlogged : s.report .program .info _ = logged
  have hready : System.Startable logged.board.monitor.files c o.image content :=
    hlogged ▸ hstartable
  obtain ⟨s', hprepare, hcpu, hram⟩ := System.prepare_of_startable hready
  have hstart : s'.board.machine = start := by
    rw [Board.machine, hcpu, hram, ← hlogged]
    rfl
  simp only [hprepare]
  obtain ⟨hstatus, houtput⟩ :=
    conclude_eq o (s'.run c.instructions).1 (s'.run c.instructions).2
  refine ⟨hstatus, houtput.trans ?_⟩
  rw [← hstart]
  simp only [System.run, Board.run_eq]

theorem execute_fails
    (hnonempty : ∀ content, s.board.monitor.files.content? o.image = some content →
      content.size ≠ 0)
    (hunready : ∀ content, ¬ System.Startable s.board.monitor.files c o.image content) :
    (execute o c s).status = .failure := by
  unfold execute
  generalize hlogged : s.report .program .info _ = logged
  obtain ⟨f, hfails⟩ : ∃ f, (logged.prepare c o.image).1 = .error (.fault f) := by
    rw [← hlogged]
    exact System.prepare_fails hnonempty hunready
  obtain ⟨s', hprepare⟩ : ∃ s', logged.prepare c o.image = (.error (.fault f), s') :=
    ⟨_, Prod.ext hfails rfl⟩
  simp only [hprepare]
  rfl

/-! ## The whole program -/

variable {files : Files} {args : List String}

theorem runWith_fails_of_base (hread : LaunchOptions.read? args = some o) {e : ConfigError}
    (hbase : o.base files = .error e) (log : Log) :
    (runWith log files args).status = .failure := by
  simp only [runWith, hread, LaunchOptions.runConfig, hbase]
  rfl

theorem runWith_eq_execute (hread : LaunchOptions.read? args = some o)
    (hbase : o.base files = .ok c) (log : Log) :
    ∃ s : System, s.board.machine = ⟨.reset, .blank⟩ ∧ s.board.monitor.files = files ∧
      runWith log files args = execute o (o.merge c) s := by
  simp only [runWith, hread, LaunchOptions.runConfig, hbase, Except.map]
  refine ⟨_, ?_, ?_, rfl⟩
  · cases o.config <;> rfl
  · cases o.config <;> rfl

/-- The file with variables that is found first gives one of them a value that it cannot have. -/
def Unusable (values : Variables) (files : Files) : Prop :=
  ∃ content, files.Nearest ".env" content ∧
    (Environment.load { values } content).2 = some .unusableValue

theorem unusable_iff {values : Variables} :
    (environment values files).2 = some .unusableValue ↔ Unusable values files := by
  rw [environment, Unusable, environmentFile]
  simp only [← Files.nearest?_eq_some_iff]
  cases files.nearest? ".env" with
  | none => simp
  | some content => simp

/-- Such a value has a zero character, which is in the file or comes from outside. -/
theorem Unusable.exists_zero {values : Variables} (hunusable : Unusable values files) :
    (∃ v ∈ values, '\x00' ∈ v.2) ∨ ∃ content, files.Nearest ".env" content ∧ 0 ∈ content.data := by
  obtain ⟨content, hnearest, hload⟩ := hunusable
  by_cases hvalues : ∃ v ∈ values, '\x00' ∈ v.2
  · exact .inl hvalues
  · push Not at hvalues
    refine .inr ⟨content, hnearest, ?_⟩
    by_contra hzero
    exact Environment.load_ne_unusableValue hvalues hzero hload

theorem run_crashes {values : Variables} (hunusable : Unusable values files)
    (args : List String) : (run values files args).status = .crash := by
  obtain ⟨e, henvironment⟩ : ∃ e, environment values files = (e, some .unusableValue) :=
    ⟨_, Prod.ext rfl (unusable_iff.mpr hunusable)⟩
  rw [run, henvironment]

/-- The environment decides about the log, and about nothing else if it can be used at all. -/
theorem run_eq_runWith {values : Variables} (husable : ¬ Unusable values files)
    (args : List String) :
    ∃ log, (run values files args).status = (runWith log files args).status ∧
      (run values files args).output = (runWith log files args).output := by
  rw [← unusable_iff] at husable
  unfold run
  rcases henvironment : environment values files with ⟨e, _ | _ | _⟩
  · exact ⟨_, rfl, rfl⟩
  · exact ⟨_, rfl, rfl⟩
  · rw [henvironment] at husable
    exact absurd rfl husable

theorem runWith_of_ready {content : ByteArray} (hread : LaunchOptions.read? args = some o)
    (hready : o.Ready files c content) {memory : Ram}
    (hholds : memory.Holds (FlatMemory.blank.overwrite
      (Ram.offset (o.loadAddress.getD c.loadAddress)) (FlatMemory.contents content))) (log : Log) :
    let start : Machine Ram := ⟨Cpu.reset.setPc (o.merge c).entry, memory⟩
    (runWith log files args).status = .success ∧
      (runWith log files args).output = shown o (start.run (o.merge c).instructions).cpu := by
  intro start
  obtain ⟨hbase, hstartable⟩ := LaunchOptions.ready_iff.mp hready
  obtain ⟨s, hmachine, hfiles, hrun⟩ := runWith_eq_execute hread hbase log
  obtain ⟨hcpu, hram⟩ := Machine.mk.inj hmachine
  rw [← hfiles] at hstartable
  have hplace := Ram.holds_blank.place (Ram.offset (o.merge c).loadAddress) content
  have hexecute := execute_of_startable hstartable
  rw [hcpu, hram, hplace.unique hholds] at hexecute
  rwa [hrun]

theorem runWith_fails (hread : LaunchOptions.read? args = some o)
    (hnonempty : ∀ content, files.content? o.image = some content → content.size ≠ 0)
    (hunready : ∀ c content, ¬ o.Ready files c content) (log : Log) :
    (runWith log files args).status = .failure := by
  cases hbase : o.base files with
  | error e => exact runWith_fails_of_base hread hbase log
  | ok c =>
    obtain ⟨s, -, hfiles, hrun⟩ := runWith_eq_execute hread hbase log
    rw [hrun]
    subst hfiles
    apply execute_fails hnonempty
    intro content hstartable
    exact hunready c content (LaunchOptions.ready_iff.mpr ⟨hbase, hstartable⟩)

theorem fresh_reset_setPc (a : Word) : (Cpu.reset.setPc a).Fresh := ⟨rfl, rfl⟩

/-- Its second word is no instruction of the machine. -/
def brokenImage : ByteArray := Ram.image [0x2402002A, 0x0000000D]

end Launch

end Mips
