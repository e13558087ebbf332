import Mips.Proofs.Cpu.Setting
import Mips.Proofs.Memory.Flat
import Mips.Proofs.Trace.Monitor
import Mips.System
/-!
# Tracing and display

A system that is traced, or that has a display, gives the same answers as one without.  The trace
of a run goes to a file; nothing that a system does depends on that file, unless it is loaded as an
image.
-/

namespace Mips

def MemoryRequest.image? : MemoryRequest → Option String
  | .loadFile name _ => some name
  | _ => none

/-- The place that a name leads to, if there is a name and it leads anywhere. -/
def Files.Leads (files : Files) (name? : Option String) (p : Path) : Prop :=
  ∃ name, name? = some name ∧ files.place name = .ok p

/-! ## Boards under different monitors -/

namespace Board

/-- The boards differ in nothing but their monitors, and neither of these has changed what is at
the kept places. -/
structure Alike (b : Board) (kept : Path → Prop) (files : Files) (b' : Board) : Prop where
  cpu : b.cpu = b'.cpu
  ram : b.ram = b'.ram
  spares : b.monitor.Spares kept files
  spares' : b'.monitor.Spares kept files

variable {kept : Path → Prop} {files : Files} {b b' : Board}

theorem Alike.imageFile (halike : b.Alike kept files b') {name : String}
    (hname : ∀ p, files.place name = .ok p → kept p) :
    imageFile b.monitor.files name = imageFile b'.monitor.files name := by
  have hlookup : b.monitor.files.lookup name = b'.monitor.files.lookup name := by
    rw [halike.spares.files.lookup hname, halike.spares'.files.lookup hname]
  rw [Board.imageFile, Board.imageFile, hlookup]

theorem Alike.load (halike : b.Alike kept files b') (a : Word) (image : ByteArray) :
    (b.load a image).1 = (b'.load a image).1 ∧
      (b.load a image).2.Alike kept files (b'.load a image).2 := by
  unfold Board.load
  rw [halike.ram]
  cases b'.ram.load a image with
  | error e => exact ⟨rfl, halike⟩
  | ok ram =>
    refine ⟨rfl, halike.cpu, rfl, ?_, ?_⟩
    · exact ⟨halike.spares.files, halike.spares.output⟩
    · exact ⟨halike.spares'.files, halike.spares'.output⟩

theorem Alike.loadFile (halike : b.Alike kept files b') {name : String}
    (hname : ∀ p, files.place name = .ok p → kept p) (a : Word) :
    (b.loadFile name a).1 = (b'.loadFile name a).1 ∧
      (b.loadFile name a).2.Alike kept files (b'.loadFile name a).2 := by
  unfold Board.loadFile
  rw [halike.imageFile hname]
  cases Board.imageFile b'.monitor.files name with
  | error f => exact ⟨rfl, halike⟩
  | ok image => exact halike.load a image

def machine (b : Board) : Machine Ram := ⟨b.cpu, b.ram⟩

theorem run_eq (b : Board) (n : Nat) :
    b.run n = (b.machine.retiredSince (b.machine.run n),
      ⟨(b.machine.run n).cpu, (b.machine.run n).memory,
        (b.machine.runWith Monitor.observer n b.monitor).2⟩) := by
  rw [← Monitor.runWith_observer Ram.readsKeep _ n b.monitor]
  rfl

theorem Alike.run (halike : b.Alike kept files b') (n : Nat) :
    (b.run n).1 = (b'.run n).1 ∧ (b.run n).2.Alike kept files (b'.run n).2 := by
  have hmachine : b.machine = b'.machine := by
    rw [machine, machine, halike.cpu, halike.ram]
  have hspares := halike.spares.run b.machine n
  have hspares' := halike.spares'.run b'.machine n
  rw [run_eq, run_eq, hmachine]
  exact ⟨rfl, rfl, rfl, hmachine ▸ hspares, hspares'⟩

theorem Alike.serve (halike : b.Alike kept files b') {r : MemoryRequest}
    (himage : ∀ p, files.Leads r.image? p → kept p) :
    (b.serve r).1 = (b'.serve r).1 ∧ (b.serve r).2.Alike kept files (b'.serve r).2 := by
  obtain ⟨hcpu, hram, hspares, hspares'⟩ := id halike
  cases r with
  | read8 a => exact ⟨by rw [Board.serve, Board.serve, Board.read8, Board.read8, hram], halike⟩
  | read32 a => exact ⟨by rw [Board.serve, Board.serve, Board.read32, Board.read32, hram], halike⟩
  | write8 a v =>
    simp only [Board.serve, Board.write8, hram]
    cases b'.ram.write8 a v with
    | error f => exact ⟨rfl, halike⟩
    | ok ram => exact ⟨rfl, hcpu, rfl, hspares, hspares'⟩
  | write32 a w =>
    simp only [Board.serve, Board.write32, hram]
    cases b'.ram.write32 a w with
    | error f => exact ⟨rfl, halike⟩
    | ok ram => exact ⟨rfl, hcpu, rfl, hspares, hspares'⟩
  | load a image =>
    obtain ⟨hreply, hnext⟩ := halike.load a image
    exact ⟨congrArg MemoryReply.ofLoad hreply, hnext⟩
  | loadFile name a =>
    have hname : ∀ p, files.place name = .ok p → kept p := fun p hp => himage p ⟨name, rfl, hp⟩
    obtain ⟨hreply, hnext⟩ := halike.loadFile hname a
    exact ⟨congrArg MemoryReply.ofLoad hreply, hnext⟩
  | clear => exact ⟨rfl, hcpu, rfl, hspares, hspares'⟩

end Board

/-! ## Sessions -/

namespace System

inductive Request where
  | set (s : Cpu.Setting)
  | memory (r : MemoryRequest)
  | loadFile (name : String) (a : Word)
  | loadProgram (a : Word) (program : List Word)
  | run (budget : Nat)
  | step
  | reset

inductive Tracing where
  | enable (name : String) (limit : Nat)
  | disable

inductive Reply where
  | set (fault : Option Fault)
  | memory (r : MemoryReply)
  | retired (n : Nat)
  | done
  deriving DecidableEq, Repr

section

variable {δ : Type}

def trace (s : System δ) : Tracing → System δ
  | .enable name limit => (s.enableTracing name limit).2
  | .disable => s.disableTracing

variable [DisplayRefresh δ]

def serve (s : System δ) : Request → Reply × System δ
  | .set setting =>
    (.set (s.board.cpu.set setting).1, { s with board.cpu := (s.board.cpu.set setting).2 })
  | .memory r => (.memory (s.board.serve r).1, { s with board := (s.board.serve r).2 })
  | .loadFile name a => (s.loadFile name a).map (.memory ∘ .ofLoad) id
  | .loadProgram a program =>
    (.memory (.ofLoad (s.board.loadProgram a program).1),
      { s with board := (s.board.loadProgram a program).2 })
  | .run budget => (s.run budget).map .retired id
  | .step => s.step.map .retired id
  | .reset => (.done, s.reset)

/-- What is seen of the requests in a session: each reply, and processor and memory after it. -/
def history (s : System δ) : List (Tracing ⊕ Request) → List (Reply × Cpu × Ram)
  | [] => []
  | .inl t :: rs => (s.trace t).history rs
  | .inr r :: rs =>
    let served := s.serve r
    (served.1, served.2.board.cpu, served.2.board.ram) :: served.2.history rs

def after (s : System δ) : List (Tracing ⊕ Request) → System δ
  | [] => s
  | .inl t :: rs => (s.trace t).after rs
  | .inr r :: rs => (s.serve r).2.after rs

def Request.isRun : Request → Bool
  | .run _ | .step => true
  | _ => false

def runEnds (s : System δ) : List (Tracing ⊕ Request) → List Cpu
  | [] => []
  | .inl t :: rs => (s.trace t).runEnds rs
  | .inr r :: rs =>
    let rest := (s.serve r).2.runEnds rs
    if r.isRun then (s.serve r).2.board.cpu :: rest else rest

end

/-! ## Which files are read and written -/

def Request.image? : Request → Option String
  | .memory r => r.image?
  | .loadFile name _ => some name
  | _ => none

def Tracing.name? : Tracing → Option String
  | .enable name _ => some name
  | .disable => none

def ImagePlace (files : Files) (rs : List (Tracing ⊕ Request)) (p : Path) : Prop :=
  ∃ r, .inr r ∈ rs ∧ files.Leads r.image? p

/-- No trace of a session goes to a file that is loaded in it as an image. -/
structure TracesApart {δ : Type} (s : System δ) (rs : List (Tracing ⊕ Request)) : Prop where
  attached : ∀ tracer, s.board.monitor.tracer = some tracer →
    ¬ ImagePlace s.board.monitor.files rs tracer.output.path
  opened : ∀ t p, .inl t ∈ rs → s.board.monitor.files.Leads t.name? p →
    ¬ ImagePlace s.board.monitor.files rs p

/-! ## One request -/

variable {kept : Path → Prop} {files : Files} {δ δ' : Type} {s : System δ} {s' : System δ'}

/-- What is reported goes to the operator, and nowhere else. -/
theorem spares_report (hspares : s.board.monitor.Spares kept files) {source : LogSource}
    {level : Level} (message : Unit → String) :
    (s.report source level message).board.monitor.Spares kept files :=
  ⟨hspares.files, hspares.output⟩

theorem spares_trace (hspares : s.board.monitor.Spares kept files) {t : Tracing}
    (hname : ∀ p, files.Leads t.name? p → ¬ kept p) :
    (s.trace t).board.monitor.Spares kept files := by
  cases t with
  | disable =>
    have hflush := hspares.flush
    exact ⟨hflush.files, fun _ h => nomatch h⟩
  | enable name limit =>
    have hplace : ∀ p, files.place name = .ok p → ¬ kept p := fun p hp => hname p ⟨name, rfl, hp⟩
    simp only [trace, enableTracing]
    split
    · exact spares_report hspares _
    · next hcreate => exact (spares_report hspares _).opened hcreate hplace limit

theorem machine_trace (s : System δ) (t : Tracing) :
    (s.trace t).board.cpu = s.board.cpu ∧ (s.trace t).board.ram = s.board.ram := by
  cases t with
  | disable => exact ⟨rfl, rfl⟩
  | enable name limit =>
    simp only [trace, enableTracing]
    split <;> exact ⟨rfl, rfl⟩

theorem alike_report (halike : s.board.Alike kept files s'.board) {source : LogSource}
    {level : Level} (message : Unit → String) :
    (s.report source level message).board.Alike kept files
      (s'.report source level message).board where
  cpu := halike.cpu
  ram := halike.ram
  spares := spares_report halike.spares message
  spares' := spares_report halike.spares' message

theorem display_trace (s : System δ) (t : Tracing) : (s.trace t).display = s.display := by
  cases t with
  | disable => rfl
  | enable name limit =>
    simp only [trace, enableTracing]
    split <;> rfl

variable [DisplayRefresh δ] [DisplayRefresh δ']

theorem alike_run (halike : s.board.Alike kept files s'.board) (n : Nat) :
    (s.run n).1 = (s'.run n).1 ∧ (s.run n).2.board.Alike kept files (s'.run n).2.board := by
  obtain ⟨hcount, hnext⟩ := halike.run n
  refine ⟨hcount, hnext.cpu, hnext.ram, ?_, ?_⟩
  · exact ⟨hnext.spares.flush.files, hnext.spares.flush.output⟩
  · exact ⟨hnext.spares'.flush.files, hnext.spares'.flush.output⟩

theorem alike_serve (halike : s.board.Alike kept files s'.board) {r : Request}
    (himage : ∀ p, files.Leads r.image? p → kept p) :
    (s.serve r).1 = (s'.serve r).1 ∧
      (s.serve r).2.board.Alike kept files (s'.serve r).2.board := by
  obtain ⟨hcpu, hram, hspares, hspares'⟩ := id halike
  cases r with
  | set setting =>
    have hset : s.board.cpu.set setting = s'.board.cpu.set setting := by rw [hcpu]
    have hfault := congrArg Prod.fst hset
    exact ⟨congrArg Reply.set hfault, congrArg Prod.snd hset, hram, hspares, hspares'⟩
  | memory r =>
    obtain ⟨hreply, hnext⟩ := halike.serve himage
    exact ⟨congrArg Reply.memory hreply, hnext⟩
  | loadFile name a =>
    have hname : ∀ p, files.place name = .ok p → kept p := fun p hp => himage p ⟨name, rfl, hp⟩
    obtain ⟨hreply, hnext⟩ := (alike_report halike _).loadFile hname a
    exact ⟨congrArg (Reply.memory ∘ MemoryReply.ofLoad) hreply, hnext⟩
  | loadProgram a program =>
    obtain ⟨hreply, hnext⟩ := halike.load a (Ram.image program)
    exact ⟨congrArg (Reply.memory ∘ MemoryReply.ofLoad) hreply, hnext⟩
  | run n =>
    obtain ⟨hcount, hnext⟩ := alike_run halike n
    exact ⟨congrArg Reply.retired hcount, hnext⟩
  | step =>
    obtain ⟨hcount, hnext⟩ := alike_run halike 1
    exact ⟨congrArg Reply.retired hcount, hnext⟩
  | reset =>
    exact ⟨rfl, rfl, rfl, ⟨hspares.files, hspares.output⟩, ⟨hspares'.files, hspares'.output⟩⟩

theorem display_serve (s : System δ) (r : Request) :
    (s.serve r).2.display =
      if r.isRun then s.display.map (DisplayRefresh.refresh · (s.serve r).2.board.cpu)
      else s.display := by
  cases r <;> rfl

/-! ## Whole sessions -/

/-- Leaving out all tracing, by induction on the session. -/
theorem history_filter (halike : s.board.Alike kept files s'.board)
    (rs : List (Tracing ⊕ Request)) (himages : ∀ p, ImagePlace files rs p → kept p)
    (hnames : ∀ t p, .inl t ∈ rs → files.Leads t.name? p → ¬ kept p) :
    s.history rs = s'.history (rs.filter Sum.isRight) ∧
      (s.after rs).board.Alike kept files (s'.after (rs.filter Sum.isRight)).board := by
  induction rs generalizing s s' with
  | nil => exact ⟨rfl, halike⟩
  | cons r rs ih =>
    have hlater : ∀ p, ImagePlace files rs p → kept p := by
      rintro p ⟨r', hmem, hleads⟩
      exact himages p ⟨r', .tail _ hmem, hleads⟩
    have hlater' : ∀ t p, .inl t ∈ rs → files.Leads t.name? p → ¬ kept p :=
      fun t p hmem => hnames t p (.tail _ hmem)
    cases r with
    | inl t =>
      have hspares := spares_trace halike.spares fun p => hnames t p (.head _)
      obtain ⟨hcpu, hram⟩ := machine_trace s t
      have hnext : (s.trace t).board.Alike kept files s'.board :=
        ⟨hcpu.trans halike.cpu, hram.trans halike.ram, hspares, halike.spares'⟩
      exact ih hnext hlater hlater'
    | inr r =>
      have himage : ∀ p, files.Leads r.image? p → kept p :=
        fun p hleads => himages p ⟨r, .head _, hleads⟩
      obtain ⟨hreply, hnext⟩ := alike_serve halike himage
      obtain ⟨hhistory, hafter⟩ := ih hnext hlater hlater'
      refine ⟨?_, hafter⟩
      simp only [List.filter_cons, Sum.isRight_inr, if_true, history]
      rw [hreply, hnext.cpu, hnext.ram, hhistory]

theorem imagePlace_congr (files : Files) {rs rs' : List (Tracing ⊕ Request)}
    (hsame : rs.filter Sum.isRight = rs'.filter Sum.isRight) :
    ImagePlace files rs = ImagePlace files rs' := by
  have hmem (rs : List (Tracing ⊕ Request)) (r : Request) :
      .inr r ∈ rs ↔ .inr r ∈ rs.filter Sum.isRight := by simp
  unfold ImagePlace
  simp only [hmem rs, hmem rs', hsame]

theorem display_after (s : System δ) (rs : List (Tracing ⊕ Request)) :
    (s.after rs).display =
      s.display.map fun d => (s.runEnds rs).foldl DisplayRefresh.refresh d := by
  induction rs generalizing s with
  | nil => exact Option.map_id'.symm
  | cons r rs ih =>
    cases r with
    | inl t => rw [after, ih, runEnds, display_trace]
    | inr r =>
      rw [after, ih, runEnds, display_serve]
      split
      · rw [Option.map_map]
        rfl
      · rfl

/-- Nobody who sees the processor and memory, or hears how many instructions a run has retired, can
tell whether it is traced or shown on a display, whatever the display makes of what it sees.  It is
refreshed at the end of each run, with the processor as the run left it, and only then. -/
theorem tracing_and_display_invisible :
    (∀ (μ : Type) [Memory μ] (m : Machine μ) (n : Nat) (monitor : Monitor), Memory.ReadsKeep μ →
      (m.runWith Monitor.observer n monitor).1 = m.run n) ∧
    (∀ (δ δ' : Type) [DisplayRefresh δ] [DisplayRefresh δ'] (s : System δ) (s' : System δ')
        (rs rs' : List (Tracing ⊕ Request)),
      s.board.cpu = s'.board.cpu → s.board.ram = s'.board.ram →
      s.board.monitor.files = s'.board.monitor.files →
      rs.filter Sum.isRight = rs'.filter Sum.isRight → s.TracesApart rs → s'.TracesApart rs' →
        s.history rs = s'.history rs' ∧
          (s.after rs).board.cpu = (s'.after rs').board.cpu ∧
          (s.after rs).board.ram = (s'.after rs').board.ram) ∧
    ∀ (δ : Type) [DisplayRefresh δ] (s : System δ) (rs : List (Tracing ⊕ Request)),
      (s.after rs).display =
        s.display.map fun d => (s.runEnds rs).foldl DisplayRefresh.refresh d := by
  refine ⟨fun _ _ m n monitor hread => Monitor.runWith_observer hread m n monitor, ?_,
    fun _ _ => display_after⟩
  intro δ δ' _ _ s s' rs rs' hcpu hram hfiles hsame hapart hapart'
  have hkept := imagePlace_congr s.board.monitor.files hsame
  obtain ⟨hattached', hopened'⟩ := hapart'
  rw [← hfiles, ← hkept] at hattached' hopened'
  have hspares : s.board.monitor.Spares _ s.board.monitor.files := ⟨.refl _, hapart.attached⟩
  have hspares' : s'.board.monitor.Spares _ s.board.monitor.files :=
    ⟨hfiles ▸ .refl _, hattached'⟩
  obtain ⟨hhistory, hafter⟩ :=
    history_filter ⟨hcpu, hram, hspares, hspares'⟩ rs (fun _ h => h) hapart.opened
  obtain ⟨hhistory', hafter'⟩ :=
    history_filter ⟨rfl, rfl, hspares', hspares'⟩ rs' (fun p h => hkept ▸ h) hopened'
  rw [hsame] at hhistory hafter
  exact ⟨hhistory.trans hhistory'.symm, hafter.cpu.trans hafter'.cpu.symm,
    hafter.ram.trans hafter'.ram.symm⟩

/-- The first of two runs traced and shown, the second only shown. -/
theorem logged_session_invisible :
    let files : Files := ⟨[(["i"], .file (Ram.image [0x2402002A]) false)]⟩
    let s : System := { board := { monitor := { files } } }
    let s' : System := { s with display := some {} }
    let rs : List (Tracing ⊕ Request) := [.inr (.loadFile "i" 0), .inr (.run 2), .inr .step]
    let rs' : List (Tracing ⊕ Request) :=
      [.inl (.enable "t" 1), .inr (.loadFile "i" 0), .inr (.run 2), .inl .disable, .inr .step]
    (s.board.machine.runWith Monitor.observer 2 (s'.trace (.enable "t" 1)).board.monitor).1 =
        s.board.machine.run 2 ∧
      s.TracesApart rs ∧ s'.TracesApart rs' ∧ s.history rs = s'.history rs' ∧
      (s.after rs).board.cpu = (s'.after rs').board.cpu ∧
      (s'.after rs').display.map Display.refreshes = some 2 := by
  intro files s s' rs rs'
  have hi : files.place "i" = .ok ["i"] := Files.IsPart.place_eq (by decide) files
  have ht : files.place "t" = .ok ["t"] := Files.IsPart.place_eq (by decide) files
  have himages : ∀ p, ImagePlace files rs' p → p = ["i"] := by
    rintro p ⟨r, hmem, image, himage, hp⟩
    simp only [rs', List.mem_cons, reduceCtorEq, Sum.inr.injEq, List.not_mem_nil, or_false,
      false_or] at hmem
    obtain rfl | rfl | rfl := hmem
    · cases himage
      rw [hi] at hp
      exact (Except.ok.inj hp).symm
    · cases himage
    · cases himage
  have hapart : s.TracesApart rs := by
    constructor
    · intro tracer htracer
      cases htracer
    · intro t p hmem
      simp [rs] at hmem
  have hapart' : s'.TracesApart rs' := by
    constructor
    · intro tracer htracer
      cases htracer
    · rintro t p hmem ⟨name, hname, hp⟩ himage
      simp only [rs', List.mem_cons, reduceCtorEq, Sum.inl.injEq, List.not_mem_nil, or_false,
        false_or] at hmem
      obtain rfl | rfl := hmem
      · cases hname
        rw [himages p himage, ht] at hp
        have hsame : ["t"] = ["i"] := Except.ok.inj hp
        exact absurd hsame (by decide)
      · cases hname
  obtain ⟨hrun, hinvisible, hdisplay⟩ := tracing_and_display_invisible
  obtain ⟨hhistory, hcpu, -⟩ := hinvisible _ _ s s' rs rs' rfl rfl rfl rfl hapart hapart'
  refine ⟨hrun Ram _ 2 _ Ram.readsKeep, hapart, hapart', hhistory, hcpu, ?_⟩
  rw [hdisplay]
  rfl

end System

end Mips
