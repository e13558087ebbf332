import Mips.Proofs.System.Tracing
import Mips.Proofs.Trace.Aside
import Mips.System.Start
/-!
# Reset

Whatever a system went through, a reset takes its processor and its memory back to power-on.  What
it keeps, its trace and its display, nobody can see who does not look at the trace: all that is
asked of it from then on is answered as a new system would answer.
-/

namespace Mips

/-! ## One request -/

namespace Board

/-- Requests to memory leave the processor alone, and write to the log at most. -/
theorem serve_keeps (b : Board) (r : MemoryRequest) :
    (b.serve r).2.cpu = b.cpu ∧ ∃ log, (b.serve r).2.monitor = { b.monitor with log } := by
  have hload (a : Word) (image : ByteArray) : (b.load a image).2.cpu = b.cpu ∧
      ∃ log, (b.load a image).2.monitor = { b.monitor with log } := by
    unfold Board.load
    split <;> exact ⟨rfl, _, rfl⟩
  cases r with
  | read8 a => exact ⟨rfl, _, rfl⟩
  | read32 a => exact ⟨rfl, _, rfl⟩
  | write8 a v =>
    simp only [serve, write8]
    cases b.ram.write8 a v <;> exact ⟨rfl, _, rfl⟩
  | write32 a w =>
    simp only [serve, write32]
    cases b.ram.write32 a w <;> exact ⟨rfl, _, rfl⟩
  | load a image => exact hload a image
  | loadFile name a =>
    simp only [serve, loadFile]
    split
    · exact ⟨rfl, _, rfl⟩
    · next image _ => exact hload a image
  | clear => exact ⟨rfl, _, rfl⟩

/-- Only the image of a request is looked up in the files. -/
theorem serve_congr {b b' : Board} (hram : b.ram = b'.ram) {r : MemoryRequest}
    (himage : ∀ name, r.image? = some name →
      imageFile b.monitor.files name = imageFile b'.monitor.files name) :
    (b.serve r).1 = (b'.serve r).1 ∧ (b.serve r).2.ram = (b'.serve r).2.ram := by
  let table : FlatMemory := b.ram.byteAt
  have hmirrors := mirrors_serve (b := b) (m := table) (fun _ _ => rfl) r
  have hmirrors' := mirrors_serve (b := b') (m := table) (fun _ _ => by rw [← hram]) r
  have htable : FlatMemory.serve b.monitor.files table r =
      FlatMemory.serve b'.monitor.files table r := by
    cases r with
    | loadFile name a => simp only [FlatMemory.serve, himage name rfl]
    | _ => rfl
  rw [htable] at hmirrors
  exact ⟨hmirrors.reply.trans hmirrors'.reply.symm, hmirrors.holds.unique hmirrors'.holds⟩

end Board

namespace System

def Request.budget? : Request → Option Nat
  | .run budget => some budget
  | .step => some 1
  | _ => none

section

variable {δ : Type}

def refusal? (s : System δ) : Tracing → Option Fault
  | .enable name limit =>
    match (s.enableTracing name limit).1 with
    | .ok () => none
    | .error f => some f
  | .disable => none

variable [DisplayRefresh δ]

theorem monitor_serve (s : System δ) (r : Request) :
    ∃ log, (s.serve r).2.board.monitor =
      { (match r.budget? with
        | some n => (s.board.machine.runWith Monitor.observer n s.board.monitor).2.flush
        | none => s.board.monitor) with log } := by
  cases r with
  | set setting => exact ⟨_, rfl⟩
  | memory r => exact (s.board.serve_keeps r).2
  | loadFile name a =>
    let logged := s.report .system .info fun _ => "Loading image from: " ++ name
    exact (logged.board.serve_keeps (.loadFile name a)).2
  | loadProgram a program => exact (s.board.serve_keeps (.load a (Ram.image program))).2
  | run n => exact ⟨_, rfl⟩
  | step => exact ⟨_, rfl⟩
  | reset => exact ⟨_, rfl⟩

/-- All that is seen of a session, the contents of traces aside: whether a trace was refused, each
reply, and processor and memory after it. -/
def transcript (s : System δ) : List (Tracing ⊕ Request) → List ((Option Fault ⊕ Reply) × Cpu × Ram)
  | [] => []
  | .inl t :: rs =>
    (.inl (s.refusal? t), (s.trace t).board.cpu, (s.trace t).board.ram) ::
      (s.trace t).transcript rs
  | .inr r :: rs =>
    (.inr (s.serve r).1, (s.serve r).2.board.cpu, (s.serve r).2.board.ram) ::
      (s.serve r).2.transcript rs

end

/-! ## The file of the trace -/

variable {aside kept : Path → Prop} {files : Files} {δ δ' : Type} {s : System δ} {s' : System δ'}

theorem attached_trace (hattached : s.board.monitor.Attached) (t : Tracing) :
    (s.trace t).board.monitor.Attached := by
  cases t with
  | disable => exact fun _ h => nomatch h
  | enable name limit =>
    simp only [trace, enableTracing]
    split
    · exact hattached
    · next hcreate =>
      intro u hu
      cases hu
      have hopen := Tracer.open_of_create hcreate
      exact Monitor.open_dropTracer _ hopen

/-! ## Two systems -/

/-- The systems agree but for a tracer that only the first of them may have, for what that tracer
writes aside, and for their displays. -/
structure AgreeBut {δ δ' : Type} (aside : Path → Prop) (s : System δ) (s' : System δ') : Prop where
  cpu : s.board.cpu = s'.board.cpu
  ram : s.board.ram = s'.board.ram
  monitor : s.board.monitor.AgreeBut aside s'.board.monitor

theorem AgreeBut.serve_memory (hagree : s.AgreeBut aside s') {r : MemoryRequest}
    (himage : ∀ name p, r.image? = some name → s.board.monitor.files.place name = .ok p →
      ¬ aside p) :
    (s.board.serve r).1 = (s'.board.serve r).1 ∧
      ({ s with board := (s.board.serve r).2 } : System δ).AgreeBut aside
        { s' with board := (s'.board.serve r).2 } := by
  have hfile (name : String) (hname : r.image? = some name) :
      Board.imageFile s.board.monitor.files name = Board.imageFile s'.board.monitor.files name := by
    rw [Board.imageFile, Board.imageFile, hagree.monitor.files.lookup fun p => himage name p hname]
  obtain ⟨hreply, hram⟩ := Board.serve_congr hagree.ram hfile
  obtain ⟨hcpu, log, hmonitor⟩ := s.board.serve_keeps r
  obtain ⟨hcpu', log', hmonitor'⟩ := s'.board.serve_keeps r
  refine ⟨hreply, ?_, hram, ?_⟩
  · exact hcpu.trans (hagree.cpu.trans hcpu'.symm)
  · dsimp only
    rw [hmonitor, hmonitor']
    exact hagree.monitor.relog log log'

theorem AgreeBut.trace (hagree : s.AgreeBut aside s') (t : Tracing) :
    s.refusal? t = s'.refusal? t ∧ (s.trace t).AgreeBut aside (s'.trace t) := by
  obtain ⟨hcpu, hram, hmonitor⟩ := id hagree
  cases t with
  | disable => exact ⟨rfl, hcpu, hram, .same none hmonitor.flush.files⟩
  | enable name limit =>
    obtain ⟨f, hcreate, hcreate'⟩ | ⟨t, opened, opened', hcreate, hcreate', hopened⟩ :=
      Tracer.create_agree hmonitor.files name
    · simp only [refusal?, System.trace, enableTracing, report, Monitor.report, hcreate, hcreate']
      exact ⟨trivial, hcpu, hram, hmonitor.relog _ _⟩
    · simp only [refusal?, System.trace, enableTracing, report, Monitor.report, hcreate, hcreate']
      exact ⟨trivial, hcpu, hram, .same _ (hmonitor.reopen hopened _ _).dropTracer⟩

variable [DisplayRefresh δ] [DisplayRefresh δ']

theorem AgreeBut.run (hagree : s.AgreeBut aside s') (n : Nat) :
    (s.run n).1 = (s'.run n).1 ∧ (s.run n).2.AgreeBut aside (s'.run n).2 := by
  have hmachine : s.board.machine = s'.board.machine := by
    rw [Board.machine, Board.machine, hagree.cpu, hagree.ram]
  have hmonitor := (hagree.monitor.run Ram.readsKeep s'.board.machine n).flush
  simp only [System.run, Board.run_eq, hmachine]
  exact ⟨trivial, rfl, rfl, hmonitor.relog _ _⟩

theorem AgreeBut.serve (hagree : s.AgreeBut aside s') {r : Request}
    (himage : ∀ p, s.board.monitor.files.Leads r.image? p → ¬ aside p) :
    (s.serve r).1 = (s'.serve r).1 ∧ (s.serve r).2.AgreeBut aside (s'.serve r).2 := by
  cases r with
  | set setting =>
    have hset : s.board.cpu.set setting = s'.board.cpu.set setting := by rw [hagree.cpu]
    simp only [System.serve, hset]
    exact ⟨trivial, rfl, hagree.ram, hagree.monitor⟩
  | memory r =>
    obtain ⟨hreply, hnext⟩ :=
      hagree.serve_memory (r := r) fun name p hname hp => himage p ⟨name, hname, hp⟩
    exact ⟨congrArg Reply.memory hreply, hnext⟩
  | loadFile name a =>
    have hlogged (message : Unit → String) : (s.report .system .info message).AgreeBut aside
        (s'.report .system .info message) :=
      ⟨hagree.cpu, hagree.ram, hagree.monitor.relog _ _⟩
    obtain ⟨hreply, hnext⟩ := (hlogged fun _ => "Loading image from: " ++ name).serve_memory
      (r := .loadFile name a) fun name p hname hp => himage p ⟨name, hname, hp⟩
    exact ⟨congrArg Reply.memory hreply, hnext⟩
  | loadProgram a program =>
    obtain ⟨hreply, hnext⟩ := hagree.serve_memory (r := .load a (Ram.image program))
      fun _ _ hname => nomatch hname
    exact ⟨congrArg Reply.memory hreply, hnext⟩
  | run n =>
    obtain ⟨hcount, hnext⟩ := hagree.run n
    exact ⟨congrArg Reply.retired hcount, hnext⟩
  | step =>
    obtain ⟨hcount, hnext⟩ := hagree.run 1
    exact ⟨congrArg Reply.retired hcount, hnext⟩
  | reset => exact ⟨rfl, rfl, rfl, hagree.monitor.relog _ _⟩

/-! ## Requests and sessions -/

theorem spares_serve (hspares : s.board.monitor.Spares kept files) (r : Request) :
    (s.serve r).2.board.monitor.Spares kept files := by
  obtain ⟨log, hmonitor⟩ := s.monitor_serve r
  rw [hmonitor]
  cases r.budget? with
  | none => exact ⟨hspares.files, hspares.output⟩
  | some n =>
    have hflushed := (hspares.run s.board.machine n).flush
    exact ⟨hflushed.files, hflushed.output⟩

theorem attached_serve (hattached : s.board.monitor.Attached) (r : Request) :
    (s.serve r).2.board.monitor.Attached := by
  obtain ⟨log, hmonitor⟩ := s.monitor_serve r
  rw [hmonitor]
  cases r.budget? with
  | none => exact hattached
  | some n => exact (hattached.run s.board.machine n).flush

theorem attached_after (hattached : s.board.monitor.Attached) (rs : List (Tracing ⊕ Request)) :
    (s.after rs).board.monitor.Attached := by
  induction rs generalizing s with
  | nil => exact hattached
  | cons r rs ih =>
    cases r with
    | inl t => exact ih (attached_trace hattached t)
    | inr r => exact ih (attached_serve hattached r)

/-! ## Whole sessions -/

/-- By induction on the session.  No directory comes or goes in it, so that a name leads where it
led to in `files`, from which the session started. -/
theorem AgreeBut.transcript (hagree : s.AgreeBut aside s') (rs : List (Tracing ⊕ Request))
    (hspares : s.board.monitor.Spares (fun _ => False) files)
    (himages : ∀ p, ImagePlace files rs p → ¬ aside p) :
    s.transcript rs = s'.transcript rs := by
  induction rs generalizing s s' with
  | nil => rfl
  | cons r rs ih =>
    have hlater : ∀ p, ImagePlace files rs p → ¬ aside p := by
      rintro p ⟨r', hmem, hleads⟩
      exact himages p ⟨r', .tail _ hmem, hleads⟩
    cases r with
    | inl t =>
      obtain ⟨hrefusal, hnext⟩ := hagree.trace t
      have hsame := ih hnext (spares_trace hspares fun _ _ h => h) hlater
      simp only [System.transcript]
      rw [hrefusal, hnext.cpu, hnext.ram, hsame]
    | inr r =>
      have himage : ∀ p, s.board.monitor.files.Leads r.image? p → ¬ aside p := by
        rintro p ⟨name, hname, hp⟩
        exact himages p ⟨r, .head _, name, hname, hspares.files.place_ok.mp hp⟩
      obtain ⟨hreply, hnext⟩ := hagree.serve himage
      have hsame := ih hnext (spares_serve hspares r) hlater
      simp only [System.transcript]
      rw [hreply, hnext.cpu, hnext.ram, hsame]

/-- After any session on a new system, a reset takes processor and memory back to power-on and
keeps the trace and the display.  From then on the system cannot be told from a new one on the same
host, whatever its display, as long as the file of the kept trace is not loaded as an image. -/
theorem reset_powers_on {δ δ' : Type} [DisplayRefresh δ] [DisplayRefresh δ'] (files : Files)
    (log : Log) (display : Option δ) (display' : Option δ') (before after : List (Tracing ⊕ Request)) :
    let s := System.after { display, board := { monitor := { files, log } } } before
    let t := s.reset
    (t.board.cpu = .reset ∧ t.board.ram = .blank ∧
      t.board.monitor.tracer = s.board.monitor.tracer ∧ t.display = s.display) ∧
    ((∀ tracer, s.board.monitor.tracer = some tracer →
        ¬ ImagePlace s.board.monitor.files after tracer.output.path) →
      t.transcript after =
        System.transcript { board := t.fresh.board, display := display' } after) := by
  intro s t
  refine ⟨⟨rfl, rfl, rfl, rfl⟩, fun himages => ?_⟩
  let aside (p : Path) : Prop :=
    ∃ tracer, s.board.monitor.tracer = some tracer ∧ tracer.output.path = p
  have hopen : ∀ p, aside p → s.board.monitor.files.Open p := by
    rintro _ ⟨tracer, htracer, rfl⟩
    exact attached_after Monitor.attached_untraced before tracer htracer
  have hmonitor : t.board.monitor.AgreeBut aside t.fresh.board.monitor :=
    t.board.monitor.agreeBut_untraced _ (fun tracer htracer => ⟨tracer, htracer, rfl⟩) hopen
  have hagree : t.AgreeBut aside { board := t.fresh.board, display := display' } :=
    ⟨rfl, rfl, hmonitor⟩
  have hspares : t.board.monitor.Spares (fun _ => False) s.board.monitor.files :=
    ⟨.refl _, fun _ _ h => h⟩
  apply hagree.transcript after hspares
  rintro p hp ⟨tracer, htracer, rfl⟩
  exact himages tracer htracer hp

/-- A run that a fault ends in the slot of a jump, and then a trace: the reset keeps nothing of it
but the trace, whose file a new trace then takes over. -/
theorem brokenJump_powers_on :
    let before : List (Tracing ⊕ Request) :=
      [.inr (.loadProgram 0 [0x08000002, 0x0000000D]), .inr (.run 5), .inl (.enable "t" 1)]
    let after : List (Tracing ⊕ Request) :=
      [.inr (.loadProgram 0 [0x2402002A]), .inr .step, .inl (.enable "t" 3), .inr .step]
    let s := System.after ({} : System) before
    let t := s.reset
    (s.board.cpu.pending = some 8 ∧ s.board.cpu.halted = true ∧ s.isTracing = true) ∧
    (t.board.cpu = .reset ∧ t.board.ram = .blank ∧ t.isTracing = true) ∧
    (∀ tracer, s.board.monitor.tracer = some tracer →
      ¬ ImagePlace s.board.monitor.files after tracer.output.path) ∧
    t.transcript after = t.fresh.transcript after ∧
    (t.transcript after)[1]?.map (fun seen => (seen.1, seen.2.1.reg .v0)) =
      some (.inr (.retired 1), 42) := by
  intro before after s t
  let u := System.after ({} : System) [.inr (.loadProgram 0 [0x08000002, 0x0000000D]), .inr (.run 5)]
  have hcpu : s.board.cpu = u.board.cpu := (machine_trace u (.enable "t" 1)).1
  have htarget : u.board.monitor.files.target "t" = .ok ["t"] := by
    rw [Files.target, Files.IsPart.place_eq (by decide)]
    rfl
  have htracing : s.isTracing = true := by
    change (u.trace (.enable "t" 1)).isTracing = true
    simp only [trace, enableTracing, report, Monitor.report, Tracer.create, Output.create, htarget]
    rfl
  have himages : ∀ tracer, s.board.monitor.tracer = some tracer →
      ¬ ImagePlace s.board.monitor.files after tracer.output.path := by
    rintro tracer - ⟨r, hmem, name, himage, -⟩
    simp only [after, List.mem_cons, reduceCtorEq, Sum.inr.injEq, List.not_mem_nil, or_false,
      false_or] at hmem
    obtain rfl | rfl | rfl := hmem <;> cases himage
  obtain ⟨⟨hreset, hblank, htracer, -⟩, hsame⟩ :=
    @reset_powers_on Display Display _ _ {} {} none none before after
  have htranscript : t.transcript after = t.fresh.transcript after := hsame himages
  refine ⟨⟨?_, ?_, htracing⟩, ⟨hreset, hblank, htracing⟩, himages, htranscript, ?_⟩
  · rw [hcpu]
    decide
  · rw [hcpu]
    decide
  · rw [htranscript]
    decide

end System

end Mips
