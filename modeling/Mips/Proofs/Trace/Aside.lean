import Mips.Proofs.Host.Output
import Mips.Proofs.Trace.Monitor
/-!
# Monitors that differ in one trace

What an output answers does not depend on what is in the files, and it changes no file but its own.
Two monitors of which only one still has a certain tracer therefore go on to do the same in all
files but that of the tracer: `Monitor.AgreeBut`.
-/

namespace Mips

/-! ## Files -/

namespace Node

def modified (f : ByteArray → ByteArray) : Option Node → Option Node
  | some (.file content executable) => some (.file (f content) executable)
  | none => some (.file (f .empty) false)
  | node? => node?

/-- In both places there is something that can be written to, of the same kind. -/
inductive OpenAlike : Option Node → Option Node → Prop where
  | file (content content' : ByteArray) (executable executable' : Bool) :
      OpenAlike (some (.file content executable)) (some (.file content' executable'))
  | device : OpenAlike (some .fullDevice) (some .fullDevice)

variable {node node' : Option Node}

theorem OpenAlike.modified_left (halike : OpenAlike node node') (f : ByteArray → ByteArray) :
    OpenAlike (modified f node) node' := by
  cases halike with
  | file => exact .file ..
  | device => exact .device

theorem OpenAlike.modified (halike : OpenAlike node node') (f : ByteArray → ByteArray) :
    OpenAlike (modified f node) (modified f node') := by
  cases halike with
  | file => exact .file ..
  | device => exact .device

end Node

namespace Files

theorem node?_modify (files : Files) (p q : Path) (f : ByteArray → ByteArray) :
    (files.modify p f).node? q =
      if q = p then Node.modified f (files.node? p) else files.node? q := by
  have hput {content : ByteArray} {executable : Bool} (hwritable : files.Writable p) :
      (files.put p (.file content executable)).node? q =
        if q = p then some (.file content executable) else files.node? q := by
    split
    · next hq => rw [hq, hwritable.node?_put]
    · next hq => exact node?_put_of_ne files _ hq
  unfold modify
  split
  · next content executable hfile =>
    rw [hput (.inr ⟨content, executable, hfile⟩), hfile]
    rfl
  · next hnone =>
    rw [hput (.inl hnone), hnone]
    rfl
  · next node hfile hnode =>
    have hsame : Node.modified f (some node) = some node := by
      cases node with
      | file content executable => exact absurd rfl (hfile content executable)
      | directory => rfl
      | fullDevice => rfl
    split
    · next hq => rw [hq, hnode, hsame]
    · rfl

/-- A file or device is open at the place. -/
def Open (files : Files) (p : Path) : Prop := Node.OpenAlike (files.node? p) (files.node? p)

theorem Open.changes {files : Files} {p q : Path} {change : Files → Files} (hopen : files.Open p)
    (hchange : Changes q change) : (change files).Open p := by
  induction hchange with
  | none => exact hopen
  | modify f _ ih =>
    rw [Open, node?_modify]
    split
    · next hq => exact Node.OpenAlike.modified (hq ▸ ih) f
    · exact ih

/-- The files are the same but for what is written at the places aside. -/
structure AgreeBut (aside : Path → Prop) (files files' : Files) : Prop where
  elsewhere : ∀ p, ¬ aside p → files.node? p = files'.node? p
  alike : ∀ p, aside p → Node.OpenAlike (files.node? p) (files'.node? p)

variable {aside : Path → Prop} {files files' : Files} {p : Path} {change : Files → Files}

theorem AgreeBut.refl (hopen : ∀ p, aside p → files.Open p) : files.AgreeBut aside files :=
  ⟨fun _ _ => rfl, hopen⟩

theorem AgreeBut.changes (hagree : files.AgreeBut aside files') (hchange : Changes p change) :
    (change files).AgreeBut aside (change files') := by
  induction hchange with
  | none => exact hagree
  | modify f _ ih =>
    constructor
    · intro q hq
      rw [node?_modify, node?_modify]
      split
      · next hqp => rw [ih.elsewhere p (hqp ▸ hq)]
      · exact ih.elsewhere q hq
    · intro q hq
      rw [node?_modify, node?_modify]
      split
      · next hqp => exact (ih.alike p (hqp ▸ hq)).modified f
      · exact ih.alike q hq

/-- At the places aside one side may go on alone. -/
theorem AgreeBut.changes_left (hagree : files.AgreeBut aside files') (hp : aside p)
    (hchange : Changes p change) : (change files).AgreeBut aside files' := by
  induction hchange with
  | none => exact hagree
  | modify f _ ih =>
    constructor
    · intro q hq
      have hne : q ≠ p := fun hqp => hq (hqp ▸ hp)
      rw [node?_modify, if_neg hne]
      exact ih.elsewhere q hq
    · intro q hq
      rw [node?_modify]
      split
      · next hqp => exact hqp ▸ (ih.alike p hp).modified_left f
      · exact ih.alike q hq

theorem AgreeBut.isDirectory (hagree : files.AgreeBut aside files') (p : Path) :
    files.isDirectory p = files'.isDirectory p := by
  unfold Files.isDirectory
  by_cases hp : aside p
  · have halike := hagree.alike p hp
    generalize files.node? p = node, files'.node? p = node' at halike ⊢
    cases halike <;> rfl
  · rw [hagree.elsewhere p hp]

theorem AgreeBut.place (hagree : files.AgreeBut aside files') (name : String) :
    files.place name = files'.place name := by
  have henter : files.enter = files'.enter := by
    funext p part
    unfold enter
    by_cases hp : aside p
    · have halike := hagree.alike p hp
      generalize files.node? p = node, files'.node? p = node' at halike ⊢
      cases halike <;> rfl
    · rw [hagree.elsewhere p hp]
  rw [Files.place, Files.place, henter]

theorem AgreeBut.target (hagree : files.AgreeBut aside files') (name : String) :
    files.target name = files'.target name := by
  simp only [Files.target, hagree.place, hagree.isDirectory]

theorem AgreeBut.lookup (hagree : files.AgreeBut aside files') {name : String}
    (hname : ∀ p, files.place name = .ok p → ¬ aside p) :
    files.lookup name = files'.lookup name := by
  unfold Files.lookup
  rw [← hagree.place name]
  cases hplace : files.place name with
  | error e => rfl
  | ok p => exact hagree.elsewhere p (hname p hplace)

end Files

/-! ## Tracers -/

namespace Tracer

/-- Whether a trace can be opened, and as what, does not depend on what is written aside. -/
theorem create_agree {aside : Path → Prop} {files files' : Files}
    (hagree : files.AgreeBut aside files') (name : String) :
    (∃ f, create files name = .error f ∧ create files' name = .error f) ∨
    ∃ t opened opened', create files name = .ok (t, opened) ∧
      create files' name = .ok (t, opened') ∧ opened.AgreeBut aside opened' := by
  have htarget := hagree.target name
  unfold create Output.create
  rw [htarget]
  cases files'.target name with
  | error e => exact .inl ⟨_, rfl, rfl⟩
  | ok p =>
    have hopened := hagree.changes (p := p) (Files.Changes.none.modify fun _ => .empty)
    simp only [Except.map]
    right
    by_cases hp : aside p
    · have halike := hagree.alike p hp
      generalize files.node? p = node, files'.node? p = node' at halike ⊢
      cases halike <;> exact ⟨_, _, _, rfl, rfl, hopened⟩
    · rw [hagree.elsewhere p hp]
      exact ⟨_, _, _, rfl, rfl, hopened⟩

theorem open_of_create {files opened : Files} {name : String} {t : Tracer}
    (hcreate : create files name = .ok (t, opened)) : opened.Open t.output.path := by
  unfold create Output.create at hcreate
  cases htarget : files.target name with
  | error e =>
    rw [htarget] at hcreate
    cases hcreate
  | ok p =>
    have hdirectory := Files.isDirectory_of_target htarget
    rw [htarget] at hcreate
    cases hcreate
    rw [Files.Open, Files.write, Files.node?_modify, if_pos rfl]
    rw [Files.isDirectory] at hdirectory
    generalize files.node? p = node at hdirectory ⊢
    rcases node with _ | (_ | _ | _)
    · exact .file ..
    · exact .file ..
    · cases hdirectory
    · exact .device

end Tracer

/-! ## Monitors -/

namespace Monitor

/-- The monitors agree but for a tracer that only the first of them may have, and for what that
tracer writes at the places aside. -/
inductive AgreeBut (aside : Path → Prop) : Monitor → Monitor → Prop where
  | same (tracer : Option Tracer) {files files' : Files} {log log' : Log} :
      files.AgreeBut aside files' → AgreeBut aside ⟨tracer, files, log⟩ ⟨tracer, files', log'⟩
  | kept (t : Tracer) {files files' : Files} {log log' : Log} : aside t.output.path →
      files.AgreeBut aside files' → AgreeBut aside ⟨some t, files, log⟩ ⟨none, files', log'⟩

/-- The file of the tracer is there, if there is a tracer. -/
def Attached (m : Monitor) : Prop := ∀ t, m.tracer = some t → m.files.Open t.output.path

variable {aside : Path → Prop} {m m' : Monitor}

theorem AgreeBut.files (hagree : AgreeBut aside m m') : m.files.AgreeBut aside m'.files := by
  cases hagree with
  | same _ hfiles => exact hfiles
  | kept _ _ hfiles => exact hfiles

/-- With the trace aside, a monitor agrees with one that starts on the same files. -/
theorem agreeBut_untraced (m : Monitor) (log' : Log)
    (haside : ∀ t, m.tracer = some t → aside t.output.path)
    (hopen : ∀ p, aside p → m.files.Open p) :
    AgreeBut aside m { files := m.files, log := log' } := by
  obtain ⟨_ | t, files, log⟩ := m
  · exact .same none (.refl hopen)
  · exact .kept t (haside t rfl) (.refl hopen)

theorem AgreeBut.reopen (hagree : AgreeBut aside m m') {files files' : Files}
    (hfiles : files.AgreeBut aside files') (log log' : Log) :
    AgreeBut aside { m with files, log } { m' with files := files', log := log' } := by
  cases hagree with
  | same tracer _ => exact .same tracer hfiles
  | kept t hpath _ => exact .kept t hpath hfiles

theorem AgreeBut.relog (hagree : AgreeBut aside m m') (log log' : Log) :
    AgreeBut aside { m with log } { m' with log := log' } := hagree.reopen hagree.files log log'

theorem AgreeBut.beforeStep {μ : Type} [Memory μ] (hagree : AgreeBut aside m m') (c : Cpu)
    (memory : μ) : AgreeBut aside (beforeStep c memory m).2 (beforeStep c memory m').2 := by
  cases hagree with
  | @same tracer files files' log log' hfiles =>
    cases tracer with
    | none => exact .same none hfiles
    | some t =>
      obtain ⟨result, memory', t', change, hchange, -, htrace⟩ := t.trace_eq c memory
      obtain ⟨_, hbefore⟩ := beforeStep_traced t files log c memory
      obtain ⟨_, hbefore'⟩ := beforeStep_traced t files' log' c memory
      rw [hbefore, hbefore', htrace, htrace]
      exact .same (some t') (hfiles.changes hchange)
  | @kept t files files' log log' hpath hfiles =>
    obtain ⟨result, memory', t', change, hchange, hpath', htrace⟩ := t.trace_eq c memory
    obtain ⟨_, hbefore⟩ := beforeStep_traced t files log c memory
    rw [hbefore, htrace]
    exact .kept t' (hpath' ▸ hpath) (hfiles.changes_left hpath hchange)

theorem AgreeBut.flush (hagree : AgreeBut aside m m') : AgreeBut aside m.flush m'.flush := by
  cases hagree with
  | @same tracer files files' log log' hfiles =>
    cases tracer with
    | none => exact .same none hfiles
    | some t =>
      obtain ⟨result, t', change, hchange, -, hflush⟩ := t.flush_eq
      obtain ⟨_, hflushed⟩ := flush_traced t files log
      obtain ⟨_, hflushed'⟩ := flush_traced t files' log'
      rw [hflushed, hflushed', hflush, hflush]
      exact .same (some t') (hfiles.changes hchange)
  | @kept t files files' log log' hpath hfiles =>
    obtain ⟨result, t', change, hchange, hpath', hflush⟩ := t.flush_eq
    obtain ⟨_, hflushed⟩ := flush_traced t files log
    rw [hflushed, hflush]
    exact .kept t' (hpath' ▸ hpath) (hfiles.changes_left hpath hchange)

theorem AgreeBut.dropTracer (hagree : AgreeBut aside m m') :
    m.dropTracer.files.AgreeBut aside m'.dropTracer.files := by
  cases hagree with
  | same tracer hfiles =>
    cases tracer with
    | none => exact hfiles
    | some t =>
      obtain ⟨result, t', change, hchange, -, hflush⟩ := t.flush_eq
      simp only [Monitor.dropTracer, Tracer.drop, hflush]
      exact hfiles.changes hchange
  | kept t hpath hfiles =>
    obtain ⟨result, t', change, hchange, hpath', hflush⟩ := t.flush_eq
    simp only [Monitor.dropTracer, Tracer.drop, hflush]
    exact hfiles.changes_left hpath hchange

theorem attached_untraced {files : Files} {log : Log} : Attached { files, log } :=
  fun _ h => nomatch h

theorem Attached.traced {t t' : Tracer} {files : Files} {log log' : Log} {change : Files → Files}
    (hattached : Attached ⟨some t, files, log⟩) (hchange : Files.Changes t.output.path change)
    (hpath : t'.output.path = t.output.path) : Attached ⟨some t', change files, log'⟩ := by
  intro u hu
  cases hu
  rw [hpath]
  exact (hattached t rfl).changes hchange

theorem Attached.beforeStep {μ : Type} [Memory μ] (hattached : m.Attached) (c : Cpu)
    (memory : μ) : (beforeStep c memory m).2.Attached := by
  obtain ⟨_ | t, files, log⟩ := m
  · exact hattached
  · obtain ⟨_, _, _, _, hchange, hpath, htrace⟩ := t.trace_eq c memory
    obtain ⟨_, hbefore⟩ := beforeStep_traced t files log c memory
    rw [hbefore, htrace]
    exact hattached.traced hchange hpath

theorem Attached.flush (hattached : m.Attached) : m.flush.Attached := by
  obtain ⟨_ | t, files, log⟩ := m
  · exact hattached
  · obtain ⟨_, _, _, hchange, hpath, hflush⟩ := t.flush_eq
    obtain ⟨_, hflushed⟩ := flush_traced t files log
    rw [hflushed, hflush]
    exact hattached.traced hchange hpath

/-- Dropping a tracer closes no other file. -/
theorem open_dropTracer (m : Monitor) {p : Path} (hopen : m.files.Open p) :
    m.dropTracer.files.Open p := by
  obtain ⟨_ | t, files, log⟩ := m
  · exact hopen
  · obtain ⟨_, _, _, hchange, -, hflush⟩ := t.flush_eq
    simp only [Monitor.dropTracer, Tracer.drop, hflush]
    exact hopen.changes hchange

/-! ## Monitored runs -/

variable {μ : Type} [Memory μ]

theorem Attached.run (hattached : m.Attached) (machine : Machine μ) (n : Nat) :
    (machine.runWith observer n m).2.Attached := by
  apply Machine.loop_notes
  · exact fun c memory _ h => h.beforeStep c memory
  · exact fun _ _ _ h => h
  · exact fun _ _ _ h => h
  · exact hattached

theorem AgreeBut.run (hread : Memory.ReadsKeep μ) (hagree : AgreeBut aside m m')
    (machine : Machine μ) (n : Nat) :
    AgreeBut aside (machine.runWith observer n m).2 (machine.runWith observer n m').2 := by
  apply Machine.loop_agree (memory_beforeStep hread)
  · exact fun c memory _ _ h => h.beforeStep c memory
  · exact fun _ _ _ _ h => h.relog _ _
  · exact fun _ _ _ _ h => h.relog _ _
  · exact hagree

end Monitor

end Mips
