import Mathlib.Tactic.Push
import Mips.Proofs.System.Tracing
import Mips.System.Start
/-!
# Setting up a run

What a run needs before it can start: an image, room for it at the address where it is loaded, and,
if a trace is asked for, a file that the trace can go to.  A system that finds all of it is set up
with nothing but the image in memory and the processor at the first instruction; otherwise the
reason is reported.
-/

namespace Mips

/-! ## Images -/

namespace Ram

variable {a : Word} {image : ByteArray}

theorem load_of_fits (r : Ram) (hfits : offset a + image.size ≤ size) :
    r.load a image = .ok (r.place (offset a) image) := by
  have hroom : ¬ size - offset a < image.size := by omega
  have hinside : ¬ size < offset a := by omega
  simp only [load, if_neg hroom, if_neg hinside]

theorem load_of_exceeds (r : Ram) (hexceeds : size < offset a + image.size)
    (hnonempty : image.size ≠ 0) :
    r.load a image = .error (.fault (.imageTooLarge image.size (size - offset a))) := by
  have hroom : size - offset a < image.size := by omega
  simp only [load, if_pos hroom]

end Ram

namespace Board

theorem imageFile_of_content {files : Files} {name : String} {content : ByteArray}
    (hcontent : files.content? name = some content) : imageFile files name = .ok content := by
  obtain ⟨executable, hlookup⟩ := Files.content?_eq_some_iff.mp hcontent
  rw [imageFile, hlookup]

theorem imageFile_of_none {files : Files} {name : String} (hnone : files.content? name = none) :
    ∃ f, imageFile files name = .error f := by
  unfold imageFile
  split
  · next content executable hlookup =>
    rw [Files.content?_eq_some_iff.mpr ⟨executable, hlookup⟩] at hnone
    cases hnone
  all_goals exact ⟨_, rfl⟩

end Board

namespace System

variable {δ : Type} {s : System δ} {image : String}

theorem loadFile_of_fits {a : Word} {content : ByteArray}
    (hcontent : s.board.monitor.files.content? image = some content)
    (hfits : Ram.offset a + content.size ≤ Ram.size) :
    ∃ s', s.loadFile image a = (.ok (), s') ∧ s'.board.cpu = s.board.cpu ∧
      s'.board.ram = s.board.ram.place (Ram.offset a) content ∧
      s'.board.monitor.files = s.board.monitor.files := by
  have hfile := Board.imageFile_of_content hcontent
  have hload := Ram.load_of_fits s.board.ram hfits
  simp only [loadFile, report, Board.loadFile, Monitor.report, hfile, Board.load, hload]
  exact ⟨_, rfl, rfl, rfl, rfl⟩

theorem loadFile_fails {a : Word}
    (hunfit : ∀ content, s.board.monitor.files.content? image = some content →
      content.size ≠ 0 ∧ Ram.size < Ram.offset a + content.size) :
    ∃ f, (s.loadFile image a).1 = .error (.fault f) := by
  simp only [loadFile, report, Board.loadFile, Monitor.report]
  cases hcontent : s.board.monitor.files.content? image with
  | none =>
    obtain ⟨f, hfile⟩ := Board.imageFile_of_none hcontent
    simp only [hfile]
    exact ⟨f, rfl⟩
  | some content =>
    obtain ⟨hnonempty, hexceeds⟩ := hunfit content hcontent
    have hfile := Board.imageFile_of_content hcontent
    have hload := Ram.load_of_exceeds s.board.ram hexceeds hnonempty
    simp only [hfile, Board.load, hload]
    exact ⟨_, rfl⟩

/-! ## Traces -/

theorem enableTracing_of_target {name : String} {p : Path}
    (htarget : s.board.monitor.files.target name = .ok p) (limit : Nat) :
    ∃ s', s.enableTracing name limit = (.ok (), s') ∧ s'.board.cpu = s.board.cpu ∧
      s'.board.ram = s.board.ram := by
  have hcreate : ∃ opened, Tracer.create s.board.monitor.files name = .ok opened := by
    simp only [Tracer.create, Output.create, htarget]
    exact ⟨_, rfl⟩
  obtain ⟨⟨tracer, files⟩, hcreate⟩ := hcreate
  simp only [enableTracing, report, Monitor.report, hcreate]
  exact ⟨_, rfl, rfl, rfl⟩

theorem enableTracing_fails {name : String} {e : HostError}
    (htarget : s.board.monitor.files.target name = .error e) (limit : Nat) :
    ∃ s', s.enableTracing name limit = (.error (.ofHost e), s') := by
  have hcreate : Tracer.create s.board.monitor.files name = .error (.ofHost e) := by
    simp only [Tracer.create, Output.create, htarget]
    rfl
  simp only [enableTracing, report, Monitor.report, hcreate]
  exact ⟨_, rfl⟩

/-! ## Runs -/

/-- A run can be set up: there is an image with this content, it fits, and the file of the trace
can be opened, if there is to be one. -/
structure Startable (files : Files) (c : RunConfig) (image : String) (content : ByteArray) :
    Prop where
  image : files.content? image = some content
  fits : Ram.offset c.loadAddress + content.size ≤ Ram.size
  trace : ∀ path, c.tracePath = some path → ∃ p, files.target path = .ok p

variable {c : RunConfig}

theorem prepare_of_startable {content : ByteArray}
    (hstartable : Startable s.board.monitor.files c image content) :
    ∃ s', s.prepare c image = (.ok (), s') ∧ s'.board.cpu = s.board.cpu.setPc c.entry ∧
      s'.board.ram = s.board.ram.place (Ram.offset c.loadAddress) content := by
  obtain ⟨hcontent, hfits, htrace⟩ := hstartable
  obtain ⟨t, hload, hcpu, hram, hfiles⟩ := loadFile_of_fits hcontent hfits
  simp only [prepare, hload]
  rw [← hcpu, ← hram]
  cases hpath : c.tracePath with
  | none => exact ⟨_, rfl, rfl, rfl⟩
  | some path =>
    obtain ⟨p, htarget⟩ := htrace path hpath
    rw [← hfiles] at htarget
    let t' : System δ := { t with board.cpu := t.board.cpu.setPc c.entry }
    obtain ⟨u, hopened, hsame⟩ := enableTracing_of_target (s := t') htarget c.traceLimit
    simp only [t'] at hopened
    simp only [hopened]
    exact ⟨u, rfl, hsame⟩

theorem prepare_fails_of_load {e : Failure}
    (hfails : (s.loadFile image c.loadAddress).1 = .error e) :
    (s.prepare c image).1 = .error e := by
  obtain ⟨t, hload⟩ : ∃ t, s.loadFile image c.loadAddress = (.error e, t) :=
    ⟨_, Prod.ext hfails rfl⟩
  simp only [prepare, hload]

theorem prepare_fails_of_target {content : ByteArray} {path : String} {e : HostError}
    (hcontent : s.board.monitor.files.content? image = some content)
    (hfits : Ram.offset c.loadAddress + content.size ≤ Ram.size)
    (hpath : c.tracePath = some path)
    (htarget : s.board.monitor.files.target path = .error e) :
    (s.prepare c image).1 = .error (.fault (.ofHost e)) := by
  obtain ⟨t, hload, -, -, hfiles⟩ := loadFile_of_fits hcontent hfits
  rw [← hfiles] at htarget
  let t' : System δ := { t with board.cpu := t.board.cpu.setPc c.entry }
  obtain ⟨u, hrefused⟩ := enableTracing_fails (s := t') htarget c.traceLimit
  simp only [t'] at hrefused
  simp only [prepare, hload, hpath, hrefused]

/-- An image with something in it never brings the program down. -/
theorem prepare_fails
    (hnonempty : ∀ content, s.board.monitor.files.content? image = some content →
      content.size ≠ 0)
    (hunready : ∀ content, ¬ Startable s.board.monitor.files c image content) :
    ∃ f, (s.prepare c image).1 = .error (.fault f) := by
  by_cases hplaced : ∃ content, s.board.monitor.files.content? image = some content ∧
      Ram.offset c.loadAddress + content.size ≤ Ram.size
  · -- Only the trace is left that can stand in the way.
    obtain ⟨content, hcontent, hfits⟩ := hplaced
    have htrace : ¬ ∀ path, c.tracePath = some path →
        ∃ p, s.board.monitor.files.target path = .ok p :=
      fun htrace => hunready content ⟨hcontent, hfits, htrace⟩
    push Not at htrace
    obtain ⟨path, hpath, htarget⟩ := htrace
    cases hopen : s.board.monitor.files.target path with
    | ok p => exact absurd hopen (htarget p)
    | error e => exact ⟨_, prepare_fails_of_target hcontent hfits hpath hopen⟩
  · have hexceeds (content : ByteArray)
        (hcontent : s.board.monitor.files.content? image = some content) :
        Ram.size < Ram.offset c.loadAddress + content.size := by
      apply Nat.lt_of_not_le
      intro hfits
      exact hplaced ⟨content, hcontent, hfits⟩
    obtain ⟨f, hfails⟩ := loadFile_fails fun content hcontent =>
      ⟨hnonempty content hcontent, hexceeds content hcontent⟩
    exact ⟨f, prepare_fails_of_load hfails⟩

end System

end Mips
