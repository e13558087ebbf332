import Mips.Proofs.System.Start
/-!
# How setting up a run ends

Whoever loads an image is told if there is none or no room for it, and whoever sets up a run also
if its trace cannot be written.  Nothing else keeps a run from being set up, with one exception: an
empty image, for which there is room everywhere, has no place beyond the end of memory, and there
it brings the program down.
-/

namespace Mips

/-! ## Memory -/

namespace Ram

theorem load_of_beyond (r : Ram) {a : Word} {image : ByteArray} (hempty : image.size = 0)
    (hbeyond : size < offset a) : r.load a image = .error .crash := by
  have hroom : ¬ size - offset a < image.size := by omega
  simp only [load, if_neg hroom, if_pos hbeyond]

end Ram

/-! ## Boards -/

namespace Board

/-- What comes of loading an image.  The conditions of the three cases exclude each other. -/
inductive LoadEnds (b : Board) (a : Word) (image : ByteArray) :
    Except Failure Unit × Board → Prop where
  | loaded {b' : Board} : Ram.offset a + image.size ≤ Ram.size → b'.cpu = b.cpu →
      b'.ram.Holds (FlatMemory.overwrite b.ram.byteAt (Ram.offset a)
        (FlatMemory.contents image)) →
      b'.monitor.files = b.monitor.files → LoadEnds b a image (.ok (), b')
  | refused : Ram.size - Ram.offset a < image.size →
      LoadEnds b a image
        (.error (.fault (.imageTooLarge image.size (Ram.size - Ram.offset a))), b)
  | crashed : image.size = 0 → Ram.size < Ram.offset a → LoadEnds b a image (.error .crash, b)

inductive FileEnds (b : Board) (name : String) (a : Word) :
    Except Failure Unit × Board → Prop where
  | missing : b.monitor.files.lookup name = none →
      FileEnds b name a (.error (.fault (.imageNotFound name)), b)
  /-- The name leads to something, but not to a file. -/
  | unreadable {node : Node} : b.monitor.files.lookup name = some node →
      b.monitor.files.content? name = none →
      FileEnds b name a (.error (.fault (.ofHost .isDirectory)), b)
  | found {content : ByteArray} {ended : Except Failure Unit × Board} :
      b.monitor.files.content? name = some content → LoadEnds b a content ended →
      FileEnds b name a ended

variable {b : Board} {a : Word} {image : ByteArray} {name : String}
  {ended : Except Failure Unit × Board}

theorem loadEnds_load (b : Board) (a : Word) (image : ByteArray) :
    b.LoadEnds a image (b.load a image) := by
  by_cases hfits : Ram.offset a + image.size ≤ Ram.size
  · have hholds : b.ram.Holds b.ram.byteAt := fun _ _ => rfl
    have hload := b.ram.load_of_fits hfits
    rw [load, hload]
    exact .loaded hfits rfl (hholds.place _ image) rfl
  · by_cases hempty : image.size = 0
    · have hbeyond : Ram.size < Ram.offset a := by omega
      rw [load, b.ram.load_of_beyond hempty hbeyond]
      exact .crashed hempty hbeyond
    · have hexceeds : Ram.size < Ram.offset a + image.size := by omega
      rw [load, b.ram.load_of_exceeds hexceeds hempty]
      exact .refused (by omega)

theorem fileEnds_loadFile (b : Board) (name : String) (a : Word) :
    b.FileEnds name a (b.loadFile name a) := by
  cases hcontent : b.monitor.files.content? name with
  | some content =>
    rw [loadFile, imageFile_of_content hcontent]
    exact .found hcontent (b.loadEnds_load a content)
  | none =>
    cases hlookup : b.monitor.files.lookup name with
    | none =>
      simp only [loadFile, imageFile, hlookup]
      exact .missing hlookup
    | some node =>
      have hended : b.loadFile name a = (.error (.fault (.ofHost .isDirectory)), b) := by
        cases node with
        | file content executable =>
          rw [Files.content?, hlookup] at hcontent
          cases hcontent
        | directory => simp only [loadFile, imageFile, hlookup]
        | fullDevice => simp only [loadFile, imageFile, hlookup]
      rw [hended]
      exact .unreadable hlookup hcontent

theorem loadEnds_loadProgram (b : Board) (a : Word) (program : List Word) :
    b.LoadEnds a (Ram.image program) (b.loadProgram a program) :=
  b.loadEnds_load a (Ram.image program)

end Board

/-! ## Systems -/

namespace System

/-- What comes of setting up a run from a file, where the conditions of the cases exclude each
other, and the system that is left. -/
inductive PrepareEnds {δ : Type} (files : Files) (c : RunConfig) (image : String) :
    Except Failure Unit → System δ → Prop where
  | missing {s : System δ} : files.lookup image = none →
      PrepareEnds files c image (.error (.fault (.imageNotFound image))) s
  | unreadable {node : Node} {s : System δ} : files.lookup image = some node →
      files.content? image = none →
      PrepareEnds files c image (.error (.fault (.ofHost .isDirectory))) s
  | refused {content : ByteArray} {s : System δ} : files.content? image = some content →
      Ram.size - Ram.offset c.loadAddress < content.size →
      PrepareEnds files c image (.error (.fault
        (.imageTooLarge content.size (Ram.size - Ram.offset c.loadAddress)))) s
  | crashed {content : ByteArray} {s : System δ} : files.content? image = some content →
      content.size = 0 → Ram.size < Ram.offset c.loadAddress →
      PrepareEnds files c image (.error .crash) s
  | untraced {content : ByteArray} {path : String} {e : HostError} {s : System δ} :
      files.content? image = some content →
      Ram.offset c.loadAddress + content.size ≤ Ram.size → c.tracePath = some path →
      files.target path = .error e → PrepareEnds files c image (.error (.fault (.ofHost e))) s
  | ready {content : ByteArray} {s : System δ} : Startable files c image content →
      s.board.cpu = { Cpu.reset with pc := c.entry } →
      s.board.ram.Holds (FlatMemory.blank.overwrite (Ram.offset c.loadAddress)
        (FlatMemory.contents content)) →
      PrepareEnds files c image (.ok ()) s

variable {files : Files} {c : RunConfig} {image : String} {result : Except Failure Unit}
  {δ : Type} {s : System δ}

/-- The image has found its place, so that only the trace can stand in the way. -/
theorem prepareEnds_of_fits {content : ByteArray} (s : System δ)
    (hcontent : s.board.monitor.files.content? image = some content)
    (hfits : Ram.offset c.loadAddress + content.size ≤ Ram.size) :
    PrepareEnds s.board.monitor.files c image (s.fresh.prepare c image).1
      (s.fresh.prepare c image).2 := by
  by_cases htrace : ∀ path, c.tracePath = some path →
      ∃ p, s.board.monitor.files.target path = .ok p
  · have hstartable : Startable s.board.monitor.files c image content :=
      ⟨hcontent, hfits, htrace⟩
    obtain ⟨s', hprepare, hcpu, hram⟩ := prepare_of_startable (s := s.fresh) hstartable
    rw [hprepare]
    refine .ready hstartable hcpu ?_
    rw [hram]
    exact Ram.holds_blank.place _ content
  · push Not at htrace
    obtain ⟨path, hpath, htarget⟩ := htrace
    cases hopen : s.board.monitor.files.target path with
    | ok p => exact absurd hopen (htarget p)
    | error e =>
      rw [prepare_fails_of_target (s := s.fresh) hcontent hfits hpath hopen]
      exact .untraced hcontent hfits hpath hopen

theorem prepareEnds_prepare (s : System δ) (c : RunConfig) (image : String) :
    PrepareEnds s.board.monitor.files c image (s.fresh.prepare c image).1
      (s.fresh.prepare c image).2 := by
  have hends : Board.FileEnds _ image c.loadAddress _ :=
    Board.fileEnds_loadFile (s.fresh.report .system .info
      fun _ => "Loading image from: " ++ image).board image c.loadAddress
  have hfails {e : Failure} (h : (s.fresh.loadFile image c.loadAddress).1 = .error e) :
      (s.fresh.prepare c image).1 = .error e := prepare_fails_of_load h
  cases hended : Board.loadFile (s.fresh.report .system .info
      fun _ => "Loading image from: " ++ image).board image c.loadAddress with
  | mk loaded b =>
    rw [hended] at hends
    have hresult : (s.fresh.loadFile image c.loadAddress).1 = loaded := congrArg Prod.fst hended
    cases hends with
    | missing hlookup =>
      rw [hfails hresult]
      exact .missing hlookup
    | unreadable hlookup hcontent =>
      rw [hfails hresult]
      exact .unreadable hlookup hcontent
    | found hcontent hloaded =>
      cases hloaded with
      | loaded hfits => exact prepareEnds_of_fits s hcontent hfits
      | refused hlarge =>
        rw [hfails hresult]
        exact .refused hcontent hlarge
      | crashed hempty hbeyond =>
        rw [hfails hresult]
        exact .crashed hcontent hempty hbeyond

theorem PrepareEnds.crash_iff (hends : PrepareEnds files c image result s) :
    result = .error .crash ↔ ∃ content, files.content? image = some content ∧
      content.size = 0 ∧ Ram.size < Ram.offset c.loadAddress := by
  constructor
  · rintro rfl
    cases hends with
    | crashed hcontent hempty hbeyond => exact ⟨_, hcontent, hempty, hbeyond⟩
  · rintro ⟨content, hcontent, hempty, hbeyond⟩
    cases hends with
    | missing hlookup => simp [Files.content?, hlookup] at hcontent
    | unreadable _ hnone => simp [hnone] at hcontent
    | refused hcontent' hlarge =>
      cases hcontent.symm.trans hcontent'
      omega
    | crashed => rfl
    | untraced hcontent' hfits => omega
    | ready hstartable =>
      have hfits := hstartable.fits
      omega

theorem PrepareEnds.tooLarge_iff (hends : PrepareEnds files c image result s) (n capacity : Nat) :
    result = .error (.fault (.imageTooLarge n capacity)) ↔
      ∃ content, files.content? image = some content ∧ n = content.size ∧
        capacity = Ram.size - Ram.offset c.loadAddress ∧ capacity < n := by
  constructor
  · intro hresult
    cases hends with
    | refused hcontent hlarge =>
      cases hresult
      exact ⟨_, hcontent, rfl, rfl, hlarge⟩
    | _ => simp [Fault.ofHost] at hresult
  · rintro ⟨content, hcontent, rfl, rfl, hlarge⟩
    cases hends with
    | missing hlookup => simp [Files.content?, hlookup] at hcontent
    | unreadable _ hnone => simp [hnone] at hcontent
    | refused hcontent' _ =>
      cases hcontent.symm.trans hcontent'
      rfl
    | crashed hcontent' hempty =>
      cases hcontent.symm.trans hcontent'
      omega
    | untraced hcontent' hfits =>
      cases hcontent.symm.trans hcontent'
      omega
    | ready hstartable =>
      have hfits := hstartable.fits
      cases hcontent.symm.trans hstartable.image
      omega

/-- Setting up a run, and every way to load an image on which it rests, ends well or with the fault
that says what is missing: the image, room for it or a file for the trace.  The program crashes for
an empty image that is loaded beyond the end of memory, and never else. -/
theorem starting_ends {δ : Type} (s : System δ) (c : RunConfig) (image : String) :
    let files := s.board.monitor.files
    let started := s.fresh.prepare c image
    PrepareEnds files c image started.1 started.2 ∧
    (∀ n capacity, started.1 = .error (.fault (.imageTooLarge n capacity)) ↔
      ∃ content, files.content? image = some content ∧ n = content.size ∧
        capacity = Ram.size - Ram.offset c.loadAddress ∧ capacity < n) ∧
    (started.1 = .error .crash ↔ ∃ content, files.content? image = some content ∧
      content.size = 0 ∧ Ram.size < Ram.offset c.loadAddress) ∧
    ∀ (b : Board) (a : Word), (∀ name, b.FileEnds name a (b.loadFile name a)) ∧
      (∀ bytes, b.LoadEnds a bytes (b.load a bytes)) ∧
      ∀ program, b.LoadEnds a (Ram.image program) (b.loadProgram a program) := by
  intro files started
  have hends : PrepareEnds files c image started.1 started.2 := prepareEnds_prepare s c image
  refine ⟨hends, hends.tooLarge_iff, hends.crash_iff, fun b a => ⟨?_, ?_, ?_⟩⟩
  · exact fun name => b.fileEnds_loadFile name a
  · exact b.loadEnds_load a
  · exact b.loadEnds_loadProgram a

/-- An empty image is not too large for the room that is left beyond the end of memory, and there
is no trace to be written, but setting up the run brings the program down. -/
theorem emptyImage_crashes :
    let files : Files := ⟨[(["i"], .file .empty false)]⟩
    let s : System := { board := { monitor := { files } } }
    let c : RunConfig := { loadAddress := 0x800001 }
    files.content? "i" = some .empty ∧ c.tracePath = none ∧
      ByteArray.empty.size ≤ Ram.size - Ram.offset c.loadAddress ∧
      (s.fresh.prepare c "i").1 = .error .crash := by
  intro files s c
  have hcontent : files.content? "i" = some .empty := by
    rw [Files.IsPart.content?_eq (by decide)]
    rfl
  have hends : PrepareEnds files c "i" _ _ := prepareEnds_prepare s c "i"
  have hcrash := hends.crash_iff.mpr ⟨.empty, hcontent, rfl, by decide⟩
  exact ⟨hcontent, rfl, by decide, hcrash⟩

end System

end Mips
