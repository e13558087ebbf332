import Mips.Host.Output
import Mips.Proofs.Host.Files
/-!
# Output that is taken

An output to a file with room takes all text.  What was written is the content of the file followed
by the text that is still in the buffer, and the whole of it is in the file after a flush.
-/

namespace Mips

namespace Files

variable {files : Files} {p : Path} {content : ByteArray} {executable : Bool}

theorem splice_at_end (content bytes : ByteArray) :
    splice content content.size bytes = content ++ bytes := by
  have hend : content.extract (content.size + bytes.size) content.size = .empty := by
    rw [ByteArray.extract_eq_empty_iff]
    omega
  simp [splice, hend]

theorem node?_writeAt_end (hfile : files.node? p = some (.file content executable))
    (bytes : ByteArray) :
    (files.writeAt p content.size bytes).node? p =
      some (.file (content ++ bytes) executable) := by
  have hwritable : files.Writable p := .inr ⟨content, executable, hfile⟩
  rw [writeAt, modify, hfile]
  dsimp only
  rw [splice_at_end, hwritable.node?_put]

theorem Writable.node?_write (hwritable : files.Writable p) (content : ByteArray) :
    ∃ executable, (files.write p content).node? p = some (.file content executable) := by
  obtain hnone | ⟨old, executable, hfile⟩ := id hwritable
  · refine ⟨false, ?_⟩
    rw [write, modify, hnone]
    exact hwritable.node?_put _
  · refine ⟨executable, ?_⟩
    rw [write, modify, hfile]
    exact hwritable.node?_put _

theorem isDirectory_of_target {name : String} (htarget : files.target name = .ok p) :
    files.isDirectory p = false := by
  have hplace := place_of_target htarget
  rw [target, hplace] at htarget
  dsimp only at htarget
  cases hdirectory : files.isDirectory p with
  | true =>
    rw [hdirectory] at htarget
    cases htarget
  | false => rfl

end Files

namespace Output

/-- The file has room, and has got what was written up to what is still in the buffer. -/
structure Holds (o : Output) (files : Files) (written : String) : Prop where
  room : o.full = false
  file : ∃ content executable, files.node? o.path = some (.file content executable) ∧
    o.position = content.size ∧ written.toUTF8 = content ++ o.pending.toUTF8

variable {o : Output} {files : Files} {written : String}

theorem Holds.node? (hholds : o.Holds files written) (hempty : o.pending = "") :
    ∃ executable, files.node? o.path = some (.file written.toUTF8 executable) := by
  obtain ⟨-, content, executable, hfile, -, hwritten⟩ := hholds
  have hall : written.toUTF8 = content := by
    rw [hwritten, hempty]
    simp
  exact ⟨executable, hall ▸ hfile⟩

/-- Text that finds the buffer empty may stay there. -/
theorem Holds.buffer (hholds : o.Holds files written) (hempty : o.pending = "") (text : String) :
    Holds { o with pending := text } files (written ++ text) where
  room := hholds.room
  file := by
    obtain ⟨-, content, executable, hfile, hposition, hwritten⟩ := hholds
    rw [hempty] at hwritten
    have hall : written.toByteArray = content := by simpa using hwritten
    exact ⟨content, executable, hfile, hposition, by simp [hall]⟩

theorem Holds.hand (hholds : o.Holds files written) :
    Holds { (o.hand files o.pending).1 with pending := "" } (o.hand files o.pending).2 written where
  room := hholds.room
  file := by
    obtain ⟨-, content, executable, hfile, hposition, hwritten⟩ := hholds
    refine ⟨content ++ o.pending.toUTF8, executable, ?_, ?_, ?_⟩
    · rw [Output.hand, hposition]
      exact Files.node?_writeAt_end hfile _
    · rw [ByteArray.size_append, ← hposition]
      rfl
    · rw [hwritten]
      simp

theorem Holds.flush (hholds : o.Holds files written) :
    ∃ o' files', o.flush files = (true, o', files') ∧ o'.Holds files' written ∧
      o'.pending = "" := by
  unfold Output.flush
  split
  · next hempty => exact ⟨o, files, rfl, hholds, String.isEmpty_iff.mp hempty⟩
  · rw [hholds.room, if_neg Bool.false_ne_true]
    exact ⟨_, _, rfl, hholds.hand, rfl⟩

theorem Holds.write (hholds : o.Holds files written) (text : String) :
    ∃ o' files', o.write files text = (true, o', files') ∧ o'.Holds files' (written ++ text) := by
  unfold Output.write
  split
  · obtain ⟨hroom, content, executable, hfile, hposition, hwritten⟩ := hholds
    refine ⟨_, _, rfl, hroom, content, executable, hfile, hposition, ?_⟩
    simp_all [ByteArray.append_assoc]
  · obtain ⟨o', files', hflush, hflushed, hempty⟩ := hholds.flush
    have hbuffered := hflushed.buffer hempty text
    rw [hflush]
    dsimp only
    split
    · exact ⟨_, _, rfl, hbuffered⟩
    · refine ⟨_, _, rfl, ?_⟩
      have hdirect : (o'.hand files' text).1 =
          { (({ o' with pending := text } : Output).hand files' text).1 with pending := "" } := by
        rw [Output.hand, Output.hand, ← hempty]
      rw [hdirect]
      exact hbuffered.hand

/-- A new output has written nothing. -/
theorem holds_of_create {files files' : Files} {name : String}
    (hcreate : create files name = .ok (o, files')) (hroom : o.full = false) :
    o.Holds files' "" := by
  unfold create at hcreate
  cases htarget : files.target name with
  | error e =>
    rw [htarget] at hcreate
    cases hcreate
  | ok p =>
    rw [htarget] at hcreate
    cases hcreate
    refine ⟨hroom, ?_⟩
    have hopen := Files.isDirectory_of_target htarget
    have hwritable : files.Writable p := by
      rcases hnode : files.node? p with _ | (⟨content, executable⟩ | _ | _)
      · exact .inl hnode
      · exact .inr ⟨content, executable, hnode⟩
      · simp [Files.isDirectory, hnode] at hopen
      · simp [hnode] at hroom
    obtain ⟨executable, hfile⟩ := hwritable.node?_write .empty
    exact ⟨.empty, executable, hfile, rfl, rfl⟩

end Output

end Mips
