import Mips.Board
import Mips.Proofs.Memory.Bytes
import Mips.Proofs.Session
/-!
# Flat memory

Main memory as everybody sees it who reads and writes it: a table from physical offsets to bytes.
`FlatMemory.serve` says what each request to it does; `Board.serves_flat_memory` says that a board
answers every list of requests as the table does.
-/

namespace Mips

inductive MemoryRequest where
  | read8 (a : Word)
  | read32 (a : Word)
  | write8 (a : Word) (b : Byte)
  | write32 (a w : Word)
  | load (a : Word) (image : ByteArray)
  | loadFile (name : String) (a : Word)
  | clear

inductive MemoryReply where
  | done
  | byte (b : Byte)
  | word (w : Word)
  | failed (e : Failure)
  deriving DecidableEq, Repr

namespace MemoryReply

def ofAccess {α : Type} (reply : α → MemoryReply) : Except Fault α → MemoryReply
  | .ok v => reply v
  | .error f => failed (.fault f)

def ofLoad : Except Failure Unit → MemoryReply
  | .ok () => done
  | .error e => failed e

end MemoryReply

def Board.serve (b : Board) : MemoryRequest → MemoryReply × Board
  | .read8 a => (.ofAccess .byte (b.read8 a), b)
  | .read32 a => (.ofAccess .word (b.read32 a), b)
  | .write8 a v => ((b.write8 a v).map (.ofAccess fun _ => .done) id)
  | .write32 a w => ((b.write32 a w).map (.ofAccess fun _ => .done) id)
  | .load a image => (b.load a image).map .ofLoad id
  | .loadFile name a => (b.loadFile name a).map .ofLoad id
  | .clear => (.done, b.clearMemory)

/-! ## The table -/

/-- A table of bytes by their physical offsets.  Those from `Ram.size` on are never looked at. -/
abbrev FlatMemory := Nat → Byte

namespace FlatMemory

def blank : FlatMemory := fun _ => 0

/-- The number that four bytes write down, the most significant one first. -/
def word (m : FlatMemory) (i : Nat) : Word :=
  .ofNat 32 ((m i).toNat * 2 ^ 24 + (m (i + 1)).toNat * 2 ^ 16 + (m (i + 2)).toNat * 2 ^ 8 +
    (m (i + 3)).toNat)

/-- The four bytes that write down a number. -/
def digits (w : Word) : List Byte :=
  [.ofNat 8 (w.toNat / 2 ^ 24), .ofNat 8 (w.toNat / 2 ^ 16), .ofNat 8 (w.toNat / 2 ^ 8),
    .ofNat 8 w.toNat]

def contents (image : ByteArray) : List Byte := image.data.toList.map UInt8.toBitVec

def overwrite (m : FlatMemory) (start : Nat) (bytes : List Byte) : FlatMemory := fun i =>
  if start ≤ i ∧ i < start + bytes.length then bytes.getD (i - start) 0 else m i

/-- An access to `n` bytes, which does nothing if it is refused. -/
def access (m : FlatMemory) (n : Nat) (a : Word) (granted : Nat → MemoryReply × FlatMemory) :
    MemoryReply × FlatMemory :=
  match Ram.refusal? n a with
  | some f => (.failed (.fault f), m)
  | none => granted (Ram.offset a)

/-- An image is loaded if there is room for it.  An empty one beyond the end of memory has no place
at all. -/
def load (m : FlatMemory) (a : Word) (image : ByteArray) : MemoryReply × FlatMemory :=
  let start := Ram.offset a
  if Ram.size - start < image.size then
    (.failed (.fault (.imageTooLarge image.size (Ram.size - start))), m)
  else if Ram.size < start then (.failed .crash, m)
  else (.done, m.overwrite start (contents image))

def serve (files : Files) (m : FlatMemory) : MemoryRequest → MemoryReply × FlatMemory
  | .read8 a => m.access 1 a fun i => (.byte (m i), m)
  | .read32 a => m.access 4 a fun i => (.word (m.word i), m)
  | .write8 a b => m.access 1 a fun i => (.done, m.overwrite i [b])
  | .write32 a w => m.access 4 a fun i => (.done, m.overwrite i (digits w))
  | .load a image => m.load a image
  | .loadFile name a =>
    match Board.imageFile files name with
    | .ok image => m.load a image
    | .error f => (.failed (.fault f), m)
  | .clear => (.done, blank)

theorem access_eq (m : FlatMemory) (n : Nat) (a : Word)
    (granted : Nat → MemoryReply × FlatMemory) :
    m.access n a granted = match Ram.located n a with
      | .error f => (.failed (.fault f), m)
      | .ok i => granted i := by
  unfold access Ram.located
  cases Ram.refusal? n a <;> rfl

theorem length_contents (image : ByteArray) : (contents image).length = image.size := by
  rw [contents, List.length_map, Array.length_toList, ByteArray.size_data]

theorem contents_getD (image : ByteArray) {k : Nat} (hk : k < image.size) :
    (contents image).getD k 0 = image[k].toBitVec := by
  have hlength : k < (contents image).length := by rwa [length_contents]
  rw [List.getD_eq_getElem?_getD, List.getElem?_eq_getElem hlength, Option.getD_some]
  simp only [contents, List.getElem_map, Array.getElem_toList]
  rfl

end FlatMemory

/-! ## Correspondence -/

namespace Ram

/-- The table has the bytes of main memory. -/
def Holds (r : Ram) (m : FlatMemory) : Prop := ∀ i < size, r.byteAt i = m i

theorem holds_blank : blank.Holds .blank := fun i _ => byteAt_blank i

theorem Holds.unique {r r' : Ram} {m : FlatMemory} (hholds : r.Holds m) (hholds' : r'.Holds m) :
    r = r' :=
  eq_of_byteAt fun i hi => (hholds i hi).trans (hholds' i hi).symm

theorem wordAt_eq_word {r : Ram} {m : FlatMemory} (hholds : r.Holds m) {i : Nat}
    (hi : i + 4 ≤ size) : r.wordAt i = m.word i := by
  rw [wordAt, FlatMemory.word, Word.ofBytes_eq_ofNat, hholds i (by omega),
    hholds (i + 1) (by omega), hholds (i + 2) (by omega), hholds (i + 3) (by omega)]

theorem Holds.setByte {r : Ram} {m : FlatMemory} (hholds : r.Holds m) (b : Byte) {i : Nat}
    (hi : i < size) : (r.setByte i b).Holds (m.overwrite i [b]) := by
  intro j hj
  rw [byteAt_setByte r b hi hj, FlatMemory.overwrite, List.length_singleton]
  by_cases hij : i = j
  · rw [if_pos hij, if_pos (by omega), hij, Nat.sub_self]
    rfl
  · rw [if_neg hij, if_neg (by omega)]
    exact hholds j hj

theorem byte_eq_digit (w : Word) {k : Nat} (hk : k < 4) :
    w.byte k = (FlatMemory.digits w).getD k 0 := by
  have hfour : k = 0 ∨ k = 1 ∨ k = 2 ∨ k = 3 := by omega
  rw [Word.byte_eq_ofNat]
  rcases hfour with rfl | rfl | rfl | rfl
  · rfl
  · rfl
  · rfl
  · rw [Nat.sub_self, Nat.pow_zero, Nat.div_one]
    rfl

theorem Holds.setWord {r : Ram} {m : FlatMemory} (hholds : r.Holds m) (w : Word) {i : Nat}
    (haligned : i % 4 = 0) (hi : i < size) :
    (r.setWord i w).Holds (m.overwrite i (FlatMemory.digits w)) := by
  intro j hj
  have hlength : (FlatMemory.digits w).length = 4 := rfl
  rw [byteAt_setWord r w haligned hi hj, FlatMemory.overwrite, hlength]
  split
  · next hij => exact byte_eq_digit w (by omega)
  · exact hholds j hj

theorem Holds.place {r : Ram} {m : FlatMemory} (hholds : r.Holds m) (start : Nat)
    (image : ByteArray) :
    (r.place start image).Holds (m.overwrite start (FlatMemory.contents image)) := by
  intro j hj
  rw [byteAt_place r start image hj, FlatMemory.overwrite, FlatMemory.length_contents]
  split
  · next hj' =>
    have hin : j - start < image.size := by omega
    rw [placed, if_pos hj'.1, getElem?_pos image (j - start) hin]
    exact (FlatMemory.contents_getD image hin).symm
  · next hj' =>
    rw [placed_of_outside _ _ hj']
    exact hholds j hj

end Ram

namespace Board

/-- The board answers as the table does, goes on to hold what the table holds, and leaves the files
alone. -/
structure Mirrors (files : Files) (b : MemoryReply × Board) (m : MemoryReply × FlatMemory) :
    Prop where
  reply : b.1 = m.1
  holds : b.2.ram.Holds m.2
  files : b.2.monitor.files = files

variable {b : Board} {m : FlatMemory}

theorem Mirrors.failed (hholds : b.ram.Holds m) (e : Failure) :
    Mirrors b.monitor.files (.failed e, b) (.failed e, m) :=
  ⟨rfl, hholds, rfl⟩

theorem mirrors_write8 (hholds : b.ram.Holds m) (a : Word) (v : Byte) :
    Mirrors b.monitor.files (b.serve (.write8 a v))
      (FlatMemory.serve b.monitor.files m (.write8 a v)) := by
  have hwrite : b.ram.write8 a v = (Ram.located 1 a).map (b.ram.setByte · v) := by
    rw [Ram.write8, Ram.byteOffset_eq]
  rw [FlatMemory.serve, FlatMemory.access_eq]
  simp only [serve, Board.write8, hwrite]
  cases hlocated : Ram.located 1 a with
  | error f => exact .failed hholds _
  | ok i =>
    obtain ⟨-, -, hfits⟩ := Ram.located_ok hlocated
    exact ⟨rfl, hholds.setByte v hfits, rfl⟩

theorem mirrors_write32 (hholds : b.ram.Holds m) (a w : Word) :
    Mirrors b.monitor.files (b.serve (.write32 a w))
      (FlatMemory.serve b.monitor.files m (.write32 a w)) := by
  have hwrite : b.ram.write32 a w = (Ram.located 4 a).map (b.ram.setWord · w) := by
    rw [Ram.write32, Ram.wordOffset_eq]
  rw [FlatMemory.serve, FlatMemory.access_eq]
  simp only [serve, Board.write32, hwrite]
  cases hlocated : Ram.located 4 a with
  | error f => exact .failed hholds _
  | ok i =>
    obtain ⟨rfl, haligned, hfits⟩ := Ram.located_ok hlocated
    have hi : Ram.offset a < Ram.size := by omega
    exact ⟨rfl, hholds.setWord w (Ram.offset_mod_four haligned) hi, rfl⟩

theorem mirrors_load (hholds : b.ram.Holds m) (a : Word) (image : ByteArray) :
    Mirrors b.monitor.files (b.serve (.load a image)) (m.load a image) := by
  simp only [serve, Board.load, Ram.load, FlatMemory.load]
  by_cases hlarge : Ram.size - Ram.offset a < image.size
  · rw [if_pos hlarge, if_pos hlarge]
    exact .failed hholds _
  · rw [if_neg hlarge, if_neg hlarge]
    by_cases hbeyond : Ram.size < Ram.offset a
    · rw [if_pos hbeyond, if_pos hbeyond]
      exact .failed hholds _
    · rw [if_neg hbeyond, if_neg hbeyond]
      exact ⟨rfl, hholds.place _ image, rfl⟩

/-- One request. -/
theorem mirrors_serve (hholds : b.ram.Holds m) (r : MemoryRequest) :
    Mirrors b.monitor.files (b.serve r) (FlatMemory.serve b.monitor.files m r) := by
  cases r with
  | read8 a =>
    rw [FlatMemory.serve, FlatMemory.access_eq]
    simp only [serve, Board.read8, Ram.read8_eq]
    cases hlocated : Ram.located 1 a with
    | error f => exact .failed hholds _
    | ok i =>
      obtain ⟨-, -, hfits⟩ := Ram.located_ok hlocated
      exact ⟨congrArg MemoryReply.byte (hholds i hfits), hholds, rfl⟩
  | read32 a =>
    rw [FlatMemory.serve, FlatMemory.access_eq]
    simp only [serve, Board.read32, Ram.read32_eq]
    cases hlocated : Ram.located 4 a with
    | error f => exact .failed hholds _
    | ok i =>
      obtain ⟨-, -, hfits⟩ := Ram.located_ok hlocated
      exact ⟨congrArg MemoryReply.word (Ram.wordAt_eq_word hholds hfits), hholds, rfl⟩
  | write8 a v => exact mirrors_write8 hholds a v
  | write32 a w => exact mirrors_write32 hholds a w
  | load a image => exact mirrors_load hholds a image
  | loadFile name a =>
    simp only [serve, Board.loadFile, FlatMemory.serve]
    cases imageFile b.monitor.files name with
    | error f => exact .failed hholds _
    | ok image => exact mirrors_load hholds a image
  | clear => exact ⟨rfl, Ram.holds_blank, rfl⟩

/-- From cleared memory on, a board answers every list of requests as a flat table of bytes does,
and then has the bytes of the table. -/
theorem serves_flat_memory (b : Board) (requests : List MemoryRequest) :
    let serve := FlatMemory.serve b.monitor.files
    Session.answers Board.serve b.clearMemory requests = Session.answers serve .blank requests ∧
      (Session.final Board.serve b.clearMemory requests).ram.Holds
        (Session.final serve .blank requests) := by
  intro serve
  let Related (c : Board) (m : FlatMemory) := c.ram.Holds m ∧ c.monitor.files = b.monitor.files
  have hstep (c : Board) (m : FlatMemory) (r : MemoryRequest) (hrelated : Related c m) :
      (c.serve r).1 = (serve m r).1 ∧ Related (c.serve r).2 (serve m r).2 := by
    obtain ⟨hholds, hfiles⟩ := hrelated
    have hmirrors := mirrors_serve hholds r
    rw [hfiles] at hmirrors
    exact ⟨hmirrors.reply, hmirrors.holds, hmirrors.files⟩
  have hstart : Related b.clearMemory .blank := ⟨Ram.holds_blank, rfl⟩
  obtain ⟨hanswers, hholds, -⟩ := Session.answers_eq_of_related hstep hstart requests
  exact ⟨hanswers, hholds⟩

end Board

end Mips
