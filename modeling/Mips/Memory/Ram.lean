import Mips.Memory.Basic
import Mips.Memory.Trie
/-!
# Main memory

Eight megabytes of memory, seen through a virtual address space in which the three highest address
bits only select a segment: `Ram.offset` drops them, so that each byte shows up in every segment.
The bytes are kept in words; `Ram.byteAt` is the memory as a flat table of bytes.
-/

namespace Mips

structure Ram where
  words : Trie Word 21
  deriving DecidableEq

namespace Ram

def size : Nat := 0x800000

def blank : Ram := ⟨.fill 0 21⟩

def offset (a : Word) : Nat := (a &&& 0x1FFFFFFF).toNat

def byteAt (r : Ram) (i : Nat) : Byte := (r.words.get (i / 4)).byte (i % 4)

def byteOffset (a : Word) : Except Fault Nat :=
  if offset a + 1 ≤ size then .ok (offset a) else .error (.invalidAccess a)

/-- The offset of a word access; a misaligned address is refused whether or not it is in range. -/
def wordOffset (a : Word) : Except Fault Nat :=
  if ¬ a.Aligned then .error (.unaligned a 4)
  else if offset a + 4 ≤ size then .ok (offset a)
  else .error (.invalidAccess a)

def read8 (r : Ram) (a : Word) : Except Fault Byte := (byteOffset a).map r.byteAt

def read32 (r : Ram) (a : Word) : Except Fault Word :=
  (wordOffset a).map fun i => r.words.get (i / 4)

def setByte (r : Ram) (i : Nat) (b : Byte) : Ram :=
  ⟨r.words.modify (fun w => w.setByte (i % 4) b) (i / 4)⟩

def setWord (r : Ram) (i : Nat) (w : Word) : Ram := ⟨r.words.set (i / 4) w⟩

def write8 (r : Ram) (a : Word) (b : Byte) : Except Fault Ram := (byteOffset a).map (r.setByte · b)

def write32 (r : Ram) (a : Word) (w : Word) : Except Fault Ram := (wordOffset a).map (r.setWord · w)

instance : Memory Ram where
  read8 r a := (r.read8 a, r)
  read32 r a := (r.read32 a, r)
  write8 r a b := match r.write8 a b with
    | .ok r' => (.ok (), r')
    | .error f => (.error f, r)
  write32 r a w := match r.write32 a w with
    | .ok r' => (.ok (), r')
    | .error f => (.error f, r)

/-- The byte that an image placed at `start` puts at offset `i`, where `old` was before. -/
def placed (image : ByteArray) (start i : Nat) (old : Byte) : Byte :=
  if start ≤ i then
    match image[i - start]? with
    | some b => b.toBitVec
    | none => old
  else old

def place (r : Ram) (start : Nat) (image : ByteArray) : Ram :=
  let word (k : Nat) (w : Word) : Word :=
    .ofBytes (placed image start (4 * k) (w.byte 0)) (placed image start (4 * k + 1) (w.byte 1))
      (placed image start (4 * k + 2) (w.byte 2)) (placed image start (4 * k + 3) (w.byte 3))
  ⟨r.words.mapRange word (start / 4) ((start + image.size + 3) / 4) 0⟩

/-- Loads an image at a virtual address.  It has to fit between its offset and the end of memory.
An empty image fits everywhere, but there is no place for it beyond the end of memory. -/
def load (r : Ram) (a : Word) (image : ByteArray) : Except Failure Ram :=
  let start := offset a
  let capacity := size - start
  if capacity < image.size then .error (.fault (.imageTooLarge image.size capacity))
  else if size < start then .error .crash
  else .ok (r.place start image)

/-- The image of a program: its words in memory order. -/
def image (program : List Word) : ByteArray :=
  ((program.flatMap Word.bytes).map UInt8.ofBitVec).toByteArray

end Ram

end Mips
