import Mips.Host.Files
/-!
# Buffered output

A file that text is written to through a buffer.  The text reaches the file when the buffer is
flushed or has no room for more.  A device without room refuses what it is given, and then the
text stays in the buffer.
-/

namespace Mips

structure Output where
  path : Path
  /-- Whether the file is the device without room. -/
  full : Bool
  /-- How much of the text has reached the file. -/
  position : Nat := 0
  pending : String := ""
  deriving DecidableEq, Repr

namespace Output

def capacity : Nat := 8192

/-- Opens a file for output, which makes it empty. -/
def create (files : Files) (name : String) : Except HostError (Output × Files) :=
  (files.target name).map fun path =>
    let full := match files.node? path with
      | some .fullDevice => true
      | _ => false
    ({ path, full }, files.write path .empty)

def hand (o : Output) (files : Files) (text : String) : Output × Files :=
  let bytes := text.toUTF8
  ({ o with position := o.position + bytes.size }, files.writeAt o.path o.position bytes)

/-- Empties the buffer; `false` if the file refuses the text. -/
def flush (o : Output) (files : Files) : Bool × Output × Files :=
  if o.pending.isEmpty then (true, o, files)
  else if o.full then (false, o, files)
  else
    let (o, files) := o.hand files o.pending
    (true, { o with pending := "" }, files)

/-- Writes text; `false` if the buffer has no room for it and the file refuses what is there.  In
that case as much of the text as fits is still taken in. -/
def write (o : Output) (files : Files) (text : String) : Bool × Output × Files :=
  if o.pending.utf8ByteSize + text.utf8ByteSize ≤ capacity then
    (true, { o with pending := o.pending ++ text }, files)
  else
    match o.flush files with
    | (true, o, files) =>
      if text.utf8ByteSize < capacity then (true, { o with pending := text }, files)
      else
        let (o, files) := o.hand files text
        (true, o, files)
    | (false, o, files) =>
      let room := capacity - o.pending.utf8ByteSize
      (false, { o with pending := o.pending ++ String.ofList (text.toList.take room) }, files)

end Output

end Mips
