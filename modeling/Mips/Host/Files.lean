import Mips.Host.Error
/-!
# Files

The files and directories that a program sees under its working directory, as a table from paths
to their contents.  A name is followed part by part: each part but the last has to lead to a
directory that is there.  One device is known besides: it can be opened like a file, but it has no
room.
-/

namespace Mips

/-- A place among the files: the names on the way to it from the working directory.  A place above
the working directory starts with `..`, and one below the root of all files with a slash.  The
working directory lies deeper than any place above it that is spoken of. -/
abbrev Path := List String

namespace Path

def root : Path := ["/"]

def isAbove (path : Path) : Bool := path.all (· = "..")

def parent (path : Path) : Path :=
  if path = root then root else if path.isAbove then path ++ [".."] else path.dropLast

def next (path : Path) (part : String) : Path :=
  if part = "" ∨ part = "." then path else if part = ".." then path.parent else path ++ [part]

def above (levels : Nat) : Path := List.replicate levels ".."

def start (name : String) : Path := if name.startsWith "/" then root else []

end Path

inductive Node where
  | file (content : ByteArray) (executable : Bool)
  | directory
  /-- The device without room. -/
  | fullDevice

def Node.content? : Node → Option ByteArray
  | .file content _ => some content
  | .directory | .fullDevice => none

structure Files where
  nodes : List (Path × Node) := []

namespace Files

/-! ## Names -/

def maxName : Nat := 4095

def maxPart : Nat := 255

def parts (name : String) : List String := name.splitToList (· = '/')

def node? (files : Files) (path : Path) : Option Node :=
  if path.isAbove || path = Path.root || path = ["/", "dev"] then some .directory
  else if path = ["/", "dev", "full"] then some .fullDevice
  else files.nodes.lookup path

def isDirectory (files : Files) (path : Path) : Bool :=
  match files.node? path with
  | some .directory => true
  | _ => false

def enter (files : Files) (path : Path) (part : String) : Except HostError Path :=
  match files.node? path with
  | none => .error .notFound
  | some .directory =>
    if part.utf8ByteSize ≤ maxPart then .ok (path.next part) else .error .nameTooLong
  | some _ => .error .notDirectory

/-- The place that a name stands for, whether or not there is anything. -/
def place (files : Files) (name : String) : Except HostError Path :=
  if name.contains '\x00' then .error .unusableName
  else if name.isEmpty then .error .notFound
  else if maxName < name.utf8ByteSize then .error .nameTooLong
  else (parts name).foldlM files.enter (Path.start name)

def lookup (files : Files) (name : String) : Option Node :=
  (files.place name).toOption.bind files.node?

/-! ## Reading -/

def content? (files : Files) (name : String) : Option ByteArray :=
  (files.lookup name).bind Node.content?

def text? (files : Files) (name : String) : Option String :=
  (files.content? name).bind String.fromUTF8?

/-! ## Searching upwards -/

/-- How many levels above the working directory the table goes. -/
def height (files : Files) : Nat :=
  (files.nodes.map fun entry => (entry.1.takeWhile (· = "..")).length).max?.getD 0

/-- The working directory and the directories around it up to the root, the nearest first. -/
def surroundings (files : Files) : List Path :=
  (List.range (files.height + 1)).map Path.above ++ [Path.root]

def fileAt? (files : Files) (path : Path) : Option ByteArray :=
  (files.node? path).bind Node.content?

/-- The file of a name in the working directory, or in the nearest directory around it that has one.
What has the name but is no file is passed over. -/
def nearest? (files : Files) (name : String) : Option ByteArray :=
  files.surroundings.findSome? fun directory => files.fileAt? (directory ++ [name])

/-! ## Making files and directories -/

def put (files : Files) (path : Path) (node : Node) : Files :=
  ⟨(path, node) :: files.nodes.filter fun entry => entry.1 != path⟩

def descend (files : Files) (path : Path) : List String → Files × Path
  | [] => (files, path)
  | part :: parts =>
    let path := path.next part
    descend (if files.isDirectory path then files else files.put path .directory) path parts

def makeDirectory (files : Files) (name : String) : Files :=
  (files.descend (Path.start name) (parts name)).1

def install (files : Files) (name : String) (content : ByteArray) : Files :=
  let (files, path) := files.descend (Path.start name) (parts name).dropLast
  files.put (path.next ((parts name).getLast?.getD "")) (.file content false)

/-! ## Writing -/

/-- The place of a name that can be opened for writing: that of a file or device that is there, or
of a file that can be made in its directory.  A name with slashes at its end can only be that of a
directory, whether or not it is there. -/
def target (files : Files) (name : String) : Except HostError Path :=
  match files.place name with
  | .ok path => if files.isDirectory path then .error .isDirectory else .ok path
  | .error e =>
    let bare := (name.dropEndWhile (· = '/')).toString
    .error (if bare ≠ name && (files.place bare).isOk then .isDirectory else e)

/-- Changes the content of the file at a place, which is empty if it is not there yet. -/
def modify (files : Files) (path : Path) (f : ByteArray → ByteArray) : Files :=
  match files.node? path with
  | some (.file content executable) => files.put path (.file (f content) executable)
  | none => files.put path (.file (f .empty) false)
  | some _ => files

def write (files : Files) (path : Path) (content : ByteArray) : Files :=
  files.modify path fun _ => content

/-- The content of a file after `bytes` were written into it at `position`.  A gap before the
position is filled with zeros. -/
def splice (content : ByteArray) (position : Nat) (bytes : ByteArray) : ByteArray :=
  let gap := (List.replicate (position - content.size) 0).toByteArray
  content.extract 0 position ++ gap ++ bytes ++
    content.extract (position + bytes.size) content.size

def writeAt (files : Files) (path : Path) (position : Nat) (bytes : ByteArray) : Files :=
  files.modify path fun content => splice content position bytes

def makeExecutable (files : Files) (path : Path) : Files :=
  match files.node? path with
  | some (.file content _) => files.put path (.file content true)
  | _ => files

end Files

end Mips
