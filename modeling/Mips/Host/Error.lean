/-!
# Errors of the host

The reasons why the host refuses an operation on files.
-/

namespace Mips

inductive HostError where
  | notFound
  | notDirectory
  | isDirectory
  | noSpace
  | nameTooLong
  /-- The name has a zero character. -/
  | unusableName
  deriving DecidableEq, Repr

namespace HostError

def all : List HostError :=
  [notFound, notDirectory, isDirectory, noSpace, nameTooLong, unusableName]

def message : HostError → String
  | notFound => "No such file or directory (os error 2)"
  | notDirectory => "Not a directory (os error 20)"
  | isDirectory => "Is a directory (os error 21)"
  | noSpace => "No space left on device (os error 28)"
  | nameTooLong => "File name too long (os error 36)"
  | unusableName => "file name contained an unexpected NUL byte"

end HostError

end Mips
