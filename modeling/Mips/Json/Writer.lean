import Mips.Json.Value
/-!
# Writing JSON

The layout of JSON texts: each item and each member stands on a line of its own, indented by two
blanks for each level.
-/

namespace Mips.Json

def newline (level : Nat) : List Char := '\n' :: List.replicate (2 * level) ' '

mutual

def write (level : Nat) : Json → List Char
  | null => "null".toList
  | bool true => "true".toList
  | bool false => "false".toList
  | number s => s
  | string s => '"' :: s ++ ['"']
  | array [] => ['[', ']']
  | array (v :: vs) =>
    '[' :: newline (level + 1) ++ write (level + 1) v ++ writeItems (level + 1) vs ++
      newline level ++ [']']
  | object [] => ['\x7b', '\x7d']
  | object (m :: ms) =>
    '\x7b' :: newline (level + 1) ++ writeMember (level + 1) m ++ writeMembers (level + 1) ms ++
      newline level ++ ['\x7d']

def writeItems (level : Nat) : List Json → List Char
  | [] => []
  | v :: vs => ',' :: newline level ++ write level v ++ writeItems level vs

def writeMember (level : Nat) : List Char × Json → List Char
  | (name, v) => '"' :: name ++ ['"', ':', ' '] ++ write level v

def writeMembers (level : Nat) : List (List Char × Json) → List Char
  | [] => []
  | m :: ms => ',' :: newline level ++ writeMember level m ++ writeMembers level ms

end

def text (v : Json) : String := String.ofList (write 0 v)

end Mips.Json
