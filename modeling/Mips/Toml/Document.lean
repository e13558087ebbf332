import Mips.Toml.Statement
/-!
# TOML documents

A document is the table that its statements build up, one after the other.
-/

namespace Mips.Toml

/-- A document that is being read: the path of the last header, and what there is so far. -/
structure Draft where
  path : List Name := []
  table : Table := []

namespace Draft

def add? (d : Draft) : Statement → Option Draft
  | .assign key v => (d.table.assignAt d.path key v).map fun table => { d with table }
  | .header path => (d.table.open? path).map fun table => { path, table }
  | .nextHeader path => (d.table.openNext? path).map fun table => { path, table }

end Draft

namespace Document

def ofStatements? (ss : List Statement) : Option Table :=
  (ss.foldlM Draft.add? {}).map Draft.table

def unmarked : List Char → List Char
  | '\ufeff' :: cs => cs
  | cs => cs

def ofText? (text : String) : Option Table :=
  let cs := unmarked text.toList
  (statements? (cs.length + 1) cs).bind ofStatements?

end Document

end Mips.Toml
