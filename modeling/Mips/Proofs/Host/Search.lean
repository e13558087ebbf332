import Mips.Proofs.Host.Files
/-!
# Searching upwards

A file that is looked for by its name from the working directory upwards.  The search stops at the
height up to which the table of files goes; `Files.Nearest` says without that bound, for all
directories above the working directory, which file is meant.
-/

namespace Mips.Files

variable {files : Files} {name : String} {content : ByteArray}

/-- The file of a name that comes first on the way from the working directory to the root. -/
inductive Nearest (files : Files) (name : String) (content : ByteArray) : Prop
  | above (levels : Nat) (hfile : files.fileAt? (Path.above levels ++ [name]) = some content)
    (hnone : ∀ lower < levels, files.fileAt? (Path.above lower ++ [name]) = none)
  | root (hfile : files.fileAt? (Path.root ++ [name]) = some content)
    (hnone : ∀ levels, files.fileAt? (Path.above levels ++ [name]) = none)

/-! ## The height of the table -/

theorem length_takeWhile_le_height {path : Path} {node : Node}
    (hlookup : files.nodes.lookup path = some node) :
    (path.takeWhile (· = "..")).length ≤ files.height := by
  obtain ⟨before, after, hnodes, -⟩ := List.lookup_eq_some_iff.mp hlookup
  apply List.le_max?_getD_of_mem
  apply List.mem_map_of_mem (a := (path, node))
  simp [hnodes]

theorem le_length_takeWhile_above (levels : Nat) (rest : Path) :
    levels ≤ ((Path.above levels ++ rest).takeWhile (· = "..")).length := by
  have hup : ∀ part ∈ Path.above levels, decide (part = "..") = true := fun part hpart =>
    decide_eq_true (List.eq_of_mem_replicate hpart)
  rw [List.takeWhile_append_of_pos hup, List.length_append, Path.above, List.length_replicate]
  exact Nat.le_add_right _ _

theorem fileAt?_above_of_height_lt {levels : Nat} (hlevels : files.height < levels) :
    files.fileAt? (Path.above levels ++ [name]) = none := by
  have hlookup : files.nodes.lookup (Path.above levels ++ [name]) = none := by
    refine Option.eq_none_iff_forall_ne_some.mpr fun node hnode => ?_
    have hheight := length_takeWhile_le_height hnode
    have hlength := le_length_takeWhile_above levels [name]
    omega
  rw [fileAt?, node?, hlookup]
  split
  · rfl
  · split <;> rfl

/-! ## The search -/

theorem findSome?_range_eq_some_iff {α : Type} {f : Nat → Option α} {n : Nat} {a : α} :
    (List.range n).findSome? f = some a ↔ ∃ k < n, f k = some a ∧ ∀ j < k, f j = none := by
  induction n with
  | zero => simp
  | succ n ih =>
    rw [List.range_succ, List.findSome?_append, Option.or_eq_some_iff, ih,
      List.findSome?_eq_none_iff]
    simp only [List.mem_range, List.findSome?_singleton]
    constructor
    · rintro (⟨k, hk, hfirst⟩ | ⟨hnone, hlast⟩)
      · exact ⟨k, by omega, hfirst⟩
      · exact ⟨n, by omega, hlast, hnone⟩
    · rintro ⟨k, hk, hsome, hnone⟩
      obtain hk | rfl : k < n ∨ k = n := by omega
      · exact .inl ⟨k, hk, hsome, hnone⟩
      · exact .inr ⟨hnone, hsome⟩

theorem nearest?_eq_some_iff : files.nearest? name = some content ↔ files.Nearest name content := by
  have hbeyond {levels : Nat} (hlevels : ¬ levels < files.height + 1) :
      files.fileAt? (Path.above levels ++ [name]) = none :=
    fileAt?_above_of_height_lt (by omega)
  rw [nearest?, surroundings, List.findSome?_append, List.findSome?_map, Option.or_eq_some_iff,
    findSome?_range_eq_some_iff, List.findSome?_eq_none_iff]
  simp only [Function.comp_apply, List.mem_range, List.findSome?_singleton]
  constructor
  · rintro (⟨levels, -, hfile, hnone⟩ | ⟨hnone, hfile⟩)
    · exact .above levels hfile hnone
    · refine .root hfile fun levels => ?_
      by_cases hlevels : levels < files.height + 1
      · exact hnone levels hlevels
      · exact hbeyond hlevels
  · rintro (⟨levels, hfile, hnone⟩ | ⟨hfile, hnone⟩)
    · refine .inl ⟨levels, Decidable.byContradiction fun hlevels => ?_, hfile, hnone⟩
      rw [hbeyond hlevels] at hfile
      cases hfile
    · exact .inr ⟨fun levels _ => hnone levels, hfile⟩

/-- A directory of the name does not end the search, and the root comes last. -/
example (content other : ByteArray) :
    let files : Files := ⟨[(["/", "v"], .file other false), (["v"], .directory),
      (["..", "..", "v"], .file content false)]⟩
    files.nearest? "v" = some content := rfl

end Mips.Files
