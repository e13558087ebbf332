import Mathlib.Data.List.Nodup
import Mips.Toml.Document
/-!
# Names in a document

No name stands twice in the table of a document.  Whatever a statement does deep inside of the
table, at its top it changes the value of one name, or adds one that is new.
-/

namespace Mips.Toml

namespace Table

variable {t t' : Table}

theorem names_alter {k : Name} {f : Option Value → Option Value} (h : t.alter k f = some t') :
    t'.map Prod.fst = t.map Prod.fst ∨
      k ∉ t.map Prod.fst ∧ t'.map Prod.fst = t.map Prod.fst ++ [k] := by
  induction t generalizing t' with
  | nil =>
    obtain ⟨v, -, rfl⟩ := Option.map_eq_some_iff.mp h
    exact .inr ⟨List.not_mem_nil, rfl⟩
  | cons e t ih =>
    obtain ⟨k', old⟩ := e
    rw [alter] at h
    split at h
    · next hsame =>
      obtain ⟨v, -, rfl⟩ := Option.map_eq_some_iff.mp h
      rw [hsame]
      exact .inl rfl
    · next hne =>
      obtain ⟨rest, hrest, rfl⟩ := Option.map_eq_some_iff.mp h
      rw [List.map_cons, List.map_cons]
      obtain hnames | ⟨hnew, hnames⟩ := ih hrest
      · rw [hnames]
        exact .inl rfl
      · rw [hnames]
        exact .inr ⟨List.not_mem_cons_of_ne_of_not_mem (Ne.symm hne) hnew, rfl⟩

theorem nodup_alter {k : Name} {f : Option Value → Option Value} (h : t.alter k f = some t')
    (ht : (t.map Prod.fst).Nodup) : (t'.map Prod.fst).Nodup := by
  obtain hnames | ⟨hnew, hnames⟩ := names_alter h
  · rwa [hnames]
  · rw [hnames, List.nodup_middle, List.append_nil]
    exact List.nodup_cons.mpr ⟨hnew, ht⟩

theorem nodup_assign {v : Value} {key : List Name} (h : assign v key t = some t')
    (ht : (t.map Prod.fst).Nodup) : (t'.map Prod.fst).Nodup := by
  rcases key with _ | ⟨k, _ | ⟨k', path⟩⟩
  · cases h
  · exact nodup_alter h ht
  · exact nodup_alter h ht

theorem nodup_follow {f : Option Value → Option Value} {path : List Name}
    (h : follow f path t = some t') (ht : (t.map Prod.fst).Nodup) : (t'.map Prod.fst).Nodup := by
  rcases path with _ | ⟨k, _ | ⟨k', path⟩⟩
  · cases h
  · exact nodup_alter h ht
  · exact nodup_alter h ht

end Table

namespace Draft

theorem nodup_add? {d d' : Draft} {s : Statement} (h : d.add? s = some d')
    (hd : (d.table.map Prod.fst).Nodup) : (d'.table.map Prod.fst).Nodup := by
  cases s with
  | assign key v =>
    obtain ⟨table, htable, rfl⟩ := Option.map_eq_some_iff.mp h
    unfold Table.assignAt at htable
    split at htable
    · exact Table.nodup_assign htable hd
    · exact Table.nodup_follow htable hd
  | header path =>
    obtain ⟨table, htable, rfl⟩ := Option.map_eq_some_iff.mp h
    exact Table.nodup_follow htable hd
  | nextHeader path =>
    obtain ⟨table, htable, rfl⟩ := Option.map_eq_some_iff.mp h
    exact Table.nodup_follow htable hd

theorem nodup_foldlM_add? {ss : List Statement} {d d' : Draft}
    (h : ss.foldlM add? d = some d') (hd : (d.table.map Prod.fst).Nodup) :
    (d'.table.map Prod.fst).Nodup := by
  induction ss generalizing d with
  | nil =>
    cases h
    exact hd
  | cons s ss ih =>
    rw [List.foldlM_cons] at h
    obtain ⟨d₁, hfirst, hrest⟩ := Option.bind_eq_some_iff.mp h
    exact ih hrest (nodup_add? hfirst hd)

end Draft

namespace Document

theorem nodup_ofText? {text : String} {t : Table} (h : ofText? text = some t) :
    (t.map Prod.fst).Nodup := by
  obtain ⟨ss, -, htable⟩ := Option.bind_eq_some_iff.mp h
  obtain ⟨d, hd, rfl⟩ := Option.map_eq_some_iff.mp htable
  exact Draft.nodup_foldlM_add? hd List.nodup_nil

end Document

end Mips.Toml
