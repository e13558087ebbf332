import Mathlib.Data.List.Nodup
import Mathlib.Data.List.TakeDrop
import Mips.Proofs.Toml.Spelling
import Mips.Toml.Document
/-!
# Documents of lines

The documents that assign a value to a name on each line, and nothing else: which table they are,
and how to write one.
-/

namespace Mips.Toml

/-! ## Tables -/

namespace Table

variable {t : Table} {k : Name} {f : Option Value → Option Value}

theorem alter_of_absent (hk : k ∉ t.map Prod.fst) :
    t.alter k f = (f none).map fun v => t ++ [(k, v)] := by
  induction t with
  | nil => rfl
  | cons e t ih =>
    rw [List.map_cons, List.mem_cons, not_or] at hk
    rw [alter, if_neg (Ne.symm hk.1), ih hk.2, Option.map_map]
    rfl

theorem alter_of_present (hk : k ∈ t.map Prod.fst) (hf : ∀ v, f (some v) = none) :
    t.alter k f = none := by
  induction t with
  | nil => cases hk
  | cons e t ih =>
    rw [alter]
    split
    · rw [hf, Option.map_none]
    · next hne =>
      rw [List.map_cons, List.mem_cons] at hk
      rw [ih (hk.resolve_left (Ne.symm hne)), Option.map_none]

end Table

namespace Document

/-- The text is a document that assigns the values to the names, line by line. -/
def Lists (text : String) (lines : Table) : Prop :=
  statements? ((unmarked text.toList).length + 1) (unmarked text.toList) =
    some (lines.map fun l => .assign [l.1] l.2)

theorem add?_assign (t : Table) (k : Name) (v : Value) :
    Draft.add? { table := t } (.assign [k] v) =
      if k ∈ t.map Prod.fst then none else some { table := t ++ [(k, v)] } := by
  split
  · next hk =>
    rw [Draft.add?, Table.assignAt, Table.assign, Table.alter_of_present hk fun _ => rfl]
    rfl
  · next hk =>
    rw [Draft.add?, Table.assignAt, Table.assign, Table.alter_of_absent hk]
    rfl

theorem foldlM_add? {t : Table} (ht : (t.map Prod.fst).Nodup) (lines : Table) :
    (lines.map fun l => Statement.assign [l.1] l.2).foldlM Draft.add? { table := t } =
      if ((t ++ lines).map Prod.fst).Nodup then some { table := t ++ lines } else none := by
  induction lines generalizing t with
  | nil =>
    rw [List.append_nil, if_pos ht]
    rfl
  | cons l lines ih =>
    obtain ⟨k, v⟩ := l
    rw [List.map_cons, List.foldlM_cons, add?_assign]
    by_cases hk : k ∈ t.map Prod.fst
    · have hrepeated : ¬ ((t ++ (k, v) :: lines).map Prod.fst).Nodup := by
        rw [List.map_append, List.map_cons, List.nodup_middle, List.nodup_cons]
        exact fun h => h.1 (List.mem_append_left _ hk)
      rw [if_pos hk, if_neg hrepeated]
      rfl
    · have ht' : ((t ++ [(k, v)]).map Prod.fst).Nodup := by
        rw [List.map_append, List.map_singleton, List.nodup_middle, List.append_nil]
        exact List.nodup_cons.mpr ⟨hk, ht⟩
      have hlayout : t ++ [(k, v)] ++ lines = t ++ (k, v) :: lines := by simp
      rw [if_neg hk, ← hlayout, ← ih ht']
      rfl

/-- A document of lines is the table of its lines, unless a name is repeated. -/
theorem Lists.ofText? {text : String} {lines : Table} (h : Lists text lines) :
    ofText? text = if (lines.map Prod.fst).Nodup then some lines else none := by
  have hfold := foldlM_add? (t := []) List.nodup_nil lines
  change (statements? ((unmarked text.toList).length + 1) (unmarked text.toList)).bind
    ofStatements? = _
  rw [h, Option.bind_some, ofStatements?]
  rw [hfold, apply_ite (Option.map Draft.table)]
  rfl

end Document

/-! ## Writing a document -/

/-- A line that assigns a value to a name: the name as it is, and a word that is its value. -/
structure Line where
  name : Name
  word : List Char
  value : Value
  name_ne_nil : name ≠ []
  isBare_name : ∀ c ∈ name, isBare c = true
  spells : Spells word value

namespace Line

def entry (l : Line) : Name × Value := (l.name, l.value)

def text (l : Line) : List Char := l.name ++ ' ' :: '=' :: ' ' :: (l.word ++ ['\n'])

theorem text_append (l : Line) (rest : List Char) :
    l.text ++ rest = l.name ++ ' ' :: '=' :: ' ' :: (l.word ++ '\n' :: rest) := by
  simp [text]

theorem exists_name (l : Line) : ∃ c cs, l.name = c :: cs ∧ isBare c = true := by
  cases hname : l.name with
  | nil => exact absurd hname l.name_ne_nil
  | cons c cs => exact ⟨c, cs, rfl, l.isBare_name c (hname ▸ List.mem_cons_self)⟩

end Line

theorem isSpace_of_isBare {c : Char} (hc : isBare c = true) : isSpace c = false := by
  rw [isSpace, Bool.or_eq_false_iff, decide_eq_false_iff_not, decide_eq_false_iff_not]
  constructor <;>
  · rintro rfl
    exact absurd hc (by decide)

theorem name?_append {name : Name} (hne : name ≠ []) (hname : ∀ c ∈ name, isBare c = true)
    (rest : List Char) : name? (name ++ ' ' :: rest) = some (name, ' ' :: rest) := by
  have hspan : (name ++ ' ' :: rest).span isBare = (name, ' ' :: rest) := by
    rw [List.span_eq_takeWhile_dropWhile, List.takeWhile_append_of_pos hname,
      List.dropWhile_append_of_pos hname]
    simp [isBare]
  obtain ⟨c, cs, rfl⟩ := List.exists_cons_of_ne_nil hne
  have hquotes : c ≠ '"' ∧ c ≠ '\'' := by
    have hfirst : isBare c = true := hname c List.mem_cons_self
    constructor <;>
    · rintro rfl
      exact absurd hfirst (by decide)
  unfold name?
  split <;> simp_all

theorem skip_bare {l : Line} (cs : List Char) : skip (l.name ++ cs) = l.name ++ cs := by
  obtain ⟨c, name, hname, hc⟩ := l.exists_name
  rw [hname, List.cons_append, skip_cons (isSpace_of_isBare hc)]

namespace Line

variable (l : Line) (rest : List Char)

theorem key?_text : key? maxNames (l.text ++ rest) =
    some ([l.name], '=' :: ' ' :: (l.word ++ '\n' :: rest)) := by
  rw [l.text_append, maxNames, key?, skip_bare, name?_append l.name_ne_nil l.isBare_name]
  rfl

theorem assigned?_text : assigned? skip (l.text ++ rest) =
    some ([l.name], skip (l.word ++ '\n' :: rest)) := by
  rw [assigned?, l.key?_text]
  rfl

theorem first_ne {c : Char} {cs : List Char} (hcs : l.text ++ rest = c :: cs) {d : Char}
    (hd : isBare d = false) : c ≠ d := by
  obtain ⟨b, name, hname, hb⟩ := l.exists_name
  rw [l.text_append, hname] at hcs
  cases hcs
  rintro rfl
  rw [hb] at hd
  cases hd

theorem statement?_text : statement? (l.text ++ rest) =
    some (.assign [l.name] l.value, '\n' :: rest) := by
  unfold statement?
  split
  · next hcs => exact absurd rfl (l.first_ne rest hcs (by decide))
  · next hcs => exact absurd rfl (l.first_ne rest hcs (by decide))
  · rw [l.assigned?_text, Option.bind_eq_bind, Option.bind_some]
    simp only
    rw [l.spells rest]
    rfl

theorem lineEnd?_text : lineEnd? (l.text ++ rest) = none := by
  obtain ⟨c, name, hname, hc⟩ := l.exists_name
  have hfirst := fun d => l.first_ne rest (c := c) (by rw [l.text_append, hname]; rfl) (d := d)
  rw [lineEnd?, l.text_append, skip_bare, hname]
  have hmark : c ≠ '#' := hfirst _ (by decide)
  have hend : c ≠ '\n' := hfirst _ (by decide)
  have hreturn : c ≠ '\r' := hfirst _ (by decide)
  simp_all

theorem statements?_text (fuel : Nat) : statements? (fuel + 1) (l.text ++ rest) =
    (statements? fuel rest).map (.assign [l.name] l.value :: ·) := by
  have hskip : skip (l.text ++ rest) = l.text ++ rest := by
    rw [l.text_append, skip_bare]
  have hend : lineEnd? ('\n' :: rest) = some rest := rfl
  rw [statements?, hskip]
  split
  · next hcs =>
    rw [l.text_append] at hcs
    exact absurd (List.append_eq_nil_iff.mp hcs).1 l.name_ne_nil
  · rw [l.lineEnd?_text]
    simp only
    rw [l.statement?_text, Option.bind_eq_bind, Option.bind_some]
    simp only
    rw [hend, Option.bind_eq_bind, Option.bind_some]
    cases statements? fuel rest <;> rfl

end Line

namespace Document

def ofLines (lines : List Line) : String := String.ofList (lines.flatMap Line.text)

theorem statements?_lines (lines : List Line) (fuel : Nat)
    (hfuel : (lines.flatMap Line.text).length < fuel) :
    statements? fuel (lines.flatMap Line.text) =
      some (lines.map fun l => .assign [l.name] l.value) := by
  induction lines generalizing fuel with
  | nil =>
    obtain ⟨fuel, rfl⟩ : ∃ n, fuel = n + 1 := ⟨fuel - 1, by omega⟩
    rfl
  | cons l lines ih =>
    obtain ⟨fuel, rfl⟩ : ∃ n, fuel = n + 1 := ⟨fuel - 1, by omega⟩
    have hlength : 0 < l.text.length := by simp [Line.text]
    rw [List.flatMap_cons, List.length_append] at hfuel
    rw [List.flatMap_cons, l.statements?_text, ih fuel (by omega)]
    rfl

theorem unmarked_lines (lines : List Line) :
    unmarked (lines.flatMap Line.text) = lines.flatMap Line.text := by
  unfold unmarked
  split
  · next hcs =>
    cases lines with
    | nil => cases hcs
    | cons l lines =>
      rw [List.flatMap_cons] at hcs
      exact absurd rfl (l.first_ne _ hcs (by decide))
  · rfl

theorem lists_ofLines (lines : List Line) :
    Lists (ofLines lines) (lines.map Line.entry) := by
  rw [Lists, ofLines, String.toList_ofList, unmarked_lines,
    statements?_lines lines _ (Nat.lt_succ_self _), List.map_map]
  rfl

theorem mem_entries {lines : List Line} {l : Line} (hl : l ∈ lines) {name : Name}
    (hname : l.name = name) : (name, l.value) ∈ lines.map Line.entry := by
  subst hname
  exact List.mem_map_of_mem hl

end Document

end Mips.Toml
