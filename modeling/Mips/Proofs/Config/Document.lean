import Mips.Proofs.Config.Fields
import Mips.Proofs.Text.Address
import Mips.Proofs.Toml.Lines
import Mips.Proofs.Toml.Names
/-!
# Configurations read from documents

Which documents are configurations, of which settings, and that every configuration is written down
by a document of lines.
-/

namespace Mips.RunConfig

open Toml

theorem ofText_ok_iff {text : String} {c : RunConfig} :
    ofText text = .ok c ↔
      ∃ t, Document.ofText? text = some t ∧ (∀ e ∈ t, Fits e) ∧ Overrides {} t c := by
  rw [ofText]
  cases htable : Document.ofText? text with
  | none => simp
  | some t =>
    simp only [Option.some.injEq, exists_eq_left']
    exact ofTable_ok_iff (Document.nodup_ofText? htable)

/-! ## What a document of lines sets -/

section Lists

variable {text : String} {lines : Table} {c : RunConfig} {field : ConfigField}

theorem ofText_of_lists (hlines : Document.Lists text lines) :
    ofText text = if (lines.map Prod.fst).Nodup then ofTable lines else .error .malformed := by
  rw [ofText, hlines.ofText?]
  by_cases hnodup : (lines.map Prod.fst).Nodup
  · rw [if_pos hnodup, if_pos hnodup]
  · rw [if_neg hnodup, if_neg hnodup]

theorem exists_ofText_iff (hlines : Document.Lists text lines) :
    (∃ c, ofText text = .ok c) ↔ (lines.map Prod.fst).Nodup ∧ ∀ e ∈ lines, Fits e := by
  rw [ofText_of_lists hlines]
  split
  · next hnodup => rw [exists_ofTable_iff, and_iff_right hnodup]
  · next hnodup => simp [hnodup]

theorem ofTable_of_ofText (hlines : Document.Lists text lines) (h : ofText text = .ok c) :
    (lines.map Prod.fst).Nodup ∧ ofTable lines = .ok c := by
  rw [ofText_of_lists hlines] at h
  split at h
  · next hnodup => exact ⟨hnodup, h⟩
  · cases h

theorem setting_of_mem (hlines : Document.Lists text lines) (h : ofText text = .ok c) {v : Value}
    (hv : (field.name.toList, v) ∈ lines) : field.Means v (c.setting field) := by
  obtain ⟨hnodup, htable⟩ := ofTable_of_ofText hlines h
  obtain ⟨v', hv', hmeans⟩ | ⟨habsent, -⟩ := overrides_of_ofTable htable field
  · cases List.inj_on_of_nodup_map hnodup hv hv' rfl
    exact hmeans
  · exact absurd hv (habsent v)

theorem setting_of_absent (hlines : Document.Lists text lines) (h : ofText text = .ok c)
    (habsent : ∀ v, (field.name.toList, v) ∉ lines) :
    c.setting field = ({} : RunConfig).setting field := by
  obtain ⟨v, hv, -⟩ | ⟨-, hsame⟩ := overrides_of_ofTable (ofTable_of_ofText hlines h).2 field
  · exact absurd hv (habsent v)
  · exact hsame

/-- The configuration holds what the lines give, the defaults where they give nothing, and starts at
its load address if they give no other. -/
structure Holds (c : RunConfig) (lines : Table) : Prop where
  given : ∀ (field : ConfigField) (v : Value), (field.name.toList, v) ∈ lines →
    field.Means v (c.setting field)
  default : ∀ field : ConfigField, (∀ v, (field.name.toList, v) ∉ lines) →
    c.setting field = ({} : RunConfig).setting field
  entry_given : ∀ (a : Word) (v : Value), (ConfigField.entryPoint.name.toList, v) ∈ lines →
    IsAddress a v → c.entry = a
  entry_default : (∀ v, (ConfigField.entryPoint.name.toList, v) ∉ lines) → c.entry = c.loadAddress

theorem holds_of_ofText (hlines : Document.Lists text lines) (h : ofText text = .ok c) :
    c.Holds lines where
  given _ _ hv := setting_of_mem hlines h hv
  default _ habsent := setting_of_absent hlines h habsent
  entry_given a v hv ha := by
    have hentry : c.setting .entryPoint = .address (some a) :=
      means_unique (setting_of_mem hlines h hv) ⟨a, ha, rfl⟩
    rw [entry, Setting.address.inj hentry, Option.getD_some]
  entry_default habsent := by
    have hentry : c.setting .entryPoint = .address none := setting_of_absent hlines h habsent
    rw [entry, Setting.address.inj hentry, Option.getD_none]

theorem ofText_of_perm {text' : String} {lines' : Table} (hlines : Document.Lists text lines)
    (hlines' : Document.Lists text' lines') (hperm : lines.Perm lines') :
    ofText text = ofText text' := by
  rw [ofText_of_lists hlines, ofText_of_lists hlines']
  have hnames := (hperm.map Prod.fst).nodup_iff
  by_cases hnodup : (lines.map Prod.fst).Nodup
  · rw [if_pos hnodup, if_pos (hnames.mp hnodup), ofTable_of_perm hperm hnodup]
  · rw [if_neg hnodup, if_neg fun h => hnodup (hnames.mpr h)]

theorem ofText_of_same {text' : String} {lines' : Table} (hlines : Document.Lists text lines)
    (hlines' : Document.Lists text' lines') (hsame : List.Forall₂ SameSetting lines lines') :
    ofText text = ofText text' := by
  have hentries : List.Forall₂ SameEntry lines lines' := hsame.imp fun _ _ h => h.sameEntry
  rw [ofText_of_lists hlines, ofText_of_lists hlines', names_of_same hentries,
    ofTable_of_same hentries]

end Lists

/-! ## Addresses in different words -/

/-- The words of an address in a document: a number in any radix, or a text in quotes of either
kind. -/
inductive AddressWord (a : Word) : List Char → Prop
  | number {w : List Char} (h : Scalar.Writes a.toNat w) : AddressWord a w
  | basic {s : List Char} (h : Address.Written a s) : AddressWord a ('"' :: (s ++ ['"']))
  | literal {s : List Char} (h : Address.Written a s) : AddressWord a ('\'' :: (s ++ ['\'']))

theorem AddressWord.exists_spells {a : Word} {w : List Char} (h : AddressWord a w) :
    ∃ v, IsAddress a v ∧ Spells w v := by
  cases h with
  | number h => exact ⟨_, .inl rfl, h.spells⟩
  | basic h =>
    have hplain := h.forall_mem (P := fun c => isPlain c = true ∧ c ≠ '"' ∧ c ≠ '\\')
      (by decide +kernel) (by decide)
    exact ⟨_, .inr ⟨_, rfl, h.read_eq⟩, (Quoted.writes_self hplain).spells⟩
  | literal h =>
    have hplain := h.forall_mem (P := fun c => isPlain c = true ∧ c ≠ '\'')
      (by decide +kernel) (by decide)
    exact ⟨_, .inr ⟨_, rfl, h.read_eq⟩, spells_literal hplain⟩

theorem AddressWord.isAddress {a : Word} {l : Line} (h : AddressWord a l.word) :
    IsAddress a l.value := by
  obtain ⟨v, hv, hspells⟩ := h.exists_spells
  rw [l.spells.unique hspells]
  exact hv

/-- Lines that differ at most in the words of an address. -/
inductive Respelt : Line → Line → Prop
  | same (l : Line) : Respelt l l
  | address {field : ConfigField} (hfield : field = .loadAddress ∨ field = .entryPoint) {a : Word}
    {l l' : Line} (hname : l.name = field.name.toList) (hname' : l'.name = field.name.toList)
    (h : AddressWord a l.word) (h' : AddressWord a l'.word) : Respelt l l'

theorem Respelt.sameSetting {l l' : Line} (h : Respelt l l') : SameSetting l.entry l'.entry := by
  cases h with
  | same => exact .same l.entry
  | address hfield hname hname' h h' =>
    rw [Line.entry, Line.entry, hname, hname']
    exact .address hfield h.isAddress h'.isAddress

theorem ofText_of_respelt {lines lines' : List Line} (h : List.Forall₂ Respelt lines lines') :
    ofText (Document.ofLines lines) = ofText (Document.ofLines lines') := by
  apply ofText_of_same (Document.lists_ofLines lines) (Document.lists_ofLines lines')
  rw [List.forall₂_map_left_iff, List.forall₂_map_right_iff]
  exact h.imp fun _ _ hl => hl.sameSetting

theorem setting_of_addressWord {lines : List Line} {c : RunConfig}
    (h : ofText (Document.ofLines lines) = .ok c) {field : ConfigField}
    (hfield : field = .loadAddress ∨ field = .entryPoint) {a : Word} {l : Line} (hl : l ∈ lines)
    (hname : l.name = field.name.toList) (hword : AddressWord a l.word) :
    c.setting field = .address (some a) :=
  means_unique (setting_of_mem (Document.lists_ofLines lines) h (Document.mem_entries hl hname))
    (means_address hfield hword.isAddress)

/-! ## Writing a configuration -/

section Writing

variable {c : RunConfig}

theorem spells_decimal (n : Nat) : Spells (Nat.toDigits 10 n) (.integer n) :=
  (Scalar.Writes.decimal (.self Nat.toDigits_ne_nil)).spells

/-- A field holds what it holds without a line, or there is a word for what it holds. -/
theorem exists_word (hinstructions : c.instructions < 2 ^ 64) (hlimit : c.traceLimit < 2 ^ 64)
    (field : ConfigField) : c.setting field = ({} : RunConfig).setting field ∨
      ∃ w v, Spells w v ∧ field.Means v (c.setting field) := by
  cases field with
  | loadAddress => exact .inr ⟨_, _, spells_decimal c.loadAddress.toNat, _, .inl rfl, rfl⟩
  | entryPoint =>
    cases hentry : c.entryPoint with
    | none => exact .inl (congrArg Setting.address hentry)
    | some a =>
      exact .inr ⟨_, _, spells_decimal a.toNat, a, .inl rfl, congrArg Setting.address hentry⟩
  | instructions => exact .inr ⟨_, _, spells_decimal c.instructions, _, hinstructions, rfl, rfl⟩
  | tracePath =>
    cases hpath : c.tracePath with
    | none => exact .inl (congrArg Setting.path hpath)
    | some p =>
      obtain ⟨body, hbody⟩ := Quoted.exists_writes p.toList
      refine .inr ⟨_, _, hbody.spells, p.toList, rfl, ?_⟩
      rw [String.ofList_toList]
      exact congrArg Setting.path hpath
  | traceLimit => exact .inr ⟨_, _, spells_decimal c.traceLimit, _, hlimit, rfl, rfl⟩

def lineOf (field : ConfigField) {w : List Char} {v : Value} (h : Spells w v) : Line where
  name := field.name.toList
  word := w
  value := v
  name_ne_nil := by cases field <;> decide
  isBare_name := List.all_eq_true.mp (by cases field <;> decide)
  spells := h

theorem exists_lines (hinstructions : c.instructions < 2 ^ 64) (hlimit : c.traceLimit < 2 ^ 64)
    (fields : List ConfigField) : ∃ lines : List Line,
      (lines.map Line.name).Sublist (fields.map fun field => field.name.toList) ∧
      (∀ l ∈ lines, ∃ field : ConfigField, l.name = field.name.toList ∧
        field.Means l.value (c.setting field)) ∧
      ∀ field ∈ fields, c.setting field = ({} : RunConfig).setting field ∨
        ∃ l ∈ lines, l.name = field.name.toList := by
  induction fields with
  | nil => exact ⟨[], .slnil, by simp, by simp⟩
  | cons field fields ih =>
    obtain ⟨lines, hnames, hmeans, hall⟩ := ih
    obtain hdefault | ⟨w, v, hspells, hv⟩ := exists_word hinstructions hlimit field
    · exact ⟨lines, hnames.cons _, hmeans, List.forall_mem_cons.mpr ⟨.inl hdefault, hall⟩⟩
    · refine ⟨lineOf field hspells :: lines, hnames.cons_cons _,
        List.forall_mem_cons.mpr ⟨⟨field, rfl, hv⟩, hmeans⟩,
        List.forall_mem_cons.mpr ⟨.inr ⟨_, List.mem_cons_self, rfl⟩, fun g hg => ?_⟩⟩
      exact (hall g hg).imp_right fun ⟨l, hl, hname⟩ => ⟨l, List.mem_cons_of_mem _ hl, hname⟩

theorem exists_document (hinstructions : c.instructions < 2 ^ 64)
    (hlimit : c.traceLimit < 2 ^ 64) :
    ∃ lines, ofText (Document.ofLines lines) = .ok c := by
  obtain ⟨lines, hnames, hmeans, hall⟩ := exists_lines hinstructions hlimit ConfigField.all
  have hlists := Document.lists_ofLines lines
  have hok : ∃ c', ofText (Document.ofLines lines) = .ok c' := by
    rw [exists_ofText_iff hlists]
    constructor
    · have hdistinct : (ConfigField.all.map fun field => field.name.toList).Nodup := by decide
      rw [List.map_map]
      exact hdistinct.sublist hnames
    · rintro e he
      obtain ⟨l, hl, rfl⟩ := List.mem_map.mp he
      obtain ⟨field, hname, hv⟩ := hmeans l hl
      exact ⟨field, _, hname, hv⟩
  obtain ⟨c', hc'⟩ := hok
  have hsame : c' = c := by
    apply ext_setting
    intro field
    by_cases hline : ∃ l ∈ lines, l.name = field.name.toList
    · obtain ⟨l, hl, hname⟩ := hline
      obtain ⟨field', hname', hv⟩ := hmeans l hl
      obtain rfl := ConfigField.name_inj (hname'.symm.trans hname)
      exact means_unique (setting_of_mem hlists hc' (Document.mem_entries hl hname)) hv
    · have habsent : ∀ v, (field.name.toList, v) ∉ lines.map Line.entry := by
        rintro v hv
        obtain ⟨l, hl, hentry⟩ := List.mem_map.mp hv
        exact hline ⟨l, hl, congrArg Prod.fst hentry⟩
      have hfield : field ∈ ConfigField.all := by cases field <;> decide
      rw [setting_of_absent hlists hc' habsent]
      exact ((hall field hfield).resolve_right hline).symm
  exact ⟨lines, hsame ▸ hc'⟩

end Writing

/-! ## Configurations field by field -/

/-- A document of lines is a configuration if no name is repeated and each line gives a field a
setting of its kind, in whatever order and, of addresses, in whatever words.  Each configuration is
one of a document. -/
theorem ofText_fieldwise :
    (∀ text lines, Document.Lists text lines →
      ((∃ c, ofText text = .ok c) ↔ (lines.map Prod.fst).Nodup ∧ ∀ e ∈ lines, Fits e) ∧
      (∀ c, ofText text = .ok c → c.Holds lines) ∧
      ∀ text' lines', Document.Lists text' lines' →
        lines.Perm lines' ∨ List.Forall₂ SameSetting lines lines' → ofText text = ofText text') ∧
    (∀ lines lines' : List Line, List.Forall₂ Respelt lines lines' →
      ofText (Document.ofLines lines) = ofText (Document.ofLines lines')) ∧
    (∀ (lines : List Line) (c : RunConfig), ofText (Document.ofLines lines) = .ok c →
      ∀ field : ConfigField, field = .loadAddress ∨ field = .entryPoint →
        ∀ l ∈ lines, l.name = field.name.toList → ∀ a, AddressWord a l.word →
          c.setting field = .address (some a)) ∧
    ∀ c : RunConfig, c.instructions < 2 ^ 64 → c.traceLimit < 2 ^ 64 →
      ∃ lines, ofText (Document.ofLines lines) = .ok c := by
  refine ⟨fun text lines hlines => ?_, fun _ _ => ofText_of_respelt, ?_, fun _ => exists_document⟩
  · exact ⟨exists_ofText_iff hlines, fun _ => holds_of_ofText hlines,
      fun _ _ hlines' h => h.elim (ofText_of_perm hlines hlines') (ofText_of_same hlines hlines')⟩
  · exact fun _ _ h _ hfield _ hl hname _ => setting_of_addressWord h hfield hl hname

/-- The same address as a number and as a text, before and after the other line of its document. -/
theorem ofText_fieldwise_respelt :
    ∃ l l' other : Line, l.word = "0x1000".toList ∧ l'.word = "\"0x1_000\"".toList ∧
      other.word = "5".toList ∧
      ofText (Document.ofLines [l, other]) = ofText (Document.ofLines [other, l]) ∧
      ofText (Document.ofLines [l, other]) = ofText (Document.ofLines [l', other]) ∧
      (∃ c, ofText (Document.ofLines [l, other]) = .ok c ∧
        c.Holds [l.entry, other.entry] ∧ c.setting .loadAddress = .address (some 0x1000)) ∧
      ∃ lines, ofText (Document.ofLines lines) = .ok { tracePath := some "a trace" } := by
  have hnumber : AddressWord 0x1000 "0x1000".toList :=
    .number (.marked (show ('x', 16) ∈ Scalar.marks by decide) 0 (by decide +kernel)
      (.self (by decide)))
  have htext : AddressWord 0x1000 "\"0x1_000\"".toList :=
    .basic (s := "0x1_000".toList) (.hexadecimal 0 (.inl rfl) (by decide +kernel))
  obtain ⟨v, hv, hspells⟩ := hnumber.exists_spells
  obtain ⟨v', hv', hspells'⟩ := htext.exists_spells
  let l := lineOf .loadAddress hspells
  let l' := lineOf .loadAddress hspells'
  let other := lineOf .instructions (spells_decimal 5)
  obtain ⟨hlists, hrespelt, hsetting, hwritten⟩ := ofText_fieldwise
  have hl := hlists _ _ (Document.lists_ofLines [l, other])
  have hsame : List.Forall₂ Respelt [l, other] [l', other] :=
    .cons (.address (.inl rfl) rfl rfl hnumber htext) (.cons (.same other) .nil)
  have hfits : ∀ e ∈ [l.entry, other.entry], Fits e := by
    rw [List.forall_mem_cons, List.forall_mem_singleton]
    exact ⟨⟨.loadAddress, _, rfl, _, hv, rfl⟩, ⟨.instructions, _, rfl, 5, by decide, rfl, rfl⟩⟩
  have hnodup : ["load_address".toList, "instructions".toList].Nodup := by decide
  obtain ⟨c, hc⟩ := hl.1.mpr ⟨hnodup, hfits⟩
  refine ⟨l, l', other, rfl, rfl, rfl, ?_, hrespelt _ _ hsame, ⟨c, hc, hl.2.1 c hc, ?_⟩, ?_⟩
  · exact hl.2.2 _ _ (Document.lists_ofLines [other, l]) (.inl (.swap _ _ []))
  · exact hsetting _ c hc _ (.inl rfl) l List.mem_cons_self rfl _ hnumber
  · exact hwritten _ (by decide) (by decide)

end Mips.RunConfig
