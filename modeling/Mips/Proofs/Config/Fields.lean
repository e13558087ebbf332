import Mathlib.Algebra.Group.Nat.Defs
import Mathlib.Data.List.Nodup
import Mips.Config
/-!
# The fields of a configuration

What a table makes of a configuration, field by field: a field holds what its entry means, or its
default if it has no entry.  The order of the entries does not matter, and neither does how a
setting is written.
-/

namespace Mips

inductive Setting where
  | address (a : Option Word)
  | counter (n : Nat)
  | path (p : Option String)
  deriving DecidableEq, Repr

/-- What the configuration holds in a field. -/
def RunConfig.setting (c : RunConfig) : ConfigField → Setting
  | .loadAddress => .address (some c.loadAddress)
  | .entryPoint => .address c.entryPoint
  | .instructions => .counter c.instructions
  | .tracePath => .path c.tracePath
  | .traceLimit => .counter c.traceLimit

theorem RunConfig.ext_setting {c c' : RunConfig} (h : ∀ field, c.setting field = c'.setting field) :
    c = c' := by
  have hload := h .loadAddress
  have hentry := h .entryPoint
  have hinstructions := h .instructions
  have hpath := h .tracePath
  have hlimit := h .traceLimit
  cases c
  cases c'
  simp_all [RunConfig.setting]

/-- The address that a value is: a number in range, or a text that is read as the address. -/
def IsAddress (a : Word) (v : Toml.Value) : Prop :=
  v = .integer a.toNat ∨ ∃ s, v = .text s ∧ Address.read s = .ok a

namespace ConfigField

/-- The setting that a value is for a field, if it is one. -/
def Means : ConfigField → Toml.Value → Setting → Prop
  | .loadAddress, v, x | .entryPoint, v, x => ∃ a, IsAddress a v ∧ x = .address (some a)
  | .instructions, v, x | .traceLimit, v, x =>
    ∃ n : Nat, n < 2 ^ 64 ∧ v = .integer n ∧ x = .counter n
  | .tracePath, v, x => ∃ s, v = .text s ∧ x = .path (some (String.ofList s))

theorem ofName?_eq_some_iff {name : Toml.Name} {field : ConfigField} :
    ofName? name = some field ↔ name = field.name.toList := by
  constructor
  · intro h
    have hname := List.find?_some h
    exact (of_decide_eq_true hname).symm
  · rintro rfl
    cases field <;> decide

theorem name_inj {field field' : ConfigField} (h : field.name.toList = field'.name.toList) :
    field = field' := by
  have hfield := ofName?_eq_some_iff.mpr h
  rw [ofName?_eq_some_iff.mpr rfl] at hfield
  exact Option.some.inj hfield

end ConfigField

namespace RunConfig

/-! ## Values -/

theorem address_ok_iff {field : ConfigField} {v : Toml.Value} {a : Word} :
    address field v = .ok a ↔ IsAddress a v := by
  cases v with
  | integer n =>
    rw [address, IsAddress]
    split
    · next hrange =>
      have hn : (BitVec.ofInt 32 n).toNat = n := by
        rw [BitVec.toNat_ofInt]
        omega
      constructor
      · rintro ⟨⟩
        exact .inl (congrArg _ hn.symm)
      · rintro (hvalue | ⟨s, hs, -⟩)
        · cases hvalue
          simp
        · cases hs
    · next hrange =>
      constructor
      · rintro ⟨⟩
      · rintro (hvalue | ⟨s, hs, -⟩)
        · cases hvalue
          have hlt := a.isLt
          exact absurd ⟨by omega, by omega⟩ hrange
        · cases hs
  | text s =>
    rw [address, IsAddress]
    cases hread : Address.read s <;> simp [hread]
  | _ => simp [address, IsAddress]

theorem counter_ok_iff {field : ConfigField} {v : Toml.Value} {n : Nat} :
    counter field v = .ok n ↔ n < 2 ^ 64 ∧ v = .integer n := by
  cases v with
  | integer m =>
    rw [counter]
    split
    · next hrange =>
      rw [Except.ok.injEq, Toml.Value.integer.injEq]
      omega
    · next hrange =>
      rw [Toml.Value.integer.injEq]
      simp only [reduceCtorEq, false_iff]
      omega
  | _ => simp [counter]

theorem path_ok_iff {field : ConfigField} {v : Toml.Value} {p : String} :
    path field v = .ok p ↔ ∃ s, v = .text s ∧ p = String.ofList s := by
  cases v <;> simp [path, eq_comm]

/-! ## Entries -/

theorem map_eq_ok {ε α β : Type} {x : Except ε α} {f : α → β} {b : β} :
    x.map f = .ok b ↔ ∃ a, x = .ok a ∧ f a = b := by
  cases x <;> simp [Except.map]

def put (c : RunConfig) : ConfigField → Setting → RunConfig
  | .loadAddress, .address (some a) => { c with loadAddress := a }
  | .entryPoint, .address a => { c with entryPoint := a }
  | .instructions, .counter n => { c with instructions := n }
  | .tracePath, .path p => { c with tracePath := p }
  | .traceLimit, .counter n => { c with traceLimit := n }
  | _, _ => c

variable {c c' : RunConfig} {field field' : ConfigField} {v : Toml.Value} {x : Setting}

theorem setting_put (h : field.Means v x) : (c.put field x).setting field = x := by
  cases field with
  | loadAddress | entryPoint =>
    obtain ⟨a, -, rfl⟩ := h
    rfl
  | instructions | traceLimit =>
    obtain ⟨n, -, -, rfl⟩ := h
    rfl
  | tracePath =>
    obtain ⟨s, -, rfl⟩ := h
    rfl

theorem setting_put_ne (hne : field' ≠ field) :
    (c.put field x).setting field' = c.setting field' := by
  unfold put
  split <;> cases field' <;> first | rfl | exact absurd rfl hne

theorem setField_ok_iff :
    c.setField field v = .ok c' ↔ ∃ x, field.Means v x ∧ c.put field x = c' := by
  cases field with
  | loadAddress | entryPoint =>
    simp only [setField, map_eq_ok, address_ok_iff, ConfigField.Means]
    constructor
    · rintro ⟨a, ha, rfl⟩
      exact ⟨_, ⟨a, ha, rfl⟩, rfl⟩
    · rintro ⟨_, ⟨a, ha, rfl⟩, rfl⟩
      exact ⟨a, ha, rfl⟩
  | instructions | traceLimit =>
    simp only [setField, map_eq_ok, counter_ok_iff, ConfigField.Means]
    constructor
    · rintro ⟨n, ⟨hlt, hn⟩, rfl⟩
      exact ⟨_, ⟨n, hlt, hn, rfl⟩, rfl⟩
    · rintro ⟨_, ⟨n, hlt, hn, rfl⟩, rfl⟩
      exact ⟨n, ⟨hlt, hn⟩, rfl⟩
  | tracePath =>
    simp only [setField, map_eq_ok, path_ok_iff, ConfigField.Means]
    constructor
    · rintro ⟨_, ⟨s, hs, rfl⟩, rfl⟩
      exact ⟨_, ⟨s, hs, rfl⟩, rfl⟩
    · rintro ⟨_, ⟨s, hs, rfl⟩, rfl⟩
      exact ⟨_, ⟨s, hs, rfl⟩, rfl⟩

theorem means_unique {y : Setting} (hx : field.Means v x) (hy : field.Means v y) : x = y := by
  have hput : ({} : RunConfig).setField field v = .ok (({} : RunConfig).put field x) :=
    setField_ok_iff.mpr ⟨x, hx, rfl⟩
  rw [setField_ok_iff.mpr ⟨y, hy, rfl⟩, Except.ok.injEq] at hput
  rw [← setting_put (c := {}) hx, ← hput, setting_put hy]

/-! ## Entries -/

/-- The entry is one of a field, of a value that is a setting for it. -/
def Fits (e : Toml.Name × Toml.Value) : Prop :=
  ∃ (field : ConfigField) (x : Setting), e.1 = field.name.toList ∧ field.Means e.2 x

/-- The configuration holds what the entries give, and for the fields without an entry what `c`
holds. -/
def Overrides (c : RunConfig) (t : Toml.Table) (c' : RunConfig) : Prop :=
  ∀ field : ConfigField,
    (∃ v, (field.name.toList, v) ∈ t ∧ field.Means v (c'.setting field)) ∨
      (∀ v, (field.name.toList, v) ∉ t) ∧ c'.setting field = c.setting field

theorem setEntry_ok_iff {e : Toml.Name × Toml.Value} :
    c.setEntry e = .ok c' ↔
      ∃ field x, e.1 = field.name.toList ∧ field.Means e.2 x ∧ c.put field x = c' := by
  rw [setEntry]
  cases hfield : ConfigField.ofName? e.1 with
  | none =>
    simp only [reduceCtorEq, false_iff]
    rintro ⟨field, x, hname, -⟩
    rw [ConfigField.ofName?_eq_some_iff.mpr hname] at hfield
    cases hfield
  | some field =>
    have hname := ConfigField.ofName?_eq_some_iff.mp hfield
    simp only [setField_ok_iff]
    constructor
    · rintro ⟨x, hx, hput⟩
      exact ⟨field, x, hname, hx, hput⟩
    · rintro ⟨field', x, hname', hx, hput⟩
      obtain rfl := ConfigField.name_inj (hname.symm.trans hname')
      exact ⟨x, hx, hput⟩

theorem foldlM_setEntry {t : Toml.Table} (h : t.foldlM setEntry c = .ok c') :
    (∀ e ∈ t, Fits e) ∧ c.Overrides t c' := by
  induction t generalizing c with
  | nil =>
    cases h
    exact ⟨fun _ he => absurd he List.not_mem_nil, fun _ => .inr ⟨fun _ => List.not_mem_nil, rfl⟩⟩
  | cons e t ih =>
    rw [List.foldlM_cons] at h
    cases hentry : c.setEntry e with
    | error error =>
      rw [hentry] at h
      cases h
    | ok c₁ =>
      rw [hentry] at h
      obtain ⟨hfits, hover⟩ := ih h
      obtain ⟨field, x, hname, hx, rfl⟩ := setEntry_ok_iff.mp hentry
      refine ⟨List.forall_mem_cons.mpr ⟨⟨field, x, hname, hx⟩, hfits⟩, fun field' => ?_⟩
      obtain ⟨v, hv, hmeans⟩ | ⟨habsent, hsame⟩ := hover field'
      · exact .inl ⟨v, List.mem_cons_of_mem e hv, hmeans⟩
      · by_cases hfield : field' = field
        · subst hfield
          rw [setting_put hx] at hsame
          refine .inl ⟨e.2, ?_, hsame ▸ hx⟩
          rw [← hname]
          exact List.mem_cons_self
        · rw [setting_put_ne hfield] at hsame
          refine .inr ⟨fun v hv => ?_, hsame⟩
          obtain rfl | hv := List.mem_cons.mp hv
          · exact hfield (ConfigField.name_inj hname)
          · exact habsent v hv

theorem exists_foldlM_setEntry {t : Toml.Table} (h : ∀ e ∈ t, Fits e) :
    ∃ c', t.foldlM setEntry c = .ok c' := by
  induction t generalizing c with
  | nil => exact ⟨c, rfl⟩
  | cons e t ih =>
    rw [List.forall_mem_cons] at h
    obtain ⟨⟨field, x, hname, hx⟩, ht⟩ := h
    have hentry : c.setEntry e = .ok (c.put field x) :=
      setEntry_ok_iff.mpr ⟨field, x, hname, hx, rfl⟩
    rw [List.foldlM_cons, hentry]
    exact ih ht

/-! ## Tables -/

variable {t : Toml.Table}

theorem exists_ofTable_iff : (∃ c, ofTable t = .ok c) ↔ ∀ e ∈ t, Fits e := by
  constructor
  · rintro ⟨c, hc⟩ e he
    exact (foldlM_setEntry hc).1 e (List.mem_mergeSort.mpr he)
  · exact fun h => exists_foldlM_setEntry fun e he => h e (List.mem_mergeSort.mp he)

theorem overrides_of_ofTable (h : ofTable t = .ok c) : Overrides {} t c := by
  intro field
  have hfield := (foldlM_setEntry h).2 field
  simpa only [List.mem_mergeSort] using hfield

/-- Entries of different names leave no choice. -/
theorem Overrides.unique {c'' : RunConfig} (hnodup : (t.map Prod.fst).Nodup)
    (h : c.Overrides t c') (h' : c.Overrides t c'') : c' = c'' := by
  apply ext_setting
  intro field
  obtain ⟨v, hv, hmeans⟩ | ⟨habsent, hsame⟩ := h field <;>
    obtain ⟨v', hv', hmeans'⟩ | ⟨habsent', hsame'⟩ := h' field
  · cases List.inj_on_of_nodup_map hnodup hv hv' rfl
    exact means_unique hmeans hmeans'
  · exact absurd hv (habsent' v)
  · exact absurd hv' (habsent v')
  · exact hsame.trans hsame'.symm

theorem ofTable_ok_iff (hnodup : (t.map Prod.fst).Nodup) :
    ofTable t = .ok c ↔ (∀ e ∈ t, Fits e) ∧ Overrides {} t c := by
  constructor
  · exact fun h => ⟨exists_ofTable_iff.mp ⟨c, h⟩, overrides_of_ofTable h⟩
  · rintro ⟨hfits, hover⟩
    obtain ⟨c', hc'⟩ := exists_ofTable_iff.mpr hfits
    rw [hc', (overrides_of_ofTable hc').unique hnodup hover]

/-! ## Order and spelling -/

abbrev sorted (t : Toml.Table) : Toml.Table := t.mergeSort fun a b => precedes a.1 b.1

theorem precedes_cons {a b : Char} {as bs : Toml.Name} :
    precedes (a :: as) (b :: bs) = true ↔
      a.toNat < b.toNat ∨ a.toNat = b.toNat ∧ precedes as bs = true := by
  simp [precedes]

theorem precedes_total (a b : Toml.Name) : precedes a b = true ∨ precedes b a = true := by
  induction a generalizing b with
  | nil => exact .inl rfl
  | cons x a ih =>
    cases b with
    | nil => exact .inr rfl
    | cons y b =>
      rw [precedes_cons, precedes_cons]
      have hrest := ih b
      grind

theorem precedes_trans {a b c : Toml.Name} (hab : precedes a b = true)
    (hbc : precedes b c = true) : precedes a c = true := by
  induction a generalizing b c with
  | nil => rfl
  | cons x a ih =>
    cases b with
    | nil => cases hab
    | cons y b =>
      cases c with
      | nil => cases hbc
      | cons z c =>
        rw [precedes_cons] at hab hbc ⊢
        have hrest := ih (b := b) (c := c)
        grind

theorem precedes_antisymm {a b : Toml.Name} (hab : precedes a b = true)
    (hba : precedes b a = true) : a = b := by
  induction a generalizing b with
  | nil =>
    cases b with
    | nil => rfl
    | cons y b => cases hba
  | cons x a ih =>
    cases b with
    | nil => cases hab
    | cons y b =>
      rw [precedes_cons] at hab hba
      obtain ⟨hsame, hrest⟩ : x.toNat = y.toNat ∧ precedes a b = true := by
        refine hab.resolve_left fun hlt => ?_
        omega
      have hrest' := (hba.resolve_left (by omega)).2
      rw [Char.toNat_inj.mp hsame, ih hrest hrest']

/-- Entries of different names can be put into order in one way only. -/
theorem sorted_of_perm {t' : Toml.Table} (hperm : t.Perm t') (hnodup : (t.map Prod.fst).Nodup) :
    sorted t = sorted t' := by
  have htrans : ∀ a b c : Toml.Name × Toml.Value,
      precedes a.1 b.1 = true → precedes b.1 c.1 = true → precedes a.1 c.1 = true :=
    fun _ _ _ => precedes_trans
  have htotal : ∀ a b : Toml.Name × Toml.Value,
      (precedes a.1 b.1 || precedes b.1 a.1) = true :=
    fun a b => (Bool.or_eq_true _ _).mpr (precedes_total a.1 b.1)
  refine List.Perm.eq_of_pairwise ?_ (List.pairwise_mergeSort htrans htotal t)
    (List.pairwise_mergeSort htrans htotal t')
    ((List.mergeSort_perm t _).trans (hperm.trans (List.mergeSort_perm t' _).symm))
  intro a b ha hb hab hba
  have hname : a.1 = b.1 := precedes_antisymm hab hba
  have ha : a ∈ t := List.mem_mergeSort.mp ha
  have hb : b ∈ t := hperm.mem_iff.mpr (List.mem_mergeSort.mp hb)
  exact List.inj_on_of_nodup_map hnodup ha hb hname

theorem ofTable_of_perm {t' : Toml.Table} (hperm : t.Perm t') (hnodup : (t.map Prod.fst).Nodup) :
    ofTable t = ofTable t' :=
  congrArg (List.foldlM setEntry {}) (sorted_of_perm hperm hnodup)

/-- Entries that set the same are interchangeable. -/
def SameEntry (e e' : Toml.Name × Toml.Value) : Prop :=
  e.1 = e'.1 ∧ ∀ c : RunConfig, c.setEntry e = c.setEntry e'

theorem sameEntry_of_means {e e' : Toml.Name × Toml.Value} (hname : e.1 = field.name.toList)
    (hname' : e'.1 = field.name.toList) (hx : field.Means e.2 x) (hx' : field.Means e'.2 x) :
    SameEntry e e' := by
  refine ⟨hname.trans hname'.symm, fun c => ?_⟩
  rw [setEntry_ok_iff.mpr ⟨field, x, hname, hx, rfl⟩,
    setEntry_ok_iff.mpr ⟨field, x, hname', hx', rfl⟩]

theorem means_address (hfield : field = .loadAddress ∨ field = .entryPoint) {a : Word}
    (hv : IsAddress a v) : field.Means v (.address (some a)) := by
  obtain rfl | rfl := hfield <;> exact ⟨a, hv, rfl⟩

/-- The entries are the same, or they give the same address to a field that holds one. -/
inductive SameSetting : Toml.Name × Toml.Value → Toml.Name × Toml.Value → Prop
  | same (e : Toml.Name × Toml.Value) : SameSetting e e
  | address {field : ConfigField} (hfield : field = .loadAddress ∨ field = .entryPoint) {a : Word}
    {v v' : Toml.Value} (hv : IsAddress a v) (hv' : IsAddress a v') :
    SameSetting (field.name.toList, v) (field.name.toList, v')

theorem SameSetting.sameEntry {e e' : Toml.Name × Toml.Value} (h : SameSetting e e') :
    SameEntry e e' := by
  cases h with
  | same => exact ⟨rfl, fun _ => rfl⟩
  | address hfield hv hv' =>
    exact sameEntry_of_means rfl rfl (means_address hfield hv) (means_address hfield hv')

theorem names_of_same {t' : Toml.Table} (h : List.Forall₂ SameEntry t t') :
    t.map Prod.fst = t'.map Prod.fst := by
  induction h with
  | nil => rfl
  | cons hentry _ ih => rw [List.map_cons, List.map_cons, hentry.1, ih]

theorem foldlM_of_same {t' : Toml.Table} (h : List.Forall₂ SameEntry t t') (c : RunConfig) :
    t.foldlM setEntry c = t'.foldlM setEntry c := by
  induction h generalizing c with
  | nil => rfl
  | cons hentry _ ih =>
    rw [List.foldlM_cons, List.foldlM_cons, hentry.2 c]
    exact bind_congr ih

/-- Both tables are sorted by sorting the pairs of their entries, as the names are the same. -/
theorem sorted_of_same {t' : Toml.Table} (h : List.Forall₂ SameEntry t t') :
    List.Forall₂ SameEntry (sorted t) (sorted t') := by
  let pairs := t.zip t'
  let ordered := pairs.mergeSort fun p q => precedes p.1.1 q.1.1
  have hpairs : ∀ p ∈ pairs, SameEntry p.1 p.2 := fun p hp => List.forall₂_zip h hp
  have hfst : ordered.map Prod.fst = sorted (pairs.map Prod.fst) :=
    List.map_mergeSort fun _ _ _ _ => rfl
  have hsnd : ordered.map Prod.snd = sorted (pairs.map Prod.snd) :=
    List.map_mergeSort fun p hp q hq => by rw [(hpairs p hp).1, (hpairs q hq).1]
  rw [List.map_fst_zip (Nat.le_of_eq h.length_eq)] at hfst
  rw [List.map_snd_zip (Nat.le_of_eq h.length_eq.symm)] at hsnd
  rw [← hfst, ← hsnd, List.forall₂_map_left_iff, List.forall₂_map_right_iff, List.forall₂_same]
  exact fun p hp => hpairs p (List.mem_mergeSort.mp hp)

theorem ofTable_of_same {t' : Toml.Table} (h : List.Forall₂ SameEntry t t') :
    ofTable t = ofTable t' :=
  foldlM_of_same (sorted_of_same h) _

end RunConfig

end Mips
