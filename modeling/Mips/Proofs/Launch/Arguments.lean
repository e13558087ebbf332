import Mathlib.Data.List.Nodup
import Mathlib.Data.List.TakeDrop
import Mathlib.Data.List.TakeWhile
import Mips.Launch
import Mips.Proofs.Text.Digits
/-!
# Which command lines are understood

A command line is read exactly if it spells its arguments in one of the ways that an option may be
written, and a launch has exactly the options that its arguments ask for.
-/

namespace Mips

/-! ## Single arguments -/

namespace ArgumentForm

inductive Spells : ArgumentForm → String → Prop
  | dash : Spells .operand "-"
  | operand {s : String} (hs : s.toList.head? ≠ some '-') : Spells .operand s
  | terminator : Spells .terminator "--"
  | long {name : String} (hname : name ≠ "") (hplain : '=' ∉ name.toList) :
    Spells (.long name none) ("--" ++ name)
  | longWith {name : String} (hplain : '=' ∉ name.toList) (v : String) :
    Spells (.long name (some v)) ("--" ++ name ++ "=" ++ v)
  | short {c : Char} (hc : c ≠ '-') : Spells (.short c none) ("-" ++ String.singleton c)
  | shortWith {c : Char} (hc : c ≠ '-') (v : String) :
    Spells (.short c (some v)) ("-" ++ String.singleton c ++ "=" ++ v)
  | shortJoined {c d : Char} (hc : c ≠ '-') {v : String} (hv : v.toList.head? = some d)
    (hd : d ≠ '=') : Spells (.short c (some v)) ("-" ++ String.singleton c ++ v)

theorem span_of_plain {cs : List Char} (hplain : '=' ∉ cs) (rest : List Char) :
    cs.span (· ≠ '=') = (cs, []) ∧ (cs ++ '=' :: rest).span (· ≠ '=') = (cs, '=' :: rest) := by
  have hall : ∀ c ∈ cs, decide (c ≠ '=') = true := by
    rintro c hc
    exact decide_eq_true fun h => hplain (h ▸ hc)
  rw [List.span_eq_takeWhile_dropWhile, List.span_eq_takeWhile_dropWhile,
    List.takeWhile_eq_self_iff.mpr hall, List.dropWhile_eq_nil_iff.mpr hall,
    List.takeWhile_append_of_pos hall, List.dropWhile_append_of_pos hall]
  simp

theorem plain_of_span {cs name rest : List Char} (hspan : cs.span (· ≠ '=') = (name, rest)) :
    cs = name ++ rest ∧ '=' ∉ name ∧ ∀ e value, rest = e :: value → e = '=' := by
  rw [List.span_eq_takeWhile_dropWhile] at hspan
  cases hspan
  refine ⟨List.takeWhile_append_dropWhile.symm, fun hmem => ?_, fun e value hrest => ?_⟩
  · simpa using List.mem_takeWhile_imp hmem
  · have hhead := List.head?_dropWhile_not (· ≠ '=') cs
    rw [hrest] at hhead
    simpa using hhead

section

variable {s : String} {cs name value : List Char} {e : Char}

theorem of_dashes (hs : s.toList = '-' :: '-' :: cs) (hne : cs ≠ [])
    (hspan : cs.span (· ≠ '=') = (name, [])) : of s = .long (String.ofList name) none := by
  obtain ⟨c, cs, rfl⟩ := List.exists_cons_of_ne_nil hne
  simp only [of, hs, hspan]

theorem of_dashes_with (hs : s.toList = '-' :: '-' :: cs)
    (hspan : cs.span (· ≠ '=') = (name, e :: value)) :
    of s = .long (String.ofList name) (some (String.ofList value)) := by
  cases cs with
  | nil => cases hspan
  | cons c cs => simp only [of, hs, hspan]

end

theorem Spells.of_eq {form : ArgumentForm} {s : String} (h : form.Spells s) : of s = form := by
  cases h with
  | dash => decide
  | operand hs =>
    unfold of
    split <;> simp_all
  | terminator => decide
  | @long name hname hplain =>
    obtain ⟨hspan, -⟩ := span_of_plain hplain []
    rw [of_dashes (by simp) (mt String.toList_eq_nil_iff.mp hname) hspan, String.ofList_toList]
  | @longWith name hplain v =>
    obtain ⟨-, hspan⟩ := span_of_plain hplain v.toList
    rw [of_dashes_with (by simp) hspan, String.ofList_toList, String.ofList_toList]
  | @short c hc =>
    have hs : ("-" ++ String.singleton c).toList = ['-', c] := by simp
    rw [of, hs]
    simp
  | @shortWith c hc v =>
    have hs : ("-" ++ String.singleton c ++ "=" ++ v).toList = '-' :: c :: '=' :: v.toList := by
      simp
    rw [of, hs]
    simp
  | @shortJoined c d hc v hv hd =>
    have hs : ("-" ++ String.singleton c ++ v).toList = '-' :: c :: v.toList := by simp
    obtain ⟨ds, hds⟩ := List.head?_eq_some_iff.mp hv
    have hvalue : v = String.ofList (d :: ds) := by rw [← hds, String.ofList_toList]
    rw [of, hs, hds, hvalue]
    simp [hd]

/-- Case by case as the argument is looked at. -/
theorem spells_of (s : String) : (of s).Spells s := by
  have hs : s = String.ofList s.toList := String.ofList_toList.symm
  unfold of
  split
  · next hcs =>
    rw [hs, hcs]
    exact .terminator
  · next cs hne hcs =>
    split
    · next name hspan =>
      obtain ⟨rfl, hplain, -⟩ := plain_of_span hspan
      rw [List.append_nil] at hcs
      have hne : name ≠ [] := fun h => hne (by rw [h, List.append_nil])
      have htext : s = "--" ++ String.ofList name := String.toList_inj.mp (by simp [hcs])
      rw [htext]
      exact .long (mt String.ofList_eq_empty_iff.mp hne) (by rwa [String.toList_ofList])
    · next name e value hspan =>
      obtain ⟨rfl, hplain, hstop⟩ := plain_of_span hspan
      obtain rfl := hstop e value rfl
      have htext : s = "--" ++ String.ofList name ++ "=" ++ String.ofList value :=
        String.toList_inj.mp (by simp [hcs])
      rw [htext]
      exact .longWith (by rwa [String.toList_ofList]) _
  · next c hc hcs =>
    have htext : s = "-" ++ String.singleton c := String.toList_inj.mp (by simp [hcs])
    rw [htext]
    exact .short hc
  · next c value hc hcs =>
    have htext : s = "-" ++ String.singleton c ++ "=" ++ String.ofList value :=
      String.toList_inj.mp (by simp [hcs])
    rw [htext]
    exact .shortWith hc _
  · next c value _ hc hempty hvalue hcs =>
    have htext : s = "-" ++ String.singleton c ++ String.ofList value :=
      String.toList_inj.mp (by simp [hcs])
    obtain ⟨d, ds, rfl⟩ := List.exists_cons_of_ne_nil hempty
    rw [htext]
    refine .shortJoined hc (d := d) (by rw [String.toList_ofList, List.head?_cons]) ?_
    rintro rfl
    exact hvalue ds rfl
  · next hjoined =>
    by_cases hdash : s = "-"
    · rw [hdash]
      exact .dash
    · refine .operand fun hhead => ?_
      obtain ⟨cs, hcs⟩ := List.head?_eq_some_iff.mp hhead
      cases cs with
      | nil => exact hdash (String.toList_inj.mp hcs)
      | cons c cs => exact hjoined c cs hcs

theorem of_eq_iff {form : ArgumentForm} {s : String} : of s = form ↔ form.Spells s :=
  ⟨fun h => h ▸ spells_of s, Spells.of_eq⟩

end ArgumentForm

/-! ## Command lines -/

namespace OptionSpec

/-- The ways to write an option, with its value in the same argument or without. -/
def Names (spec : OptionSpec) (value : Option String) (s : String) : Prop :=
  (ArgumentForm.long spec.long value).Spells s ∨
    ∃ c, spec.short? = some c ∧ (ArgumentForm.short c value).Spells s

/-- No two options have a name in common. -/
structure Distinct (specs : List OptionSpec) : Prop where
  long : ∀ spec ∈ specs, ∀ spec' ∈ specs, spec.long = spec'.long → spec = spec'
  short : ∀ spec ∈ specs, ∀ spec' ∈ specs, spec.short?.isSome → spec.short? = spec'.short? →
    spec = spec'

theorem find?_of_unique {specs : List OptionSpec} {spec : OptionSpec} {p : OptionSpec → Bool}
    (hspec : spec ∈ specs) (hp : p spec = true)
    (hunique : ∀ spec' ∈ specs, p spec' = true → spec = spec') : specs.find? p = some spec := by
  cases hfind : specs.find? p with
  | none => exact absurd hp (List.find?_eq_none.mp hfind spec hspec)
  | some spec' => rw [hunique spec' (List.mem_of_find?_eq_some hfind) (List.find?_some hfind)]

end OptionSpec

namespace Arguments

variable {specs : List OptionSpec}

inductive Spells (specs : List OptionSpec) : Arguments → List String → Prop
  | nil : Spells specs {} []
  | terminator (operands : List String) : Spells specs { operands } ("--" :: operands)
  | operand {s : String} (hs : ArgumentForm.operand.Spells s) {a : Arguments} {args : List String}
    (h : Spells specs a args) : Spells specs (a.addOperand s) (s :: args)
  | flag {long s : String} (hspec : .flag long ∈ specs)
    (hs : (ArgumentForm.long long none).Spells s) {a : Arguments} {args : List String}
    (h : Spells specs a args) : Spells specs (a.addOption (.flag long) "") (s :: args)
  | attached {spec : OptionSpec} {v s : String} (hspec : spec ∈ specs)
    (hvalued : ∀ long, spec ≠ .flag long) (hs : spec.Names (some v) s) {a : Arguments}
    {args : List String} (h : Spells specs a args) :
    Spells specs (a.addOption spec v) (s :: args)
  | apart {spec : OptionSpec} {v s : String} (hspec : spec ∈ specs)
    (hvalued : ∀ long, spec ≠ .flag long) (hs : spec.Names none s)
    (hv : ArgumentForm.operand.Spells v) {a : Arguments} {args : List String}
    (h : Spells specs a args) : Spells specs (a.addOption spec v) (s :: v :: args)

theorem Spells.scan_eq (hdistinct : OptionSpec.Distinct specs) {a : Arguments}
    {args : List String} (h : Spells specs a args) : scan specs args = some a := by
  have hlong {spec : OptionSpec} (hspec : spec ∈ specs) :
      specs.find? (·.long = spec.long) = some spec :=
    OptionSpec.find?_of_unique hspec (decide_eq_true rfl) fun spec' hspec' hsame =>
      hdistinct.long spec hspec spec' hspec' (of_decide_eq_true hsame).symm
  have hshort {spec : OptionSpec} (hspec : spec ∈ specs) {c : Char} (hc : spec.short? = some c) :
      specs.find? (·.short? = some c) = some spec :=
    OptionSpec.find?_of_unique hspec (decide_eq_true hc) fun spec' hspec' hsame =>
      hdistinct.short spec hspec spec' hspec' (hc ▸ rfl) (hc.trans (of_decide_eq_true hsame).symm)
  induction h with
  | nil => rfl
  | terminator operands => rfl
  | operand hs _ ih =>
    rw [scan, hs.of_eq, ih]
    rfl
  | @flag long s hspec hs a args _ ih =>
    have hfind : specs.find? (·.long = long) = some (.flag long) := hlong hspec
    simp only [scan, hs.of_eq, hfind, ih]
    rfl
  | @attached spec v s hspec hvalued hs a args _ ih =>
    obtain hs | ⟨c, hc, hs⟩ := hs
    · simp only [scan, hs.of_eq, hlong hspec, ih]
      cases spec with
      | flag long => exact absurd rfl (hvalued long)
      | valued long short => rfl
    · simp only [scan, hs.of_eq, hshort hspec hc, ih]
      rfl
  | @apart spec v s hspec hvalued hs hv a args _ ih =>
    obtain hs | ⟨c, hc, hs⟩ := hs
    · simp only [scan, hs.of_eq, hlong hspec, hv.of_eq, ih]
      cases spec with
      | flag long => exact absurd rfl (hvalued long)
      | valued long short => rfl
    · simp only [scan, hs.of_eq, hshort hspec hc, hv.of_eq, ih]
      rfl

theorem spells_of_scan {a : Arguments} {args : List String} (h : scan specs args = some a) :
    Spells specs a args := by
  have hlong {name : String} {spec : OptionSpec} {value : Option String} {s : String}
      (hfind : specs.find? (·.long = name) = some spec)
      (hs : ArgumentForm.of s = .long name value) : spec ∈ specs ∧ spec.Names value s := by
    have hname := List.find?_some hfind
    obtain rfl : spec.long = name := of_decide_eq_true hname
    exact ⟨List.mem_of_find?_eq_some hfind, .inl (ArgumentForm.of_eq_iff.mp hs)⟩
  have hshort {c : Char} {spec : OptionSpec} {value : Option String} {s : String}
      (hfind : specs.find? (·.short? = some c) = some spec)
      (hs : ArgumentForm.of s = .short c value) :
      spec ∈ specs ∧ (∀ long, spec ≠ .flag long) ∧ spec.Names value s := by
    have hname := List.find?_some hfind
    have hc : spec.short? = some c := of_decide_eq_true hname
    refine ⟨List.mem_of_find?_eq_some hfind, ?_, .inr ⟨c, hc, ArgumentForm.of_eq_iff.mp hs⟩⟩
    rintro long rfl
    cases hc
  fun_induction scan specs args generalizing a with
  | case1 =>
    cases h
    exact .nil
  | case2 s args hs ih =>
    obtain ⟨b, hb, rfl⟩ := Option.map_eq_some_iff.mp h
    exact .operand (ArgumentForm.of_eq_iff.mp hs) (ih hb)
  | case3 s args hs =>
    cases h
    cases ArgumentForm.of_eq_iff.mp hs
    exact .terminator args
  | case5 s args name spec v hvalued hfind hs ih =>
    obtain ⟨b, hb, rfl⟩ := Option.map_eq_some_iff.mp h
    obtain ⟨hspec, hnames⟩ := hlong hfind hs
    exact .attached hspec hvalued hnames (ih hb)
  | case6 s args name long hfind hs ih =>
    obtain ⟨b, hb, rfl⟩ := Option.map_eq_some_iff.mp h
    obtain ⟨hspec, hnames⟩ := hlong hfind hs
    obtain hnames | ⟨c, hc, -⟩ := hnames
    · exact .flag hspec hnames (ih hb)
    · cases hc
  | case7 s name spec hvalued hfind v args hv hs ih =>
    obtain ⟨b, hb, rfl⟩ := Option.map_eq_some_iff.mp h
    obtain ⟨hspec, hnames⟩ := hlong hfind hs
    exact .apart hspec hvalued hnames (ArgumentForm.of_eq_iff.mp hv) (ih hb)
  | case11 s args c spec v hfind hs ih =>
    obtain ⟨b, hb, rfl⟩ := Option.map_eq_some_iff.mp h
    obtain ⟨hspec, hvalued, hnames⟩ := hshort hfind hs
    exact .attached hspec hvalued hnames (ih hb)
  | case12 s c spec hfind v args hv hs ih =>
    obtain ⟨b, hb, rfl⟩ := Option.map_eq_some_iff.mp h
    obtain ⟨hspec, hvalued, hnames⟩ := hshort hfind hs
    exact .apart hspec hvalued hnames (ArgumentForm.of_eq_iff.mp hv) (ih hb)
  | case4 | case8 | case9 | case10 | case13 | case14 | case15 => cases h

/-- An option may be given once, and the command line has to spell out its arguments. -/
theorem read?_eq_some_iff (hdistinct : OptionSpec.Distinct specs) {a : Arguments}
    {args : List String} :
    read? specs args = some a ↔ Spells specs a args ∧ (a.options.map Prod.fst).Nodup := by
  rw [read?, Option.filter_eq_some_iff, decide_eq_true_eq]
  exact and_congr_left fun _ => ⟨spells_of_scan, Spells.scan_eq hdistinct⟩

/-- What an option comes to: nothing if it is not given, and else what its value means. -/
def Gives {α : Type} (a : Arguments) (long : String) (Means : String → α → Prop) :
    Option α → Prop
  | none => ∀ s, (long, s) ∉ a.options
  | some v => ∃ s, (long, s) ∈ a.options ∧ Means s v

section

variable {a : Arguments} {long : String}

theorem value?_eq_none_iff : a.value? long = none ↔ ∀ s, (long, s) ∉ a.options := by
  rw [value?, List.lookup_eq_none_iff]
  constructor
  · intro h s hs
    simpa using h _ hs
  · rintro h ⟨name, s⟩ hs
    rw [bne_iff_ne]
    rintro rfl
    exact h s hs

theorem value?_eq_some_iff (hnodup : (a.options.map Prod.fst).Nodup) {s : String} :
    a.value? long = some s ↔ (long, s) ∈ a.options := by
  have hmem {s : String} (hs : a.value? long = some s) : (long, s) ∈ a.options := by
    obtain ⟨before, after, hoptions, -⟩ := List.lookup_eq_some_iff.mp hs
    simp [hoptions]
  refine ⟨hmem, fun hs => ?_⟩
  cases hvalue : a.value? long with
  | none => exact absurd hs (value?_eq_none_iff.mp hvalue s)
  | some s' => cases List.inj_on_of_nodup_map hnodup (hmem hvalue) hs rfl; rfl

theorem checked?_eq_some_iff (hnodup : (a.options.map Prod.fst).Nodup) {α : Type}
    {check : String → Option α} {Means : String → α → Prop}
    (hcheck : ∀ s v, check s = some v ↔ Means s v) {x : Option α} :
    a.checked? long check = some x ↔ a.Gives long Means x := by
  unfold checked?
  cases hvalue : a.value? long with
  | none =>
    have habsent := value?_eq_none_iff.mp hvalue
    cases x with
    | none => simpa [Gives] using habsent
    | some v => simp [Gives, habsent]
  | some s =>
    have hs := (value?_eq_some_iff hnodup).mp hvalue
    have hunique {s' : String} (hs' : (long, s') ∈ a.options) : s = s' := by
      cases List.inj_on_of_nodup_map hnodup hs hs' rfl
      rfl
    cases x with
    | none =>
      simp only [Option.map_eq_some_iff, reduceCtorEq, and_false, exists_false, Gives, false_iff]
      exact fun h => h s hs
    | some v =>
      rw [Option.map_eq_some_iff]
      constructor
      · rintro ⟨_, hv, ⟨⟩⟩
        exact ⟨s, hs, (hcheck s v).mp hv⟩
      · rintro ⟨s', hs', hv⟩
        obtain rfl := hunique hs'
        exact ⟨v, (hcheck s v).mpr hv, rfl⟩

end

end Arguments

/-! ## Options of a launch -/

namespace LaunchOptions

open Numeral

/-- A text is a number of instructions: decimal digits, which may have a plus sign. -/
def IsCounter (s : String) (n : Nat) : Prop :=
  withoutPlus s.toList ≠ [] ∧ Denotes 10 (withoutPlus s.toList) n ∧ n < 2 ^ 64

structure Asked (o : LaunchOptions) (a : Arguments) : Prop where
  image : a.operands = [o.image]
  config : a.Gives "config" (fun s name => s ≠ "" ∧ name = s) o.config
  loadAddress : a.Gives "load-address" (fun s v => Address.read s.toList = .ok v) o.loadAddress
  entry : a.Gives "entry" (fun s v => Address.read s.toList = .ok v) o.entry
  instructions : a.Gives "instructions" IsCounter o.instructions
  trace : a.Gives "trace" (fun s name => s ≠ "" ∧ name = s) o.trace
  dumpState : o.dumpState = true ↔ ∃ s, ("dump-state", s) ∈ a.options

theorem path?_eq_some_iff (s name : String) : path? s = some name ↔ s ≠ "" ∧ name = s := by
  unfold path?
  by_cases hs : s.isEmpty
  · rw [if_pos hs]
    simp [String.isEmpty_iff.mp hs]
  · rw [if_neg hs, Option.some.injEq, eq_comm]
    exact (and_iff_right (mt String.isEmpty_iff.mpr hs)).symm

theorem address?_eq_some_iff (s : String) (v : Word) :
    address? s = some v ↔ Address.read s.toList = .ok v := by
  unfold address?
  cases Address.read s.toList <;> simp [Except.toOption]

theorem counter?_eq_some_iff (s : String) (n : Nat) :
    counter? s.toList = some n ↔ IsCounter s n := by
  have hbound : 0x10000000000000000 = 2 ^ 64 := rfl
  rw [IsCounter, ← hbound, ← read_ok_iff (by decide) (by decide) (by decide), counter?]
  cases read 10 0x10000000000000000 s.toList <;> simp [Except.toOption]

theorem has_eq_true_iff {a : Arguments} {long : String} :
    a.has long = true ↔ ∃ s, (long, s) ∈ a.options := by
  have hnone : a.value? long = none ↔ ∀ s, (long, s) ∉ a.options := Arguments.value?_eq_none_iff
  rw [Arguments.value?] at hnone
  rw [Arguments.has, Option.isSome_iff_ne_none, ne_eq, hnone]
  simp

theorem ofArguments?_eq_some_iff {a : Arguments} (hnodup : (a.options.map Prod.fst).Nodup)
    {o : LaunchOptions} : ofArguments? a = some o ↔ o.Asked a := by
  have hpath {long : String} {x : Option String} : a.checked? long path? = some x ↔
      a.Gives long (fun s name => s ≠ "" ∧ name = s) x :=
    Arguments.checked?_eq_some_iff hnodup path?_eq_some_iff
  have haddress {long : String} {x : Option Word} : a.checked? long address? = some x ↔
      a.Gives long (fun s v => Address.read s.toList = .ok v) x :=
    Arguments.checked?_eq_some_iff hnodup address?_eq_some_iff
  have hcounter {long : String} {x : Option Nat} :
      a.checked? long (fun s => counter? s.toList) = some x ↔ a.Gives long IsCounter x :=
    Arguments.checked?_eq_some_iff hnodup counter?_eq_some_iff
  unfold ofArguments?
  constructor
  · intro h
    split at h
    · next image hoperands =>
      simp only [Option.bind_eq_bind, Option.bind_eq_some_iff, Option.pure_def,
        Option.some.injEq] at h
      obtain ⟨config, hconfig, load, hload, entry, hentry, n, hn, trace, htrace, rfl⟩ := h
      exact ⟨hoperands, hpath.mp hconfig, haddress.mp hload, haddress.mp hentry, hcounter.mp hn,
        hpath.mp htrace, has_eq_true_iff⟩
    · cases h
  · rintro ⟨himage, hconfig, hload, hentry, hn, htrace, hdump⟩
    have hflag : a.has "dump-state" = o.dumpState := by
      rw [Bool.eq_iff_iff, has_eq_true_iff, hdump]
    simp only [himage, hpath.mpr hconfig, haddress.mpr hload, haddress.mpr hentry,
      hcounter.mpr hn, hpath.mpr htrace, hflag, Option.bind_eq_bind, Option.bind_some,
      Option.pure_def]

/-- The command line spells out arguments, none of them given twice, that ask for the options. -/
def AskedBy (o : LaunchOptions) (args : List String) : Prop :=
  ∃ a, Arguments.Spells specs a args ∧ (a.options.map Prod.fst).Nodup ∧ o.Asked a

theorem read?_eq_some_iff {args : List String} {o : LaunchOptions} :
    read? args = some o ↔ o.AskedBy args := by
  have hdistinct : OptionSpec.Distinct specs := ⟨by decide, by decide⟩
  rw [read?, Option.bind_eq_some_iff, AskedBy]
  refine exists_congr fun a => ?_
  rw [Arguments.read?_eq_some_iff hdistinct, and_assoc]
  exact and_congr_right fun _ => and_congr_right fun hnodup => ofArguments?_eq_some_iff hnodup

/-- The values of options stand apart, joined or behind an equals sign. -/
example :
    let args := ["-c", "c", "-e0x10", "--instructions=+7", "--load-address", "16", "--trace=t",
      "--", "-i"]
    let o : LaunchOptions :=
      { image := "-i", config := some "c", loadAddress := some 16, entry := some 16,
        instructions := some 7, trace := some "t" }
    o.AskedBy args :=
  read?_eq_some_iff.mp (by decide)

end LaunchOptions

end Mips
