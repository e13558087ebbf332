import Mips.Proofs.Text.Digits
import Mips.Toml.Statement
/-!
# How the values of a document are written

The words that stand for integers and strings, said without the reader: digits with single
underscores between them, after a sign or the mark of a radix, and characters in quotes, as they are
or by their numbers.
-/

namespace Mips.Toml

open Numeral

/-- The word is the value of a line, whatever the lines after it are. -/
def Spells (word : List Char) (v : Value) : Prop :=
  ∀ rest, value? (2 * (skip (word ++ '\n' :: rest)).length + 2) maxDepth
    (skip (word ++ '\n' :: rest)) = some (v, '\n' :: rest)

theorem Spells.unique {word : List Char} {v v' : Value} (h : Spells word v)
    (h' : Spells word v') : v = v' := by
  have hsame := (h []).symm.trans (h' [])
  cases hsame
  rfl

theorem skip_cons {c : Char} (hc : isSpace c = false) (cs : List Char) :
    skip (c :: cs) = c :: cs := by
  rw [skip, List.dropWhile_cons_of_neg (by simp [hc])]

/-! ## Integers -/

namespace Scalar

/-- The digits with at most one underscore between each of them and the next one. -/
inductive Grouped : List Char → List Char → Prop
  | last (d : Char) : Grouped [d] [d]
  | digit (d : Char) {ds w : List Char} (h : Grouped ds w) : Grouped (d :: ds) (d :: w)
  | underscore (d : Char) {ds w : List Char} (h : Grouped ds w) : Grouped (d :: ds) (d :: '_' :: w)

variable {ds w : List Char}

theorem Grouped.self (hds : ds ≠ []) : Grouped ds ds := by
  induction ds with
  | nil => exact absurd rfl hds
  | cons d ds ih =>
    cases ds with
    | nil => exact .last d
    | cons e ds => exact .digit d (ih (List.cons_ne_nil e ds))

theorem Grouped.mem (h : Grouped ds w) {c : Char} (hc : c ∈ w) : c ∈ ds ∨ c = '_' := by
  induction h with
  | last d => exact .inl hc
  | digit d _ ih =>
    obtain rfl | hc := List.mem_cons.mp hc
    · exact .inl List.mem_cons_self
    · exact (ih hc).imp_left (List.mem_cons_of_mem d)
  | underscore d _ ih =>
    simp only [List.mem_cons] at hc
    obtain rfl | rfl | hc := hc
    · exact .inl List.mem_cons_self
    · exact .inr rfl
    · exact (ih hc).imp_left (List.mem_cons_of_mem d)

theorem Grouped.exists_cons (h : Grouped ds w) : ∃ d ds' w', ds = d :: ds' ∧ w = d :: w' := by
  cases h <;> exact ⟨_, _, _, rfl, rfl⟩

theorem Grouped.filter (h : Grouped ds w) (hds : ∀ d ∈ ds, d ≠ '_') :
    w.filter (· ≠ '_') = ds := by
  induction h with
  | last d => exact List.filter_cons_of_pos (by simpa using hds)
  | digit d _ ih =>
    obtain ⟨hd, hds⟩ := List.forall_mem_cons.mp hds
    rw [List.filter_cons_of_pos (by simpa using hd), ih hds]
  | underscore d _ ih =>
    obtain ⟨hd, hds⟩ := List.forall_mem_cons.mp hds
    rw [List.filter_cons_of_pos (by simpa using hd), List.filter_cons_of_neg (by simp), ih hds]

section Separated

variable {isDigit : Char → Bool}

theorem grouped_cons {after : Bool} {c : Char} (hc : c ≠ '_') (cs : List Char) :
    grouped isDigit after (c :: cs) = grouped isDigit (isDigit c) cs := by
  rw [grouped]
  · simp [hc]
  · rintro c' cs' rfl
    exact absurd rfl hc

theorem Grouped.separated (h : Grouped ds w) (hds : ∀ d ∈ ds, d ≠ '_')
    (hdigits : ∀ d ∈ ds, isDigit d = true) (after : Bool) : grouped isDigit after w = true := by
  induction h generalizing after with
  | last d =>
    rw [grouped_cons (hds d List.mem_cons_self)]
    rfl
  | digit d _ ih =>
    rw [List.forall_mem_cons] at hds hdigits
    rw [grouped_cons hds.1]
    exact ih hds.2 hdigits.2 _
  | underscore d h ih =>
    rw [List.forall_mem_cons] at hds hdigits
    -- The underscore wants a digit after it, so the rest is opened for its first character.
    have hrest := ih hds.2 hdigits.2 true
    obtain ⟨e, ds, w, rfl, rfl⟩ := h.exists_cons
    have he : isDigit e = true := hdigits.2 e List.mem_cons_self
    rw [grouped_cons (hds.2 e List.mem_cons_self), he] at hrest
    rw [grouped_cons hds.1, hdigits.1, Scalar.grouped, he, hrest]
    rfl

end Separated

section Radix

variable {radix n : Nat} (hradix : radix ≤ 16)
include hradix

theorem ne_underscore (hn : Denotes radix ds n) : ∀ d ∈ ds, d ≠ '_' := by
  intro c hc
  obtain ⟨d, hd⟩ := hn.isDigit hc
  exact hd.ascii (P := (· ≠ '_')) hradix (by decide +kernel)

theorem isSome_digitOf? (hn : Denotes radix ds n) {c : Char} (hc : c ∈ ds) :
    (digitOf? radix c).isSome = true := by
  obtain ⟨d, hd⟩ := hn.isDigit hc
  rw [(digitOf?_eq_some_iff hradix).mpr hd]
  rfl

theorem isHexDigit_of_denotes (hn : Denotes radix ds n) : ∀ d ∈ ds, isHexDigit d = true := by
  intro c hc
  obtain ⟨d, hd⟩ := hn.isDigit hc
  rw [isHexDigit, (digitOf?_eq_some_iff (Nat.le_refl 16)).mpr (hd.hex hradix)]
  rfl

theorem Grouped.separated_hex (h : Grouped ds w) (hn : Denotes radix ds n) :
    grouped isHexDigit false w = true :=
  h.separated (ne_underscore hradix hn) (isHexDigit_of_denotes hradix hn) false

theorem Grouped.value?_eq (h : Grouped ds w) (hn : Denotes radix ds n) :
    value? radix w = some n := by
  rw [Scalar.value?, h.filter (ne_underscore hradix hn)]
  obtain ⟨d, ds, w, rfl, rfl⟩ := h.exists_cons
  exact (ofDigits?_eq_some_iff hradix).mpr hn

theorem Grouped.isRadixed_eq (h : Grouped ds w) (hn : Denotes radix ds n) :
    isRadixed radix w = true := by
  rw [Scalar.isRadixed, h.separated_hex hradix hn, Bool.and_true, List.all_eq_true]
  intro c hc
  obtain hc | rfl := h.mem hc
  · rw [isSome_digitOf? hradix hn hc, Bool.or_true]
  · rfl

end Radix

theorem Grouped.padded_eq {n : Nat} (h : Grouped (Nat.toDigits 10 n) w) : padded w = false := by
  by_cases hn : n = 0
  · subst hn
    cases h with
    | last d => rfl
    | digit d h => cases h
    | underscore d h => cases h
  · have hhead := head?_toDigits_ne hn
    obtain ⟨d, ds, w, hds, rfl⟩ := h.exists_cons
    rw [hds, List.head?_cons, ne_eq, Option.some.injEq] at hhead
    simp [Scalar.padded, hhead]

/-- What stands after the first digits begins with an underscore and holds nothing that a float
has. -/
theorem dropWhile_isDigit (hw : ∀ c ∈ w, c.isDigit = true ∨ c = '_') {c : Char} {cs : List Char}
    (hrest : w.dropWhile Char.isDigit = c :: cs) :
    c = '_' ∧ (cs.any fun c => c = ' ' || c = '.' || c = 'e' || c = 'E') = false := by
  have hsuffix := List.dropWhile_suffix (l := w) Char.isDigit
  have hmem : ∀ x ∈ c :: cs, x.isDigit = true ∨ x = '_' :=
    fun x hx => hw x (hsuffix.subset (hrest ▸ hx))
  constructor
  · have hfirst := List.head?_dropWhile_not Char.isDigit w
    rw [hrest] at hfirst
    exact (hmem c List.mem_cons_self).resolve_left (by simpa using hfirst)
  · rw [List.any_eq_false]
    intro x hx hfloat
    have hx := hmem x (List.mem_cons_of_mem c hx)
    simp only [Bool.or_eq_true, decide_eq_true_eq] at hfloat
    obtain ((rfl | rfl) | rfl) | rfl := hfloat <;> exact absurd hx (by decide)

theorem mem_decimal {n : Nat} (h : Grouped (Nat.toDigits 10 n) w) {c : Char} (hc : c ∈ w) :
    c.isDigit = true ∨ c = '_' :=
  (h.mem hc).imp_left fun hc => Nat.isDigit_of_mem_toDigits (by decide) (by decide) hc

theorem denotes_decimal (n : Nat) : Denotes 10 (Nat.toDigits 10 n) n :=
  denotes_toDigits (by decide) (by decide) 0 n

theorem Grouped.isDecimal_eq {n : Nat} (h : Grouped (Nat.toDigits 10 n) w) :
    isDecimal w = true := by
  have hne : w ≠ [] := by
    obtain ⟨d, ds, w, -, rfl⟩ := h.exists_cons
    exact List.cons_ne_nil d w
  rw [Scalar.isDecimal, h.padded_eq, h.separated_hex (by decide) (denotes_decimal n)]
  cases hrest : w.dropWhile Char.isDigit with
  | nil => simp [hne]
  | cons c cs =>
    obtain ⟨rfl, hcs⟩ := dropWhile_isDigit (fun c hc => mem_decimal h hc) hrest
    simp [hne, hcs]

def marks : List (Char × Nat) := [('x', 16), ('o', 8), ('b', 2)]

/-- The words of a number: in decimal without a sign or with a plus sign, and in the other radices
after a mark, with zeros in front and in either letter case. -/
inductive Writes (n : Nat) : List Char → Prop
  | decimal {w : List Char} (h : Grouped (Nat.toDigits 10 n) w) : Writes n w
  | signed {w : List Char} (h : Grouped (Nat.toDigits 10 n) w) : Writes n ('+' :: w)
  | marked {mark : Char} {radix : Nat} (hmark : (mark, radix) ∈ marks) (zeros : Nat)
    {ds w : List Char}
    (hds : ds.map Char.toLower = List.replicate zeros '0' ++ Nat.toDigits radix n)
    (h : Grouped ds w) : Writes n ('0' :: mark :: w)

theorem radix_of_mark {mark : Char} {radix : Nat} (hmark : (mark, radix) ∈ marks) :
    1 < radix ∧ radix ≤ 16 := by
  have hall : ∀ m ∈ marks, 1 < m.2 ∧ m.2 ≤ 16 := by decide
  exact hall _ hmark

theorem denotes_marked {mark : Char} {radix zeros n : Nat} (hmark : (mark, radix) ∈ marks)
    (hds : ds.map Char.toLower = List.replicate zeros '0' ++ Nat.toDigits radix n) :
    Denotes radix ds n := by
  obtain ⟨hradix, hradix'⟩ := radix_of_mark hmark
  apply denotes_of_map_toLower
  rw [hds]
  exact denotes_toDigits hradix hradix' zeros n

theorem integer?_decimal {n : Nat} (h : Grouped (Nat.toDigits 10 n) w) :
    integer? w = some (some (.ofNat n)) := by
  have hall := fun c hc => mem_decimal h (c := c) hc
  have hunsigned : unsigned w = w := by
    unfold unsigned
    split
    · exact absurd (hall '+' (by simp)) (by decide)
    · exact absurd (hall '-' (by simp)) (by decide)
    · rfl
  unfold Scalar.integer?
  split
  · exact absurd (hall 'x' (by simp)) (by decide)
  · exact absurd (hall 'o' (by simp)) (by decide)
  · exact absurd (hall 'b' (by simp)) (by decide)
  · exact absurd (hall '-' (by simp)) (by decide)
  · simp only [hunsigned, h.isDecimal_eq, h.value?_eq (by decide) (denotes_decimal n)]
    rfl

theorem Writes.integer?_eq {n : Nat} (hw : Writes n w) :
    integer? w = some (some (.ofNat n)) := by
  cases hw with
  | decimal h => exact integer?_decimal h
  | @signed w h =>
    change (if Scalar.isDecimal w then some ((Scalar.value? 10 w).map Int.ofNat) else none) = _
    rw [h.isDecimal_eq, h.value?_eq (by decide) (denotes_decimal n)]
    rfl
  | marked hmark zeros hds h =>
    have hn := denotes_marked hmark hds
    have hradix := (radix_of_mark hmark).2
    have hdigits := h.isRadixed_eq hradix hn
    have hvalue := h.value?_eq hradix hn
    simp only [marks, List.mem_cons, Prod.mk.injEq, List.not_mem_nil, or_false] at hmark
    obtain ⟨rfl, rfl⟩ | ⟨rfl, rfl⟩ | ⟨rfl, rfl⟩ := hmark <;>
    · rw [Scalar.integer?, hdigits, hvalue]
      rfl

/-- Whether a character may stand anywhere in a word without quotes. -/
def isWord (c : Char) : Bool := isScalar c && c ≠ '"' && c ≠ '\''

theorem Grouped.isWord_of_mem {radix n : Nat} (hradix : radix ≤ 16) (hn : Denotes radix ds n)
    (h : Grouped ds w) : ∀ c ∈ w, isWord c = true := by
  intro c hc
  obtain hc | rfl := h.mem hc
  · obtain ⟨d, hd⟩ := hn.isDigit hc
    exact hd.ascii (P := fun c => isWord c = true) hradix (by decide +kernel)
  · decide

theorem Writes.isWord_of_mem {n : Nat} (hw : Writes n w) : ∀ c ∈ w, isWord c = true := by
  cases hw with
  | decimal h => exact h.isWord_of_mem (by decide) (denotes_decimal n)
  | signed h =>
    rw [List.forall_mem_cons]
    exact ⟨by decide, h.isWord_of_mem (by decide) (denotes_decimal n)⟩
  | marked hmark zeros hds h =>
    have hall : ∀ m ∈ marks, isWord m.1 = true := by decide
    rw [List.forall_mem_cons, List.forall_mem_cons]
    exact ⟨by decide, hall _ hmark,
      h.isWord_of_mem (radix_of_mark hmark).2 (denotes_marked hmark hds)⟩

end Scalar

theorem scalar?_of_integer {w : List Char} {n : Int} (hw : Scalar.integer? w = some (some n)) :
    scalar? w = some (.integer n) := by
  have hne : ∀ v ∈ [['t', 'r', 'u', 'e'], ['f', 'a', 'l', 's', 'e']], w ≠ v := by
    have hnone : ∀ v ∈ [['t', 'r', 'u', 'e'], ['f', 'a', 'l', 's', 'e']],
        Scalar.integer? v = none := by decide
    rintro v hv rfl
    rw [hnone w hv] at hw
    cases hw
  rw [scalar?, if_neg (hne _ (by simp)), if_neg (hne _ (by simp)), hw]

theorem word_append {w : List Char} (hw : ∀ c ∈ w, isScalar c = true) (rest : List Char) :
    word (w ++ '\n' :: rest) = (w, '\n' :: rest) := by
  induction w with
  | nil => rfl
  | cons c w ih =>
    rw [List.forall_mem_cons] at hw
    rw [List.cons_append, word, if_pos hw.1, ih hw.2]

theorem value?_word {w : List Char} (hw : ∀ c ∈ w, Scalar.isWord c = true) (fuel depth : Nat)
    (rest : List Char) : value? (fuel + 1) depth (w ++ '\n' :: rest) =
      (scalar? w).map fun v => (v, '\n' :: rest) := by
  have hword : word (w ++ '\n' :: rest) = (w, '\n' :: rest) := by
    apply word_append
    intro c hc
    have hc := hw c hc
    simp only [Scalar.isWord, Bool.and_eq_true] at hc
    exact hc.1.1
  have hfirst : ∀ c cs, w ++ '\n' :: rest = c :: cs →
      c ≠ '[' ∧ c ≠ '\x7b' ∧ c ≠ '"' ∧ c ≠ '\'' := by
    intro c cs hcs
    cases w with
    | nil =>
      cases hcs
      decide
    | cons c' w =>
      cases hcs
      have hc := hw c List.mem_cons_self
      refine ⟨?_, ?_, ?_, ?_⟩ <;>
      · rintro rfl
        exact absurd hc (by decide)
  unfold value?
  split <;> simp_all

theorem skip_word {w : List Char} (hw : ∀ c ∈ w, Scalar.isWord c = true) (rest : List Char) :
    skip (w ++ '\n' :: rest) = w ++ '\n' :: rest := by
  cases w with
  | nil => rfl
  | cons c w =>
    apply skip_cons
    have hc := hw c List.mem_cons_self
    rw [isSpace, Bool.or_eq_false_iff, decide_eq_false_iff_not, decide_eq_false_iff_not]
    constructor <;>
    · rintro rfl
      exact absurd hc (by decide)

/-- A word of a number is the value of its line. -/
theorem Scalar.Writes.spells {n : Nat} {w : List Char} (hw : Scalar.Writes n w) :
    Spells w (.integer n) := by
  intro rest
  rw [skip_word hw.isWord_of_mem, value?_word hw.isWord_of_mem,
    scalar?_of_integer hw.integer?_eq]
  rfl

/-! ## Strings -/

namespace Quoted

/-- Characters between double quotes and the string that they write: each one stands for itself or
is given by its number. -/
inductive Writes : List Char → List Char → Prop
  | nil : Writes [] []
  | plain {c : Char} (hplain : isPlain c = true) (hquote : c ≠ '"') (hslash : c ≠ '\\')
    {s body : List Char} (h : Writes s body) : Writes (c :: s) (c :: body)
  | coded (c : Char) {s body : List Char} (h : Writes s body) :
    Writes (c :: s) ('\\' :: 'U' :: (hexDigits 8 c.toNat ++ body))

theorem writes_self {s : List Char}
    (hplain : ∀ c ∈ s, isPlain c = true ∧ c ≠ '"' ∧ c ≠ '\\') : Writes s s := by
  induction s with
  | nil => exact .nil
  | cons c s ih =>
    obtain ⟨⟨hc, hquote, hslash⟩, hs⟩ := List.forall_mem_cons.mp hplain
    exact .plain hc hquote hslash (ih hs)

theorem exists_writes (s : List Char) : ∃ body, Writes s body := by
  induction s with
  | nil => exact ⟨[], .nil⟩
  | cons c s ih =>
    obtain ⟨body, hbody⟩ := ih
    exact ⟨_, .coded c hbody⟩

theorem char?_hexDigits (c : Char) : char? (hexDigits 8 c.toNat) = some c := by
  have hlt : c.toNat < 16 ^ 8 := c.val.toNat_lt
  rw [char?, ofDigits?_hexDigits, Nat.mod_eq_of_lt hlt]
  change (if c.toNat.isValidChar then some (Char.ofNat c.toNat) else none) = some c
  rw [if_pos (show c.toNat.isValidChar from c.valid), Char.ofNat_toNat]

theorem Writes.basic {s body : List Char} (h : Writes s body) (rest : List Char) :
    basic (body ++ '"' :: rest) = some (s, rest) := by
  induction h with
  | nil => rfl
  | @plain c hplain hquote hslash s body _ ih =>
    unfold Quoted.basic
    split <;> simp_all [push]
  | @coded c s body _ ih =>
    -- An escape is matched against eight characters, so the digits have to be named.
    have hcode := char?_hexDigits c
    obtain ⟨d₀, d₁, d₂, d₃, d₄, d₅, d₆, d₇, hdigits⟩ :
        ∃ d₀ d₁ d₂ d₃ d₄ d₅ d₆ d₇, hexDigits 8 c.toNat = [d₀, d₁, d₂, d₃, d₄, d₅, d₆, d₇] :=
      ⟨_, _, _, _, _, _, _, _, rfl⟩
    rw [hdigits] at hcode ⊢
    change (do return push (← char? _) (← Quoted.basic (body ++ '"' :: rest))) = _
    rw [hcode, ih]
    rfl

theorem literal_append {s : List Char} (hplain : ∀ c ∈ s, isPlain c = true ∧ c ≠ '\'')
    (rest : List Char) : literal (s ++ '\'' :: rest) = some (s, rest) := by
  induction s with
  | nil => rfl
  | cons c s ih =>
    obtain ⟨⟨hc, hquote⟩, hs⟩ := List.forall_mem_cons.mp hplain
    unfold literal
    split <;> simp_all [push]

theorem Writes.read? {s body : List Char} (h : Writes s body) (rest : List Char) :
    read? ('"' :: (body ++ '"' :: '\n' :: rest)) = some (s, '\n' :: rest) := by
  have hbasic := h.basic ('\n' :: rest)
  unfold Quoted.read?
  split
  -- Three quotes would open a string of several lines, but the body does not begin with one.
  · next hcs =>
    cases h <;> simp_all
  · simp_all
  · simp_all
  · simp_all
  · simp_all

theorem read?_literal {s : List Char} (hplain : ∀ c ∈ s, isPlain c = true ∧ c ≠ '\'')
    (rest : List Char) :
    read? ('\'' :: (s ++ '\'' :: '\n' :: rest)) = some (s, '\n' :: rest) := by
  have hliteral := literal_append hplain ('\n' :: rest)
  unfold read?
  split
  · simp_all
  · simp_all
  · next hcs =>
    cases s <;> simp_all
  · simp_all
  · simp_all

end Quoted

theorem value?_quoted {quote : Char} (hquote : quote = '"' ∨ quote = '\'') (fuel depth : Nat)
    (cs : List Char) : value? (fuel + 1) depth (quote :: cs) =
      (Quoted.read? (quote :: cs)).map fun (s, rest) => (.text s, rest) := by
  obtain rfl | rfl := hquote <;>
  · unfold value?
    split <;> simp_all

/-- A string in double quotes is the value of its line. -/
theorem Quoted.Writes.spells {s body : List Char} (h : Quoted.Writes s body) :
    Spells ('"' :: (body ++ ['"'])) (.text s) := by
  intro rest
  have hlayout : '"' :: (body ++ ['"']) ++ '\n' :: rest = '"' :: (body ++ '"' :: '\n' :: rest) := by
    simp
  rw [hlayout, skip_cons (by decide), value?_quoted (.inl rfl), h.read?]
  rfl

/-- A string in single quotes is the value of its line. -/
theorem spells_literal {s : List Char} (hplain : ∀ c ∈ s, isPlain c = true ∧ c ≠ '\'') :
    Spells ('\'' :: (s ++ ['\''])) (.text s) := by
  intro rest
  have hlayout : '\'' :: (s ++ ['\'']) ++ '\n' :: rest =
      '\'' :: (s ++ '\'' :: '\n' :: rest) := by
    simp
  rw [hlayout, skip_cons (by decide), value?_quoted (.inr rfl), Quoted.read?_literal hplain]
  rfl

end Mips.Toml
