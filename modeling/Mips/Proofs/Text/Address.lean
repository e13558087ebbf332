import Mathlib.Data.List.TakeWhile
import Mips.Address
import Mips.Proofs.Text.Digits
/-!
# Addresses read from text

Which texts are addresses, of what value, and what is wrong with the others, said without the
reader: a text consists of white space, the mark of a radix and digits with underscores, and what
matters of it are the digits.
-/

namespace Mips

/-! ## White space -/

namespace Blank

/-- The text without the white space around it: there is only white space around `bare`, and none at
its ends. -/
structure IsTrimmed (text bare : List Char) : Prop where
  around : ∃ before after, text = before ++ bare ++ after ∧
    (∀ c ∈ before, isBlank c = true) ∧ ∀ c ∈ after, isBlank c = true
  first : ∀ c ∈ bare.head?, isBlank c = false
  last : ∀ c ∈ bare.getLast?, isBlank c = false

theorem head?_trimStart {text : List Char} {c : Char} (hc : c ∈ (trimStart text).head?) :
    isBlank c = false := by
  have hfirst := List.head?_dropWhile_not isBlank text
  rw [trimStart] at hc
  rw [Option.mem_def.mp hc] at hfirst
  exact hfirst

theorem isTrimmed_trim (text : List Char) : IsTrimmed text (trim text) := by
  let core := trimStart text
  let after := (core.reverse.takeWhile isBlank).reverse
  have hstart : text = text.takeWhile isBlank ++ core := List.takeWhile_append_dropWhile.symm
  have hend : core = trim text ++ after := by
    have hsplit : core.reverse.takeWhile isBlank ++ core.reverse.dropWhile isBlank = core.reverse :=
      List.takeWhile_append_dropWhile
    have hboth := congrArg List.reverse hsplit
    rw [List.reverse_append, List.reverse_reverse] at hboth
    exact hboth.symm
  constructor
  · refine ⟨text.takeWhile isBlank, after, ?_, fun c hc => List.mem_takeWhile_imp hc,
      fun c hc => ?_⟩
    · rw [List.append_assoc, ← hend]
      exact hstart
    · exact List.mem_takeWhile_imp (List.mem_reverse.mp hc)
  · intro c hc
    have hcore : c ∈ core.head? := by
      rw [hend, List.head?_append, Option.mem_def.mp hc]
      rfl
    exact head?_trimStart hcore
  · intro c hc
    rw [trim, trimEnd, List.getLast?_reverse] at hc
    exact head?_trimStart hc

theorem trimStart_append {before cs : List Char} (hbefore : ∀ c ∈ before, isBlank c = true)
    (hfirst : ∀ c ∈ cs.head?, isBlank c = false) : trimStart (before ++ cs) = cs := by
  rw [trimStart, List.dropWhile_append_of_pos hbefore]
  cases cs with
  | nil => rfl
  | cons c cs => exact List.dropWhile_cons_of_neg (by simp [hfirst c rfl])

theorem trimEnd_append {cs after : List Char} (hafter : ∀ c ∈ after, isBlank c = true)
    (hlast : ∀ c ∈ cs.getLast?, isBlank c = false) : trimEnd (cs ++ after) = cs := by
  have hreverse : trimStart (after.reverse ++ cs.reverse) = cs.reverse := by
    apply trimStart_append
    · exact fun c hc => hafter c (List.mem_reverse.mp hc)
    · rwa [List.head?_reverse]
  rw [trimStart, ← List.reverse_append] at hreverse
  rw [trimEnd, hreverse, List.reverse_reverse]

theorem IsTrimmed.trim_eq {text bare : List Char} (htrimmed : IsTrimmed text bare) :
    trim text = bare := by
  obtain ⟨⟨before, after, rfl, hbefore, hafter⟩, hfirst, hlast⟩ := htrimmed
  cases bare with
  | nil =>
    have hall : trimStart (before ++ [] ++ after) = [] := by
      rw [trimStart, List.dropWhile_eq_nil_iff]
      simpa [or_imp, forall_and] using ⟨hbefore, hafter⟩
    rw [trim, hall]
    rfl
  | cons c cs =>
    rw [trim, List.append_assoc, trimStart_append hbefore (by simpa using hfirst)]
    exact trimEnd_append hafter hlast

end Blank

namespace Address

open Numeral

/-! ## What matters of a text -/

/-- A text whose numeral is of the radix and consists of the rest: a hexadecimal one stands after
its mark, in either letter case, and every other one is decimal. -/
inductive Marked : List Char → Nat → List Char → Prop
  | hexadecimal {x : Char} (hx : x = 'x' ∨ x = 'X') (rest : List Char) :
    Marked ('0' :: x :: rest) 16 rest
  | decimal {cs : List Char}
    (hplain : ∀ x rest, cs = '0' :: x :: rest → ¬ (x = 'x' ∨ x = 'X')) : Marked cs 10 cs

theorem marked_radix (cs : List Char) : Marked cs (radix cs).1 (radix cs).2 := by
  unfold radix
  split
  · next cs => exact .hexadecimal (.inl rfl) cs
  · next cs => exact .hexadecimal (.inr rfl) cs
  · next hlower hupper =>
    refine .decimal fun x rest hcs => ?_
    rintro (rfl | rfl)
    · exact hlower rest hcs
    · exact hupper rest hcs

theorem Marked.radix_eq {cs rest : List Char} {r : Nat} (hmarked : Marked cs r rest) :
    radix cs = (r, rest) := by
  cases hmarked with
  | hexadecimal hx => obtain rfl | rfl := hx <;> rfl
  | decimal hplain =>
    unfold radix
    split
    · exact absurd (.inl rfl) (hplain _ _ rfl)
    · exact absurd (.inr rfl) (hplain _ _ rfl)
    · rfl

theorem Marked.radix_pos {cs rest : List Char} {r : Nat} (hmarked : Marked cs r rest) : 0 < r := by
  cases hmarked <;> decide

theorem Marked.radix_le {cs rest : List Char} {r : Nat} (hmarked : Marked cs r rest) : r ≤ 16 := by
  cases hmarked <;> decide

/-- What the value of a text depends on: `bare` is the text without the white space around it, and
`digits` are the digits after its mark without their underscores. -/
structure Parts (text bare : List Char) (radix : Nat) (digits : List Char) : Prop where
  trimmed : Blank.IsTrimmed text bare
  marked : ∃ rest, Marked bare radix rest ∧ digits = rest.filter (· ≠ '_')

theorem exists_parts (text : List Char) : ∃ bare radix digits, Parts text bare radix digits :=
  ⟨_, _, _, Blank.isTrimmed_trim text, _, marked_radix _, rfl⟩

variable {text bare digits : List Char} {radix : Nat}

theorem Parts.read_of_ok (hparts : Parts text bare radix digits) {n : Nat}
    (h : Numeral.read radix bound digits = .ok n) : read text = .ok (.ofNat 32 n) := by
  obtain ⟨htrimmed, rest, hmarked, rfl⟩ := hparts
  simp only [read, htrimmed.trim_eq, hmarked.radix_eq, h]

theorem Parts.read_of_error (hparts : Parts text bare radix digits) {mistake : Mistake}
    (h : Numeral.read radix bound digits = .error mistake) :
    read text = .error ⟨bare, mistake⟩ := by
  obtain ⟨htrimmed, rest, hmarked, rfl⟩ := hparts
  simp only [read, htrimmed.trim_eq, hmarked.radix_eq, h]

theorem Parts.radix_pos (hparts : Parts text bare radix digits) : 0 < radix := by
  obtain ⟨-, rest, hmarked, -⟩ := hparts
  exact hmarked.radix_pos

theorem Parts.radix_le (hparts : Parts text bare radix digits) : radix ≤ 16 := by
  obtain ⟨-, rest, hmarked, -⟩ := hparts
  exact hmarked.radix_le

/-! ## Which texts are addresses -/

theorem bound_eq : bound = 2 ^ 32 := rfl

theorem Parts.read_ok_iff (hparts : Parts text bare radix digits) (a : Word) :
    read text = .ok a ↔
      withoutPlus digits ≠ [] ∧ Denotes radix (withoutPlus digits) a.toNat := by
  have hread (n : Nat) : Numeral.read radix bound digits = .ok n ↔
      withoutPlus digits ≠ [] ∧ Denotes radix (withoutPlus digits) n ∧ n < bound :=
    Numeral.read_ok_iff hparts.radix_pos hparts.radix_le (show 0 < bound by decide)
  constructor
  · intro hok
    cases hdigits : Numeral.read radix bound digits with
    | error mistake => cases hok.symm.trans (hparts.read_of_error hdigits)
    | ok n =>
      obtain ⟨hne, hn, hlt⟩ := (hread n).mp hdigits
      cases hok.symm.trans (hparts.read_of_ok hdigits)
      rw [BitVec.toNat_ofNat, ← bound_eq, Nat.mod_eq_of_lt hlt]
      exact ⟨hne, hn⟩
  · rintro ⟨hne, hn⟩
    rw [hparts.read_of_ok ((hread a.toNat).mpr ⟨hne, hn, a.isLt⟩), BitVec.ofNat_toNat,
      BitVec.setWidth_eq]

theorem Parts.read_error_iff (hparts : Parts text bare radix digits) (e : AddressError) :
    read text = .error e ↔ e.text = bare ∧ Numeral.read radix bound digits = .error e.mistake := by
  cases hdigits : Numeral.read radix bound digits with
  | ok n =>
    rw [hparts.read_of_ok hdigits]
    simp
  | error mistake =>
    obtain ⟨quoted, mistake'⟩ := e
    rw [hparts.read_of_error hdigits]
    simp [eq_comm]

/-- Digits in front of the others are too large already. -/
def TooLarge (radix : Nat) (digits : List Char) : Prop :=
  ∃ front n, front <+: digits ∧ Denotes radix front n ∧ 2 ^ 32 ≤ n

theorem Parts.read_empty_iff (hparts : Parts text bare radix digits) :
    read text = .error ⟨bare, .empty⟩ ↔ digits = [] := by
  rw [hparts.read_error_iff, Numeral.read_empty_iff]
  simp

theorem Parts.read_tooLarge_iff (hparts : Parts text bare radix digits) :
    read text = .error ⟨bare, .tooLarge⟩ ↔ TooLarge radix (withoutPlus digits) := by
  rw [hparts.read_error_iff,
    Numeral.read_tooLarge_iff hparts.radix_pos hparts.radix_le (show 0 < bound by decide)]
  simp [TooLarge, bound_eq]

theorem Parts.read_invalidDigit (hparts : Parts text bare radix digits) (hdigits : digits ≠ [])
    (hrange : ¬ TooLarge radix (withoutPlus digits)) (hno : ∀ a, read text ≠ .ok a) :
    read text = .error ⟨bare, .invalidDigit⟩ := by
  cases hread : read text with
  | ok a => exact absurd hread (hno a)
  | error e =>
    obtain ⟨hquoted, -⟩ := (hparts.read_error_iff e).mp hread
    obtain ⟨quoted, mistake⟩ := e
    cases hquoted
    cases mistake with
    | empty => exact absurd (hparts.read_empty_iff.mp hread) hdigits
    | invalidDigit => rfl
    | tooLarge => exact absurd (hparts.read_tooLarge_iff.mp hread) hrange

theorem Parts.read_invalidDigit_iff (hparts : Parts text bare radix digits) :
    read text = .error ⟨bare, .invalidDigit⟩ ↔
      digits ≠ [] ∧ ¬ TooLarge radix (withoutPlus digits) ∧ ∀ a, read text ≠ .ok a := by
  constructor
  · intro hread
    rw [ne_eq, ← hparts.read_empty_iff, ← hparts.read_tooLarge_iff, hread]
    simp
  · rintro ⟨hdigits, hrange, hno⟩
    exact hparts.read_invalidDigit hdigits hrange hno

/-- A sign is no digit. -/
theorem ne_sign_of_isDigit {c : Char} {d : Nat} (hradix : radix ≤ 16) (hd : IsDigit radix c d) :
    ¬ (c = '+' ∨ c = '-') :=
  hd.ascii (P := fun c => ¬ (c = '+' ∨ c = '-')) hradix (by decide +kernel)

theorem Parts.read_invalidDigit_of_sign (hparts : Parts text bare radix digits) {sign : Char}
    (hsign : sign = '+' ∨ sign = '-') (hmem : sign ∈ withoutPlus digits)
    (hrange : ¬ TooLarge radix (withoutPlus digits)) :
    read text = .error ⟨bare, .invalidDigit⟩ := by
  apply hparts.read_invalidDigit _ hrange
  · intro a ha
    obtain ⟨d, hd⟩ := ((hparts.read_ok_iff a).mp ha).2.isDigit hmem
    exact ne_sign_of_isDigit hparts.radix_le hd hsign
  · rintro rfl
    cases hmem

/-! ## Addresses that were written -/

/-- A text that writes an address down in decimal, or in hexadecimal after a mark in either letter
case, with zeros in front of the digits and underscores between them. -/
inductive Written (a : Word) : List Char → Prop
  | decimal (zeros : Nat) {text : List Char}
    (htext : text.filter (· ≠ '_') = List.replicate zeros '0' ++ Nat.toDigits 10 a.toNat) :
    Written a text
  | hexadecimal (zeros : Nat) {x : Char} (hx : x = 'x' ∨ x = 'X') {rest : List Char}
    (hrest : (rest.filter (· ≠ '_')).map Char.toLower =
      List.replicate zeros '0' ++ Nat.toDigits 16 a.toNat) :
    Written a ('0' :: x :: rest)

theorem isDigit_or_underscore {rest : List Char} {n : Nat} {c : Char}
    (hn : Denotes radix (rest.filter (· ≠ '_')) n) (hc : c ∈ rest) :
    (∃ d, IsDigit radix c d) ∨ c = '_' := by
  by_cases hunder : c = '_'
  · exact .inr hunder
  · exact .inl (hn.isDigit (List.mem_filter.mpr ⟨hc, by simpa using hunder⟩))

theorem denotes_decimal {a : Word} {zeros : Nat}
    (htext : text.filter (· ≠ '_') = List.replicate zeros '0' ++ Nat.toDigits 10 a.toNat) :
    Denotes 10 (text.filter (· ≠ '_')) a.toNat := by
  rw [htext]
  exact denotes_toDigits (by decide) (by decide) zeros a.toNat

theorem denotes_hexadecimal {a : Word} {zeros : Nat} {rest : List Char}
    (hrest : (rest.filter (· ≠ '_')).map Char.toLower =
      List.replicate zeros '0' ++ Nat.toDigits 16 a.toNat) :
    Denotes 16 (rest.filter (· ≠ '_')) a.toNat := by
  apply denotes_of_map_toLower
  rw [hrest]
  exact denotes_toDigits (by decide) (by decide) zeros a.toNat

theorem Written.mem {a : Word} (hwritten : Written a text) {c : Char} (hc : c ∈ text) :
    (∃ d, IsDigit 16 c d) ∨ c = '_' ∨ c = 'x' ∨ c = 'X' := by
  cases hwritten with
  | decimal zeros htext =>
    obtain ⟨d, hd⟩ | hunder := isDigit_or_underscore (denotes_decimal htext) hc
    · exact .inl ⟨d, hd.hex (by decide)⟩
    · exact .inr (.inl hunder)
  | hexadecimal zeros hx hrest =>
    simp only [List.mem_cons] at hc
    obtain rfl | rfl | hc := hc
    · exact .inl ⟨0, isDigit_digitChar (by decide) (by decide)⟩
    · exact .inr (.inr hx)
    · exact (isDigit_or_underscore (denotes_hexadecimal hrest) hc).imp_right .inl

/-- What holds of all digits, of the underscore and of the marks holds of all that a written address
consists of. -/
theorem Written.forall_mem {P : Char → Prop} {a : Word} (hwritten : Written a text)
    (hdigits : ∀ (k : Fin 128) (d : Fin 16),
      (Char.ofNat k.val).toLower = Nat.digitChar d.val → P (Char.ofNat k.val))
    (hothers : P '_' ∧ P 'x' ∧ P 'X') : ∀ c ∈ text, P c := by
  intro c hc
  obtain ⟨d, hd⟩ | rfl | rfl | rfl := hwritten.mem hc
  · exact hd.ascii (Nat.le_refl 16) hdigits
  · exact hothers.1
  · exact hothers.2.1
  · exact hothers.2.2

theorem withoutPlus_of_denotes {cs : List Char} {n : Nat} (hradix : radix ≤ 16)
    (hn : Denotes radix cs n) : withoutPlus cs = cs := by
  unfold withoutPlus
  split
  · next c cs =>
    obtain ⟨d, hd⟩ := hn.isDigit List.mem_cons_self
    exact absurd (.inl rfl) (ne_sign_of_isDigit hradix hd)
  · rfl

/-- A text without white space is read by its digits alone. -/
theorem read_of_marked {rest : List Char} {a : Word} (hmarked : Marked text radix rest)
    (hbare : ∀ c ∈ text, Blank.isBlank c = false) (hne : rest.filter (· ≠ '_') ≠ [])
    (hn : Denotes radix (rest.filter (· ≠ '_')) a.toNat) : read text = .ok a := by
  have hparts : Parts text text radix (rest.filter (· ≠ '_')) := {
    trimmed := {
      around := ⟨[], [], by simp, by simp, by simp⟩
      first := fun c hc => hbare c (List.mem_of_mem_head? hc)
      last := fun c hc => hbare c (List.mem_of_mem_getLast? hc) }
    marked := ⟨rest, hmarked, rfl⟩ }
  rw [hparts.read_ok_iff, withoutPlus_of_denotes hmarked.radix_le hn]
  exact ⟨hne, hn⟩

theorem digits_ne_nil (zeros radix n : Nat) :
    List.replicate zeros '0' ++ Nat.toDigits radix n ≠ [] := by
  simp [Nat.toDigits_ne_nil]

theorem Written.read_eq {a : Word} (hwritten : Written a text) : read text = .ok a := by
  have hbare : ∀ c ∈ text, Blank.isBlank c = false :=
    hwritten.forall_mem (by decide +kernel) (by decide)
  cases hwritten with
  | decimal zeros htext =>
    have hn := denotes_decimal htext
    have hplain : ∀ x rest, text = '0' :: x :: rest → ¬ (x = 'x' ∨ x = 'X') := by
      rintro x rest rfl hx
      obtain ⟨d, hd⟩ | rfl := isDigit_or_underscore hn (c := x) (by simp)
      · have hdigit := (digitOf?_eq_some_iff (by decide)).mpr hd
        obtain rfl | rfl := hx <;> cases hdigit
      · simp at hx
    apply read_of_marked (.decimal hplain) hbare _ hn
    rw [htext]
    exact digits_ne_nil zeros 10 a.toNat
  | hexadecimal zeros hx hrest =>
    refine read_of_marked (.hexadecimal hx _) hbare (fun hnil => ?_) (denotes_hexadecimal hrest)
    rw [hnil] at hrest
    exact digits_ne_nil zeros 16 a.toNat hrest.symm

/-- Which texts are addresses, of which value, and what is wrong with the others: it depends only on
the digits that a text has after the mark of its radix.  Of the two mistakes that digits can have
the first one counts, so that a sign among them is a mistake unless they are too large before it.
An error quotes the text and gives the reason, of which there are three.  Every address is read back
from each text that writes it down. -/
theorem read_grammar (text : List Char) :
    (∃ bare radix digits, Parts text bare radix digits ∧
      (∀ a, read text = .ok a ↔
        withoutPlus digits ≠ [] ∧ Denotes radix (withoutPlus digits) a.toNat) ∧
      (∀ e, read text = .error e → e.text = bare ∧
        e.message = "invalid address '" ++ String.ofList bare ++ "': " ++ e.mistake.reason) ∧
      (read text = .error ⟨bare, .empty⟩ ↔ digits = []) ∧
      (read text = .error ⟨bare, .tooLarge⟩ ↔ TooLarge radix (withoutPlus digits)) ∧
      (read text = .error ⟨bare, .invalidDigit⟩ ↔
        digits ≠ [] ∧ ¬ TooLarge radix (withoutPlus digits) ∧ ∀ a, read text ≠ .ok a) ∧
      ∀ sign ∈ withoutPlus digits, sign = '+' ∨ sign = '-' →
        ¬ TooLarge radix (withoutPlus digits) → read text = .error ⟨bare, .invalidDigit⟩) ∧
    (∀ a, Written a text → read text = .ok a) ∧
    Mistake.reason .empty = "cannot parse integer from empty string" ∧
    Mistake.reason .tooLarge = "number too large to fit in target type" ∧
    Mistake.reason .invalidDigit = "invalid digit found in string" := by
  obtain ⟨bare, radix, digits, hparts⟩ := exists_parts text
  have hquoted : ∀ e, read text = .error e → e.text = bare ∧
      e.message = "invalid address '" ++ String.ofList bare ++ "': " ++ e.mistake.reason := by
    intro e he
    obtain ⟨hbare, -⟩ := (hparts.read_error_iff e).mp he
    exact ⟨hbare, hbare ▸ rfl⟩
  exact ⟨⟨bare, radix, digits, hparts, hparts.read_ok_iff, hquoted, hparts.read_empty_iff,
    hparts.read_tooLarge_iff, hparts.read_invalidDigit_iff,
    fun _ hmem hsign hrange => hparts.read_invalidDigit_of_sign hsign hmem hrange⟩,
    fun a ha => ha.read_eq, rfl, rfl, rfl⟩

/-- The last address, with zeros, underscores and letters of both cases. -/
theorem read_grammar_last : Written 0xFFFFFFFF "0X0_0fFfF__ffFF".toList ∧
    read "0X0_0fFfF__ffFF".toList = .ok 0xFFFFFFFF := by
  have hwritten : Written 0xFFFFFFFF "0X0_0fFfF__ffFF".toList :=
    .hexadecimal 2 (.inr rfl) (by decide +kernel)
  exact ⟨hwritten, (read_grammar _).2.1 _ hwritten⟩

/-- The first mistake counts: the digits are too large before the letter, but not before the
sign. -/
example :
    read " 0x1_0000_0000z ".toList = .error ⟨"0x1_0000_0000z".toList, .tooLarge⟩ ∧
    read "0x+-1_0000_0000".toList = .error ⟨"0x+-1_0000_0000".toList, .invalidDigit⟩ := by
  decide +kernel

end Address

end Mips
