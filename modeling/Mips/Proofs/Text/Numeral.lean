import Mathlib.Algebra.Group.Nat.Defs
import Mips.Text.Numeral
/-!
# Numerals determine their numbers

The readers of `Mips.Numeral` undo the writers: hexadecimal digits of a fixed width give back the
number up to that width, and decimal digits all of it.
-/

namespace Mips.Numeral

/-! ## Hexadecimal digits -/

@[simp] theorem length_hexDigits (width n : Nat) : (hexDigits width n).length = width := by
  induction width generalizing n with
  | zero => rfl
  | succ width ih => simp [hexDigits, ih]

theorem take_hexDigits (width n : Nat) (rest : List Char) :
    (hexDigits width n ++ rest).take width = hexDigits width n :=
  List.take_left' (length_hexDigits width n)

theorem drop_hexDigits (width n k : Nat) (rest : List Char) :
    (hexDigits width n ++ rest).drop (width + k) = rest.drop k := by
  have hdrop : (hexDigits width n ++ rest).drop ((hexDigits width n).length + k) = rest.drop k :=
    List.drop_length_add_append k
  rwa [length_hexDigits] at hdrop

theorem digitOf?_hexDigit {d : Nat} (hd : d < 16) : digitOf? 16 (hexDigit d) = some d := by
  have hall : ∀ d : Fin 16, digitOf? 16 (hexDigit d) = some d.val := by decide
  exact hall ⟨d, hd⟩

theorem isAlphanum_hexDigit {d : Nat} (hd : d < 16) : (hexDigit d).isAlphanum = true := by
  have hall : ∀ d : Fin 16, (hexDigit d).isAlphanum = true := by decide
  exact hall ⟨d, hd⟩

theorem isAlphanum_of_mem_hexDigits {width n : Nat} {c : Char} (hc : c ∈ hexDigits width n) :
    c.isAlphanum = true := by
  induction width generalizing n with
  | zero => cases hc
  | succ width ih =>
    rw [hexDigits, List.mem_append, List.mem_singleton] at hc
    obtain hc | rfl := hc
    · exact ih hc
    · exact isAlphanum_hexDigit (Nat.mod_lt n (by decide))

theorem ofDigits?_concat (radix : Nat) (cs : List Char) (c : Char) :
    ofDigits? radix (cs ++ [c]) =
      (ofDigits? radix cs).bind fun n => (digitOf? radix c).map (n * radix + ·) := by
  rw [ofDigits?, List.foldl_append]
  change (do return (← ofDigits? radix cs) * radix + (← digitOf? radix c)) = _
  cases ofDigits? radix cs <;> cases digitOf? radix c <;> rfl

theorem ofDigits?_hexDigits (width n : Nat) :
    ofDigits? 16 (hexDigits width n) = some (n % 16 ^ width) := by
  induction width generalizing n with
  | zero => rw [Nat.pow_zero, Nat.mod_one]; rfl
  | succ width ih =>
    have hsplit : n % 16 ^ (width + 1) = n / 16 % 16 ^ width * 16 + n % 16 := by
      rw [Nat.pow_succ', Nat.mod_mul]
      omega
    rw [hexDigits, ofDigits?_concat, ih, digitOf?_hexDigit (Nat.mod_lt n (by decide)), hsplit]
    rfl

theorem ofDigits?_hexDigits_toNat {bits : Nat} (width : Nat) (hbits : bits = 4 * width)
    (x : BitVec bits) : ofDigits? 16 (hexDigits width x.toNat) = some x.toNat := by
  have hlt : x.toNat < 16 ^ width := by
    have hpow : (16 : Nat) ^ width = 2 ^ bits := by
      rw [hbits, Nat.pow_mul]
    rw [hpow]
    exact x.isLt
  rw [ofDigits?_hexDigits, Nat.mod_eq_of_lt hlt]

theorem hex_inj {width m n : Nat} (hm : m < 16 ^ width) (hn : n < 16 ^ width)
    (htext : hex width m = hex width n) : m = n := by
  have hdigits : hexDigits width m = hexDigits width n := by
    simpa [hex] using congrArg String.toList htext
  have hvalue := congrArg (ofDigits? 16) hdigits
  rw [ofDigits?_hexDigits, ofDigits?_hexDigits, Nat.mod_eq_of_lt hm, Nat.mod_eq_of_lt hn] at hvalue
  exact Option.some.inj hvalue

theorem toList_hex32 (w : BitVec 32) : (hex32 w).toList = '0' :: 'x' :: hexDigits 8 w.toNat := by
  simp [hex32, hex]

theorem hex32_inj {v w : BitVec 32} (htext : hex32 v = hex32 w) : v = w := by
  have hdigits : hex 8 v.toNat = hex 8 w.toNat := by
    apply String.toList_inj.mp
    simpa [toList_hex32, hex] using congrArg String.toList htext
  exact BitVec.eq_of_toNat_eq (hex_inj v.isLt w.isLt hdigits)

/-! ## Decimal digits -/

theorem toList_decimal (n : Nat) : (decimal n).toList = Nat.toDigits 10 n := by
  simp [decimal]

theorem isDigit_of_mem_decimal {n : Nat} {c : Char} (hc : c ∈ (decimal n).toList) :
    c.isDigit = true := by
  rw [toList_decimal] at hc
  exact Nat.isDigit_of_mem_toDigits (by decide) (by decide) hc

/-- Only the numeral of zero starts with a zero. -/
theorem head?_toDigits_ne {n : Nat} (hn : n ≠ 0) : (Nat.toDigits 10 n).head? ≠ some '0' := by
  induction n using Nat.strongRecOn with
  | _ n ih =>
    obtain hlt | hle := Nat.lt_or_ge n 10
    · have hall : ∀ d : Fin 10, d.val ≠ 0 → some d.val.digitChar ≠ some '0' := by decide
      rw [Nat.toDigits_of_lt_base hlt]
      exact hall ⟨n, hlt⟩ hn
    · have hhead := ih (n / 10) (by omega) (by omega)
      rw [Nat.toDigits_of_base_le (by decide) hle, List.head?_append]
      rwa [List.head?_eq_some_head Nat.toDigits_ne_nil] at hhead ⊢

theorem decimal_inj {m n : Nat} (htext : decimal m = decimal n) : m = n := by
  have hdigits : Nat.toDigits 10 m = Nat.toDigits 10 n := by
    rw [← toList_decimal, ← toList_decimal, htext]
  have hvalue := congrArg (Nat.ofDigitChars 10 · 0) hdigits
  simpa using hvalue

theorem minus_notMem_decimal (n : Nat) : '-' ∉ (decimal n).toList := fun h =>
  absurd (isDigit_of_mem_decimal h) (by decide)

/-- A minus sign stands only in front of negative numbers. -/
theorem signed_inj {x y : Int} (htext : signed x = signed y) : x = y := by
  have hsign (m n : Nat) : signed (.ofNat m) ≠ signed (.negSucc n) := by
    intro h
    apply minus_notMem_decimal m
    have hlist := congrArg String.toList h
    simp only [signed] at hlist
    rw [hlist]
    simp
  cases x with
  | ofNat m =>
    cases y with
    | ofNat n => exact congrArg Int.ofNat (decimal_inj htext)
    | negSucc n => exact absurd htext (hsign m n)
  | negSucc m =>
    cases y with
    | ofNat n => exact absurd htext.symm (hsign n m)
    | negSucc n =>
      have hdecimal : decimal (m + 1) = decimal (n + 1) := by
        apply String.toList_inj.mp
        simpa [signed] using congrArg String.toList htext
      exact congrArg Int.negSucc (Nat.succ.inj (decimal_inj hdecimal))

theorem mem_signed {x : Int} {c : Char} (hc : c ∈ (signed x).toList) :
    c = '-' ∨ c.isDigit = true := by
  cases x with
  | ofNat n => exact .inr (isDigit_of_mem_decimal hc)
  | negSucc n =>
    rw [signed, String.toList_append, List.mem_append] at hc
    obtain hc | hc := hc
    · exact .inl (by simpa using hc)
    · exact .inr (isDigit_of_mem_decimal hc)

end Mips.Numeral
