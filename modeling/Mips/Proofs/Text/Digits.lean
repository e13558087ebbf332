import Mathlib.Data.List.Forall2
import Mathlib.Data.List.Induction
import Mathlib.Data.Nat.Digits.Defs
import Mips.Proofs.Text.Numeral
import Mips.Text.Numeral.Reader
/-!
# Digits and what they denote

The number that a sequence of digits writes down, said without a reader, and what the readers of
`Mips.Numeral` make of it.  A reader with a bound stops at the first mistake, so that it can find
digits too large without having seen all of them.
-/

namespace Mips.Numeral

/-! ## Digits -/

/-- The character is the digit `d` of a radix, in either letter case. -/
def IsDigit (radix : Nat) (c : Char) (d : Nat) : Prop := d < radix ∧ c.toLower = Nat.digitChar d

theorem toLower_digitChar {d : Nat} (hd : d < 16) :
    (Nat.digitChar d).toLower = Nat.digitChar d := by
  have hall : ∀ d : Fin 16, (Nat.digitChar d.val).toLower = Nat.digitChar d.val := by decide
  exact hall ⟨d, hd⟩

theorem digitChar_inj {d e : Nat} (hd : d < 16) (he : e < 16)
    (hsame : Nat.digitChar d = Nat.digitChar e) : d = e := by
  have hall : ∀ d e : Fin 16, Nat.digitChar d.val = Nat.digitChar e.val → d = e := by decide
  exact congrArg Fin.val (hall ⟨d, hd⟩ ⟨e, he⟩ hsame)

/-- What holds of all characters of ASCII holds of a character or it is none of them. -/
theorem ascii_cases {P : Char → Prop} (hascii : ∀ k : Fin 128, P (Char.ofNat k.val))
    (c : Char) : P c ∨ 128 ≤ c.toNat := by
  obtain hlt | hle := Nat.lt_or_ge c.toNat 128
  · have hc := hascii ⟨c.toNat, hlt⟩
    rw [Char.ofNat_toNat] at hc
    exact .inl hc
  · exact .inr hle

theorem not_le_of_ascii {c hi : Char} (hc : 128 ≤ c.toNat) (hhi : hi.toNat < 128) : ¬ c ≤ hi := by
  intro hle
  have hval : c.toNat ≤ hi.toNat := hle
  omega

theorem toLower_of_not_ascii {c : Char} (hc : 128 ≤ c.toNat) : c.toLower = c := by
  have hbeyond : ¬ c ≤ 'Z' := not_le_of_ascii hc (by decide)
  exact dif_neg fun h => hbeyond h.2

theorem toLower_toLower (c : Char) : c.toLower.toLower = c.toLower := by
  obtain hc | hc := ascii_cases (P := fun c => c.toLower.toLower = c.toLower) (by decide) c
  · exact hc
  · rw [toLower_of_not_ascii hc, toLower_of_not_ascii hc]

theorem digitValue?_eq_some_iff {c : Char} {d : Nat} (hd : d < 16) :
    digitValue? c = some d ↔ c.toLower = Nat.digitChar d := by
  obtain hc | hc := ascii_cases (P := fun c => ∀ d : Fin 16,
    digitValue? c = some d.val ↔ c.toLower = Nat.digitChar d.val) (by decide +kernel) c
  · exact hc ⟨d, hd⟩
  · have hnone : digitValue? c = none := by
      simp [digitValue?, not_le_of_ascii hc]
    have hdigits : ∀ d : Fin 16, (Nat.digitChar d.val).toNat < 128 := by decide
    rw [hnone, toLower_of_not_ascii hc]
    simp only [reduceCtorEq, false_iff]
    rintro rfl
    have hlt := hdigits ⟨d, hd⟩
    dsimp only at hlt
    omega

variable {radix : Nat} {c : Char} {cs : List Char}

/-- What holds of all digits of radix sixteen in ASCII holds of every digit. -/
theorem IsDigit.ascii {P : Char → Prop} (hradix : radix ≤ 16) {d : Nat} (hd : IsDigit radix c d)
    (hascii : ∀ (k : Fin 128) (d : Fin 16),
      (Char.ofNat k.val).toLower = Nat.digitChar d.val → P (Char.ofNat k.val)) : P c := by
  have hlt : d < 16 := Nat.lt_of_lt_of_le hd.1 hradix
  obtain hc | hc := ascii_cases (P := fun c => c.toLower = Nat.digitChar d → P c)
    (fun k => hascii k ⟨d, hlt⟩) c
  · exact hc hd.2
  · have hdigits : ∀ d : Fin 16, (Nat.digitChar d.val).toNat < 128 := by decide
    have hsmall : (Nat.digitChar d).toNat < 128 := hdigits ⟨d, hlt⟩
    rw [← hd.2, toLower_of_not_ascii hc] at hsmall
    omega

theorem IsDigit.hex (hradix : radix ≤ 16) {d : Nat} (hd : IsDigit radix c d) : IsDigit 16 c d :=
  ⟨Nat.lt_of_lt_of_le hd.1 hradix, hd.2⟩

theorem digitOf?_eq_some_iff (hradix : radix ≤ 16) {d : Nat} :
    digitOf? radix c = some d ↔ IsDigit radix c d := by
  rw [digitOf?, Option.filter_eq_some_iff, IsDigit]
  constructor
  · rintro ⟨hvalue, hlt⟩
    have hd : d < radix := by simpa using hlt
    exact ⟨hd, (digitValue?_eq_some_iff (by omega)).mp hvalue⟩
  · rintro ⟨hd, hlower⟩
    exact ⟨(digitValue?_eq_some_iff (by omega)).mpr hlower, by simpa using hd⟩

/-! ## Numbers -/

/-- The characters are digits of a radix, and `n` is the number that they write down, the most
significant one first. -/
def Denotes (radix : Nat) (cs : List Char) (n : Nat) : Prop :=
  ∃ ds, List.Forall₂ (IsDigit radix) cs.reverse ds ∧ Nat.ofDigits radix ds = n

theorem denotes_nil_iff {n : Nat} : Denotes radix [] n ↔ n = 0 := by
  constructor
  · rintro ⟨ds, hds, rfl⟩
    cases hds
    rfl
  · rintro rfl
    exact ⟨[], .nil, rfl⟩

theorem denotes_concat_iff {m : Nat} :
    Denotes radix (cs ++ [c]) m ↔
      ∃ n d, Denotes radix cs n ∧ IsDigit radix c d ∧ m = n * radix + d := by
  constructor
  · rintro ⟨ds, hds, rfl⟩
    rw [List.reverse_concat] at hds
    cases hds with
    | @cons _ d _ ds hd hds =>
      refine ⟨_, d, ⟨ds, hds, rfl⟩, hd, ?_⟩
      rw [Nat.ofDigits_cons]
      ring
  · rintro ⟨n, d, ⟨ds, hds, rfl⟩, hd, rfl⟩
    refine ⟨d :: ds, ?_, ?_⟩
    · rw [List.reverse_concat]
      exact .cons hd hds
    · rw [Nat.ofDigits_cons]
      ring

theorem Denotes.unique (hradix : radix ≤ 16) {m n : Nat} (hm : Denotes radix cs m)
    (hn : Denotes radix cs n) : m = n := by
  induction cs using List.reverseRecOn generalizing m n with
  | nil => rw [denotes_nil_iff.mp hm, denotes_nil_iff.mp hn]
  | append_singleton cs c ih =>
    obtain ⟨m', d, hm', ⟨hd, hlower⟩, rfl⟩ := denotes_concat_iff.mp hm
    obtain ⟨n', e, hn', ⟨he, hlower'⟩, rfl⟩ := denotes_concat_iff.mp hn
    have hdigit : d = e := digitChar_inj (by omega) (by omega) (hlower.symm.trans hlower')
    rw [ih hm' hn', hdigit]

theorem Denotes.isDigit {n : Nat} (hn : Denotes radix cs n) (hc : c ∈ cs) :
    ∃ d, IsDigit radix c d := by
  induction cs using List.reverseRecOn generalizing n with
  | nil => cases hc
  | append_singleton cs last ih =>
    obtain ⟨m, d, hm, hd, -⟩ := denotes_concat_iff.mp hn
    rw [List.mem_append, List.mem_singleton] at hc
    obtain hc | rfl := hc
    · exact ih hm hc
    · exact ⟨d, hd⟩

/-- The digits in front denote a number that is no greater. -/
theorem Denotes.front {front rest : List Char} {m : Nat} (hradix : 0 < radix)
    (hm : Denotes radix (front ++ rest) m) : ∃ n ≤ m, Denotes radix front n := by
  induction rest using List.reverseRecOn generalizing m with
  | nil => exact ⟨m, Nat.le_refl m, by rwa [List.append_nil] at hm⟩
  | append_singleton rest c ih =>
    rw [← List.append_assoc, denotes_concat_iff] at hm
    obtain ⟨m', d, hm', -, rfl⟩ := hm
    obtain ⟨n, hn, hfront⟩ := ih hm'
    have hgrows : m' ≤ m' * radix := Nat.le_mul_of_pos_right m' hradix
    exact ⟨n, by omega, hfront⟩

theorem Denotes.next {front rest : List Char} {m n : Nat} (hradix : 0 < radix)
    (hradix' : radix ≤ 16) (hn : Denotes radix front n)
    (hm : Denotes radix (front ++ c :: rest) m) :
    ∃ d, digitOf? radix c = some d ∧ n * radix + d ≤ m := by
  rw [List.append_cons] at hm
  obtain ⟨k, hk, hfront⟩ := hm.front hradix
  obtain ⟨n', d, hn', hd, rfl⟩ := denotes_concat_iff.mp hfront
  rw [hn.unique hradix' hn']
  exact ⟨d, (digitOf?_eq_some_iff hradix').mpr hd, hk⟩

/-! ## Readers -/

theorem ofDigits?_eq_some_iff (hradix : radix ≤ 16) {n : Nat} :
    ofDigits? radix cs = some n ↔ Denotes radix cs n := by
  induction cs using List.reverseRecOn generalizing n with
  | nil =>
    rw [denotes_nil_iff]
    exact ⟨fun h => (Option.some.inj h).symm, fun h => h ▸ rfl⟩
  | append_singleton cs c ih =>
    rw [ofDigits?_concat, denotes_concat_iff, Option.bind_eq_some_iff]
    simp only [Option.map_eq_some_iff, ih, digitOf?_eq_some_iff hradix]
    constructor
    · rintro ⟨m, hm, d, hd, rfl⟩
      exact ⟨m, d, hm, hd, rfl⟩
    · rintro ⟨m, d, hm, hd, rfl⟩
      exact ⟨m, hm, d, hd, rfl⟩

/-- A number of digits in front, from which a reader goes on. -/
structure Started (radix bound : Nat) (front : List Char) (n : Nat) : Prop where
  pos : 0 < radix
  le : radix ≤ 16
  denotes : Denotes radix front n
  lt : n < bound

variable {bound n : Nat} {front : List Char}

theorem Started.concat (hstarted : Started radix bound front n) {d : Nat} (hd : IsDigit radix c d)
    (hlt : n * radix + d < bound) : Started radix bound (front ++ [c]) (n * radix + d) where
  pos := hstarted.pos
  le := hstarted.le
  denotes := denotes_concat_iff.mpr ⟨n, d, hstarted.denotes, hd, rfl⟩
  lt := hlt

theorem Started.next (hstarted : Started radix bound front n) {m : Nat}
    (hm : Denotes radix (front ++ c :: cs) m) :
    ∃ d, digitOf? radix c = some d ∧ n * radix + d ≤ m :=
  hstarted.denotes.next hstarted.pos hstarted.le hm

theorem readDigits_ok_iff (hstarted : Started radix bound front n) {m : Nat} :
    readDigits radix bound n cs = .ok m ↔ Denotes radix (front ++ cs) m ∧ m < bound := by
  induction cs generalizing front n with
  | nil =>
    rw [readDigits, List.append_nil, Except.ok.injEq]
    constructor
    · rintro rfl
      exact ⟨hstarted.denotes, hstarted.lt⟩
    · exact fun h => hstarted.denotes.unique hstarted.le h.1
  | cons c cs ih =>
    rw [readDigits]
    cases hdigit : digitOf? radix c with
    | none =>
      simp only [reduceCtorEq, false_iff]
      rintro ⟨hm, -⟩
      obtain ⟨d, hd, -⟩ := hstarted.next hm
      rw [hdigit] at hd
      cases hd
    | some d =>
      have hd := (digitOf?_eq_some_iff hstarted.le).mp hdigit
      dsimp only
      split
      · next hlt => rw [ih (hstarted.concat hd hlt), List.append_assoc, List.singleton_append]
      · next hlarge =>
        simp only [reduceCtorEq, false_iff]
        rintro ⟨hm, hlt⟩
        obtain ⟨e, he, hle⟩ := hstarted.next hm
        cases hdigit.symm.trans he
        omega

/-- The number in front is in range, so that at least one more digit is needed to leave it. -/
theorem Started.ne_nil (hstarted : Started radix bound front n) {more : List Char} {m : Nat}
    (hm : Denotes radix (front ++ more) m) (hlarge : bound ≤ m) : more ≠ [] := by
  rintro rfl
  rw [List.append_nil] at hm
  have hsame := hm.unique hstarted.le hstarted.denotes
  have hlt := hstarted.lt
  omega

/-- What stands after digits that are too large does not matter. -/
theorem readDigits_tooLarge_iff (hstarted : Started radix bound front n) :
    readDigits radix bound n cs = .error .tooLarge ↔
      ∃ more m, more <+: cs ∧ Denotes radix (front ++ more) m ∧ bound ≤ m := by
  induction cs generalizing front n with
  | nil =>
    simp only [readDigits, reduceCtorEq, false_iff]
    rintro ⟨more, m, hprefix, hm, hlarge⟩
    exact hstarted.ne_nil hm hlarge (List.prefix_nil.mp hprefix)
  | cons c cs ih =>
    rw [readDigits]
    cases hdigit : digitOf? radix c with
    | none =>
      simp only [Except.error.injEq, reduceCtorEq, false_iff]
      rintro ⟨more, m, hprefix, hm, hlarge⟩
      obtain rfl | ⟨more, rfl, -⟩ := List.prefix_cons_iff.mp hprefix
      · exact hstarted.ne_nil hm hlarge rfl
      · obtain ⟨d, hd, -⟩ := hstarted.next hm
        rw [hdigit] at hd
        cases hd
    | some d =>
      have hd := (digitOf?_eq_some_iff hstarted.le).mp hdigit
      dsimp only
      split
      · next hlt =>
        rw [ih (hstarted.concat hd hlt)]
        simp only [List.append_assoc, List.singleton_append]
        constructor
        · rintro ⟨more, m, hprefix, hm, hlarge⟩
          exact ⟨c :: more, m, (List.prefix_cons_inj c).mpr hprefix, hm, hlarge⟩
        · rintro ⟨more, m, hprefix, hm, hlarge⟩
          obtain rfl | ⟨more, rfl, hrest⟩ := List.prefix_cons_iff.mp hprefix
          · exact absurd rfl (hstarted.ne_nil hm hlarge)
          · exact ⟨more, m, hrest, hm, hlarge⟩
      · next hlarge =>
        have hfirst := denotes_concat_iff.mpr ⟨n, d, hstarted.denotes, hd, rfl⟩
        exact ⟨fun _ => ⟨[c], _, by simp, hfirst, by omega⟩, fun _ => rfl⟩

theorem readDigits_ne_empty : readDigits radix bound n cs ≠ .error .empty := by
  induction cs generalizing n with
  | nil => simp [readDigits]
  | cons c cs ih =>
    rw [readDigits]
    split
    · simp
    · split
      · exact ih
      · simp

/-- Digits without the plus sign that may stand in front of them. -/
def withoutPlus : List Char → List Char
  | '+' :: c :: cs => c :: cs
  | cs => cs

theorem withoutPlus_eq_nil_iff : withoutPlus cs = [] ↔ cs = [] := by
  unfold withoutPlus
  split <;> simp

theorem read_of_ne_nil {bound : Nat} (hcs : cs ≠ []) :
    read radix bound cs = readDigits radix bound 0 (withoutPlus cs) := by
  unfold read
  split
  · exact absurd rfl hcs
  · have hplus : digitOf? radix '+' = none := by
      have hvalue : digitValue? '+' = none := by decide
      rw [digitOf?, hvalue, Option.filter_none]
    change _ = readDigits radix bound 0 ['+']
    rw [readDigits, hplus]
  · next cs hlone =>
    cases cs with
    | nil => exact absurd rfl hlone
    | cons c cs => rfl
  · next hplus =>
    unfold withoutPlus
    split
    · exact absurd rfl (hplus _)
    · rfl

theorem started_nil (hradix : 0 < radix) (hradix' : radix ≤ 16) (hbound : 0 < bound) :
    Started radix bound [] 0 :=
  ⟨hradix, hradix', denotes_nil_iff.mpr rfl, hbound⟩

theorem read_empty_iff : read radix bound cs = .error .empty ↔ cs = [] := by
  by_cases hcs : cs = []
  · rw [hcs, read]
    exact ⟨fun _ => rfl, fun _ => rfl⟩
  · rw [read_of_ne_nil hcs]
    exact ⟨fun h => absurd h readDigits_ne_empty, fun h => absurd h hcs⟩

section Bounded

variable (hradix : 0 < radix) (hradix' : radix ≤ 16) (hbound : 0 < bound)
include hradix hradix' hbound

theorem read_ok_iff {n : Nat} : read radix bound cs = .ok n ↔
    withoutPlus cs ≠ [] ∧ Denotes radix (withoutPlus cs) n ∧ n < bound := by
  by_cases hcs : cs = []
  · subst hcs
    simp [read, withoutPlus]
  · rw [read_of_ne_nil hcs, readDigits_ok_iff (started_nil hradix hradix' hbound),
      List.nil_append, ne_eq, withoutPlus_eq_nil_iff]
    simp [hcs]

theorem read_tooLarge_iff : read radix bound cs = .error .tooLarge ↔
    ∃ front n, front <+: withoutPlus cs ∧ Denotes radix front n ∧ bound ≤ n := by
  have hstarted := started_nil hradix hradix' hbound
  by_cases hcs : cs = []
  · subst hcs
    simp only [read, withoutPlus, Except.error.injEq, reduceCtorEq, false_iff]
    rintro ⟨front, n, hprefix, hn, hlarge⟩
    exact hstarted.ne_nil hn hlarge (List.prefix_nil.mp hprefix)
  · rw [read_of_ne_nil hcs, readDigits_tooLarge_iff hstarted]
    rfl

end Bounded

/-! ## Digits that were written -/

theorem IsDigit.of_toLower {d : Nat} (hd : IsDigit radix c.toLower d) : IsDigit radix c d :=
  ⟨hd.1, (toLower_toLower c).symm.trans hd.2⟩

theorem denotes_of_map_toLower {n : Nat} (hn : Denotes radix (cs.map Char.toLower) n) :
    Denotes radix cs n := by
  obtain ⟨ds, hds, hvalue⟩ := hn
  refine ⟨ds, ?_, hvalue⟩
  rw [← List.map_reverse, List.forall₂_map_left_iff] at hds
  exact hds.imp fun _ _ h => h.of_toLower

theorem isDigit_digitChar {d : Nat} (hradix : radix ≤ 16) (hd : d < radix) :
    IsDigit radix (Nat.digitChar d) d :=
  ⟨hd, toLower_digitChar (by omega)⟩

theorem denotes_zeros (hradix : 0 < radix) (hradix' : radix ≤ 16) (zeros : Nat) :
    Denotes radix (List.replicate zeros '0') 0 := by
  induction zeros with
  | zero => exact denotes_nil_iff.mpr rfl
  | succ zeros ih =>
    rw [List.replicate_succ', denotes_concat_iff]
    exact ⟨0, 0, ih, isDigit_digitChar hradix' hradix, by omega⟩

/-- The digits of a number denote it, and zeros in front change nothing. -/
theorem denotes_toDigits (hradix : 1 < radix) (hradix' : radix ≤ 16) (zeros n : Nat) :
    Denotes radix (List.replicate zeros '0' ++ Nat.toDigits radix n) n := by
  induction n using Nat.strong_induction_on with
  | _ n ih =>
    obtain hlt | hle := Nat.lt_or_ge n radix
    · rw [Nat.toDigits_of_lt_base hlt, denotes_concat_iff]
      exact ⟨0, n, denotes_zeros (by omega) hradix' zeros, isDigit_digitChar hradix' hlt, by omega⟩
    · have hlast : n % radix < radix := Nat.mod_lt n (by omega)
      have hfront := ih (n / radix) (Nat.div_lt_self (by omega) hradix)
      rw [Nat.toDigits_of_base_le hradix hle, ← List.append_assoc, denotes_concat_iff]
      exact ⟨_, _, hfront, isDigit_digitChar hradix' hlast, (Nat.div_add_mod' n radix).symm⟩

end Mips.Numeral
