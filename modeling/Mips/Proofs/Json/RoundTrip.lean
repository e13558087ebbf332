import Mathlib.Data.List.DropRight
import Mathlib.Data.List.TakeDrop
import Mips.Json.Reader
import Mips.Json.Writer
import Mips.Proofs.Text.Numeral
/-!
# Values read back from their texts

The reader undoes the writer on values whose numbers are numerals and whose strings hold no
escapes.  A number has no end of its own, so its reading depends on what stands behind it; what the
writer puts behind a value is `Ends`.  The fuel of the reader is bounded by twice the length of what
it reads: each value and each item takes a unit, and an item after the first has a comma and a line
break of its own.
-/

namespace Mips.Json

/-! ## White space -/

theorem isSpace_of_mem_newline {level : Nat} {c : Char} (hc : c ∈ newline level) :
    isSpace c = true := by
  rw [newline, List.mem_cons, List.mem_replicate] at hc
  obtain rfl | ⟨-, rfl⟩ := hc <;> rfl

theorem skip_newline (level : Nat) (cs : List Char) : skip (newline level ++ cs) = skip cs :=
  List.dropWhile_append_of_pos fun _ => isSpace_of_mem_newline

theorem skip_skip (cs : List Char) : skip (skip cs) = skip cs :=
  List.dropWhile_idempotent isSpace cs

theorem skip_cons {c : Char} (hc : isSpace c = false) (cs : List Char) :
    skip (c :: cs) = c :: cs :=
  List.dropWhile_cons_of_neg (by simp [hc])

theorem value_skip (fuel : Nat) (cs : List Char) : value fuel (skip cs) = value fuel cs := by
  cases fuel with
  | zero => rfl
  | succ fuel => rw [value, value, skip_skip]

theorem items_skip (fuel : Nat) (cs : List Char) : items fuel (skip cs) = items fuel cs := by
  cases fuel with
  | zero => rfl
  | succ fuel => rw [items, items, value_skip]

theorem members_skip (fuel : Nat) (cs : List Char) : members fuel (skip cs) = members fuel cs := by
  cases fuel with
  | zero => rfl
  | succ fuel => rw [members, members, scanName, scanName, skip_skip]

/-! ## Numbers -/

/-- What may stand behind a value: nothing, a comma or the end of the line. -/
inductive Ends : List Char → Prop where
  | nil : Ends []
  | comma (cs : List Char) : Ends (',' :: cs)
  | line (cs : List Char) : Ends ('\n' :: cs)

theorem ends_newline (level : Nat) (cs : List Char) : Ends (newline level ++ cs) :=
  .line _

theorem digits_append {ds rest : List Char} (hds : ∀ c ∈ ds, c.isDigit = true) (hne : ds ≠ [])
    (hrest : Ends rest) : digits (ds ++ rest) = some (ds, rest) := by
  have hstop : rest.takeWhile Char.isDigit = [] ∧ rest.dropWhile Char.isDigit = rest := by
    cases hrest <;> exact ⟨rfl, rfl⟩
  have hspan : (ds ++ rest).span Char.isDigit = (ds, rest) := by
    rw [List.span_eq_takeWhile_dropWhile, List.takeWhile_append_of_pos hds,
      List.dropWhile_append_of_pos hds, hstop.1, hstop.2, List.append_nil]
  cases ds with
  | nil => exact absurd rfl hne
  | cons d ds => rw [digits, hspan]

theorem toDigits_eq_cons (n : Nat) :
    ∃ d ds, Nat.toDigits 10 n = d :: ds ∧ d.isDigit = true := by
  obtain ⟨d, ds, hds⟩ := List.exists_cons_of_ne_nil (Nat.toDigits_ne_nil (n := n) (b := 10))
  have hmem : d ∈ Nat.toDigits 10 n := by
    rw [hds]
    exact List.mem_cons_self
  exact ⟨d, ds, hds, Nat.isDigit_of_mem_toDigits (by decide) (by decide) hmem⟩

theorem whole_toDigits (n : Nat) {rest : List Char} (hrest : Ends rest) :
    whole (Nat.toDigits 10 n ++ rest) = some (Nat.toDigits 10 n, rest) := by
  by_cases hn : n = 0
  · have hnext : rest.head?.any Char.isDigit = false := by
      cases hrest <;> rfl
    subst hn
    change whole ('0' :: rest) = some (['0'], rest)
    rw [whole, hnext]
    rfl
  · have hdigits : digits (Nat.toDigits 10 n ++ rest) = some (Nat.toDigits 10 n, rest) :=
      digits_append (fun _ => Nat.isDigit_of_mem_toDigits (by decide) (by decide))
        Nat.toDigits_ne_nil hrest
    have hhead := Numeral.head?_toDigits_ne hn
    obtain ⟨d, ds, hds, -⟩ := toDigits_eq_cons n
    rw [hds] at hdigits hhead ⊢
    rw [List.cons_append, whole]
    · exact hdigits
    · rintro _ ⟨⟩
      exact hhead rfl

theorem fraction_of_ends {rest : List Char} (hrest : Ends rest) :
    fraction rest = some ([], rest) := by
  cases hrest <;> rfl

theorem exponent_of_ends {rest : List Char} (hrest : Ends rest) :
    exponent rest = some ([], rest) := by
  cases hrest <;> rfl

theorem scanNumber_toDigits (n : Nat) {rest : List Char} (hrest : Ends rest) :
    scanNumber (Nat.toDigits 10 n ++ rest) = some (Nat.toDigits 10 n, rest) := by
  have hsign (cs : List Char) : Nat.toDigits 10 n ++ rest ≠ '-' :: cs := by
    obtain ⟨d, ds, hds, hd⟩ := toDigits_eq_cons n
    rw [hds]
    rintro ⟨⟩
    cases hd
  unfold scanNumber
  split
  next sign cs hcs =>
    split at hcs
    · next heq => exact absurd heq (hsign _)
    · cases hcs
      rw [whole_toDigits n hrest, Option.bind_eq_bind, Option.bind_some]
      simp [fraction_of_ends hrest, exponent_of_ends hrest]

theorem value_digit {d : Char} (hd : d.isDigit = true) (fuel : Nat) (cs : List Char) :
    value (fuel + 1) (d :: cs) =
      (scanNumber (d :: cs)).map fun (n, rest) => (.number n, rest) := by
  have hspace : isSpace d = false := by
    rw [Bool.eq_false_iff]
    intro h
    rw [isSpace] at h
    simp only [Bool.or_eq_true, decide_eq_true_eq] at h
    obtain ((rfl | rfl) | rfl) | rfl := h <;> cases hd
  rw [value, skip_cons hspace]
  split <;> first | rfl | (next h => cases h; cases hd)

/-! ## Strings -/

def isLiteral (c : Char) : Bool := c ≠ '"' && c ≠ '\\' && !decide (c < ' ')

theorem scanString_cons {c : Char} (hc : isLiteral c = true) (cs : List Char) :
    scanString (c :: cs) = (scanString cs).map fun (s, rest) => (c :: s, rest) := by
  have hlit : c ≠ '"' ∧ c ≠ '\\' ∧ ¬ c < ' ' := by
    simpa [isLiteral, and_assoc] using hc
  obtain ⟨hquote, hescape, hcontrol⟩ := hlit
  rw [scanString.eq_5 c cs hquote]
  · rw [if_neg (by simp [hcontrol, hescape])]
    cases scanString cs <;> rfl
  · intro _ _ _ _ _ h
    exact absurd h hescape
  · intro _ _ h
    exact absurd h hescape

theorem scanString_append {s : List Char} (hs : ∀ c ∈ s, isLiteral c = true)
    (rest : List Char) : scanString (s ++ '"' :: rest) = some (s, rest) := by
  induction s with
  | nil => rfl
  | cons c s ih =>
    rw [List.forall_mem_cons] at hs
    rw [List.cons_append, scanString_cons hs.1, ih hs.2]
    rfl

theorem string?_cons {c : Char} (hc : isLiteral c = true) (cs : List Char) :
    string? (c :: cs) = (string? cs).map (c :: ·) := by
  have hescape : c ≠ '\\' := by
    rintro rfl
    cases hc
  rw [string?.eq_5 c cs]
  · cases string? cs <;> rfl
  · intro _ _ _ _ _ _ _ _ _ h
    exact absurd h hescape
  · intro _ _ _ _ _ h
    exact absurd h hescape
  · intro _ _ h
    exact absurd h hescape

theorem string?_eq_some {s : List Char} (hs : ∀ c ∈ s, isLiteral c = true) :
    string? s = some s := by
  induction s with
  | nil => rw [string?]
  | cons c s ih =>
    rw [List.forall_mem_cons] at hs
    rw [string?_cons hs.1, ih hs.2]
    rfl

theorem scanName_append {name : List Char} (hname : ∀ c ∈ name, isLiteral c = true)
    (rest : List Char) : scanName ('"' :: (name ++ '"' :: ':' :: rest)) = some (name, rest) := by
  rw [scanName, skip_cons (by decide)]
  simp only
  rw [scanString_append hname, Option.bind_eq_bind, Option.bind_some]
  simp only
  rw [skip_cons (by decide)]
  rfl

/-! ## Values -/

/-- The reader gives the value back from what is written at the level, and stops behind it. -/
def ReadsBack (level : Nat) (v : Json) : Prop :=
  ∀ rest fuel, Ends rest → 2 * (write level v).length < fuel →
    value fuel (write level v ++ rest) = some (v, rest)

theorem readsBack_null (level : Nat) : ReadsBack level .null := by
  rintro rest (_ | fuel) - hfuel
  · omega
  · rfl

theorem readsBack_bool (level : Nat) (b : Bool) : ReadsBack level (.bool b) := by
  rintro rest (_ | fuel) - hfuel
  · omega
  · cases b <;> rfl

theorem readsBack_number (level n : Nat) : ReadsBack level (.number (Nat.toDigits 10 n)) := by
  rintro rest (_ | fuel) hrest hfuel
  · omega
  · have hscan := scanNumber_toDigits n hrest
    obtain ⟨d, ds, hds, hd⟩ := toDigits_eq_cons n
    rw [hds] at hscan ⊢
    rw [write, List.cons_append, value_digit hd, ← List.cons_append, hscan]
    rfl

theorem readsBack_string (level : Nat) {s : List Char} (hs : ∀ c ∈ s, isLiteral c = true) :
    ReadsBack level (.string s) := by
  rintro rest (_ | fuel) - hfuel
  · omega
  · have hlayout : write level (.string s) ++ rest = '"' :: (s ++ '"' :: rest) := by
      simp [write]
    rw [hlayout, value, skip_cons (by decide)]
    simp only
    rw [scanString_append hs]
    rfl

/-! ### Arrays -/

section Arrays

variable {level : Nat} {v : Json} {vs : List Json}

theorem items_last (hread : ReadsBack level v) (k : Nat) (rest : List Char) {fuel : Nat}
    (hfuel : 2 * (write level v).length < fuel) :
    items (fuel + 1) (write level v ++ (newline k ++ ']' :: rest)) = some ([v], rest) := by
  have hvalue := hread _ fuel (ends_newline k (']' :: rest)) hfuel
  rw [items, hvalue, Option.bind_eq_bind, Option.bind_some]
  simp only
  rw [skip_newline, skip_cons (by decide)]
  rfl

theorem items_more (hread : ReadsBack level v) (k : Nat) (cs : List Char) {fuel : Nat}
    (hfuel : 2 * (write level v).length < fuel) :
    items (fuel + 1) (write level v ++ ',' :: (newline k ++ cs)) =
      (items fuel cs).map fun (vs, rest) => (v :: vs, rest) := by
  have hvalue := hread _ fuel (.comma (newline k ++ cs)) hfuel
  rw [items, hvalue, Option.bind_eq_bind, Option.bind_some]
  simp only
  rw [skip_cons (by decide)]
  simp only
  rw [← items_skip, skip_newline, items_skip]
  cases items fuel cs <;> rfl

theorem items_write (hread : ∀ w ∈ v :: vs, ReadsBack level w) (k : Nat) (rest : List Char)
    (fuel : Nat)
    (hfuel : 2 * (write level v).length + 2 * (writeItems level vs).length + 1 < fuel) :
    items fuel (write level v ++ (writeItems level vs ++ (newline k ++ ']' :: rest))) =
      some (v :: vs, rest) := by
  induction vs generalizing v fuel with
  | nil =>
    obtain ⟨fuel, rfl⟩ : ∃ n, fuel = n + 1 := ⟨fuel - 1, by omega⟩
    exact items_last (hread v List.mem_cons_self) k rest (by omega)
  | cons w vs ih =>
    obtain ⟨fuel, rfl⟩ : ∃ n, fuel = n + 1 := ⟨fuel - 1, by omega⟩
    have hlayout : writeItems level (w :: vs) ++ (newline k ++ ']' :: rest) =
        ',' :: (newline level ++
          (write level w ++ (writeItems level vs ++ (newline k ++ ']' :: rest)))) := by
      simp [writeItems]
    -- The comma pays for the unit of fuel that this item takes.
    have hlength : (write level w).length + (writeItems level vs).length <
        (writeItems level (w :: vs)).length := by
      simp only [writeItems, List.length_append, List.length_cons]
      omega
    rw [hlayout, items_more (hread v List.mem_cons_self) level _ (by omega),
      ih (fun u hu => hread u (List.mem_cons_of_mem v hu)) fuel (by omega)]
    rfl

theorem value_bracket (fuel : Nat) (cs : List Char) : value fuel (']' :: cs) = none := by
  cases fuel <;> rfl

theorem readsBack_emptyArray (level : Nat) : ReadsBack level (.array []) := by
  rintro rest (_ | fuel) - hfuel
  · omega
  · rfl

theorem readsBack_array (hread : ∀ w ∈ v :: vs, ReadsBack (level + 1) w) :
    ReadsBack level (.array (v :: vs)) := by
  rintro rest (_ | fuel) - hfuel
  · omega
  have hlayout : write level (.array (v :: vs)) ++ rest =
      '[' :: (newline (level + 1) ++ (write (level + 1) v ++
        (writeItems (level + 1) vs ++ (newline level ++ ']' :: rest)))) := by
    simp [write]
  simp only [write, List.length_append, List.length_cons] at hfuel
  have hitems := items_write hread level rest fuel (by omega)
  rw [hlayout, value, skip_cons (by decide)]
  simp only
  rw [skip_newline]
  split
  next hclose =>
    -- A closing bracket here would start the first item, and no value starts with one.
    rw [← items_skip, hclose] at hitems
    cases fuel with
    | zero => omega
    | succ fuel =>
      rw [items, value_bracket] at hitems
      cases hitems
  next =>
    rw [items_skip, hitems]
    rfl

end Arrays

/-! ### Objects -/

section Objects

variable {level : Nat} {m : List Char × Json} {ms : List (List Char × Json)}

theorem writeMember_eq (level : Nat) (m : List Char × Json) :
    writeMember level m = '"' :: (m.1 ++ '"' :: ':' :: ' ' :: write level m.2) := by
  obtain ⟨name, v⟩ := m
  simp [writeMember]

theorem length_writeMember (level : Nat) (m : List Char × Json) :
    (writeMember level m).length = m.1.length + (write level m.2).length + 4 := by
  simp only [writeMember_eq, List.length_append, List.length_cons]
  omega

theorem scanName_writeMember (hname : ∀ c ∈ m.1, isLiteral c = true) (cs : List Char) :
    scanName (writeMember level m ++ cs) = some (m.1, ' ' :: (write level m.2 ++ cs)) := by
  rw [writeMember_eq, List.cons_append, List.append_assoc]
  exact scanName_append hname _

theorem ReadsBack.value_space {v : Json} (hread : ReadsBack level v) {cs : List Char}
    (hcs : Ends cs) (fuel : Nat) (hfuel : 2 * (write level v).length < fuel) :
    value fuel (' ' :: (write level v ++ cs)) = some (v, cs) := by
  have hspace : skip (' ' :: (write level v ++ cs)) = skip (write level v ++ cs) := rfl
  rw [← value_skip, hspace, value_skip, hread cs fuel hcs hfuel]

theorem members_last (hname : ∀ c ∈ m.1, isLiteral c = true) (hread : ReadsBack level m.2)
    (k : Nat) (rest : List Char) {fuel : Nat}
    (hfuel : 2 * (writeMember level m).length < fuel) :
    members (fuel + 1) (writeMember level m ++ (newline k ++ '\x7d' :: rest)) =
      some ([m], rest) := by
  rw [length_writeMember] at hfuel
  have hvalue := hread.value_space (ends_newline k ('\x7d' :: rest)) fuel (by omega)
  rw [members, scanName_writeMember hname, Option.bind_eq_bind, Option.bind_some]
  simp only
  rw [hvalue, Option.bind_eq_bind, Option.bind_some]
  simp only
  rw [skip_newline, skip_cons (by decide)]
  rfl

theorem members_more (hname : ∀ c ∈ m.1, isLiteral c = true) (hread : ReadsBack level m.2)
    (k : Nat) (cs : List Char) {fuel : Nat} (hfuel : 2 * (writeMember level m).length < fuel) :
    members (fuel + 1) (writeMember level m ++ ',' :: (newline k ++ cs)) =
      (members fuel cs).map fun (ms, rest) => (m :: ms, rest) := by
  rw [length_writeMember] at hfuel
  have hvalue := hread.value_space (.comma (newline k ++ cs)) fuel (by omega)
  rw [members, scanName_writeMember hname, Option.bind_eq_bind, Option.bind_some]
  simp only
  rw [hvalue, Option.bind_eq_bind, Option.bind_some]
  simp only
  rw [skip_cons (by decide)]
  simp only
  rw [← members_skip, skip_newline, members_skip]
  cases members fuel cs <;> rfl

theorem members_write (hnames : ∀ p ∈ m :: ms, ∀ c ∈ p.1, isLiteral c = true)
    (hread : ∀ p ∈ m :: ms, ReadsBack level p.2) (k : Nat) (rest : List Char) (fuel : Nat)
    (hfuel :
      2 * (writeMember level m).length + 2 * (writeMembers level ms).length + 1 < fuel) :
    members fuel
        (writeMember level m ++ (writeMembers level ms ++ (newline k ++ '\x7d' :: rest))) =
      some (m :: ms, rest) := by
  induction ms generalizing m fuel with
  | nil =>
    obtain ⟨fuel, rfl⟩ : ∃ n, fuel = n + 1 := ⟨fuel - 1, by omega⟩
    exact members_last (hnames m List.mem_cons_self) (hread m List.mem_cons_self) k rest (by omega)
  | cons p ms ih =>
    obtain ⟨fuel, rfl⟩ : ∃ n, fuel = n + 1 := ⟨fuel - 1, by omega⟩
    have hlayout : writeMembers level (p :: ms) ++ (newline k ++ '\x7d' :: rest) =
        ',' :: (newline level ++
          (writeMember level p ++ (writeMembers level ms ++ (newline k ++ '\x7d' :: rest)))) := by
      simp [writeMembers]
    have hlength : (writeMember level p).length + (writeMembers level ms).length <
        (writeMembers level (p :: ms)).length := by
      simp only [writeMembers, List.length_append, List.length_cons]
      omega
    have htail : members fuel
        (writeMember level p ++ (writeMembers level ms ++ (newline k ++ '\x7d' :: rest))) =
          some (p :: ms, rest) := by
      apply ih
      · exact fun q hq => hnames q (List.mem_cons_of_mem m hq)
      · exact fun q hq => hread q (List.mem_cons_of_mem m hq)
      · omega
    rw [hlayout, members_more (hnames m List.mem_cons_self) (hread m List.mem_cons_self) level _
      (by omega), htail]
    rfl

theorem readsBack_emptyObject (level : Nat) : ReadsBack level (.object []) := by
  rintro rest (_ | fuel) - hfuel
  · omega
  · rfl

theorem readsBack_object (hnames : ∀ p ∈ m :: ms, ∀ c ∈ p.1, isLiteral c = true)
    (hread : ∀ p ∈ m :: ms, ReadsBack (level + 1) p.2) : ReadsBack level (.object (m :: ms)) := by
  rintro rest (_ | fuel) - hfuel
  · omega
  have hlayout : write level (.object (m :: ms)) ++ rest =
      '\x7b' :: (newline (level + 1) ++ (writeMember (level + 1) m ++
        (writeMembers (level + 1) ms ++ (newline level ++ '\x7d' :: rest)))) := by
    simp [write]
  simp only [write, List.length_append, List.length_cons] at hfuel
  have hmembers := members_write hnames hread level rest fuel (by omega)
  rw [writeMember_eq, List.cons_append] at hmembers
  rw [hlayout, writeMember_eq, List.cons_append, value, skip_cons (by decide)]
  simp only
  rw [skip_newline, skip_cons (by decide)]
  change (members fuel _).map (fun (ms, rest) => (object ms, rest)) = _
  rw [hmembers]
  rfl

end Objects

/-! ## Texts -/

/-- Values whose numbers are numerals and whose strings hold no escapes. -/
inductive Plain : Json → Prop where
  | null : Plain .null
  | bool (b : Bool) : Plain (.bool b)
  | number (n : Nat) : Plain (.number (Nat.toDigits 10 n))
  | string {s : List Char} (hs : ∀ c ∈ s, isLiteral c = true) : Plain (.string s)
  | array {vs : List Json} (hvs : ∀ v ∈ vs, Plain v) : Plain (.array vs)
  | object {ms : List (List Char × Json)} (hnames : ∀ m ∈ ms, ∀ c ∈ m.1, isLiteral c = true)
      (hvs : ∀ m ∈ ms, Plain m.2) : Plain (.object ms)

theorem Plain.readsBack {v : Json} (hv : v.Plain) (level : Nat) : ReadsBack level v := by
  induction hv generalizing level with
  | null => exact readsBack_null level
  | bool b => exact readsBack_bool level b
  | number n => exact readsBack_number level n
  | string hs => exact readsBack_string level hs
  | @array vs _ ih =>
    cases vs with
    | nil => exact readsBack_emptyArray level
    | cons v vs => exact readsBack_array fun w hw => ih w hw (level + 1)
  | @object ms hnames _ ih =>
    cases ms with
    | nil => exact readsBack_emptyObject level
    | cons m ms => exact readsBack_object hnames fun p hp => ih p hp (level + 1)

theorem Plain.read?_text {v : Json} (hv : v.Plain) : read? v.text = some v := by
  have hvalue := hv.readsBack 0 [] (2 * (write 0 v).length + 2) Ends.nil (by omega)
  rw [List.append_nil] at hvalue
  rw [read?, text, String.toList_ofList]
  simp only
  rw [hvalue]
  rfl

end Mips.Json
