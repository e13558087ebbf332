import Mathlib.Data.List.TakeDrop
import Mathlib.Data.List.TakeWhile
import Mips.Host.Environment
/-!
# Variables without zero characters

A value has a zero character only if the file has one or another variable has one: neither an escape
nor anything else makes one.  So a file without a zero byte can always be used, whatever else is
wrong with it.
-/

namespace Mips.Environment

/-! ## Values -/

/-- No variable has a zero character in its value. -/
structure Usable (e : Environment) : Prop where
  values : ∀ v ∈ e.values, '\x00' ∉ v.2
  assigned : ∀ v ∈ e.assigned, '\x00' ∉ v.2

variable {e e' : Environment}

theorem zero_notMem_of_lookup {vs : Variables} (h : ∀ v ∈ vs, '\x00' ∉ v.2)
    {name value : List Char} (hvalue : vs.lookup name = some value) : '\x00' ∉ value := by
  obtain ⟨before, after, rfl, -⟩ := List.lookup_eq_some_iff.mp hvalue
  exact h (name, value) (by simp)

theorem Usable.zero_notMem_resolve (he : e.Usable) (reference : List Char) :
    '\x00' ∉ e.resolve reference := by
  unfold resolve
  split
  · next name hspan =>
    cases hvalue : (e.values.lookup name).or (e.assigned.lookup name) with
    | none => exact List.not_mem_nil
    | some value =>
      obtain hvalue | ⟨-, hvalue⟩ := Option.or_eq_some_iff.mp hvalue
      · exact zero_notMem_of_lookup he.values hvalue
      · exact zero_notMem_of_lookup he.assigned hvalue
  · split
    · next value hvalue =>
      split
      · exact fun hzero =>
          zero_notMem_of_lookup he.values hvalue (List.mem_of_mem_drop hzero)
      · exact List.not_mem_nil
    · exact List.not_mem_nil

theorem escape?_ne_zero {c d : Char} (h : escape? c = some d) : '\x00' ≠ d := by
  rintro rfl
  unfold escape? at h
  split at h
  · cases h
  · split at h
    · next hc =>
      obtain rfl := Option.some.inj h
      exact absurd hc (by decide)
    · cases h

theorem zero_notMem_append {front rest : List Char} (hfront : '\x00' ∉ front)
    (hrest : '\x00' ∉ rest) : '\x00' ∉ front ++ rest := by
  simp [hfront, hrest]

/-- By the recursion of the reader.  A step passes characters over, or puts one of them, the value of
a variable or the meaning of an escape in front of what follows. -/
theorem Usable.zero_notMem_value? (he : e.Usable) {state : ValueState} {cs value : List Char}
    (hcs : '\x00' ∉ cs) (hvalue : e.value? state cs = some value) : '\x00' ∉ value := by
  have hcons {c : Char} {cs : List Char} (hcs : '\x00' ∉ c :: cs) :=
    (⟨List.ne_of_not_mem_cons hcs, List.not_mem_of_not_mem_cons hcs⟩ : '\x00' ≠ c ∧ '\x00' ∉ cs)
  fun_induction value? e state cs generalizing value
  case case1 | case2 | case3 | case7 =>
    cases hvalue
    exact List.not_mem_nil
  case case4 =>
    cases hvalue
    exact he.zero_notMem_resolve _
  case case5 | case8 => cases hvalue
  case case9 ih =>
    simp only [Option.bind_eq_bind, Option.bind_eq_some_iff, Option.pure_def,
      Option.some.injEq] at hvalue
    obtain ⟨d, hd, rest, hrest, rfl⟩ := hvalue
    exact List.not_mem_cons_of_ne_of_not_mem (escape?_ne_zero hd) (ih (hcons hcs).2 hrest)
  case case11 ih | case21 ih | case27 ih =>
    obtain ⟨rest, hrest, rfl⟩ := Option.map_eq_some_iff.mp hvalue
    exact List.not_mem_cons_of_ne_of_not_mem (hcons hcs).1 (ih (hcons hcs).2 hrest)
  case case14 ih | case16 ih =>
    obtain ⟨rest, hrest, rfl⟩ := Option.map_eq_some_iff.mp hvalue
    exact zero_notMem_append (he.zero_notMem_resolve _) (ih (hcons hcs).2 hrest)
  case case15 ih =>
    obtain ⟨rest, hrest, rfl⟩ := Option.map_eq_some_iff.mp hvalue
    exact zero_notMem_append (he.zero_notMem_resolve _)
      (List.not_mem_cons_of_ne_of_not_mem (hcons hcs).1 (ih (hcons hcs).2 hrest))
  case case6 ih | case10 ih | case12 ih | case13 ih | case17 ih | case18 ih | case19 ih
    | case20 ih | case22 ih | case23 ih | case24 ih | case25 ih | case26 ih =>
    exact ih (hcons hcs).2 hvalue

/-! ## Assignments -/

theorem suffix_of_name? {cs name rest : List Char} (h : name? cs = some (name, rest)) :
    rest <:+ cs := by
  unfold name? at h
  split at h
  · cases h
  · split at h
    · rw [List.span_eq_takeWhile_dropWhile] at h
      cases h
      exact (List.dropWhile_suffix _).trans (List.dropWhile_suffix _)
    · cases h

theorem suffix_of_target? {cs name rest : List Char} (h : target? cs = some (name, rest)) :
    rest <:+ cs := by
  unfold target? at h
  obtain ⟨⟨word, after⟩, hword, h⟩ := Option.bind_eq_some_iff.mp h
  have hafter := suffix_of_name? hword
  dsimp only at h
  split at h
  · cases h
    exact (List.suffix_cons _ _).trans hafter
  · split at h
    · obtain ⟨⟨word', after'⟩, hword', h⟩ := Option.bind_eq_some_iff.mp h
      have hafter' := (suffix_of_name? hword').trans hafter
      split at h
      · next hequals =>
        cases hequals
        cases h
        exact (List.suffix_cons _ _).trans hafter'
      · cases h
    · cases h

theorem Usable.zero_notMem_assignment? (he : e.Usable) {cs name value : List Char}
    (hcs : '\x00' ∉ cs) (h : e.assignment? cs = some (name, value)) : '\x00' ∉ value := by
  unfold assignment? at h
  obtain ⟨⟨name', rest⟩, htarget, h⟩ := Option.bind_eq_some_iff.mp h
  have hrest : '\x00' ∉ Blank.trimStart rest := fun hzero =>
    hcs ((suffix_of_target? htarget).mem ((List.dropWhile_suffix _).mem hzero))
  dsimp only at h
  split at h
  · cases h
    exact List.not_mem_nil
  · cases h
    exact List.not_mem_nil
  · obtain ⟨value', hvalue, h⟩ := Option.bind_eq_some_iff.mp h
    cases h
    exact he.zero_notMem_value? hrest hvalue

/-! ## Lines -/

def Harmless : Except Trouble Environment → Prop
  | .ok e => e.Usable
  | .error trouble => trouble ≠ .unusableValue

theorem Usable.harmless_assign (he : e.Usable) (name : List Char) {value : List Char}
    (hvalue : '\x00' ∉ value) : Harmless (e.assign name value) := by
  have hassigned : ∀ v ∈ (name, value) :: e.assigned, '\x00' ∉ v.2 :=
    List.forall_mem_cons.mpr ⟨hvalue, he.assigned⟩
  unfold assign
  simp only [hvalue, if_false]
  split
  · exact ⟨he.values, hassigned⟩
  · exact ⟨List.forall_mem_cons.mpr ⟨hvalue, he.values⟩, hassigned⟩

theorem Usable.harmless_line (he : e.Usable) {cs : List Char} (hcs : '\x00' ∉ cs) :
    Harmless (e.line cs) := by
  have htrim : '\x00' ∉ Blank.trim cs := by
    intro hzero
    rw [Blank.trim, Blank.trimEnd, List.mem_reverse] at hzero
    have hstart := List.mem_reverse.mp ((List.dropWhile_suffix _).mem hzero)
    exact hcs ((List.dropWhile_suffix _).mem hstart)
  unfold line
  split
  · exact he
  · exact he
  · split
    · next h => exact he.harmless_assign _ (he.zero_notMem_assignment? htrim h)
    · exact nofun

theorem prefix_uncommented (state : LineState) (cs : List Char) :
    (uncommented state cs).1 <+: cs := by
  induction cs generalizing state with
  | nil => exact List.prefix_rfl
  | cons c cs ih =>
    rw [uncommented]
    split
    · exact List.nil_prefix
    · next next _ => exact (List.prefix_cons_inj c).mpr (ih next)

theorem Usable.lines_ne (he : e.Usable) {left : List Char} {state : LineState}
    {rest : List (Option (List Char))} (hleft : '\x00' ∉ left)
    (hrest : ∀ line, some line ∈ rest → '\x00' ∉ line) :
    (e.lines left state rest).2 ≠ some .unusableValue := by
  induction rest generalizing e left state with
  | nil =>
    rw [lines]
    split <;> simp
  | cons line rest ih =>
    cases line with
    | none => simp [lines]
    | some line =>
      have hline : '\x00' ∉ line := hrest line List.mem_cons_self
      have hrest' := fun line hmem => hrest line (List.mem_cons_of_mem _ hmem)
      have htext {text : List Char} {last : Option LineState}
          (h : uncommented state line = (text, last)) : '\x00' ∉ left ++ text := by
        have hfront := prefix_uncommented state line
        rw [h] at hfront
        exact zero_notMem_append hleft fun hzero => hline (hfront.mem hzero)
      have hfinish {text : List Char} (htext : '\x00' ∉ text) :
          (match e.line text with
            | .ok e => lines e [] .complete rest
            | .error trouble => (e, some trouble)).2 ≠ some .unusableValue := by
        have hharmless := he.harmless_line htext
        cases hended : e.line text with
        | ok e =>
          rw [hended] at hharmless
          exact ih hharmless List.not_mem_nil hrest'
        | error trouble =>
          rw [hended] at hharmless
          exact fun h => hharmless (Option.some.inj h)
      rw [lines]
      split
      · exact ih he List.not_mem_nil hrest'
      · split
        · next h => exact hfinish (htext h)
        · next h => exact hfinish (htext h)
        · next h => exact ih he (htext h) hrest'

/-! ## Files -/

theorem zero_notMem_of_fromUTF8? {bytes : List UInt8} (hzero : 0 ∉ bytes) {text : String}
    (htext : String.fromUTF8? bytes.toByteArray = some text) : '\x00' ∉ text.toList := by
  have hbytes : text.toByteArray = bytes.toByteArray := by
    unfold String.fromUTF8? at htext
    split at htext
    · cases htext
      rfl
    · cases htext
  rw [← String.utf8Encode_toList] at hbytes
  have hbytes' : text.toList.flatMap String.utf8EncodeChar = bytes := by
    simpa [List.utf8Encode] using congrArg (·.data.toList) hbytes
  intro hmem
  rw [← hbytes', List.mem_flatMap] at hzero
  exact hzero ⟨'\x00', hmem, by decide⟩

theorem zero_notMem_close {bytes : List UInt8} (hzero : 0 ∉ bytes) {line : List Char}
    (hline : close bytes = some line) : '\x00' ∉ line := by
  obtain ⟨text, htext, rfl⟩ := Option.map_eq_some_iff.mp hline
  exact zero_notMem_of_fromUTF8? (mt List.mem_reverse.mp hzero) htext

/-- Neither what there is of a line nor the lines before it have anything of a zero byte. -/
structure Zeroless (x : List UInt8 × List (Option (List Char))) : Prop where
  last : 0 ∉ x.1
  earlier : ∀ line, some line ∈ x.2 → '\x00' ∉ line

theorem Zeroless.close {last : List UInt8} {earlier : List (Option (List Char))}
    (h : Zeroless (last, earlier)) : ∀ line, some line ∈ close last :: earlier → '\x00' ∉ line := by
  intro line hline
  obtain hline | hline := List.mem_cons.mp hline
  · exact zero_notMem_close h.last hline.symm
  · exact h.earlier line hline

theorem Zeroless.addByte {x : List UInt8 × List (Option (List Char))} (h : Zeroless x) {b : UInt8}
    (hb : 0 ≠ b) : Zeroless (addByte x b) := by
  obtain ⟨line, earlier⟩ := x
  have hline : Zeroless (b :: line, earlier) :=
    ⟨List.not_mem_cons_of_ne_of_not_mem hb h.last, h.earlier⟩
  rw [Environment.addByte]
  split
  · exact ⟨List.not_mem_nil, hline.close⟩
  · exact hline

theorem zero_notMem_split {content : ByteArray} (hzero : 0 ∉ content.data) {line : List Char}
    (hline : some line ∈ split content) : '\x00' ∉ line := by
  have hfold : Zeroless (content.data.toList.foldl addByte ([], [])) := by
    refine List.foldlRecOn _ _ ⟨List.not_mem_nil, nofun⟩ fun x hx b hb => hx.addByte ?_
    rintro rfl
    exact hzero (Array.mem_toList_iff.mp hb)
  unfold split at hline
  obtain ⟨last, earlier⟩ := content.data.toList.foldl addByte ([], [])
  rw [List.mem_reverse] at hline
  split at hline
  · exact hfold.earlier line hline
  · exact hfold.close line hline

/-- A file without a zero byte has no value that a variable cannot hold. -/
theorem load_ne_unusableValue {values : Variables} (hvalues : ∀ v ∈ values, '\x00' ∉ v.2)
    {content : ByteArray} (hzero : 0 ∉ content.data) :
    (load { values } content).2 ≠ some .unusableValue := by
  have hunmarked : 0 ∉ (unmarked content).data := by
    unfold unmarked
    split
    · rw [ByteArray.data_extract, Array.mem_extract_iff_getElem]
      rintro ⟨k, hk, hbyte⟩
      exact hzero (Array.mem_of_getElem hbyte)
    · exact hzero
  have he : Usable { values } := ⟨hvalues, nofun⟩
  exact he.lines_ne List.not_mem_nil fun line hline => zero_notMem_split hunmarked hline

end Mips.Environment
