import Mathlib.Data.List.Basic
import Mips.Instruction.Assembly
import Mips.Proofs.Text.Numeral
/-!
# Assembly text determines the assembly line

Mnemonics, register names and numerals are told apart by their texts, and none of them contains a
blank, a comma or an opening bracket that could be taken for a separator.  So the mnemonic and the
operands of a line can be recovered from its text: `Assembly.ofWord_eq_of_disassemble_eq`.
-/

namespace Mips

open Numeral

/-- What stands before the first separator, and what stands behind it. -/
theorem append_inj_of_notMem {α : Type} {sep : α} {xs ys rs ss : List α} (hxs : sep ∉ xs)
    (hys : sep ∉ ys) (h : xs ++ sep :: rs = ys ++ sep :: ss) : xs = ys ∧ rs = ss := by
  induction xs generalizing ys with
  | nil =>
    cases ys with
    | nil => exact ⟨rfl, (List.cons.inj h).2⟩
    | cons y ys => exact absurd (.head _) ((List.cons.inj h).1 ▸ hys)
  | cons x xs ih =>
    cases ys with
    | nil => exact absurd (.head _) ((List.cons.inj h).1 ▸ hxs)
    | cons y ys =>
      obtain ⟨hhead, htail⟩ := List.cons.inj h
      obtain ⟨hinit, hrest⟩ := ih (fun hmem => hxs (.tail _ hmem))
        (fun hmem => hys (.tail _ hmem)) htail
      exact ⟨by rw [hhead, hinit], hrest⟩

/-! ## Names -/

namespace Opcode

theorem find?_mnemonic (op : Opcode) : (all.find? fun o => o.mnemonic == op.mnemonic) = some op := by
  cases op <;> decide

theorem mnemonic_inj {op op' : Opcode} (htext : op.mnemonic = op'.mnemonic) : op = op' := by
  have hfind := op.find?_mnemonic
  rw [htext, find?_mnemonic] at hfind
  exact (Option.some.inj hfind).symm

theorem mnemonic_ne_nop (op : Opcode) : op.mnemonic ≠ "nop" := by
  cases op <;> decide

theorem isAlphanum_of_mem_mnemonic {op : Opcode} {c : Char} (hc : c ∈ op.mnemonic.toList) :
    c.isAlphanum = true := by
  have hall : op.mnemonic.toList.all Char.isAlphanum = true := by cases op <;> decide
  exact List.all_eq_true.mp hall c hc

end Opcode

theorem Reg.name_inj {r s : Reg} (htext : r.name = s.name) : r = s := by
  revert r s
  decide

theorem Reg.isAlphanum_of_mem_name {r : Reg} {c : Char} (hc : c ∈ r.name.toList) :
    c.isAlphanum = true := by
  have hall : ∀ r : Reg, r.name.toList.all Char.isAlphanum = true := by decide
  exact List.all_eq_true.mp (hall r) c hc

theorem ControlReg.name_inj {r s : ControlReg} (htext : name r = name s) : r = s := by
  revert r s
  decide

theorem ControlReg.isAlphanum_of_mem_name {r : ControlReg} {c : Char} (hc : c ∈ (name r).toList) :
    c.isAlphanum = true := by
  have hall : ∀ r : ControlReg, (name r).toList.all Char.isAlphanum = true := by decide
  exact List.all_eq_true.mp (hall r) c hc

/-! ## Operands -/

namespace Operand

/-- The characters of which operands are made. -/
def isPart (c : Char) : Bool := c.isAlphanum || c ∈ ['-', '$', '(', ')']

theorem isPart_of_isAlphanum {c : Char} (hc : c.isAlphanum = true) : isPart c = true := by
  rw [isPart, hc, Bool.true_or]

theorem isPart_of_mem_decimal {n : Nat} {c : Char} (hc : c ∈ (decimal n).toList) :
    isPart c = true := by
  apply isPart_of_isAlphanum
  rw [Char.isAlphanum, isDigit_of_mem_decimal hc, Bool.or_true]

theorem isPart_of_mem_signed {x : Int} {c : Char} (hc : c ∈ (Numeral.signed x).toList) :
    isPart c = true := by
  obtain rfl | hc := mem_signed hc
  · decide
  · apply isPart_of_isAlphanum
    rw [Char.isAlphanum, hc, Bool.or_true]

theorem isPart_of_mem_hex {width n : Nat} {c : Char} (hc : c ∈ ("0x" ++ hex width n).toList) :
    isPart c = true := by
  have hcases : c = '0' ∨ c = 'x' ∨ c ∈ hexDigits width n := by simpa [hex] using hc
  obtain rfl | rfl | hc := hcases
  · decide
  · decide
  · exact isPart_of_isAlphanum (isAlphanum_of_mem_hexDigits hc)

theorem isPart_of_mem_text {o : Operand} {c : Char} (hc : c ∈ o.text.toList) :
    isPart c = true := by
  cases o with
  | reg r => exact isPart_of_isAlphanum (Reg.isAlphanum_of_mem_name hc)
  | float r =>
    have hcases : c = '$' ∨ c = 'f' ∨ c ∈ (decimal r).toList := by simpa [text] using hc
    obtain rfl | rfl | hc := hcases
    · decide
    · decide
    · exact isPart_of_mem_decimal hc
  | control r => exact isPart_of_isAlphanum (ControlReg.isAlphanum_of_mem_name hc)
  | amount n => exact isPart_of_mem_decimal hc
  | signed i => exact isPart_of_mem_signed hc
  | mask i => exact isPart_of_mem_hex hc
  | address a => exact isPart_of_mem_hex hc
  | memory offset base =>
    have hcases : c ∈ (Numeral.signed offset.toInt).toList ∨ c = '(' ∨
        c ∈ base.name.toList ∨ c = ')' := by simpa [text] using hc
    obtain hc | rfl | hc | rfl := hcases
    · exact isPart_of_mem_signed hc
    · decide
    · exact isPart_of_isAlphanum (Reg.isAlphanum_of_mem_name hc)
    · decide
  | cacheOp n => exact isPart_of_mem_hex hc

theorem prefixed_inj {s t u : String} (htext : s ++ t = s ++ u) : t = u := by
  apply String.toList_inj.mp
  simpa using congrArg String.toList htext

theorem memory_text_inj {i j : Half} {r s : Reg}
    (htext : (memory i r).text = (memory j s).text) : memory i r = memory j s := by
  have hbracket (k : Half) : '(' ∉ (Numeral.signed k.toInt).toList := by
    intro h
    obtain h | h := mem_signed h <;> revert h <;> decide
  have hlist : (Numeral.signed i.toInt).toList ++ '(' :: (r.name.toList ++ [')']) =
      (Numeral.signed j.toInt).toList ++ '(' :: (s.name.toList ++ [')']) := by
    simpa [text] using congrArg String.toList htext
  obtain ⟨hoffset, hbase⟩ := append_inj_of_notMem (hbracket i) (hbracket j) hlist
  have hi : i = j := BitVec.eq_of_toInt_eq (signed_inj (String.toList_inj.mp hoffset))
  have hr : r = s := Reg.name_inj (String.toList_inj.mp (List.append_cancel_right hbase))
  rw [hi, hr]

/-- Operands of the same kind are told apart by their texts. -/
theorem text_inj {o p : Operand} (hkind : o.ctorIdx = p.ctorIdx) (htext : o.text = p.text) :
    o = p := by
  cases o <;> cases p <;> try cases hkind
  case reg.reg r s => exact congrArg reg (Reg.name_inj htext)
  case float.float r s => exact congrArg float (Fin.ext (decimal_inj (prefixed_inj htext)))
  case control.control r s => exact congrArg control (ControlReg.name_inj htext)
  case amount.amount m n => exact congrArg amount (Fin.ext (decimal_inj htext))
  case signed.signed i j => exact congrArg signed (BitVec.eq_of_toInt_eq (signed_inj htext))
  case mask.mask i j =>
    have hdigits := @hex_inj 4 _ _ i.isLt j.isLt (prefixed_inj htext)
    exact congrArg mask (BitVec.eq_of_toNat_eq hdigits)
  case address.address a b => exact congrArg address (hex32_inj htext)
  case memory.memory i r j s => exact memory_text_inj htext
  case cacheOp.cacheOp m n =>
    have hm : m.val < 16 ^ 2 := Nat.lt_trans m.isLt (by decide)
    have hn : n.val < 16 ^ 2 := Nat.lt_trans n.isLt (by decide)
    exact congrArg cacheOp (Fin.ext (hex_inj hm hn (prefixed_inj htext)))

theorem map_text_inj {os ps : List Operand} (hkind : os.map Operand.ctorIdx = ps.map Operand.ctorIdx)
    (htext : os.map text = ps.map text) : os = ps := by
  induction os generalizing ps with
  | nil => exact (List.map_eq_nil_iff.mp htext.symm).symm
  | cons o os ih =>
    cases ps with
    | nil => cases htext
    | cons p ps =>
      obtain ⟨ho, hos⟩ := List.cons.inj hkind
      obtain ⟨hp, hps⟩ := List.cons.inj htext
      rw [text_inj ho hp, ih hos hps]

end Operand

/-! ## Lines -/

namespace Assembly

theorem intercalate_inj {sep : Char} {xs ys : List (List Char)}
    (hlength : xs.length = ys.length) (hxs : ∀ x ∈ xs, sep ∉ x) (hys : ∀ y ∈ ys, sep ∉ y)
    (htext : [sep, ' '].intercalate xs = [sep, ' '].intercalate ys) : xs = ys := by
  induction xs generalizing ys with
  | nil => exact (List.length_eq_zero_iff.mp hlength.symm).symm
  | cons x xs ih =>
    obtain _ | ⟨y, ys⟩ := ys
    · cases hlength
    · have hlength' : xs.length = ys.length := Nat.succ.inj hlength
      obtain _ | ⟨x', xs⟩ := xs
      · obtain rfl := List.length_eq_zero_iff.mp hlength'.symm
        simpa using htext
      · obtain _ | ⟨y', ys⟩ := ys
        · cases hlength'
        · rw [List.intercalate_cons_cons, List.intercalate_cons_cons, List.append_assoc,
            List.append_assoc] at htext
          obtain ⟨hx, hrest⟩ := append_inj_of_notMem (hxs x (.head _)) (hys y (.head _)) htext
          have hxs' : ∀ z ∈ x' :: xs, sep ∉ z := fun z hz => hxs z (.tail _ hz)
          have hys' : ∀ z ∈ y' :: ys, sep ∉ z := fun z hz => hys z (.tail _ hz)
          rw [hx, ih hlength' hxs' hys' (List.cons.inj hrest).2]

/-- What follows the mnemonic and a blank, with another blank at its end. -/
def tail (os : List Operand) : List Char :=
  match os with
  | [] => []
  | os => [',', ' '].intercalate (os.map fun o => o.text.toList) ++ [' ']

theorem toList_text (a : Assembly) :
    a.text.toList ++ [' '] = a.mnemonic.toList ++ ' ' :: tail a.operands := by
  obtain ⟨mnemonic, _ | ⟨o, os⟩⟩ := a
  · rfl
  · have hmap : (o :: os).map (fun o => o.text.toList) =
        ((o :: os).map Operand.text).map String.toList := by
      rw [List.map_map]
      rfl
    simp only [text, tail, String.toList_append, String.toList_intercalate, hmap]
    simp

theorem comma_notMem_text (o : Operand) : ',' ∉ o.text.toList := fun h =>
  absurd (Operand.isPart_of_mem_text h) (by decide)

theorem tail_inj {os ps : List Operand}
    (hkind : os.map Operand.ctorIdx = ps.map Operand.ctorIdx) (htail : tail os = tail ps) :
    os = ps := by
  have hlength : os.length = ps.length := by simpa using congrArg List.length hkind
  have hcomma (os : List Operand) : ∀ x ∈ os.map fun o => o.text.toList, ',' ∉ x := by
    intro x hx
    obtain ⟨o, -, rfl⟩ := List.mem_map.mp hx
    exact comma_notMem_text o
  have htexts : os.map (fun o => o.text.toList) = ps.map fun o => o.text.toList := by
    obtain _ | ⟨o, os⟩ := os
    · obtain rfl := List.length_eq_zero_iff.mp hlength.symm
      rfl
    · obtain _ | ⟨p, ps⟩ := ps
      · cases hlength
      · apply intercalate_inj (by simpa using hlength) (hcomma _) (hcomma _)
        exact List.append_cancel_right htail
  apply Operand.map_text_inj hkind
  apply List.map_injective_iff.mpr fun _ _ => String.toList_inj.mp
  rw [List.map_map, List.map_map]
  exact htexts

/-- How the operands of an instruction are written depends on its opcode alone. -/
theorem kinds_operandsOf (op : Opcode) (w v pc : Word) :
    (operandsOf op w pc).map Operand.ctorIdx = (operandsOf op v pc).map Operand.ctorIdx := by
  cases op <;> simp only [operandsOf, List.map_cons, List.map_nil, Operand.ctorIdx]

theorem mem_tail {os : List Operand} {c : Char} (hc : c ∈ tail os) :
    Operand.isPart c = true ∨ c = ',' ∨ c = ' ' := by
  have hintercalate (xs : List (List Char)) (h : c ∈ [',', ' '].intercalate xs) :
      (∃ x ∈ xs, c ∈ x) ∨ c = ',' ∨ c = ' ' := by
    induction xs with
    | nil => cases h
    | cons x xs ih =>
      cases xs with
      | nil => exact .inl ⟨x, .head _, by simpa using h⟩
      | cons y ys =>
        rw [List.intercalate_cons_cons, List.append_assoc] at h
        obtain h | h := List.mem_append.mp h
        · exact .inl ⟨x, .head _, h⟩
        · obtain h | h | h : c = ',' ∨ c = ' ' ∨ c ∈ [',', ' '].intercalate (y :: ys) := by
            simpa using h
          · exact .inr (.inl h)
          · exact .inr (.inr h)
          · obtain ⟨x', hx', hmem⟩ | hsep := ih h
            · exact .inl ⟨x', .tail _ hx', hmem⟩
            · exact .inr hsep
  cases os with
  | nil => cases hc
  | cons o os =>
    obtain hc | hc := List.mem_append.mp hc
    · obtain ⟨x, hx, hmem⟩ | hsep := hintercalate _ hc
      · obtain ⟨o', -, rfl⟩ := List.mem_map.mp hx
        exact .inl (Operand.isPart_of_mem_text hmem)
      · exact .inr hsep
    · exact .inr (.inr (List.mem_singleton.mp hc))

theorem isAlphanum_of_mem_mnemonic {w pc : Word} {c : Char}
    (hc : c ∈ (ofWord w pc).mnemonic.toList) : c.isAlphanum = true := by
  unfold ofWord at hc
  split at hc
  · have hnop : "nop".toList.all Char.isAlphanum = true := by decide
    exact List.all_eq_true.mp hnop c hc
  · exact Opcode.isAlphanum_of_mem_mnemonic hc

theorem mem_disassemble {w pc : Word} {c : Char} (hc : c ∈ (disassemble w pc).toList) :
    Operand.isPart c = true ∨ c = ',' ∨ c = ' ' := by
  have hmem : c ∈ (ofWord w pc).text.toList ++ [' '] := List.mem_append_left _ hc
  rw [toList_text] at hmem
  obtain hmem | hmem := List.mem_append.mp hmem
  · exact .inl (Operand.isPart_of_isAlphanum (isAlphanum_of_mem_mnemonic hmem))
  · obtain hblank | hmem := List.mem_cons.mp hmem
    · exact .inr (.inr hblank)
    · exact mem_tail hmem

theorem blank_notMem_mnemonic (w pc : Word) : ' ' ∉ (ofWord w pc).mnemonic.toList := fun h =>
  absurd (isAlphanum_of_mem_mnemonic h) (by decide)

theorem ofWord_eq_of_disassemble_eq {w v pc : Word}
    (htext : disassemble w pc = disassemble v pc) : ofWord w pc = ofWord v pc := by
  have hlist : (ofWord w pc).mnemonic.toList ++ ' ' :: tail (ofWord w pc).operands =
      (ofWord v pc).mnemonic.toList ++ ' ' :: tail (ofWord v pc).operands := by
    rw [disassemble, disassemble] at htext
    rw [← toList_text, ← toList_text, htext]
  obtain ⟨hmnemonic, htail⟩ :=
    append_inj_of_notMem (blank_notMem_mnemonic w pc) (blank_notMem_mnemonic v pc) hlist
  have hname := String.toList_inj.mp hmnemonic
  unfold ofWord at hname htail ⊢
  by_cases hw : w = 0 <;> by_cases hv : v = 0 <;>
    simp only [hw, hv, if_true, if_false] at hname htail ⊢
  · exact absurd hname.symm (Opcode.mnemonic_ne_nop _)
  · exact absurd hname (Opcode.mnemonic_ne_nop _)
  · have hop := Opcode.mnemonic_inj hname
    rw [hop] at htail ⊢
    rw [tail_inj (kinds_operandsOf _ w v pc) htail]

end Assembly

end Mips
