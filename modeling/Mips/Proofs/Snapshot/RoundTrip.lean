import Mips.Proofs.Json.RoundTrip
import Mips.Snapshot.Text
/-!
# Snapshots read back from their texts

A snapshot is written with each part under its own name, so it is read back part by part: a number
because it fits in the width that it had, a table number by number.  Its value is a plain JSON
value, so nothing is lost in the text either, and no two snapshots share their text.
-/

namespace Mips.Snapshot

theorem mapM_map_eq_some {α β : Type} {f : α → β} {g : β → Option α} (xs : List α)
    (hinv : ∀ x ∈ xs, g (f x) = some x) : (xs.map f).mapM g = some xs := by
  induction xs with
  | nil => rfl
  | cons x xs ih =>
    rw [List.forall_mem_cons] at hinv
    rw [List.map_cons, List.mapM_cons, hinv.1, ih hinv.2]
    rfl

/-! ## Parts -/

theorem nat?_toDigits (n : Nat) : Json.nat? (Nat.toDigits 10 n) = some n := by
  have hall : (Nat.toDigits 10 n).all Char.isDigit = true := by
    rw [List.all_eq_true]
    exact fun _ => Nat.isDigit_of_mem_toDigits (by decide) (by decide)
  rw [Json.nat?, if_pos hall, Nat.ofDigitChars_toDigits (by decide) (by decide)]
  exact Nat.toDigits_ne_nil

theorem bits?_ofNat {n : Nat} (x : BitVec n) : bits? n (ofNat x.toNat) = some x := by
  have hlt : x.toNat < 1 <<< n := by
    rw [Nat.one_shiftLeft]
    exact x.isLt
  rw [ofNat, bits?, nat?_toDigits, Option.bind_eq_bind, Option.bind_some, if_pos hlt,
    BitVec.ofNat_toNat, BitVec.setWidth_eq]

theorem table?_toList {n : Nat} (t : Vector (BitVec n) 32) :
    table? n (.array (t.toList.map fun x => ofNat x.toNat)) = some t := by
  have hvalues := mapM_map_eq_some t.toList fun x _ => bits?_ofNat x
  have hsize : t.toList.toArray.size = 32 := by simp
  rw [table?, hvalues, Option.bind_eq_bind, Option.bind_some, dif_pos hsize]
  exact congrArg some (Vector.toArray_inj.mp (Array.toArray_toList))

def pendingToJson : Option Word → Json
  | some a => ofNat a.toNat
  | none => .null

theorem pending?_pendingToJson (p : Option Word) : pending? (pendingToJson p) = some p := by
  cases p with
  | none => rfl
  | some a => exact congrArg (Option.map some) (bits?_ofNat a)

/-! ## Values -/

def values (s : Snapshot) : List Json := [
  .array (s.gpr.toList.map fun d => ofNat d.toNat),
  .array (s.control.toList.map fun w => ofNat w.toNat),
  ofNat s.hi.toNat, ofNat s.lo.toNat, ofNat s.pc.toNat, pendingToJson s.pending,
  .bool s.halted, ofNat s.retired.toNat]

theorem toJson_eq (s : Snapshot) : s.toJson = .object (parts.zip s.values) := by
  rfl

theorem literal_of_mem_parts {name : List Char} (hname : name ∈ parts) :
    ∀ c ∈ name, Json.isLiteral c = true := by
  have hall : (parts.all fun name => name.all Json.isLiteral) = true := rfl
  rw [List.all_eq_true] at hall
  exact List.all_eq_true.mp (hall name hname)

theorem mapM_string? {ms : List (List Char × Json)}
    (hnames : ∀ m ∈ ms, ∀ c ∈ m.1, Json.isLiteral c = true) :
    (ms.mapM fun (name, v) => return (← Json.string? name, v)) = some ms := by
  have hread : ((ms.map id).mapM fun (name, v) => return (← Json.string? name, v)) = some ms := by
    apply mapM_map_eq_some
    rintro ⟨name, v⟩ hm
    have hname : Json.string? name = some name := Json.string?_eq_some (hnames (name, v) hm)
    simp only [id, hname]
    rfl
  rwa [List.map_id] at hread

theorem lookup_parts {vs : List Json} (hlength : vs.length = parts.length) (name : List Char) :
    (if name = "delay_pc".toList then some (((parts.zip vs).lookup name).getD .null)
      else (parts.zip vs).lookup name) = (parts.zip vs).lookup name := by
  split
  next h =>
    match vs, hlength with
    | [_, _, _, _, _, _, _, _], _ =>
      rw [h]
      rfl
  next => rfl

/-- An object with all the parts in their order reads like the array of their values. -/
theorem ofJson?_object {vs : List Json} (hlength : vs.length = parts.length) :
    ofJson? (.object (parts.zip vs)) = ofJson? (.array vs) := by
  have hnames : ∀ m ∈ parts.zip vs, m.1 ∈ parts := fun m hm => (List.of_mem_zip hm).1
  have hmembers := mapM_string? fun m hm => literal_of_mem_parts (hnames m hm)
  have hknown : (parts.zip vs).filter (fun m => m.1 ∈ parts) = parts.zip vs := by
    rw [List.filter_eq_self]
    exact fun m hm => decide_eq_true (hnames m hm)
  have hdistinct : ((parts.zip vs).map Prod.fst).Nodup := by
    rw [List.map_fst_zip (by omega)]
    decide
  rw [ofJson?, hmembers, Option.bind_eq_bind, Option.bind_some]
  simp only
  rw [hknown, if_pos hdistinct, ofJson?, if_pos hlength]
  exact congrArg ofParts? (funext fun name => lookup_parts hlength name)

theorem ofJson?_toJson (s : Snapshot) : ofJson? s.toJson = some s := by
  have hparts : ofJson? (.array s.values) = do
      return {
        gpr := ← table? 64 (.array (s.gpr.toList.map fun d => ofNat d.toNat))
        control := ← table? 32 (.array (s.control.toList.map fun w => ofNat w.toNat))
        hi := ← bits? 64 (ofNat s.hi.toNat)
        lo := ← bits? 64 (ofNat s.lo.toNat)
        pc := ← bits? 32 (ofNat s.pc.toNat)
        pending := ← pending? (pendingToJson s.pending)
        halted := s.halted
        retired := ← bits? 64 (ofNat s.retired.toNat) } := rfl
  rw [toJson_eq, ofJson?_object rfl, hparts]
  simp only [table?_toList, bits?_ofNat, pending?_pendingToJson]
  rfl

/-! ## Texts -/

theorem plain_toJson (s : Snapshot) : s.toJson.Plain := by
  have htable {n : Nat} (t : Vector (BitVec n) 32) :
      (Json.array (t.toList.map fun x => ofNat x.toNat)).Plain := by
    apply Json.Plain.array
    intro v hv
    rw [List.mem_map] at hv
    obtain ⟨x, -, rfl⟩ := hv
    exact .number x.toNat
  have hpending : (pendingToJson s.pending).Plain := by
    cases s.pending with
    | none => exact .null
    | some a => exact .number a.toNat
  have hvalues : ∀ v ∈ s.values, v.Plain := by
    simp only [values, List.forall_mem_cons]
    exact ⟨htable s.gpr, htable s.control, .number _, .number _, .number _, hpending, .bool _,
      .number _, nofun⟩
  rw [toJson_eq]
  apply Json.Plain.object
  · exact fun m hm => literal_of_mem_parts (List.of_mem_zip hm).1
  · exact fun m hm => hvalues m.2 (List.of_mem_zip hm).2

theorem ofText?_text (s : Snapshot) : ofText? s.text = some s := by
  rw [ofText?, text, (plain_toJson s).read?_text, Option.bind_some, ofJson?_toJson]

/-- Every snapshot is read back from its text exactly, that of any processor in particular, so two
snapshots with the same text are equal. -/
theorem text_round_trip :
    (∀ s : Snapshot, ofText? s.text = some s) ∧
      (∀ c : Cpu, ofText? c.snapshot.text = some c.snapshot) ∧
      ∀ s t : Snapshot, s.text = t.text ↔ s = t := by
  refine ⟨ofText?_text, fun c => ofText?_text c.snapshot, ?_⟩
  intro s t
  constructor
  · intro htext
    have hread : some s = some t := by
      calc
        some s = ofText? s.text := (ofText?_text s).symm
        _ = ofText? t.text := by rw [htext]
        _ = some t := ofText?_text t
    exact Option.some.inj hread
  · intro hst
    rw [hst]

end Mips.Snapshot
