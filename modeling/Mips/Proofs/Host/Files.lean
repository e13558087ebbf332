import Mathlib.Data.String.Basic
import Mips.Host.Files
/-!
# Writing to one file

Writing to a file leaves alone every directory and everything at other places.  Names are followed
through directories only, so that each keeps its place.
-/

namespace Mips.Files

/-! ## The table -/

theorem bind_content?_eq_some_iff {node? : Option Node} {content : ByteArray} :
    node?.bind Node.content? = some content ↔
      ∃ executable, node? = some (.file content executable) := by
  rcases node? with _ | (_ | _ | _) <;> simp [Node.content?]

theorem content?_eq_some_iff {files : Files} {name : String} {content : ByteArray} :
    files.content? name = some content ↔
      ∃ executable, files.lookup name = some (.file content executable) :=
  bind_content?_eq_some_iff

theorem text?_of_content {files : Files} {name text : String}
    (hcontent : files.content? name = some text.toUTF8) : files.text? name = some text := by
  rw [text?, hcontent, Option.bind_some, String.fromUTF8?]
  exact dif_pos text.isValidUTF8

theorem lookup_filter_of_ne {nodes : List (Path × Node)} {p q : Path} (hne : q ≠ p) :
    (nodes.filter fun entry => entry.1 != p).lookup q = nodes.lookup q := by
  induction nodes with
  | nil => rfl
  | cons entry nodes ih =>
    obtain ⟨path, node⟩ := entry
    by_cases hpath : path = p
    · have hdropped : ((path, node) :: nodes).filter (fun entry => entry.1 != p) =
          nodes.filter fun entry => entry.1 != p := by simp [hpath]
      have hq : (q == path) = false := by
        rw [hpath]
        exact beq_false_of_ne hne
      rw [hdropped, ih, List.lookup_cons, hq]
    · have hkept : ((path, node) :: nodes).filter (fun entry => entry.1 != p) =
          (path, node) :: nodes.filter fun entry => entry.1 != p := by simp [hpath]
      rw [hkept, List.lookup_cons, List.lookup_cons, ih]

theorem node?_put_of_ne (files : Files) (node : Node) {p q : Path} (hne : q ≠ p) :
    (files.put p node).node? q = files.node? q := by
  have hlookup : (files.put p node).nodes.lookup q = files.nodes.lookup q := by
    rw [put, List.lookup_cons, beq_false_of_ne hne]
    exact lookup_filter_of_ne hne
  rw [node?, node?, hlookup]

/-- Whether there may be a file at a place: it holds one already, or nothing. -/
def Writable (files : Files) (p : Path) : Prop :=
  files.node? p = none ∨ ∃ content executable, files.node? p = some (.file content executable)

theorem Writable.isDirectory {files : Files} {p : Path} (hwritable : files.Writable p) :
    files.isDirectory p = false := by
  obtain hnone | ⟨content, executable, hfile⟩ := hwritable
  · rw [Files.isDirectory, hnone]
  · rw [Files.isDirectory, hfile]

/-- The places where there is always the same are not writable. -/
theorem Writable.node?_put {files : Files} {p : Path} (hwritable : files.Writable p)
    (node : Node) : (files.put p node).node? p = some node := by
  have hlookup : (files.put p node).nodes.lookup p = some node := by
    rw [put, List.lookup_cons, beq_self_eq_true]
  unfold Writable node? at hwritable
  unfold Files.node?
  split at hwritable
  · obtain h | ⟨_, _, h⟩ := hwritable <;> cases h
  · next hopen =>
    split at hwritable
    · obtain h | ⟨_, _, h⟩ := hwritable <;> cases h
    · next hroom => rw [if_neg hopen, if_neg hroom, hlookup]

/-! ## What stays -/

/-- From the first files to the second, no directory has come or gone, and nothing has changed at
certain places. -/
structure Keep (kept : Path → Prop) (files files' : Files) : Prop where
  isDirectory : ∀ p, files'.isDirectory p = files.isDirectory p
  node? : ∀ p, kept p → files'.node? p = files.node? p

variable {kept : Path → Prop} {files files' files'' : Files}

theorem Keep.refl (files : Files) : Keep kept files files := ⟨fun _ => rfl, fun _ _ => rfl⟩

theorem Keep.trans (h : Keep kept files files') (h' : Keep kept files' files'') :
    Keep kept files files'' where
  isDirectory p := (h'.isDirectory p).trans (h.isDirectory p)
  node? p hp := (h'.node? p hp).trans (h.node? p hp)

theorem keep_put {p : Path} (hwritable : files.Writable p) (hp : ¬ kept p)
    (content : ByteArray) (executable : Bool) :
    Keep kept files (files.put p (.file content executable)) where
  isDirectory q := by
    by_cases hq : q = p
    · rw [hq, hwritable.isDirectory, Files.isDirectory, hwritable.node?_put]
    · rw [Files.isDirectory, Files.isDirectory, node?_put_of_ne files _ hq]
  node? q hkept := by
    have hq : q ≠ p := fun hq => hp (hq ▸ hkept)
    exact node?_put_of_ne files _ hq

theorem keep_modify {p : Path} (hp : ¬ kept p) (f : ByteArray → ByteArray) :
    Keep kept files (files.modify p f) := by
  unfold modify
  split
  · next content executable hfile =>
    exact keep_put (.inr ⟨content, executable, hfile⟩) hp _ executable
  · next hnone => exact keep_put (.inl hnone) hp _ false
  · exact .refl files

inductive Changes (p : Path) : (Files → Files) → Prop where
  | none : Changes p id
  | modify (f : ByteArray → ByteArray) {change : Files → Files} : Changes p change →
      Changes p fun files => (change files).modify p f

theorem Changes.comp {p : Path} {change change' : Files → Files} (h' : Changes p change')
    (h : Changes p change) : Changes p (change' ∘ change) := by
  induction h' with
  | none => exact h
  | modify f _ ih => exact ih.modify f

theorem keep_changes {p : Path} {change : Files → Files} (hp : ¬ kept p)
    (hchange : Changes p change) (files : Files) : Keep kept files (change files) := by
  induction hchange with
  | none => exact .refl files
  | modify f _ ih => exact ih.trans (keep_modify hp f)

/-! ## Names -/

theorem Keep.enter_ok (hkeep : Keep kept files files') {p q : Path} {part : String} :
    files'.enter p part = .ok q ↔ files.enter p part = .ok q := by
  have hdirectory (files : Files) : files.enter p part = .ok q ↔
      files.isDirectory p = true ∧ part.utf8ByteSize ≤ maxPart ∧ p.next part = q := by
    unfold enter Files.isDirectory
    rcases files.node? p with _ | (_ | _ | _)
    · simp
    · simp
    · by_cases hpart : part.utf8ByteSize ≤ maxPart <;> simp [hpart]
    · simp
  rw [hdirectory, hdirectory, hkeep.isDirectory]

theorem Keep.foldlM_enter_ok (hkeep : Keep kept files files') {p q : Path}
    {parts : List String} :
    parts.foldlM files'.enter p = .ok q ↔ parts.foldlM files.enter p = .ok q := by
  have hbind (files : Files) (p : Path) (part : String) (parts : List String) :
      (part :: parts).foldlM files.enter p = .ok q ↔
        ∃ p', files.enter p part = .ok p' ∧ parts.foldlM files.enter p' = .ok q := by
    rw [List.foldlM_cons]
    cases files.enter p part with
    | error e =>
      constructor
      · intro h
        cases h
      · rintro ⟨_, h, -⟩
        cases h
    | ok p' =>
      constructor
      · exact fun h => ⟨p', rfl, h⟩
      · rintro ⟨_, h, hrest⟩
        cases h
        exact hrest
  induction parts generalizing p with
  | nil => exact Iff.rfl
  | cons part parts ih =>
    rw [hbind, hbind]
    constructor
    · rintro ⟨p', henter, hrest⟩
      exact ⟨p', hkeep.enter_ok.mp henter, ih.mp hrest⟩
    · rintro ⟨p', henter, hrest⟩
      exact ⟨p', hkeep.enter_ok.mpr henter, ih.mpr hrest⟩

theorem Keep.place_ok (hkeep : Keep kept files files') {name : String} {p : Path} :
    files'.place name = .ok p ↔ files.place name = .ok p := by
  unfold place
  split
  · exact Iff.rfl
  · split
    · exact Iff.rfl
    · split
      · exact Iff.rfl
      · exact hkeep.foldlM_enter_ok

/-- What stands behind a name that leads nowhere or to a kept place. -/
theorem Keep.lookup (hkeep : Keep kept files files') {name : String}
    (hname : ∀ p, files.place name = .ok p → kept p) :
    files'.lookup name = files.lookup name := by
  unfold Files.lookup
  cases hplace : files.place name with
  | ok p =>
    rw [hkeep.place_ok.mpr hplace]
    exact hkeep.node? p (hname p hplace)
  | error e =>
    cases hplace' : files'.place name with
    | ok p =>
      have hok := hkeep.place_ok.mp hplace'
      rw [hplace] at hok
      cases hok
    | error e' => rfl

/-- A name of one part, which is neither the working directory nor the one around it. -/
structure IsPart (name : String) : Prop where
  slash : '/' ∉ name.toList
  zero : '\x00' ∉ name.toList
  short : name.utf8ByteSize ≤ maxPart
  ne : name ≠ "" ∧ name ≠ "." ∧ name ≠ ".."

instance (name : String) : Decidable (IsPart name) :=
  decidable_of_iff ('/' ∉ name.toList ∧ '\x00' ∉ name.toList ∧ name.utf8ByteSize ≤ maxPart ∧
      name ≠ "" ∧ name ≠ "." ∧ name ≠ "..")
    ⟨fun ⟨hslash, hzero, hshort, hne⟩ => ⟨hslash, hzero, hshort, hne⟩,
      fun ⟨hslash, hzero, hshort, hne⟩ => ⟨hslash, hzero, hshort, hne⟩⟩

theorem IsPart.parts_eq {name : String} (hname : IsPart name) : parts name = [name] := by
  have hplain : ∀ c ∈ name.toList, decide (c = '/') = false := by
    rintro c hc
    exact decide_eq_false fun h => hname.slash (h ▸ hc)
  rw [parts, String.splitToList_of_valid, List.splitOnP_eq_singleton hplain, List.map_singleton,
    String.ofList_toList]

theorem IsPart.place_eq {name : String} (hname : IsPart name) (files : Files) :
    files.place name = .ok [name] := by
  obtain ⟨hempty, hdot, hdots⟩ := hname.ne
  have hstart : Path.start name = [] := by
    have hroot : ¬ name.startsWith "/" := by
      rw [String.startsWith_string_iff]
      exact fun h => hname.slash (h.mem List.mem_cons_self)
    rw [Path.start, if_neg hroot]
  have hzero : ¬ name.contains '\x00' := by simpa using hname.zero
  have hlength : ¬ maxName < name.utf8ByteSize := by
    have hshort := hname.short
    have hbounds : maxPart < maxName := by decide
    omega
  have henter : files.enter [] name = .ok [name] := by
    have hnext : Path.next [] name = [name] := by simp [Path.next, hempty, hdot, hdots]
    have hhere : files.node? [] = some .directory := rfl
    simp only [enter, hhere, hname.short, hnext, if_true]
  rw [place, if_neg hzero, if_neg (mt String.isEmpty_iff.mp hempty), if_neg hlength, hstart,
    hname.parts_eq, List.foldlM_cons, henter]
  rfl

theorem IsPart.content?_eq {name : String} (hname : IsPart name) (files : Files) :
    files.content? name = files.fileAt? [name] := by
  rw [content?, Files.lookup, hname.place_eq]
  rfl

theorem place_of_target {name : String} {p : Path} (htarget : files.target name = .ok p) :
    files.place name = .ok p := by
  unfold target at htarget
  cases hplace : files.place name with
  | error e =>
    simp only [hplace] at htarget
    cases htarget
  | ok q =>
    simp only [hplace] at htarget
    split at htarget
    · cases htarget
    · cases htarget
      rfl

end Mips.Files
