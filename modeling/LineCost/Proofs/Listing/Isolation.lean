import LineCost.Proofs.Listing.Marks
import LineCost.Proofs.Listing.OneTable

/-!
The functions of a listing stand alone. A listing can be read exactly if its marks are in order, and
then each function is what its own lines give when nothing else is read.
-/

namespace LineCost.Listing

/-- The name of the function that begins in a line. -/
def Line.begins? : Line → Option String
  | .opening name => some name
  | _ => none

theorem begins?_of_not_opening {line : Line} (h : ∀ name, line ≠ .opening name) :
    line.begins? = none := by
  cases line with
  | opening name => exact absurd rfl (h name)
  | _ => rfl

theorem filterMap_begins?_of_inner {body : List Line} (h : ∀ l ∈ body, Inner l) :
    body.filterMap Line.begins? = [] :=
  List.filterMap_eq_nil_iff.2 fun l hl => begins?_of_not_opening (h l hl).2

theorem filterMap_begins?_func {name : String} {body : List Line} (h : ∀ l ∈ body, Inner l)
    (rest : List Line) :
    (Line.opening name :: (body ++ .closing :: rest)).filterMap Line.begins? =
      name :: rest.filterMap Line.begins? := by
  have hopening : (Line.opening name).begins? = some name := rfl
  have hclosing : Line.closing.begins? = none := rfl
  rw [List.filterMap_cons_some hopening, List.filterMap_append, filterMap_begins?_of_inner h,
    List.nil_append, List.filterMap_cons_none hclosing]

/-- There is a section for every function that begins. -/
theorem Bracketed.names {ls : List Line} {parts : List Section} (h : Bracketed ls parts) :
    parts.map Section.name = ls.filterMap Line.begins? := by
  induction h with
  | nil => rfl
  | outer hl _ ih => rw [List.filterMap_cons_none (begins?_of_not_opening hl), ih]
  | func hb _ ih => rw [filterMap_begins?_func hb, List.map_cons, ih]

/-- Where a section stands among the lines. -/
theorem Bracketed.split {ls : List Line} {parts : List Section} (h : Bracketed ls parts) {i : Nat}
    {part : Section} (hp : parts[i]? = some part) :
    ∃ before after, ls = before ++ (.opening part.name :: (part.lines ++ [.closing]) ++ after) ∧
      (before.filterMap Line.begins?).length = i ∧ ∀ l ∈ part.lines, Inner l := by
  induction h generalizing i with
  | nil => simp at hp
  | @outer line rest parts hl _ ih =>
    obtain ⟨before, after, rfl, hi, hpart⟩ := ih hp
    refine ⟨line :: before, after, rfl, ?_, hpart⟩
    rw [List.filterMap_cons_none (begins?_of_not_opening hl), hi]
  | @func name body rest parts hb _ ih =>
    cases i with
    | zero =>
      obtain rfl := Option.some.inj hp
      exact ⟨[], rest, by simp, rfl, hb⟩
    | succ i =>
      obtain ⟨before, after, rfl, hi, hpart⟩ := ih hp
      refine ⟨.opening name :: (body ++ .closing :: before), after, by simp, ?_, hpart⟩
      rw [filterMap_begins?_func hb, List.length_cons, hi]

/-- A text can be cut between any two of its lines. -/
theorem exists_append_of_readLines {text : String} {a b : List Line}
    (h : readLines text = a ++ b) :
    ∃ s t, text = s ++ t ∧ readLines s = a ∧ readLines t = b := by
  obtain ⟨la, lb, hl, rfl, rfl⟩ := List.map_eq_append_iff.1 h
  obtain ⟨s, t, hst, rfl, rfl⟩ := Text.exists_append_of_lines hl
  refine ⟨String.ofList s, String.ofList t, ?_, by rw [readLines, String.toList_ofList],
    by rw [readLines, String.toList_ofList]⟩
  rw [← String.ofList_append, ← hst, String.ofList_toList]

/-- The function in place `i` stands alone: with the table asked for by its name, the piece of the
text from its beginning to its end gives it and nothing else. -/
def StandsAlone (catalog : Catalog) (table : Table) (text : String) (i : Nat) (f : Func) : Prop :=
  ∃ before own after : String, text = before ++ own ++ after ∧
    readLines text = readLines before ++ readLines own ++ readLines after ∧
    ((readLines before).filterMap Line.begins?).length = i ∧
    (∃ body, readLines own = .opening f.name :: (body ++ [.closing]) ∧ ∀ l ∈ body, Inner l) ∧
    read catalog (some table.name) own = .ok [f]

theorem read_of_bracketed {catalog : Catalog} {cpu : Option String} {text : String}
    {parts : List Section} (h : Bracketed (readLines text) parts) :
    read catalog cpu text =
      .ok (parts.map (Section.func (tableFor catalog cpu (readLines text)))) := by
  rw [read_eq, sections_eq_ok_iff.2 h]
  rfl

theorem standsAlone_of_bracketed {catalog : Catalog} {cpu : Option String} {text : String}
    {parts : List Section} (h : Bracketed (readLines text) parts) {i : Nat} {part : Section}
    (hp : parts[i]? = some part) :
    StandsAlone catalog (tableFor catalog cpu (readLines text)) text i
      (part.func (tableFor catalog cpu (readLines text))) := by
  obtain ⟨front, rest, hlines, hi, hpart⟩ := h.split hp
  obtain ⟨before, tail, rfl, hbefore, htail⟩ := exists_append_of_readLines hlines
  obtain ⟨own, after, rfl, hown, hafter⟩ := exists_append_of_readLines htail
  have hsingle : Bracketed (readLines own) [part] := by
    rw [hown]
    exact .func hpart .nil
  refine ⟨before, own, after, String.append_assoc.symm, ?_, ?_, ⟨part.lines, hown, hpart⟩, ?_⟩
  · rw [hlines, hbefore, hown, hafter, List.append_assoc]
  · rw [hbefore, hi]
  · rw [read_of_bracketed hsingle, tableFor_some_name]
    rfl

theorem exists_read_iff {catalog : Catalog} {cpu : Option String} {text : String} :
    (∃ fs, read catalog cpu text = .ok fs) ↔ ∃ parts, sections (readLines text) = .ok parts := by
  rw [read_eq]
  cases sections (readLines text) <;> simp [Except.map]

theorem read_eq_error_iff {catalog : Catalog} {cpu : Option String} {text : String}
    {e : ReadError} :
    read catalog cpu text = .error e ↔ sections (readLines text) = .error e := by
  rw [read_eq]
  cases sections (readLines text) <;> simp [Except.map]

/-- What reading a listing tells of its marks, and of its functions. -/
structure MarksKept (catalog : Catalog) (cpu : Option String) (text : String) : Prop where
  succeeds_iff : (∃ fs, read catalog cpu text = .ok fs) ↔ Balanced (readLines text)
  nested_iff : ∀ n name,
    read catalog cpu text = .error (.nested n name) ↔ FirstNested (readLines text) n name
  unterminated_iff : ∀ name, read catalog cpu text = .error (.unterminated name) ↔
    (∀ n f, ¬ Nested (readLines text) n f) ∧ LeftOpen (readLines text) name
  /-- There is a function for every one that begins, in order. -/
  names : ∀ fs, read catalog cpu text = .ok fs →
    fs.map Func.name = (readLines text).filterMap Line.begins?
  alone : ∀ fs table, read catalog cpu text = .ok fs →
    Governs catalog cpu (readLines text) table →
    ∀ i f, fs[i]? = some f → StandsAlone catalog table text i f

/-- Reading a listing keeps to its marks, and keeps its functions apart. -/
theorem read_marksKept (catalog : Catalog) (cpu : Option String) (text : String) :
    MarksKept catalog cpu text where
  succeeds_iff := exists_read_iff.trans exists_sections_iff
  nested_iff := fun n name => read_eq_error_iff.trans sections_eq_nested_iff
  unterminated_iff := fun name => read_eq_error_iff.trans sections_eq_unterminated_iff
  names := by
    intro fs h
    obtain ⟨parts, hparts, rfl⟩ := read_eq_ok h
    rw [← hparts.names, List.map_map]
    rfl
  alone := by
    intro fs table h hgoverns i f hf
    obtain rfl := governs_iff.1 hgoverns
    obtain ⟨parts, hparts, rfl⟩ := read_eq_ok h
    rw [List.getElem?_map] at hf
    obtain ⟨part, hpart, rfl⟩ := Option.map_eq_some_iff.1 hf
    exact standsAlone_of_bracketed hparts hpart

/-- Instructions and a location between two functions, a stray end in front, and a function that
begins with an instruction before it has any location of its own. -/
def scattered : String :=
  "\tldr\tx0, [x1]\n// -- End function\n// -- Begin function f\r\n\t.loc\t1 5 0 // a.c:5:0\n" ++
  "// %bb.3: // %loop\n\tnop\n// -- End function\n\t.loc\t1 6 0 // a.c:6:0\n\tnop\n" ++
  "// -- Begin function g\n\tnop\n\t.loc\t1 9 0 // b.c:9:0\n\tnop\n// -- End function\n"

def scatteredFuncs : List Func :=
  [⟨"f", ⟨"a.c", 5⟩, [⟨some 3, "loop", some (.point 5), ⟨0, 0, 0, 0, 0, 1, 1⟩⟩],
      .ofList [(5, ⟨0, 0, 0, 0, 0, 1, 1⟩)]⟩,
    ⟨"g", ⟨"b.c", 9⟩, [⟨none, "entry", some (.point 9), ⟨0, 0, 0, 0, 0, 2, 2⟩⟩],
      .ofList [(9, ⟨0, 0, 0, 0, 0, 1, 1⟩)]⟩]

theorem read_marksKept_scattered :
    read Catalog.builtin (some CortexA57.name) scattered = .ok scatteredFuncs ∧
      MarksKept Catalog.builtin (some CortexA57.name) scattered ∧
      ∀ f, scatteredFuncs[1]? = some f →
        StandsAlone Catalog.builtin CortexA57.table scattered 1 f := by
  have h : read Catalog.builtin (some CortexA57.name) scattered = .ok scatteredFuncs := by
    decide +kernel
  have hkept := read_marksKept Catalog.builtin (some CortexA57.name) scattered
  have hgoverns : Governs Catalog.builtin (some CortexA57.name) (readLines scattered)
      (Catalog.builtin.select CortexA57.name) := .asked _ _
  rw [select_cortexA57] at hgoverns
  exact ⟨h, hkept, fun f hf => hkept.alone scatteredFuncs _ h hgoverns 1 f hf⟩

end LineCost.Listing
