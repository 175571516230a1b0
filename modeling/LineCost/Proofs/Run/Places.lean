import LineCost.Proofs.Results
import LineCost.Proofs.Run.Names

/-!
Where paths lead, and what is read there once one file of a tree is replaced. The places that paths
lead to stay the same; only what is read at the place of that file changes.
-/

namespace LineCost.Run

namespace Files

open LineCost.Run.Path (Names)

variable {fs : Files} {p q here : Place} {content : ByteArray}

theorem ne_nil_of_not_directory (h : fs.lookup? p ≠ some .directory) : p ≠ [] := by
  rintro rfl
  exact h rfl

theorem walk_cons_eq_ok_iff {step : String} {rest : List String} :
    fs.walk here (step :: rest) = .ok q ↔ fs.lookup? here = some .directory ∧
      if step = ".." then fs.walk here.dropLast rest = .ok q
      else step.utf8ByteSize ≤ nameLimit ∧ fs.walk (here ++ [step]) rest = .ok q := by
  rw [walk]
  cases fs.lookup? here with
  | none => simp
  | some e =>
    cases e with
    | file c => simp
    | directory =>
      by_cases hup : step = ".."
      · simp [hup]
      · by_cases hsize : step.utf8ByteSize ≤ nameLimit <;> simp [hup, hsize]

theorem walk_append {a b : List String} :
    fs.walk here (a ++ b) = fs.walk here a >>= fun q => fs.walk q b := by
  induction a generalizing here with
  | nil => rfl
  | cons step a ih =>
    rw [List.cons_append, walk, walk]
    cases fs.lookup? here with
    | none => rfl
    | some e =>
      cases e with
      | file c => rfl
      | directory =>
        by_cases hup : step = ".."
        · simp only [hup, if_true, ih]
        · by_cases hsize : step.utf8ByteSize ≤ nameLimit
          · simp only [hup, hsize, if_true, if_false, ih]
          · simp only [hup, hsize, if_false]
            rfl

/-- A directory stays one where a file is put in place of something else. -/
theorem lookup?_set_eq_directory_iff (hp : fs.lookup? p ≠ some .directory) :
    (fs.set p (.file content)).lookup? q = some .directory ↔ fs.lookup? q = some .directory := by
  rw [lookup?_set fs p q _ (ne_nil_of_not_directory hp)]
  by_cases hq : q = p
  · subst hq
    simp [hp]
  · rw [if_neg hq]

/-- A path goes through directories only, and so leads to the same place. -/
theorem walk_set_eq_ok_iff (hp : fs.lookup? p ≠ some .directory) {steps : List String} :
    (fs.set p (.file content)).walk here steps = .ok q ↔ fs.walk here steps = .ok q := by
  induction steps generalizing here with
  | nil => rfl
  | cons step rest ih =>
    rw [walk_cons_eq_ok_iff, walk_cons_eq_ok_iff, lookup?_set_eq_directory_iff hp, ih, ih]

theorem follow_append {path : String} {a b : List String} :
    fs.follow path (a ++ b) = fs.follow path a >>= fun q => fs.walk q b := by
  rw [follow, follow, walk_append]
  split
  · rfl
  · split <;> rfl

theorem follow_set_eq_ok_iff (hp : fs.lookup? p ≠ some .directory) {path : String}
    {steps : List String} :
    (fs.set p (.file content)).follow path steps = .ok q ↔ fs.follow path steps = .ok q := by
  rw [follow, follow]
  split
  · rfl
  · split
    · rfl
    · exact walk_set_eq_ok_iff hp

/-- The place that a path leads to by all its steps. -/
def LeadsTo (fs : Files) (path : String) (p : Place) : Prop :=
  fs.follow path (Path.steps path) = .ok p

theorem LeadsTo.unique {path : String} (hp : fs.LeadsTo path p) (hq : fs.LeadsTo path q) :
    p = q :=
  Except.ok.inj (hp.symm.trans hq)

theorem leadsTo_set_iff (hp : fs.lookup? p ≠ some .directory) {path : String} :
    (fs.set p (.file content)).LeadsTo path q ↔ fs.LeadsTo path q :=
  follow_set_eq_ok_iff hp

/-- What is read by a path is the file at the place that it leads to. -/
theorem readBytes_eq_ok_iff {path : String} {bytes : ByteArray} :
    fs.readBytes path = .ok bytes ↔ path.isEmpty = false ∧ asksDirectory path = false ∧
      ∃ p, fs.LeadsTo path p ∧ fs.lookup? p = some (.file bytes) := by
  rw [readBytes, find]
  unfold LeadsTo
  cases hempty : path.isEmpty with
  | true => simp [bind, Except.bind]
  | false =>
    cases hfollow : fs.follow path (Path.steps path) with
    | error e => simp [bind, Except.bind]
    | ok q =>
      cases hlook : fs.lookup? q with
      | none => simp [bind, Except.bind, hlook]
      | some e =>
        cases e with
        | directory => simp [bind, Except.bind, hlook]
        | file c =>
          cases hd : asksDirectory path <;> simp [bind, Except.bind, pure, Except.pure, hlook]

theorem readText_eq_ok_iff {path text : String} :
    fs.readText path = .ok text ↔
      ∃ bytes, fs.readBytes path = .ok bytes ∧ String.fromUTF8? bytes = some text := by
  rw [readText]
  cases hbytes : fs.readBytes path with
  | error e => simp [bind, Except.bind]
  | ok bytes =>
    cases htext : String.fromUTF8? bytes <;> simp [bind, Except.bind, pure, Except.pure, htext]

theorem fromUTF8?_toUTF8 (s : String) : String.fromUTF8? s.toUTF8 = some s := by
  rw [String.fromUTF8?, String.toUTF8_eq_toByteArray, dif_pos s.isValidUTF8]
  rfl

theorem leadsTo_iff {path name : String} {front : List String}
    (hsteps : Path.steps path = front ++ [name]) (hup : name ≠ "..") :
    fs.LeadsTo path p ↔ ∃ parent, fs.follow path front = .ok parent ∧
      fs.lookup? parent = some .directory ∧ name.utf8ByteSize ≤ nameLimit ∧
      p = parent ++ [name] := by
  rw [LeadsTo.eq_def, hsteps, follow_append]
  constructor
  · intro hp
    obtain ⟨parent, hparent, hwalk⟩ := bind_eq_ok hp
    rw [walk_cons_eq_ok_iff, if_neg hup] at hwalk
    obtain ⟨hdirectory, hsize, hend⟩ := hwalk
    exact ⟨parent, hparent, hdirectory, hsize, (Except.ok.inj hend).symm⟩
  · rintro ⟨parent, hparent, hdirectory, hsize, rfl⟩
    rw [hparent]
    refine walk_cons_eq_ok_iff.2 ⟨hdirectory, ?_⟩
    rw [if_neg hup]
    exact ⟨hsize, rfl⟩

/-- The last name of a path is that of the place. -/
theorem LeadsTo.getLast? {path name : String} (h : Names path name) (hp : fs.LeadsTo path p) :
    p.getLast? = some name := by
  obtain ⟨front, hsteps⟩ := h.steps
  obtain ⟨parent, _, _, _, rfl⟩ := (leadsTo_iff hsteps h.up).1 hp
  rw [List.getLast?_concat]

/-- A new file can be put wherever a path leads, unless a directory is there. -/
theorem target?_eq_some_iff {path name : String} (h : Names path name) :
    fs.target? path = some p ↔ fs.LeadsTo path p ∧ fs.lookup? p ≠ some .directory := by
  obtain ⟨front, hsteps⟩ := h.steps
  rw [target?, hsteps, leadsTo_iff hsteps h.up]
  simp only [List.getLast?_concat, List.dropLast_concat, h.up, h.asksDirectory, decide_false,
    Bool.false_or, Bool.or_false, decide_eq_true_eq, Option.bind_eq_bind, Option.bind_some]
  cases fs.follow path front with
  | error e => simp [Except.toOption]
  | ok parent =>
    simp only [Except.toOption, Option.bind_some, Except.ok.injEq, exists_eq_left']
    by_cases hsize : nameLimit < name.utf8ByteSize
    · simp [hsize, Nat.not_le.2 hsize]
    · rw [if_neg hsize]
      split
      · rename_i hp
        simp +contextual [hp]
      · rename_i hdirectory hp
        constructor
        · intro h
          obtain rfl := Option.some.inj h
          exact ⟨⟨hdirectory, Nat.not_lt.1 hsize, rfl⟩, hp⟩
        · rintro ⟨⟨_, _, rfl⟩, _⟩
          rfl
      · rename_i hdirectory _
        have hno : fs.lookup? parent ≠ some .directory := hdirectory
        simp [hno]

/-- A file can be put where it could be before another was put somewhere. -/
theorem target?_set_eq_some_iff {path name : String} (h : Names path name)
    (hp : fs.lookup? p ≠ some .directory) :
    (fs.set p (.file content)).target? path = some q ↔ fs.target? path = some q := by
  rw [target?_eq_some_iff h, target?_eq_some_iff h, leadsTo_set_iff hp, ne_eq,
    lookup?_set_eq_directory_iff hp]

/-- What has been put at the place that a path leads to is read by that path. -/
theorem readBytes_set_of_leadsTo {path : String} (hempty : path.isEmpty = false)
    (hform : asksDirectory path = false) (hp : fs.LeadsTo path p)
    (hd : fs.lookup? p ≠ some .directory) :
    (fs.set p (.file content)).readBytes path = .ok content := by
  refine readBytes_eq_ok_iff.2 ⟨hempty, hform, p, (leadsTo_set_iff hd).2 hp, ?_⟩
  rw [lookup?_set fs p p _ (ne_nil_of_not_directory hd), if_pos rfl]

/-- A path that leads elsewhere reads what it did. -/
theorem readBytes_set_of_not_leadsTo (hd : fs.lookup? p ≠ some .directory) {path : String}
    (h : ¬ fs.LeadsTo path p) {bytes : ByteArray} :
    (fs.set p (.file content)).readBytes path = .ok bytes ↔ fs.readBytes path = .ok bytes := by
  rw [readBytes_eq_ok_iff, readBytes_eq_ok_iff]
  refine and_congr_right' (and_congr_right' (exists_congr fun q => ?_))
  rw [leadsTo_set_iff hd, lookup?_set fs p q _ (ne_nil_of_not_directory hd)]
  refine and_congr_right fun hq => ?_
  have hne : q ≠ p := by
    rintro rfl
    exact h hq
  rw [if_neg hne]

theorem readText_set_of_leadsTo {path text : String} (hempty : path.isEmpty = false)
    (hform : asksDirectory path = false) (hp : fs.LeadsTo path p)
    (hd : fs.lookup? p ≠ some .directory) :
    (fs.set p (.file text.toUTF8)).readText path = .ok text :=
  readText_eq_ok_iff.2 ⟨_, readBytes_set_of_leadsTo hempty hform hp hd, fromUTF8?_toUTF8 text⟩

theorem readText_set_of_not_leadsTo (hd : fs.lookup? p ≠ some .directory) {path : String}
    (h : ¬ fs.LeadsTo path p) {text : String} :
    (fs.set p (.file content)).readText path = .ok text ↔ fs.readText path = .ok text := by
  rw [readText_eq_ok_iff, readText_eq_ok_iff]
  exact exists_congr fun bytes => and_congr_left' (readBytes_set_of_not_leadsTo hd h)

end Files

namespace Paths

open LineCost.Run.Path (Names lastPiece names_append)

theorem names_output (module : String) (o : Options) :
    ∃ name, Names (ofModule module o).output name := by
  obtain ⟨front, hfront, _⟩ := exists_output_eq module o
  rw [hfront]
  exact ⟨_, names_append (by decide) ⟨'t', by decide, by decide⟩ front⟩

/-- The output never goes where the module goes on with an ending of another kind. -/
theorem not_leadsTo_append {fs : Files} {module ending : String} {o : Options} {p : Place}
    (hslash : '/' ∉ ending.toList) (hdots : ∃ c ∈ ending.toList, c ≠ '.')
    (hends : ¬ outputSuffix.toList <:+ ending.toList)
    (h : fs.LeadsTo (ofModule module o).output p) : ¬ fs.LeadsTo (module ++ ending) p := by
  intro hinput
  obtain ⟨front, hfront, hle⟩ := exists_output_eq module o
  rw [hfront] at h
  have hsame := Option.some.inj ((hinput.getLast? (names_append hslash hdots module)).symm.trans
    (h.getLast? (names_append (by decide) ⟨'t', by decide, by decide⟩ front)))
  have hlist : lastPiece module.toList ++ ending.toList =
      lastPiece front.toList ++ outputSuffix.toList :=
    String.ofList_inj.1 hsame
  have hlength := congrArg List.length hlist
  rw [List.length_append, List.length_append] at hlength
  have hsuffix : outputSuffix.toList <:+ lastPiece module.toList ++ ending.toList := by
    rw [hlist]
    exact List.suffix_append _ _
  refine hends (List.suffix_of_suffix_length_le hsuffix (List.suffix_append _ _) ?_)
  omega

end Paths

end LineCost.Run
