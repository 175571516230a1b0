import LineCost.Proofs.Text.Codec
import LineCost.Run.Files
import LineCost.Run.Options

/-!
The names that paths end with, and those of the files of a module. What is added to a path without a
slash goes to its last name.
-/

namespace LineCost

namespace Run

namespace Path

/-- What follows the last slash of a path, or all of it if it has none. -/
def lastPiece (path : List Char) : List Char :=
  (Text.pieces '/' path).getLast (Text.pieces_ne_nil '/' path)

theorem getLast?_pieces (path : List Char) :
    (Text.pieces '/' path).getLast? = some (lastPiece path) :=
  List.getLast?_eq_some_getLast _

theorem lastPiece_of_not_mem {a : List Char} (h : '/' ∉ a) : lastPiece a = a := by
  have hlast := getLast?_pieces a
  rw [Text.pieces_of_not_mem h] at hlast
  exact (Option.some.inj hlast).symm

theorem lastPiece_append_slash (a b : List Char) : lastPiece (a ++ '/' :: b) = lastPiece b := by
  have hlast := getLast?_pieces (a ++ '/' :: b)
  rw [Text.pieces_append_separator, List.getLast?_append, getLast?_pieces] at hlast
  exact (Option.some.inj hlast).symm

theorem lastPiece_append {t : List Char} (h : '/' ∉ t) (s : List Char) :
    lastPiece (s ++ t) = lastPiece s ++ t := by
  by_cases hs : '/' ∈ s
  · obtain ⟨a, b, hab⟩ := List.append_of_mem hs
    have hlt : b.length < s.length := by
      rw [hab, List.length_append, List.length_cons]
      omega
    rw [hab, List.append_assoc, List.cons_append, lastPiece_append_slash, lastPiece_append_slash]
    exact lastPiece_append h b
  · rw [lastPiece_of_not_mem hs, lastPiece_of_not_mem (by simp [hs, h])]
termination_by s.length

/-- The path ends with a name of its own. -/
structure Names (path name : String) : Prop where
  last : lastPiece path.toList = name.toList
  empty : name ≠ ""
  dot : name ≠ "."
  up : name ≠ ".."

namespace Names

variable {path name : String}

theorem steps (h : Names path name) : ∃ front, Path.steps path = front ++ [name] := by
  obtain ⟨front, hfront⟩ := List.getLast?_eq_some_iff.1 (getLast?_pieces path.toList)
  refine ⟨(front.map String.ofList).filter fun p => p != "" && p != ".", ?_⟩
  have hkept : [name].filter (fun p => p != "" && p != ".") = [name] := by
    simp [h.empty, h.dot]
  rw [Path.steps, hfront, List.map_append, List.filter_append, List.map_singleton, h.last,
    String.ofList_toList, hkept]

theorem asksDirectory (h : Names path name) : Files.asksDirectory path = false := by
  have hother : ∀ s : String, name ≠ s → name.toList ≠ s.toList := fun s hs he =>
    hs (String.toList_inj.1 he)
  rw [Files.asksDirectory, getLast?_pieces, h.last, Bool.or_eq_false_iff, beq_eq_false_iff_ne,
    beq_eq_false_iff_ne]
  exact ⟨hother "" h.empty, hother "." h.dot⟩

theorem isEmpty (h : Names path name) : path.isEmpty = false := by
  rw [Bool.eq_false_iff]
  intro he
  obtain rfl := String.isEmpty_iff.1 he
  exact h.empty (String.toList_inj.1 h.last.symm)

end Names

/-- A path that goes on with an ending without a slash ends with a name, unless it is all dots. -/
theorem names_append {ending : String} (hslash : '/' ∉ ending.toList)
    (hdots : ∃ c ∈ ending.toList, c ≠ '.') (path : String) :
    Names (path ++ ending) (String.ofList (lastPiece path.toList ++ ending.toList)) := by
  obtain ⟨c, hc, hdot⟩ := hdots
  have hother : ∀ s : String, c ∉ s.toList →
      String.ofList (lastPiece path.toList ++ ending.toList) ≠ s := by
    rintro s hs rfl
    rw [String.toList_ofList] at hs
    exact hs (List.mem_append_right _ hc)
  refine ⟨?_, hother _ ?_, hother _ ?_, hother _ ?_⟩
  · rw [String.toList_append, lastPiece_append hslash, String.toList_ofList]
  · exact List.not_mem_nil
  · simpa using hdot
  · simpa using hdot

theorem exists_join_eq (dir path : String) : ∃ front, join dir path = front ++ path := by
  rw [join]
  split
  · exact ⟨"", (String.empty_append).symm⟩
  · split
    · exact ⟨dir, rfl⟩
    · exact ⟨dir ++ "/", rfl⟩

theorem of_mem_steps {path step : String} (h : step ∈ steps path) :
    step ≠ "" ∧ '/' ∉ step.toList := by
  obtain ⟨hstep, hkept⟩ := List.mem_filter.1 h
  obtain ⟨p, hp, rfl⟩ := List.mem_map.1 hstep
  obtain ⟨hempty, _⟩ := Bool.and_eq_true_iff.1 hkept
  refine ⟨bne_iff_ne.1 hempty, ?_⟩
  rw [String.toList_ofList]
  exact Text.not_mem_of_mem_pieces hp

/-- The last step is the last piece, unless that piece is no step. -/
theorem length_lastPiece_le {path step : String} (h : (steps path).getLast? = some step) :
    (lastPiece path.toList).length ≤ step.toList.length := by
  obtain ⟨front, hfront⟩ := List.getLast?_eq_some_iff.1 (getLast?_pieces path.toList)
  have hpos : 0 < step.toList.length := by
    obtain ⟨hempty, _⟩ := of_mem_steps (List.mem_of_getLast? h)
    refine List.length_pos_iff.2 fun hnil => hempty (String.toList_inj.1 hnil)
  rw [steps, hfront, List.map_append, List.filter_append, List.map_singleton] at h
  by_cases hempty : String.ofList (lastPiece path.toList) = ""
  · have hnil := congrArg String.toList hempty
    rw [String.toList_ofList] at hnil
    rw [hnil]
    exact Nat.zero_le _
  by_cases hdot : String.ofList (lastPiece path.toList) = "."
  · have hone := congrArg String.toList hdot
    rw [String.toList_ofList] at hone
    rw [hone]
    exact hpos
  rw [List.filter_cons_of_pos (by simp [hempty, hdot]), List.filter_nil, List.getLast?_concat] at h
  obtain rfl := Option.some.inj h
  rw [String.toList_ofList]

end Path

namespace Paths

open LineCost.Run.Path (Names lastPiece lastPiece_append names_append)

/-- The name of the output has that of the module in it. -/
theorem exists_output_eq (module : String) (o : Options) :
    ∃ front, (ofModule module o).output = front ++ outputSuffix ∧
      (lastPiece module.toList).length ≤ (lastPiece front.toList).length := by
  rw [ofModule]
  split
  · rename_i dir name _ hname
    obtain ⟨front, hfront⟩ := Path.exists_join_eq dir (name ++ outputSuffix)
    obtain ⟨hlast, _⟩ := Option.filter_eq_some_iff.1 hname
    have hle := Path.length_lastPiece_le hlast
    obtain ⟨_, hslash⟩ := Path.of_mem_steps (List.mem_of_getLast? hlast)
    refine ⟨front ++ name, hfront.trans String.append_assoc.symm, ?_⟩
    rw [String.toList_append, lastPiece_append hslash, List.length_append]
    exact Nat.le_add_left_of_le hle
  · exact ⟨module, rfl, Nat.le_refl _⟩

end Paths

end Run

end LineCost
