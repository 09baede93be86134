import ArrayLift.Proofs.Delivery.Volume

/-! The files in a directory. The name of an output is one component of a path, so that in one directory different
names lead to different places. -/
namespace ArrayLift

namespace Text

attribute [local simp] splitAt

theorem splitAt_ne_nil (separator : Char) (text : List Char) : splitAt separator text ≠ [] := by
  cases text with
  | nil => simp
  | cons c rest =>
    rw [splitAt]
    split
    · simp
    · split <;> simp

theorem splitAt_append (separator : Char) (before behind : List Char) :
    splitAt separator (before ++ separator :: behind) = splitAt separator before ++ splitAt separator behind := by
  induction before with
  | nil => simp
  | cons c rest ih =>
    by_cases cut : c = separator
    · simp [cut, ih]
    · simp only [List.cons_append, splitAt, cut, if_false, ih]
      cases parts : splitAt separator rest with
      | nil => exact absurd parts (splitAt_ne_nil separator rest)
      | cons first others => rfl

theorem splitAt_of_not_mem {separator : Char} {text : List Char} (absent : separator ∉ text) :
    splitAt separator text = [text] := by
  induction text with
  | nil => rfl
  | cons c rest ih =>
    simp only [List.mem_cons, not_or] at absent
    simp [Ne.symm absent.1, ih absent.2]

theorem not_mem_of_mem_splitAt {separator : Char} : ∀ {text part : List Char},
    part ∈ splitAt separator text → separator ∉ part
  | [], part, member => by simp_all [splitAt]
  | c :: rest, part, member => by
    have each : ∀ part ∈ splitAt separator rest, separator ∉ part := fun _ => not_mem_of_mem_splitAt
    rw [splitAt] at member
    split at member
    · rcases List.mem_cons.mp member with rfl | inside
      · simp
      · exact each part inside
    · rename_i other
      cases parts : splitAt separator rest with
      | nil => exact absurd parts (splitAt_ne_nil separator rest)
      | cons first others =>
        rw [parts] at member each
        rcases List.mem_cons.mp member with rfl | inside
        · simp [Ne.symm other, each first List.mem_cons_self]
        · exact each part (List.mem_cons_of_mem _ inside)

end Text

namespace Path

/-- One component of a path that leads into a directory. -/
structure IsName (name : String) : Prop where
  undivided : '/' ∉ name.toList
  nonempty : name ≠ ""
  moves : name ≠ "."
  inward : name ≠ ".."

theorem components_name {name : String} (plain : IsName name) : components name = [name] := by
  simp [components, Text.parts, Text.splitAt_of_not_mem plain.undivided, plain.nonempty, plain.moves]

theorem components_append (directory name : String) :
    components (directory ++ "/" ++ name) = components directory ++ components name := by
  simp [components, Text.parts, Text.splitAt_append]

/-- The root for a path from it, else the working directory. -/
def start (path : String) : Location :=
  if path.toList.head? = some '/' then ["/"] else []

theorem IsName.head?_ne {name : String} (plain : IsName name) : name.toList.head? ≠ some '/' :=
  fun first => plain.undivided (List.mem_of_head? first)

theorem join_eq {name : String} (plain : IsName name) (directory : String) : join directory name =
    if directory = "" ∨ directory.toList.getLast? = some '/' then directory ++ name else directory ++ "/" ++ name := by
  simp [join, plain.head?_ne]

/-- The components of a file in a directory are those of the directory and the name. -/
theorem components_join {name : String} (plain : IsName name) (directory : String) :
    components (join directory name) = components directory ++ [name] := by
  rw [join_eq plain, ← components_name plain]
  split
  · rename_i bare
    rcases bare with rfl | ends
    · simp [components, Text.parts, Text.splitAt]
    · obtain ⟨front, same⟩ := List.getLast?_eq_some_iff.mp ends
      obtain rfl : directory = String.ofList front ++ "/" := by
        rw [← String.toList_inj]
        simp [same]
      have closed := components_append (String.ofList front) ""
      have nothing : components "" = [] := by simp [components, Text.parts, Text.splitAt]
      rw [String.append_empty, nothing, List.append_nil] at closed
      rw [closed, components_append]
  · exact components_append directory name

theorem start_join {name : String} (plain : IsName name) (directory : String) :
    start (join directory name) = start directory := by
  rw [join_eq plain]
  by_cases empty : directory = ""
  · simp [empty, start, plain.head?_ne]
  · have nonempty : directory.toList ≠ [] := by simpa using empty
    obtain ⟨first, others, same⟩ := List.exists_cons_of_ne_nil nonempty
    split <;> simp [start, same]

/-! Names of sources and outputs. -/

theorem not_mem_fileName {path name : String} (found : fileName? path = some name) : '/' ∉ name.toList := by
  rw [fileName?] at found
  split at found
  · rename_i last there
    split at found
    · cases found
    · cases found
      have listed := (List.mem_filter.mp (List.mem_of_getLast? there)).1
      obtain ⟨part, member, rfl⟩ := List.mem_map.mp listed
      simpa using Text.not_mem_of_mem_splitAt member
  · cases found

/-- What is cut off a name leaves a beginning of it. -/
theorem cutExtension_begins (name : String) : (cutExtension name).1.toList <+: name.toList := by
  simp only [cutExtension]
  split
  · rename_i point c stem same
    have whole := List.drop_suffix (name.toList.reverse.takeWhile (· ≠ '.')).length name.toList.reverse
    rw [same] at whole
    have behind : c :: stem <:+ name.toList.reverse := (List.suffix_cons point (c :: stem)).trans whole
    simpa using List.reverse_prefix.mpr behind
  · exact List.prefix_rfl

theorem sourceName_undivided (path : String) : '/' ∉ (sourceName path).toList := by
  have file : '/' ∉ ((fileName? path).getD "").toList := by
    cases found : fileName? path with
    | none => simp
    | some name => exact not_mem_fileName found
  rw [sourceName, withoutEnding]
  split
  · rw [String.toList_ofList]
    exact fun member => file (List.mem_of_mem_take member)
  · exact file

/-- The output of a source without directories is a file in a directory. -/
theorem isName_outputName {source : String} (undivided : '/' ∉ source.toList) : IsName (outputName source) := by
  have stem : '/' ∉ ((stem? source).getD source).toList := by
    rw [stem?]
    cases found : fileName? source with
    | none => exact undivided
    | some name => exact fun member => not_mem_fileName found ((cutExtension_begins name).subset member)
  have other (short : String) (fewer : short.toList.length < 3) : outputName source ≠ short := by
    rintro rfl
    rw [outputName, String.toList_append, List.length_append] at fewer
    exact absurd fewer (Nat.not_lt.mpr (Nat.le_add_left 3 _))
  exact ⟨by simp [outputName, stem], other "" (by decide), other "." (by decide), other ".." (by decide)⟩

end Path

namespace Volume

theorem follow_append_name {volume : Volume} {name : String} (plain : Path.IsName name) :
    ∀ (names : List String) (start : Location) {location : Location},
      volume.follow start (names ++ [name]) = .ok location →
      ∃ base, volume.follow start names = .ok base ∧ location = base ++ [name]
  | [], start, location, reached => by
    simp only [List.nil_append, follow, plain.inward, if_false] at reached
    split at reached
    · cases reached
      exact ⟨start, rfl, rfl⟩
    · cases reached
    · cases reached
  | first :: rest, start, location, reached => by
    rw [List.cons_append, follow] at reached
    rw [follow]
    split at reached
    · split at reached
      · rename_i upward
        rw [if_pos upward]
        exact follow_append_name plain rest _ reached
      · rename_i inward
        rw [if_neg inward]
        exact follow_append_name plain rest _ reached
    · cases reached
    · cases reached

/-- The place of a file in a directory is the directory with the name behind it. -/
theorem locate_join {volume : Volume} {directory name : String} {location : Location} (plain : Path.IsName name)
    (reached : volume.locate (Path.join directory name) = .ok location) :
    ∃ base, volume.follow (Path.start directory) (Path.components directory) = .ok base ∧
      location = base ++ [name] := by
  rw [locate] at reached
  split at reached
  · cases reached
  · rw [← Path.start, Path.start_join plain, Path.components_join plain] at reached
    exact follow_append_name plain _ _ reached

/-- Different names in one directory lead to different places. -/
theorem locate_join_ne {volume : Volume} {directory name other : String} {location place : Location}
    (plain : Path.IsName name) (plain' : Path.IsName other) (different : other ≠ name)
    (reached : volume.locate (Path.join directory name) = .ok location)
    (there : volume.locate (Path.join directory other) = .ok place) : place ≠ location := by
  obtain ⟨base, found, rfl⟩ := locate_join plain reached
  obtain ⟨base', found', rfl⟩ := locate_join plain' there
  obtain rfl : base = base' := Except.ok.inj (found.symm.trans found')
  simpa using different

end Volume
end ArrayLift
