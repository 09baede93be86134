import ArrayLift.CommandLine.Machine

/-! What the operations of a volume change. A directory that is made changes no file, a file that is written changes
no other place, and neither makes a directory unreachable. -/
namespace ArrayLift.Volume

/-- The content of the file at a place, if there is one. -/
def content? (volume : Volume) (location : Location) : Option ByteArray :=
  (volume.find? location).bind Entry.content?

/-- The same files are in two volumes, each with the same content. -/
def SameFiles (before after : Volume) : Prop :=
  ∀ location, after.content? location = before.content? location

theorem SameFiles.refl (volume : Volume) : SameFiles volume volume := fun _ => rfl

theorem SameFiles.trans {one other third : Volume} (first : SameFiles one other) (second : SameFiles other third) :
    SameFiles one third :=
  fun location => (second location).trans (first location)

/-- The working directory, what lies above it, and the root. -/
def IsGround (location : Location) : Prop :=
  location.all (· = "..") ∨ location = ["/"]

theorem find?_ground {location : Location} (ground : IsGround location) (volume : Volume) :
    volume.find? location = some .directory := by
  rw [find?, if_pos]
  simpa [IsGround] using ground

theorem find?_of_not_ground {location : Location} (inside : ¬ IsGround location) (volume : Volume) :
    volume.find? location = volume.entries.lookup location := by
  rw [find?, if_neg]
  simpa [IsGround] using inside

private theorem lookup_filter_ne {location other : Location} (different : other ≠ location)
    (entries : List (Location × Entry)) :
    (entries.filter (·.1 ≠ location)).lookup other = entries.lookup other := by
  induction entries with
  | nil => rfl
  | cons head rest ih =>
    obtain ⟨key, entry⟩ := head
    by_cases same : key = location
    · subst same
      simp [List.lookup_cons, beq_eq_false_iff_ne.mpr different, ← ih]
    · simp only [ne_eq, same, not_false_eq_true, decide_true, List.filter_cons_of_pos, List.lookup_cons, ih]

theorem find?_put_self {location : Location} (inside : ¬ IsGround location) (volume : Volume) (entry : Entry) :
    (volume.put location entry).find? location = some entry := by
  simp [find?_of_not_ground inside, put]

theorem find?_put_of_ne {location other : Location} (different : other ≠ location) (volume : Volume)
    (entry : Entry) : (volume.put location entry).find? other = volume.find? other := by
  by_cases ground : IsGround other
  · rw [find?_ground ground, find?_ground ground]
  · rw [find?_of_not_ground ground, find?_of_not_ground ground, put, List.lookup_cons,
      beq_eq_false_iff_ne.mpr different]
    exact lookup_filter_ne different volume.entries

/-! Steps that succeed. -/

section
variable {volume after : Volume} {path : String} {content : ByteArray}

/-- A file is written where no directory is, on a path that does not name one. -/
theorem write_eq_ok (written : volume.write path content = .ok after) :
    ∃ location, volume.locate path = .ok location ∧ volume.find? location ≠ some .directory ∧
      namesDirectory path = false ∧ after = volume.put location (.file content) := by
  cases found : volume.locate path with
  | error fault => simp [write, found, bind, Except.bind] at written
  | ok location =>
    refine ⟨location, rfl, ?_⟩
    simp only [write, found, bind, Except.bind] at written
    split at written
    · cases written
    · rename_i here
      split at written
      · cases written
      · rename_i plain
        cases written
        exact ⟨by simp [here], by simpa using plain, rfl⟩
    · rename_i here
      split at written
      · split at written
        · cases written
        · rename_i plain
          cases written
          exact ⟨by simp [here], by simpa using plain, rfl⟩
      · cases written
      · cases written

/-- Whether a file can be written does not depend on its content. -/
theorem write_other (written : volume.write path content = .ok after) (other : ByteArray) :
    ∃ changed, volume.write path other = .ok changed := by
  cases found : volume.locate path with
  | error fault => simp [write, found, bind, Except.bind] at written
  | ok location =>
    simp only [write, found, bind, Except.bind] at written ⊢
    split at written
    · cases written
    · split at written
      · cases written
      · rename_i plain
        exact ⟨_, if_neg plain⟩
    · split at written
      · split at written
        · cases written
        · rename_i plain
          exact ⟨_, if_neg plain⟩
      · cases written
      · cases written

/-- A directory is made where nothing is. -/
theorem createDirectory_eq_ok (made : volume.createDirectory path = .ok after) :
    ∃ location, volume.locate path = .ok location ∧ volume.find? location = none ∧
      after = volume.put location .directory := by
  cases found : volume.locate path with
  | error fault => simp [createDirectory, found, bind, Except.bind] at made
  | ok location =>
    refine ⟨location, rfl, ?_⟩
    simp only [createDirectory, found, bind, Except.bind] at made
    split at made
    · cases made
    · cases made
      exact ⟨‹_›, rfl⟩

theorem not_ground_of_no_directory {location : Location} (free : volume.find? location ≠ some .directory) :
    ¬ IsGround location :=
  fun ground => free (find?_ground ground volume)

theorem sameFiles_createDirectory (made : volume.createDirectory path = .ok after) : volume.SameFiles after := by
  obtain ⟨location, -, free, rfl⟩ := createDirectory_eq_ok made
  intro other
  by_cases same : other = location
  · subst same
    have noDirectory : volume.find? other ≠ some .directory := by simp [free]
    simp [content?, find?_put_self (not_ground_of_no_directory noDirectory), free, Entry.content?]
  · rw [content?, content?, find?_put_of_ne same]

/-- What is a directory stays one. -/
def KeepsDirectories (before after : Volume) : Prop :=
  ∀ location, before.find? location = some .directory → after.find? location = some .directory

theorem keepsDirectories_write (written : volume.write path content = .ok after) : volume.KeepsDirectories after := by
  obtain ⟨location, -, free, -, rfl⟩ := write_eq_ok written
  intro other directory
  rw [find?_put_of_ne ?_, directory]
  rintro rfl
  exact free directory

theorem KeepsDirectories.follow (keeps : volume.KeepsDirectories after) :
    ∀ (names : List String) (start : Location) {location : Location}, volume.follow start names = .ok location →
      after.follow start names = .ok location
  | [], _, _, reached => reached
  | name :: rest, start, location, reached => by
    rw [Volume.follow] at reached ⊢
    split at reached
    · rename_i here
      rw [keeps start here]
      split at reached
      · rename_i upward
        rw [if_pos upward]
        exact follow keeps rest _ reached
      · rename_i inward
        rw [if_neg inward]
        exact follow keeps rest _ reached
    · cases reached
    · cases reached

theorem KeepsDirectories.locate (keeps : volume.KeepsDirectories after) {location : Location}
    (reached : volume.locate path = .ok location) : after.locate path = .ok location := by
  rw [Volume.locate] at reached ⊢
  split at reached
  · cases reached
  · rename_i named
    rw [if_neg named]
    exact keeps.follow _ _ reached

/-- What was written is there. -/
theorem entry_write (written : volume.write path content = .ok after) : after.entry path = .ok (.file content) := by
  have keeps := keepsDirectories_write written
  obtain ⟨location, reached, free, plain, rfl⟩ := write_eq_ok written
  have inside := not_ground_of_no_directory free
  simp [entry, keeps.locate reached, find?_put_self inside, plain, bind, Except.bind]

theorem content?_write (written : volume.write path content = .ok after) {location : Location}
    (reached : volume.locate path = .ok location) (other : Location) :
    after.content? other = if other = location then some content else volume.content? other := by
  obtain ⟨location', reached', free, -, rfl⟩ := write_eq_ok written
  obtain rfl : location = location' := Except.ok.inj (reached.symm.trans reached')
  split
  · rename_i same
    rw [content?, same, find?_put_self (not_ground_of_no_directory free)]
    rfl
  · rename_i different
    rw [content?, content?, find?_put_of_ne different]

/-- The entry at the end of a path that can be written is the content of the file at its place. -/
theorem entry_eq_file_iff (written : volume.write path content = .ok after) {location : Location}
    (reached : volume.locate path = .ok location) (found : ByteArray) :
    volume.entry path = .ok (.file found) ↔ volume.content? location = some found := by
  obtain ⟨location', reached', free, plain, rfl⟩ := write_eq_ok written
  obtain rfl : location = location' := Except.ok.inj (reached.symm.trans reached')
  rw [entry, reached, content?]
  simp only [bind, Except.bind, plain]
  cases volume.find? location with
  | none => simp
  | some entry => cases entry <;> simp [Entry.content?]

/-- A file that is written leaves alone what another place holds. -/
theorem entry_write_of_ne (written : volume.write path content = .ok after) {other : String}
    {location place : Location} (reached : volume.locate path = .ok location) (there : volume.locate other = .ok place)
    (different : place ≠ location) : after.entry other = volume.entry other := by
  have keeps := keepsDirectories_write written
  obtain ⟨location', reached', -, -, rfl⟩ := write_eq_ok written
  obtain rfl : location = location' := Except.ok.inj (reached.symm.trans reached')
  simp [entry, keeps.locate there, there, find?_put_of_ne different, bind, Except.bind]

end

end ArrayLift.Volume
