import Nonlocal.Command.FileSystem
import Nonlocal.Proofs.Attempt
import Nonlocal.Proofs.Command.Path

/-!
# What writing a file changes

Writing changes what is at one place and nothing else. The way to a place leads through
directories only, and a place that is written to was none, so every way that could be gone
before can be gone afterwards. A path that is read keeps its bytes unless it leads to the
place that is written to, which a path with another extension does not.
-/

namespace Nonlocal.Command.FileSystem

variable {files : FileSystem} {path : Path} {place : Place}

section Entries

/-- The first entry of a place among entries of which those of one place are replaced. -/
theorem lookup_replaced (entries : List (Place × Entry)) (entry : Entry) (other : Place) :
    (entries.map fun old => if old.1 = place then (place, entry) else old).lookup other
      = if other = place then (entries.lookup other).map fun _ => entry
        else entries.lookup other := by
  induction entries with
  | nil => simp
  | cons old rest ih =>
    obtain ⟨key, content⟩ := old
    rw [List.map_cons, List.lookup_cons]
    by_cases here : key = place
    · subst here
      by_cases asked : other = key
      · simp [asked]
      · simp [asked, List.lookup_cons, beq_eq_false_iff_ne.mpr asked, ih]
    · simp only [here, if_false]
      by_cases asked : other = key
      · subst asked
        simp [here]
      · simp [List.lookup_cons, beq_eq_false_iff_ne.mpr asked, ih]

/-- After an entry is put at a place, it is what is found there, and everything else is as it
was. -/
theorem entry?_put (below : place ≠ []) (entry : Entry) (other : Place) :
    FileSystem.entry? (files.put place entry) other
      = if other = place then some entry else files.entry? other := by
  unfold entry?
  by_cases root : other = []
  · subst root
    simp [Ne.symm below]
  simp only [root, if_false]
  have missing_iff : files.entries.lookup place = none
      ↔ ¬files.entries.any (·.1 = place) = true := by
    rw [List.lookup_eq_none_iff, List.any_eq_true, not_exists]
    simp only [bne_iff_ne, decide_eq_true_eq, not_and, ne_comm]
  unfold put
  split
  · next present =>
    rw [lookup_replaced]
    split
    · next same =>
      obtain ⟨old, found⟩ := Option.ne_none_iff_exists'.mp fun missing =>
        missing_iff.mp missing present
      rw [same, found]
      rfl
    · rfl
  · next absent =>
    rw [List.lookup_append]
    by_cases same : other = place
    · rw [same, missing_iff.mpr absent, if_pos rfl]
      simp
    · rw [if_neg same]
      simp [List.lookup_cons, beq_eq_false_iff_ne.mpr same]

/-- Writing does not move the working directory. -/
theorem workingDirectory_put (files : FileSystem) (place : Place) (entry : Entry) :
    (files.put place entry).workingDirectory = files.workingDirectory := by
  unfold put
  split <;> rfl

/-- Paths start where they did before a write. -/
theorem origin_put (files : FileSystem) (place : Place) (entry : Entry) (path : Path) :
    (files.put place entry).origin path = files.origin path := by
  rw [origin, workingDirectory_put, origin]

/-- The root is a directory, so a place that is none is below it. -/
theorem ne_root_of_free (free : files.entry? place ≠ some .directory) : place ≠ [] := by
  rintro rfl
  exact free (if_pos rfl)

/-- Directories stay what they are if a file is put where none of them is. -/
theorem directory_put (free : files.entry? place ≠ some .directory) (entry : Entry)
    {other : Place} (directory : files.entry? other = some .directory) :
    FileSystem.entry? (files.put place entry) other = some .directory := by
  have below := ne_root_of_free free
  have different : other ≠ place := by
    rintro rfl
    exact free directory
  rw [entry?_put below, if_neg different, directory]

end Entries

section Ways

/-- Only a directory can be entered. -/
theorem directory_of_enter {component : String} {entered : Place}
    (enters : files.enter place component = .ok entered) :
    files.entry? place = some .directory := by
  obtain ⟨_, ensured, -⟩ := (Attempt.bind_eq_ok_iff _ _ _).mp enters
  unfold ensureDirectory at ensured
  split at ensured
  · next directory => exact directory
  · cases ensured
  · cases ensured

/-- Entering a directory does not depend on any other entry. -/
theorem enter_congr {after : FileSystem} (same : after.entry? place = files.entry? place)
    (component : String) : after.enter place component = files.enter place component := by
  simp only [enter, ensureDirectory, same]

/-- A way that can be gone can still be gone when the directories on it are still there. -/
theorem walk_of_directories {after : FileSystem}
    (kept : ∀ other, files.entry? other = some .directory → after.entry? other = some .directory)
    {components : List String} {start : Place}
    (walk : components.foldlM files.enter start = .ok place) :
    components.foldlM after.enter start = .ok place := by
  induction components generalizing start with
  | nil => exact walk
  | cons component rest ih =>
    rw [List.foldlM_cons, Attempt.bind_eq_ok_iff] at walk ⊢
    obtain ⟨next, entered, later⟩ := walk
    have directory := directory_of_enter entered
    refine ⟨next, ?_, ih later⟩
    rw [enter_congr ((kept start directory).trans directory.symm), entered]

/-- A component other than two dots that leads to no directory is a name in the directory
that it is entered from. -/
theorem of_enter {component : String} {entered : Place}
    (enters : files.enter place component = .ok entered)
    (noDirectory : files.entry? entered ≠ some .directory) (noDots : component ≠ "..") :
    component ≠ "" ∧ component ≠ "." ∧ entered = place ++ [component] := by
  have directory := directory_of_enter enters
  obtain ⟨_, -, moved⟩ := (Attempt.bind_eq_ok_iff _ _ _).mp enters
  split at moved
  · obtain rfl := Except.ok.inj moved
    exact (noDirectory directory).elim
  next notHere =>
  split at moved
  · cases moved
  · simp only [Bool.or_eq_true, decide_eq_true_eq, not_or] at notHere
    exact ⟨notHere.1, notHere.2, (Except.ok.inj moved).symm⟩

/-- A path with an extension that ends at no directory ends with the name of its last
component. -/
theorem exists_of_walk {start : Place}
    (walk : path.components.foldlM files.enter start = .ok place)
    (noDirectory : files.entry? place ≠ some .directory) {extension : String}
    (named : path.extension? = some extension) :
    path.Plain ∧ ∃ directory, place = directory ++ [String.ofList path.final] := by
  obtain ⟨directories, components⟩ := path.exists_components
  rw [components, List.foldlM_append, Attempt.bind_eq_ok_iff] at walk
  obtain ⟨directory, -, last⟩ := walk
  rw [List.foldlM_cons, Attempt.bind_eq_ok_iff] at last
  obtain ⟨entered, enters, same⟩ := last
  obtain rfl := Except.ok.inj same
  have written {characters : List Char} : String.ofList path.final = String.ofList characters
      ↔ path.final = characters := String.ofList_inj
  have noDots : String.ofList path.final ≠ String.ofList ['.', '.'] := by
    rw [ne_eq, written]
    intro dots
    exact Path.not_dots_of_extension? ⟨by simp [dots], by simp [dots]⟩ named dots
  obtain ⟨nonempty, noDot, rfl⟩ := of_enter enters noDirectory noDots
  exact ⟨⟨mt written.mpr nonempty, mt written.mpr noDot⟩, _, rfl⟩

end Ways

section Reading

/-- What a path leads to is at the end of its way. -/
theorem find_eq_ok_iff {entry : Entry} : files.find path = .ok entry
    ↔ path.ensureUsable = .ok () ∧ ∃ place, path.components.foldlM files.enter (files.origin path)
        = .ok place ∧ files.entry? place = some entry := by
  unfold find
  rw [Attempt.bind_eq_ok_iff]
  constructor
  · rintro ⟨_, usable, rest⟩
    obtain ⟨place, walk, found⟩ := (Attempt.bind_eq_ok_iff _ _ _).mp rest
    refine ⟨usable, place, walk, ?_⟩
    split at found
    · next entry' present => rw [present, Except.ok.inj found]
    · cases found
  · rintro ⟨usable, place, walk, present⟩
    refine ⟨(), usable, ?_⟩
    rw [Attempt.bind_eq_ok_iff]
    refine ⟨place, walk, ?_⟩
    rw [present]
    rfl

/-- The bytes of a path are those of the file that it leads to. -/
theorem read_eq_ok_iff {bytes : ByteArray} :
    files.read path = .ok bytes ↔ files.find path = .ok (.file bytes) := by
  unfold read
  rw [Attempt.bind_eq_ok_iff]
  constructor
  · rintro ⟨entry, found, content⟩
    cases entry with
    | file other => rw [found, Except.ok.inj content]
    | directory => cases content
  · intro found
    exact ⟨_, found, rfl⟩

/-- A usable path is not empty. -/
theorem nonempty_of_usable (usable : path.ensureUsable = .ok ()) : path.text.toList ≠ [] := by
  intro empty
  simp [Path.ensureUsable, empty] at usable

/-- The place that a path is written to is at the end of its way, and no directory. -/
theorem of_target (target : files.target path = .ok place) :
    path.ensureUsable = .ok ()
      ∧ path.components.foldlM files.enter (files.origin path) = .ok place
      ∧ files.entry? place ≠ some .directory := by
  obtain ⟨_, usable, rest⟩ := (Attempt.bind_eq_ok_iff _ _ _).mp target
  obtain ⟨directory, walk, last⟩ := (Attempt.bind_eq_ok_iff _ _ _).mp rest
  split at last
  · obtain ⟨_, -, refused⟩ := (Attempt.bind_eq_ok_iff _ _ _).mp last
    cases refused
  next noSlash =>
  obtain ⟨entered, enters, checked⟩ := (Attempt.bind_eq_ok_iff _ _ _).mp last
  obtain ⟨directories, components⟩ := path.exists_components
  have named : String.ofList path.final ≠ "" := by
    intro empty
    have final : path.final = [] := String.ofList_inj.mp empty
    exact Path.final_ne_nil (nonempty_of_usable usable) (by simpa using noSlash) final
  have backwards : path.components.reverse.dropWhile (· = "")
      = String.ofList path.final :: directories.reverse := by
    rw [components, List.reverse_append]
    simp [named]
  rw [backwards, List.tail_cons, List.reverse_reverse] at walk
  rw [backwards, List.headD_cons] at enters
  refine ⟨usable, ?_, ?_⟩
  · rw [components, List.foldlM_append, Attempt.bind_eq_ok_iff]
    refine ⟨directory, walk, ?_⟩
    rw [List.foldlM_cons, enters]
    split at checked
    · cases checked
    · exact congrArg Except.ok (Except.ok.inj checked)
  · split at checked
    · cases checked
    · next noDirectory =>
      obtain rfl := Except.ok.inj checked
      exact noDirectory

/-- After an entry is put where no directory is, a path leads to where it led before, and
what is there now is found. -/
theorem find_put (free : files.entry? place ≠ some .directory) (entry : Entry) {other : Path}
    {goal : Place} (usable : other.ensureUsable = .ok ())
    (walk : other.components.foldlM files.enter (files.origin other) = .ok goal) {found : Entry}
    (present : FileSystem.entry? (files.put place entry) goal = some found) :
    (files.put place entry).find other = .ok found := by
  rw [find_eq_ok_iff]
  refine ⟨usable, goal, ?_, present⟩
  rw [origin_put]
  exact walk_of_directories (fun _ => directory_put free _) walk

/-- A file that is written to a path is found there. -/
theorem read_put (target : files.target path = .ok place) (bytes : ByteArray) :
    (files.put place (.file bytes)).read path = .ok bytes := by
  obtain ⟨usable, walk, free⟩ := of_target target
  rw [read_eq_ok_iff]
  apply find_put free _ usable walk
  rw [entry?_put (ne_root_of_free free), if_pos rfl]

/-- Writing to a path leaves the bytes of a path with another extension alone. -/
theorem read_put_of_extension?_ne (target : files.target path = .ok place) {other : Path}
    {bytes : ByteArray} (holds : files.read other = .ok bytes) {extension extension' : String}
    (named : path.extension? = some extension) (named' : other.extension? = some extension')
    (different : extension ≠ extension') (written : ByteArray) :
    (files.put place (.file written)).read other = .ok bytes := by
  obtain ⟨-, walk, free⟩ := of_target target
  rw [read_eq_ok_iff, find_eq_ok_iff] at holds
  obtain ⟨usable, place', walk', present⟩ := holds
  have noDirectory : files.entry? place' ≠ some .directory := by
    rw [present]
    rintro ⟨⟩
  obtain ⟨plain, directory, ends⟩ := exists_of_walk walk free named
  obtain ⟨plain', directory', ends'⟩ := exists_of_walk walk' noDirectory named'
  have apart : place' ≠ place := by
    rw [ends, ends']
    intro same
    have last := (List.append_inj' same rfl).2
    have final : other.final = path.final :=
      String.ofList_inj.mp (List.cons.inj last).1
    refine Path.final_ne_of_extension?_ne plain' plain ?_ final
    rw [named, named']
    exact fun equal => different (Option.some.inj equal).symm
  rw [read_eq_ok_iff]
  apply find_put free _ usable walk'
  rw [entry?_put (ne_root_of_free free), if_neg apart, present]

end Reading

end Nonlocal.Command.FileSystem
