import SpanReport.Proofs.File.Walk

/-! # Creating directories and writing below them

`createChain` ends in one of two ways: it creates what is missing of a chain of directories and
nothing else (`Disk.DirsAdded`), or it is refused and leaves the disk as it was. Writing a file may
fail afterwards, because a directory stands in its place; in that case no directory was missing.
`writeBelow` therefore either adds a file with the directories above it (`Disk.FileAdded`) or
changes nothing (`Disk.writeBelow_cases`). -/

namespace SpanReport

namespace Disk

/-- An action on a disk that succeeds or fails. -/
abbrev Request := StateM Disk (Except FileError Unit)

/-- Paths that lead to the directories of a location below `start`, the innermost first. -/
inductive Lineage (disk : Disk) (start : Location) : List Path → Location → Prop
  /-- The start itself has no path. -/
  | nil : Lineage disk start [] start
  /-- One path more leads one directory further. -/
  | cons {path : Path} {above : List Path} {location : Location} {name : String} :
      disk.Leads path location name → Lineage disk start above location →
        Lineage disk start (path :: above) (location ++ [name])

/-- The directories of a location are added to a disk, as far as they are missing. -/
structure DirsAdded (before : Disk) (location : Location) (after : Disk) : Prop where
  /-- The working directory stays. -/
  workingDir_eq : after.workingDir = before.workingDir
  /-- The directories are there, and the rest is as it was. -/
  kind?_eq : ∀ other, after.kind? other =
    if other <+: location then some .directory else before.kind? other

/-- The file, with the directories above it that are missing, is added to a disk. -/
structure FileAdded (before : Disk) (location : Location) (name : String) (content : ByteArray)
    (after : Disk) : Prop where
  /-- The working directory stays. -/
  workingDir_eq : after.workingDir = before.workingDir
  /-- No file was in the way of a directory. -/
  not_obstructed : ¬ before.Obstructed location
  /-- No directory was in the place of the file. -/
  not_directory : before.kind? (location ++ [name]) ≠ some .directory
  /-- The file is there, the directories above it are there, and the rest is as it was. -/
  kind?_eq : ∀ other, after.kind? other =
    if other = location ++ [name] then some (.file content)
    else if other <+: location then some .directory
    else before.kind? other

/-- What keeps a file from being written to a place, with the error that says so. -/
inductive Refuses (disk : Disk) (location : Location) (name : String) : FileError → Prop
  /-- A directory stands in the place of the file. -/
  | isDirectory : disk.kind? (location ++ [name]) = some .directory →
      Refuses disk location name .isDirectory
  /-- A file stands in the place of the directory. -/
  | alreadyExists {content : ByteArray} : disk.kind? location = some (.file content) →
      Refuses disk location name .alreadyExists
  /-- A file stands further above. -/
  | notDirectory {above : Location} {content : ByteArray} : above <+: location →
      above ≠ location → disk.kind? above = some (.file content) →
      Refuses disk location name .notDirectory

/-! ## Adding to a disk -/

variable {disk after : Disk} {start location : Location} {name : String} {path : Path}

/-- Where the directories are, nothing is added. -/
theorem DirsAdded.of_directory (h : disk.kind? location = some .directory) :
    disk.DirsAdded location disk := by
  refine ⟨rfl, ?_⟩
  intro other
  rw [kind?_ite_isPrefix h]

/-- The innermost directory is there. -/
theorem DirsAdded.kind?_location (h : disk.DirsAdded location after) :
    after.kind? location = some .directory := by
  rw [h.kind?_eq, if_pos List.prefix_rfl]

/-- What lies in the innermost directory is as it was. -/
theorem DirsAdded.kind?_concat (h : disk.DirsAdded location after) (name : String) :
    after.kind? (location ++ [name]) = disk.kind? (location ++ [name]) := by
  rw [h.kind?_eq, if_neg (not_concat_isPrefix location name)]

/-- One more directory may be added below the others. -/
theorem DirsAdded.put_directory (h : disk.DirsAdded location after)
    (hplace : disk.kind? (location ++ [name]) = none) :
    disk.DirsAdded (location ++ [name]) (after.put (location ++ [name]) (.directory [])) := by
  refine ⟨h.workingDir_eq, ?_⟩
  intro other
  have hfree : after.kind? (location ++ [name]) ≠ some .directory := by
    rw [h.kind?_concat, hplace]
    simp
  rw [kind?_put h.kind?_location Node.isLeaf_directory_nil hfree, h.kind?_eq]
  simp only [List.prefix_concat_iff]
  by_cases hother : other = location ++ [name]
  · simp [hother, Node.kind]
  · simp [hother]

/-- A file may be added below the directories. -/
theorem DirsAdded.put_file (h : disk.DirsAdded location after)
    (hfree : ¬ disk.Obstructed location)
    (hplace : disk.kind? (location ++ [name]) ≠ some .directory) (content : ByteArray) :
    disk.FileAdded location name content (after.put (location ++ [name]) (.file content)) := by
  refine ⟨h.workingDir_eq, hfree, hplace, ?_⟩
  intro other
  rw [← h.kind?_concat] at hplace
  rw [kind?_put h.kind?_location (Node.isLeaf_file content) hplace, h.kind?_eq]
  rfl

/-! ## One directory -/

/-- How a directory is made sure of on a disk. -/
theorem ensureDir_apply (path : Path) (disk : Disk) :
    (ensureDir path : Request) disk =
      match disk.createDir path with
      | .ok after => (.ok (), after)
      | .error error => if disk.isDir path then (.ok (), disk) else (.error error, disk) := by
  simp only [ensureDir, bind, StateT.bind, FileAccess.createDir, FileAccess.isDir, commit]
  cases disk.createDir path with
  | ok after => rfl
  | error error =>
      simp only [StateT.bind]
      cases disk.isDir path <;> rfl

/-- A directory that exists is made sure of without a change. -/
theorem Leads.ensureDir_of_directory (h : disk.Leads path location name)
    (hplace : disk.kind? (location ++ [name]) = some .directory) :
    (ensureDir path : Request) disk = (.ok (), disk) := by
  have hcreate := h.createDir_eq_alreadyExists (by rw [hplace]; simp)
  have hisDir := h.isDir_iff.mpr hplace
  rw [ensureDir_apply, hcreate, hisDir]
  rfl

/-- A missing directory is created in the directory above it. -/
theorem Leads.ensureDir_of_none (h : disk.Leads path location name)
    (hdirectory : disk.kind? location = some .directory)
    (hplace : disk.kind? (location ++ [name]) = none) :
    (ensureDir path : Request) disk =
      (.ok (), disk.put (location ++ [name]) (.directory [])) := by
  rw [ensureDir_apply, h.createDir_eq_ok hdirectory hplace]

/-- Where no directory stands, the refusal of a new one is what the caller is told. -/
theorem Leads.ensureDir_eq_error (h : disk.Leads path location name) {error : FileError}
    (hcreate : disk.createDir path = .error error)
    (hplace : disk.kind? (location ++ [name]) ≠ some .directory) :
    (ensureDir path : Request) disk = (.error error, disk) := by
  have hisDir := mt h.isDir_iff.mp hplace
  rw [ensureDir_apply, hcreate]
  exact if_neg hisDir

/-! ## A chain of directories -/

variable {paths : List Path}

/-- Unless a directory above is missing, the innermost directory is all that is made sure of. -/
theorem createChain_cons_of_ne {above : List Path} {outcome : Except FileError Unit}
    (h : (ensureDir path : Request) disk = (outcome, after))
    (hne : outcome ≠ .error .notFound) :
    (createChain (path :: above) : Request) disk = (outcome, after) := by
  simp only [createChain, bind, StateT.bind, h]
  cases outcome with
  | ok => rfl
  | error error =>
      cases error
      case notFound => exact absurd rfl hne
      all_goals rfl

/-- If a directory above is missing, the innermost one is made sure of after those above it. -/
theorem createChain_cons_of_notFound {above : List Path} {missed : Disk}
    (h : (ensureDir path : Request) disk = (.error .notFound, missed))
    (habove : (createChain above : Request) missed = (.ok (), after)) :
    (createChain (path :: above) : Request) disk = (ensureDir path : Request) after := by
  simp only [createChain, bind, StateT.bind, h, habove]

/-- If the innermost directory exists, nothing changes. -/
theorem Lineage.createChain_of_directory (h : disk.Lineage start paths location)
    (hkind : disk.kind? location = some .directory) :
    (createChain paths : Request) disk = (.ok (), disk) := by
  cases h with
  | nil => rfl
  | cons hleads hlater =>
      exact createChain_cons_of_ne (hleads.ensureDir_of_directory hkind) (by simp)

/-- **If no file is in the way, the chain is created**: just the missing directories are added. -/
theorem Lineage.createChain_of_free (h : disk.Lineage start paths location)
    (hstart : disk.kind? start = some .directory) (hfree : ¬ disk.Obstructed location) :
    ∃ after, (createChain paths : Request) disk = (.ok (), after) ∧
      disk.DirsAdded location after := by
  -- by induction on the chain, which follows the recursion of `createChain`
  induction h with
  | nil => exact ⟨disk, rfl, .of_directory hstart⟩
  | @cons path above location name hleads hlater ih =>
      have habove : ¬ disk.Obstructed location := by
        intro hobstructed
        exact hfree (hobstructed.of_isPrefix (List.prefix_append location [name]))
      rcases kind?_eq_directory_or_none hfree with hplace | hplace
      · have hkept := (Lineage.cons hleads hlater).createChain_of_directory hplace
        exact ⟨disk, hkept, .of_directory hplace⟩
      rcases kind?_eq_directory_or_none habove with hlocation | hlocation
      · -- only the innermost directory is missing
        have hensure := hleads.ensureDir_of_none hlocation hplace
        have hadded := DirsAdded.of_directory hlocation
        exact ⟨_, createChain_cons_of_ne hensure (by simp), hadded.put_directory hplace⟩
      · -- those above it are created first, and then it is asked for again
        have hcreate := hleads.createDir_eq_notFound habove hlocation
        have hensure := hleads.ensureDir_eq_error hcreate (by rw [hplace]; simp)
        obtain ⟨between, hbetween, hadded⟩ := ih habove
        have hagain := (hleads.of_workingDir_eq hadded.workingDir_eq).ensureDir_of_none
          hadded.kind?_location ((hadded.kind?_concat name).trans hplace)
        refine ⟨_, ?_, hadded.put_directory hplace⟩
        rw [createChain_cons_of_notFound hensure hbetween]
        exact hagain

/-- **If a file is in the way, the chain is refused**, and nothing changes. -/
theorem Lineage.createChain_of_obstructed (h : disk.Lineage start paths location)
    (hstart : disk.kind? start = some .directory) (hobstructed : disk.Obstructed location)
    (name : String) :
    ∃ cause, (createChain paths : Request) disk = (.error cause, disk) ∧
      disk.Refuses location name cause := by
  cases h with
  | nil => exact absurd hobstructed (not_obstructed_of_directory hstart)
  | @cons path above location inner hleads hlater =>
      have hplace := mt not_obstructed_of_directory (not_not.mpr hobstructed)
      rcases obstructed_concat_iff.mp hobstructed with habove | ⟨content, hfile⟩
      · -- the file is further above, where the walk to the directory ends
        have hensure := hleads.ensureDir_eq_error (hleads.createDir_eq_notDirectory habove) hplace
        obtain ⟨top, hpre, content, hfile⟩ := habove
        have hne : top ≠ location ++ [inner] := by
          rintro rfl
          exact not_concat_isPrefix location inner hpre
        have hbelow := hpre.trans (List.prefix_append location [inner])
        exact ⟨.notDirectory, createChain_cons_of_ne hensure (by simp),
          .notDirectory hbelow hne hfile⟩
      · -- the file has the name of the directory
        have hcreate := hleads.createDir_eq_alreadyExists (by rw [hfile]; simp)
        have hensure := hleads.ensureDir_eq_error hcreate hplace
        exact ⟨.alreadyExists, createChain_cons_of_ne hensure (by simp), .alreadyExists hfile⟩

/-! ## A file below a chain of directories -/

/-- Once the directories are there, the file is written. -/
theorem writeBelow_of_createChain
    (h : (createChain path.lineage.tail : Request) disk = (.ok (), after))
    (content : ByteArray) :
    (writeBelow path content : Request) disk =
      match after.write path content with
      | .ok written => (.ok (), written)
      | .error error => (.error error, after) := by
  simp only [writeBelow, bind, StateT.bind, h]
  rfl

/-- Where the directories are refused, so is the file. -/
theorem writeBelow_of_createChain_error {cause : FileError}
    (h : (createChain path.lineage.tail : Request) disk = (.error cause, after))
    (content : ByteArray) :
    (writeBelow path content : Request) disk = (.error cause, after) := by
  simp only [writeBelow, bind, StateT.bind, h]
  rfl

/-- **Writing below a directory adds the file, with the directories that are missing, or changes
nothing.** -/
theorem writeBelow_cases (hleads : disk.Leads path location name)
    (hlineage : disk.Lineage start path.lineage.tail location)
    (hstart : disk.kind? start = some .directory) (content : ByteArray) :
    (∃ after, (writeBelow path content : Request) disk = (.ok (), after) ∧
        disk.FileAdded location name content after) ∨
      ∃ cause, (writeBelow path content : Request) disk = (.error cause, disk) ∧
        disk.Refuses location name cause := by
  by_cases hobstructed : disk.Obstructed location
  · right
    obtain ⟨cause, hcreate, hrefuses⟩ :=
      hlineage.createChain_of_obstructed hstart hobstructed name
    exact ⟨cause, writeBelow_of_createChain_error hcreate content, hrefuses⟩
  by_cases hplace : disk.kind? (location ++ [name]) = some .directory
  · -- a directory in the place of the file lies in the location, so nothing was missing
    right
    have hnone : disk.kind? (location ++ [name]) ≠ none := by
      rw [hplace]
      simp
    have hcreate := hlineage.createChain_of_directory (kind?_of_concat_ne_none hnone)
    have hwrite := writeBelow_of_createChain hcreate content
    rw [hleads.write_eq_isDirectory hplace] at hwrite
    exact ⟨.isDirectory, hwrite, .isDirectory hplace⟩
  · left
    obtain ⟨between, hcreate, hadded⟩ := hlineage.createChain_of_free hstart hobstructed
    have hstill : between.kind? (location ++ [name]) ≠ some .directory := by
      rw [hadded.kind?_concat]
      exact hplace
    have hwrite := writeBelow_of_createChain hcreate content
    rw [(hleads.of_workingDir_eq hadded.workingDir_eq).write_eq_ok hadded.kind?_location hstill]
      at hwrite
    exact ⟨_, hwrite, hadded.put_file hobstructed hplace content⟩

end Disk

end SpanReport
