import SpanReport.Proofs.File.Tree

/-! # Where paths lead

A path that can be followed as it is written leads to a location (`Disk.Leads`). How a request with
such a path ends is then settled by what stands at the location and on the way to it: by following
the directory of the path (`Disk.follow_of_directory`, `Disk.follow_of_obstructed`,
`Disk.follow_of_none`) the target is found, refused because of a file on the way, or missed. -/

namespace SpanReport

namespace Disk

/-- A name that is followed to what is found under it: no reference to another directory, and not
too long. -/
def CanFollow (name : String) : Prop :=
  name ≠ "." ∧ name ≠ ".." ∧ name.utf8ByteSize ≤ nameLimit

/-- Whether a name can be followed can be decided. -/
instance (name : String) : Decidable (CanFollow name) :=
  inferInstanceAs (Decidable (_ ∧ _ ∧ _))

/-- A name that can be followed passes the check of names. -/
theorem checkName_of_canFollow {name : String} (h : CanFollow name) : checkName name = .ok () :=
  if_neg (Nat.not_lt.mpr h.2.2)

/-! ## Following names -/

/-- One name is followed to the directory under it; a file or nothing ends the walk. -/
theorem follow_cons (disk : Disk) (trail : Trail) {name : String} (h : CanFollow name)
    (later : List String) :
    disk.follow trail (name :: later) =
      match (disk.here trail).child? name with
      | some (.directory entries) => disk.follow ((name, .directory entries) :: trail) later
      | some (.file _) => .error .notDirectory
      | none => .error .notFound := by
  rw [follow, if_neg h.1, if_neg h.2.1, checkName_of_canFollow h]
  cases (disk.here trail).child? name with
  | none => rfl
  | some node => cases node <;> rfl

/-- A trail that is one directory longer has its location. -/
theorem location_cons (name : String) (node : Node) (trail : Trail) :
    Trail.location ((name, node) :: trail) = trail.location ++ [name] := by
  simp [Trail.location]

variable {disk : Disk} {names : List String}

/-- Names that lead to a directory are followed to it, from any trail. -/
theorem follow_eq_ok (trail : Trail) (hnames : ∀ name ∈ names, CanFollow name)
    (h : (disk.here trail).kind? names = some .directory) :
    ∃ found, disk.follow trail names = .ok found ∧ found.location = trail.location ++ names ∧
      (disk.here trail).get? names = some (disk.here found) := by
  -- by induction on the names, from any trail, as each name followed makes the trail longer
  induction names generalizing trail with
  | nil => exact ⟨trail, rfl, (List.append_nil _).symm, rfl⟩
  | cons name later ih =>
      obtain ⟨hname, hlater⟩ := List.forall_mem_cons.mp hnames
      obtain ⟨entries, hget⟩ := Node.kind?_eq_directory_iff.mp h
      rw [Node.get?_cons] at hget
      obtain ⟨child, hchild, hget⟩ := Option.bind_eq_some_iff.mp hget
      cases child with
      | file content =>
          -- a file holds nothing, and is no directory itself
          cases later <;> simp [Node.get?_cons] at hget
      | directory children =>
          rw [follow_cons disk trail hname, hchild]
          obtain ⟨found, hfound, hlocation, hhere⟩ :=
            ih ((name, .directory children) :: trail) hlater
              (Node.kind?_eq_directory_iff.mpr ⟨entries, hget⟩)
          refine ⟨found, hfound, ?_, ?_⟩
          · rw [hlocation, location_cons, List.append_assoc, List.singleton_append]
          · rw [Node.get?_cons, hchild]
            exact hhere

/-- Names on whose way a file stands are refused. -/
theorem follow_eq_notDirectory (trail : Trail) (hnames : ∀ name ∈ names, CanFollow name)
    {above : Location} (hpre : above <+: names) (hne : above ≠ []) {content : ByteArray}
    (h : (disk.here trail).kind? above = some (.file content)) :
    disk.follow trail names = .error .notDirectory := by
  induction names generalizing trail above with
  | nil => exact absurd (List.prefix_nil.mp hpre) hne
  | cons name later ih =>
      obtain ⟨hname, hlater⟩ := List.forall_mem_cons.mp hnames
      obtain ⟨first, above, rfl⟩ := List.exists_cons_of_ne_nil hne
      obtain ⟨rfl, hrest⟩ := List.cons_prefix_cons.mp hpre
      rw [Node.kind?_eq_file_iff, Node.get?_cons] at h
      obtain ⟨child, hchild, hget⟩ := Option.bind_eq_some_iff.mp h
      rw [follow_cons disk trail hname, hchild]
      cases child with
      | file content => rfl
      | directory children =>
          -- the file stands further on
          have hnext : above ≠ [] := by
            rintro rfl
            simp at hget
          exact ih ((first, .directory children) :: trail) hlater hrest hnext
            (Node.kind?_eq_file_iff.mpr hget)

/-- Names that lead to nothing, without a file on the way, are missed. -/
theorem follow_eq_notFound (trail : Trail) (hnames : ∀ name ∈ names, CanFollow name)
    (hfree : ∀ above, above <+: names → ∀ content,
      (disk.here trail).kind? above ≠ some (.file content))
    (h : (disk.here trail).kind? names = none) :
    disk.follow trail names = .error .notFound := by
  induction names generalizing trail with
  | nil => exact absurd h (by simp [Node.kind?])
  | cons name later ih =>
      obtain ⟨hname, hlater⟩ := List.forall_mem_cons.mp hnames
      rw [follow_cons disk trail hname]
      cases hchild : (disk.here trail).child? name with
      | none => rfl
      | some child =>
          -- what lies below the child is what lies below the name
          have hstep (rest : Location) :
              (disk.here trail).kind? (name :: rest) = child.kind? rest := by
            rw [Node.kind?, Node.get?_cons, hchild]
            rfl
          cases child with
          | file content =>
              exact absurd (hstep []) (hfree [name] ⟨later, rfl⟩ content)
          | directory children =>
              refine ih ((name, .directory children) :: trail) hlater ?_ ?_
              · intro above hpre content hfile
                exact hfree (name :: above) (List.cons_prefix_cons.mpr ⟨rfl, hpre⟩) content
                  ((hstep above).trans hfile)
              · exact (hstep later).symm.trans h

/-- From the root, names that lead to a directory are followed to it. -/
theorem follow_of_directory (hnames : ∀ name ∈ names, CanFollow name)
    (h : disk.kind? names = some .directory) :
    ∃ trail, disk.follow [] names = .ok trail ∧ trail.location = names ∧
      disk.get? names = some (disk.here trail) :=
  follow_eq_ok [] hnames h

/-- From the root, names on whose way a file stands are refused. -/
theorem follow_of_obstructed (hnames : ∀ name ∈ names, CanFollow name)
    (h : disk.Obstructed names) : disk.follow [] names = .error .notDirectory := by
  obtain ⟨above, hpre, content, hfile⟩ := h
  have hne : above ≠ [] := by
    rintro rfl
    simp at hfile
  exact follow_eq_notDirectory [] hnames hpre hne hfile

/-- From the root, names that lead to nothing, without a file on the way, are missed. -/
theorem follow_of_none (hnames : ∀ name ∈ names, CanFollow name)
    (hfree : ¬ disk.Obstructed names) (h : disk.kind? names = none) :
    disk.follow [] names = .error .notFound := by
  apply follow_eq_notFound [] hnames _ h
  intro above hpre content hfile
  exact hfree ⟨above, hpre, content, hfile⟩

/-! ## Requests with a path -/

/-- The path can be followed as it is written, and it names an entry of the directory at a
location. -/
structure Leads (disk : Disk) (path : Path) (location : Location) (name : String) : Prop where
  /-- The text of the path is admitted. -/
  checkPath_eq : checkPath path = .ok ()
  /-- The names to follow are those of the location and the name. -/
  namesFromRoot_eq : disk.namesFromRoot path = location ++ [name]
  /-- All of them can be followed. -/
  canFollow : ∀ other ∈ location ++ [name], CanFollow other

variable {path : Path} {location : Location} {name : String}

/-- The names of the directory can be followed. -/
theorem Leads.canFollow_location (h : disk.Leads path location name) :
    ∀ other ∈ location, CanFollow other := fun other hmem =>
  h.canFollow other (List.mem_append_left _ hmem)

/-- The last name can be followed. -/
theorem Leads.canFollow_name (h : disk.Leads path location name) : CanFollow name :=
  h.canFollow name (List.mem_append_right _ List.mem_cons_self)

/-- Where a path leads depends on the working directory only. -/
theorem Leads.of_workingDir_eq {other : Disk} (h : disk.Leads path location name)
    (hworkingDir : other.workingDir = disk.workingDir) : other.Leads path location name := by
  refine ⟨h.checkPath_eq, ?_, h.canFollow⟩
  rw [namesFromRoot, hworkingDir]
  exact h.namesFromRoot_eq

/-- The target of a path is what its last name stands for in the directory that the other names lead
to. -/
theorem Leads.target_eq (h : disk.Leads path location name) :
    disk.target path = (disk.follow [] location).bind fun trail =>
      .ok (.entry (trail.location ++ [name]) ((disk.here trail).child? name)) := by
  have hname := h.canFollow_name
  rw [target, h.checkPath_eq]
  simp only [h.namesFromRoot_eq, List.getLast?_concat, List.dropLast_concat]
  cases disk.follow [] location with
  | error error => rfl
  | ok trail =>
      have hreference : ¬ (name = "." ∨ name = "..") := not_or.mpr ⟨hname.1, hname.2.1⟩
      simp only [bind, Except.bind, if_neg hreference, checkName_of_canFollow hname]
      rfl

/-- Below a directory, the target is what the disk holds at the place. -/
theorem Leads.target_of_directory (h : disk.Leads path location name)
    (hdirectory : disk.kind? location = some .directory) :
    disk.target path =
      .ok (.entry (location ++ [name]) (disk.root.get? (location ++ [name]))) := by
  obtain ⟨trail, hfollow, hlocation, hget⟩ := follow_of_directory h.canFollow_location hdirectory
  have hchild : disk.root.get? (location ++ [name]) = (disk.here trail).child? name := by
    rw [Node.get?_concat]
    exact congrArg (Option.bind · _) hget
  rw [h.target_eq, hfollow, hchild, ← hlocation]
  rfl

/-- Below a file, there is no target. -/
theorem Leads.target_of_obstructed (h : disk.Leads path location name)
    (hobstructed : disk.Obstructed location) : disk.target path = .error .notDirectory := by
  rw [h.target_eq, follow_of_obstructed h.canFollow_location hobstructed]
  rfl

/-- Below a missing directory, there is no target. -/
theorem Leads.target_of_none (h : disk.Leads path location name)
    (hfree : ¬ disk.Obstructed location) (hnone : disk.kind? location = none) :
    disk.target path = .error .notFound := by
  rw [h.target_eq, follow_of_none h.canFollow_location hfree hnone]
  rfl

/-- A file is written to a place in a directory where no directory stands. -/
theorem Leads.write_eq_ok (h : disk.Leads path location name)
    (hdirectory : disk.kind? location = some .directory)
    (hplace : disk.kind? (location ++ [name]) ≠ some .directory) (content : ByteArray) :
    disk.write path content = .ok (disk.put (location ++ [name]) (.file content)) := by
  rw [write, h.target_of_directory hdirectory]
  cases hget : disk.root.get? (location ++ [name]) with
  | none => rfl
  | some node =>
      cases node with
      | file old => rfl
      | directory entries => exact absurd (Node.kind?_eq_directory_iff.mpr ⟨entries, hget⟩) hplace

/-- No file is written to the place of a directory. -/
theorem Leads.write_eq_isDirectory (h : disk.Leads path location name)
    (hplace : disk.kind? (location ++ [name]) = some .directory) (content : ByteArray) :
    disk.write path content = .error .isDirectory := by
  have hdirectory : disk.kind? location = some .directory :=
    kind?_of_concat_ne_none (by rw [hplace]; simp)
  obtain ⟨entries, hget⟩ := Node.kind?_eq_directory_iff.mp hplace
  rw [write, h.target_of_directory hdirectory, hget]
  rfl

/-- A directory is created at a free place in a directory. -/
theorem Leads.createDir_eq_ok (h : disk.Leads path location name)
    (hdirectory : disk.kind? location = some .directory)
    (hplace : disk.kind? (location ++ [name]) = none) :
    disk.createDir path = .ok (disk.put (location ++ [name]) (.directory [])) := by
  rw [createDir, h.target_of_directory hdirectory, Node.kind?_eq_none_iff.mp hplace]
  rfl

/-- No directory is created at a place that is taken. -/
theorem Leads.createDir_eq_alreadyExists (h : disk.Leads path location name)
    (hplace : disk.kind? (location ++ [name]) ≠ none) :
    disk.createDir path = .error .alreadyExists := by
  have hdirectory : disk.kind? location = some .directory := kind?_of_concat_ne_none hplace
  rw [createDir, h.target_of_directory hdirectory]
  cases hget : disk.root.get? (location ++ [name]) with
  | none => exact absurd (Node.kind?_eq_none_iff.mpr hget) hplace
  | some node => rfl

/-- No directory is created below a file. -/
theorem Leads.createDir_eq_notDirectory (h : disk.Leads path location name)
    (hobstructed : disk.Obstructed location) : disk.createDir path = .error .notDirectory := by
  rw [createDir, h.target_of_obstructed hobstructed]
  rfl

/-- No directory is created below a missing one. -/
theorem Leads.createDir_eq_notFound (h : disk.Leads path location name)
    (hfree : ¬ disk.Obstructed location) (hnone : disk.kind? location = none) :
    disk.createDir path = .error .notFound := by
  rw [createDir, h.target_of_none hfree hnone]
  rfl

/-- A path leads to a directory iff one stands at the place. -/
theorem Leads.isDir_iff (h : disk.Leads path location name) :
    disk.isDir path = true ↔ disk.kind? (location ++ [name]) = some .directory := by
  rw [isDir, h.checkPath_eq, h.namesFromRoot_eq]
  -- here the last name is followed as well, so the whole location is looked at
  by_cases hobstructed : disk.Obstructed (location ++ [name])
  · rw [follow_of_obstructed h.canFollow hobstructed]
    have hkind := mt not_obstructed_of_directory (not_not.mpr hobstructed)
    simp [hkind]
  · rcases kind?_eq_directory_or_none hobstructed with hkind | hkind
    · obtain ⟨trail, hfollow, -⟩ := follow_of_directory h.canFollow hkind
      simp [hfollow, hkind]
    · rw [follow_of_none h.canFollow hobstructed hkind]
      simp [hkind]

end Disk

end SpanReport
