import SpanReport.Artifact.Store
import SpanReport.Proofs.File.Plain

/-! # The paths of artifacts

`artifactPath` admits two names or refuses the first of them that is no component
(`artifactPath_cases`). As components hold no slash, the path of an artifact has two pieces more
than that of its root (`ofString_artifact`), and it is plain if the root is
(`IsPlainRoot.isPlainPath_artifact`). For any root it goes on from the root by two steps to entries
of directories, and no two artifacts share it (`artifactPath_confined`). -/

namespace SpanReport

/-! ## Components -/

/-- What a component is not, and what it does not hold. -/
theorem isComponent_iff {name : String} :
    isComponent name = true ↔ (name ≠ "" ∧ name ≠ "." ∧ name ≠ "..") ∧
      '/' ∉ name.toList ∧ '\\' ∉ name.toList ∧ '\x00' ∉ name.toList := by
  have hchars : (name.toList.all fun c => c ≠ '/' && c ≠ '\\' && c ≠ '\x00') = true ↔
      '/' ∉ name.toList ∧ '\\' ∉ name.toList ∧ '\x00' ∉ name.toList := by
    rw [List.all_eq_true]
    constructor
    · intro hall
      refine ⟨fun hmem => ?_, fun hmem => ?_, fun hmem => ?_⟩ <;> simpa using hall _ hmem
    · rintro ⟨hslash, hbackslash, hnul⟩ c hc
      have hne {d : Char} (hd : d ∉ name.toList) : c ≠ d := fun heq => hd (heq ▸ hc)
      simp [hne hslash, hne hbackslash, hne hnul]
  rw [isComponent, Bool.and_eq_true, hchars]
  simp [and_assoc]

/-- A component that is not too long is a plain name. -/
theorem isPlain_of_isComponent {name : String} (h : isComponent name = true)
    (hsize : name.utf8ByteSize ≤ Disk.nameLimit) : Disk.IsPlain name := by
  obtain ⟨⟨-, hdot, hdots⟩, -, -, hnul⟩ := isComponent_iff.mp h
  exact ⟨⟨hdot, hdots, hsize⟩, hnul⟩

/-- **The path of an artifact is made of two components**; otherwise the first name that is none is
told. -/
theorem artifactPath_cases (root : String) (identity : Identity) (file : String) :
    (isComponent identity.name = true ∧ isComponent file = true ∧
      artifactPath root identity file =
        .ok (Path.joinText (Path.joinText root identity.name) file)) ∨
    ∃ name, isComponent name = false ∧
      (name = identity.name ∨ isComponent identity.name = true ∧ name = file) ∧
      artifactPath root identity file = .error (.invalidComponent name) := by
  unfold artifactPath component
  cases hidentity : isComponent identity.name with
  | false => exact .inr ⟨identity.name, hidentity, .inl rfl, rfl⟩
  | true =>
      cases hfile : isComponent file with
      | false => exact .inr ⟨file, hfile, .inr ⟨rfl, rfl⟩, rfl⟩
      | true => exact .inl ⟨rfl, rfl, rfl⟩

/-! ## Below a root -/

/-- The names in the text of a root directory are plain. -/
def IsPlainRoot (root : String) : Prop :=
  ∀ piece ∈ (Path.ofString root).pieces, piece ≠ "" → Disk.IsPlain piece

variable {root : String} {identity : Identity} {file : String}

/-- **The path of an artifact is that of a file in the directory of its identity.** -/
theorem ofString_artifact (hidentity : isComponent identity.name = true)
    (hfile : isComponent file = true) (root : String) :
    Path.ofString (Path.joinText (Path.joinText root identity.name) file) =
      ((Path.ofString root).child identity.name).child file := by
  obtain ⟨-, hidentitySlash, -⟩ := isComponent_iff.mp hidentity
  obtain ⟨-, hfileSlash, -⟩ := isComponent_iff.mp hfile
  rw [Path.ofString_joinText hfileSlash, Path.ofString_joinText hidentitySlash]

/-- **Below a plain root, the path of an artifact is plain**, if nothing is too long. -/
theorem IsPlainRoot.isPlainPath_artifact (h : IsPlainRoot root)
    (hidentity : Disk.IsPlain identity.name) (hfile : Disk.IsPlain file)
    (hsize : (((Path.ofString root).child identity.name).child file).toString.utf8ByteSize ≤
      Disk.pathLimit) :
    Disk.IsPlainPath (((Path.ofString root).child identity.name).child file) := by
  refine ⟨fun piece hpiece hne => ?_, hsize⟩
  rcases Path.mem_pieces_child hpiece with hpiece | rfl
  · rcases Path.mem_pieces_child hpiece with hpiece | rfl
    · exact h piece hpiece hne
    · exact hidentity
  · exact hfile

/-! ## Confinement -/

/-- A name that stands for an entry of a directory: it holds no separator and no terminator of
paths, and refers to no other directory. -/
structure IsEntryName (name : String) : Prop where
  /-- The name is not empty. -/
  ne_empty : name ≠ ""
  /-- The name is not that of the directory itself. -/
  ne_current : name ≠ "."
  /-- The name is not that of the directory above. -/
  ne_parent : name ≠ ".."
  /-- The name holds no slash. -/
  slash_not_mem : '/' ∉ name.toList
  /-- The name holds no backslash. -/
  backslash_not_mem : '\\' ∉ name.toList
  /-- The name holds no null character. -/
  nul_not_mem : '\x00' ∉ name.toList

/-- Components are the names of entries. -/
theorem isComponent_iff_isEntryName {name : String} :
    isComponent name = true ↔ IsEntryName name := by
  rw [isComponent_iff]
  constructor
  · rintro ⟨⟨hempty, hcurrent, hparent⟩, hslash, hbackslash, hnul⟩
    exact ⟨hempty, hcurrent, hparent, hslash, hbackslash, hnul⟩
  · intro h
    exact ⟨⟨h.ne_empty, h.ne_current, h.ne_parent⟩, h.slash_not_mem, h.backslash_not_mem,
      h.nul_not_mem⟩

/-- The path of an artifact is made of the names of two entries. -/
theorem artifactPath_eq_ok_iff {path : String} :
    artifactPath root identity file = .ok path ↔
      IsEntryName identity.name ∧ IsEntryName file ∧
        Path.joinText (Path.joinText root identity.name) file = path := by
  rw [← isComponent_iff_isEntryName, ← isComponent_iff_isEntryName]
  rcases artifactPath_cases root identity file with
    ⟨hidentity, hfile, hpath⟩ | ⟨name, hname, hwhich, hpath⟩
  · rw [hpath, Except.ok.injEq, and_iff_right hidentity, and_iff_right hfile]
  · rw [hpath]
    constructor
    · intro h
      cases h
    · rintro ⟨hidentity, hfile, -⟩
      rcases hwhich with rfl | ⟨-, rfl⟩
      · exact absurd hidentity (by simp [hname])
      · exact absurd hfile (by simp [hname])

/-- The first name that is not that of an entry is told. -/
theorem artifactPath_eq_error_iff {error : StoreError} :
    artifactPath root identity file = .error error ↔
      ¬ IsEntryName identity.name ∧ error = .invalidComponent identity.name ∨
        IsEntryName identity.name ∧ ¬ IsEntryName file ∧ error = .invalidComponent file := by
  rw [← isComponent_iff_isEntryName, ← isComponent_iff_isEntryName]
  rcases artifactPath_cases root identity file with
    ⟨hidentity, hfile, hpath⟩ | ⟨name, hname, rfl | ⟨hidentity, rfl⟩, hpath⟩
  · simp [hpath, hidentity, hfile]
  · rw [hpath, Except.error.injEq, eq_comm]
    simp [hname]
  · rw [hpath, Except.error.injEq, eq_comm]
    simp [hname, hidentity]

/-- The text of the path of an artifact: the two names follow the root, each behind a slash. -/
theorem joinText_joinText (hidentity : IsEntryName identity.name) (root file : String) :
    Path.joinText (Path.joinText root identity.name) file =
      root ++ Path.seam root ++ identity.name ++ "/" ++ file := by
  rw [Path.joinText_eq root, Path.joinText_eq,
    Path.seam_append hidentity.ne_empty hidentity.slash_not_mem]

/-- The steps of the path of an artifact: those of the root, and two to entries of directories. -/
theorem components_artifact (hidentity : IsEntryName identity.name) (hfile : IsEntryName file)
    (root : String) :
    (Path.ofString (Path.joinText (Path.joinText root identity.name) file)).components =
      (Path.ofString root).components ++ [.normal identity.name, .normal file] := by
  have hne : ((Path.ofString root).child identity.name).pieces ≠ [] := by simp [Path.child]
  rw [ofString_artifact (isComponent_iff_isEntryName.mpr hidentity)
      (isComponent_iff_isEntryName.mpr hfile),
    Path.components_child hne hfile.ne_empty hfile.ne_current hfile.ne_parent,
    Path.components_child (Path.pieces_ofString_ne_nil root) hidentity.ne_empty
      hidentity.ne_current hidentity.ne_parent, List.append_assoc]
  rfl

/-- How the path of an artifact lies below its root. -/
structure LiesBelow (root : String) (identity : Identity) (file path : String) : Prop where
  /-- The text of the root is followed by the two names, each behind a slash. A slash at the end of
  the root is not repeated, and an empty root gets none. -/
  text_eq : path = root ++ Path.seam root ++ identity.name ++ "/" ++ file
  /-- The path makes the steps of the root and then two more, each to an entry of a directory. -/
  components_eq : (Path.ofString path).components =
    (Path.ofString root).components ++ [.normal identity.name, .normal file]
  /-- The path is followed from where the root is. -/
  isAbsolute_eq : (Path.ofString path).isAbsolute = (Path.ofString root).isAbsolute
  /-- No other artifact below the root has this path. -/
  unshared : ∀ other otherFile, artifactPath root other otherFile = .ok path →
    other = identity ∧ otherFile = file

/-- The path that is made of the names of two entries lies below its root. -/
theorem liesBelow_of_eq_ok {path : String} (h : artifactPath root identity file = .ok path) :
    LiesBelow root identity file path := by
  obtain ⟨hidentity, hfile, rfl⟩ := artifactPath_eq_ok_iff.mp h
  have hcomponents := components_artifact hidentity hfile root
  refine ⟨joinText_joinText hidentity root file, hcomponents, ?_, ?_⟩
  · rw [ofString_artifact (isComponent_iff_isEntryName.mpr hidentity)
      (isComponent_iff_isEntryName.mpr hfile), Path.isAbsolute_child, Path.isAbsolute_child]
  · intro other otherFile hother
    obtain ⟨hotherIdentity, hotherFile, hpath⟩ := artifactPath_eq_ok_iff.mp hother
    -- the steps behind those of the root tell both names
    have hsteps := components_artifact hotherIdentity hotherFile root
    rw [hpath, hcomponents] at hsteps
    obtain ⟨name⟩ := identity
    obtain ⟨otherName⟩ := other
    simp only [List.append_cancel_left_eq, List.cons.injEq, Path.Component.normal.injEq,
      and_true] at hsteps
    obtain ⟨rfl, rfl⟩ := hsteps
    exact ⟨rfl, rfl⟩

/-- **Artifacts are confined to their root.** A path is made exactly for two names of entries, and
otherwise the first name that is none is told; every path goes on from its root by two steps to
entries of directories, and tells the identity and the file name that it was made for. -/
theorem artifactPath_confined (root : String) (identity : Identity) (file : String) :
    ((∃ path, artifactPath root identity file = .ok path) ↔
      IsEntryName identity.name ∧ IsEntryName file) ∧
    (∀ error, artifactPath root identity file = .error error ↔
      ¬ IsEntryName identity.name ∧ error = .invalidComponent identity.name ∨
        IsEntryName identity.name ∧ ¬ IsEntryName file ∧ error = .invalidComponent file) ∧
    ∀ path, artifactPath root identity file = .ok path → LiesBelow root identity file path := by
  refine ⟨?_, fun _ => artifactPath_eq_error_iff, fun _ => liesBelow_of_eq_ok⟩
  simp [artifactPath_eq_ok_iff]

/-- A root that climbs and ends in a slash. -/
theorem artifactPath_confined_trailing_slash :
    artifactPath "../out/" ⟨"liisa"⟩ "..java" = .ok "../out/liisa/..java" ∧
      LiesBelow "../out/" ⟨"liisa"⟩ "..java" "../out/liisa/..java" := by
  have hpath : artifactPath "../out/" ⟨"liisa"⟩ "..java" = .ok "../out/liisa/..java" := by decide
  exact ⟨hpath, (artifactPath_confined "../out/" ⟨"liisa"⟩ "..java").2.2 _ hpath⟩

end SpanReport
