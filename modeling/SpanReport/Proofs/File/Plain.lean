import SpanReport.Proofs.File.Chain
import SpanReport.Proofs.File.Path

/-! # Plain paths

A plain path has names that can be followed and a text within the limits of a disk. It leads where
its names say (`Disk.locationOf`), and so do the paths of the directories on the way
(`Disk.IsPlainPath.lineage`). -/

namespace SpanReport

namespace Disk

/-- A name that can be followed and stand in the text of a path. -/
def IsPlain (name : String) : Prop :=
  CanFollow name ∧ '\x00' ∉ name.toList

/-- Whether a name is plain can be decided. -/
instance (name : String) : Decidable (IsPlain name) :=
  inferInstanceAs (Decidable (_ ∧ _))

/-- All names of the path are plain, and its text is not too long. -/
structure IsPlainPath (path : Path) : Prop where
  /-- What stands between slashes is empty or a plain name. -/
  isPlain : ∀ piece ∈ path.pieces, piece ≠ "" → IsPlain piece
  /-- The text is within the limit. -/
  size_le : path.toString.utf8ByteSize ≤ pathLimit

/-- The working directory is there, and its names can be followed. -/
structure HasWorkingDir (disk : Disk) : Prop where
  /-- The names can be followed. -/
  canFollow : ∀ name ∈ disk.workingDir, CanFollow name
  /-- The location is that of a directory. -/
  kind?_eq : disk.kind? disk.workingDir = some .directory

/-- Where the names of a path are followed from. -/
def baseOf (disk : Disk) (path : Path) : Location :=
  if path.isAbsolute then [] else disk.workingDir

/-- The location that the names of a path spell. -/
def locationOf (disk : Disk) (path : Path) : Location :=
  disk.baseOf path ++ path.pieces.filter (· ≠ "")

variable {disk : Disk} {path : Path}

/-- The names of a path are followed from a directory. -/
theorem HasWorkingDir.kind?_baseOf (h : disk.HasWorkingDir) (path : Path) :
    disk.kind? (disk.baseOf path) = some .directory := by
  unfold baseOf
  split
  · exact kind?_nil disk
  · exact h.kind?_eq

/-- The names that lead to where a path begins can be followed. -/
theorem HasWorkingDir.canFollow_baseOf (h : disk.HasWorkingDir) (path : Path) :
    ∀ name ∈ disk.baseOf path, CanFollow name := by
  unfold baseOf
  split
  · simp
  · exact h.canFollow

/-- A child lies in the directory of its path. -/
theorem locationOf_child (disk : Disk) (path : Path) {name : String} (hname : name ≠ "") :
    disk.locationOf (path.child name) = disk.locationOf path ++ [name] := by
  have hbase : disk.baseOf (path.child name) = disk.baseOf path := by
    rw [baseOf, baseOf, Path.isAbsolute_child]
  rw [locationOf, locationOf, hbase, Path.child, List.filter_append, List.append_assoc]
  by_cases hlast : path.pieces.getLast? = some ""
  · obtain ⟨front, hpieces⟩ := List.getLast?_eq_some_iff.mp hlast
    simp [hpieces, hname]
  · simp [hlast, hname]

/-- A path that begins as a plain path does is plain. -/
theorem IsPlainPath.of_isPrefix {shorter : Path} (h : IsPlainPath path)
    (hpre : shorter.pieces <+: path.pieces) : IsPlainPath shorter := by
  constructor
  · intro piece hpiece
    exact h.isPlain piece (hpre.subset hpiece)
  · apply Nat.le_trans _ h.size_le
    obtain ⟨later, hpieces⟩ := hpre
    rw [Path.toString, Path.toString, ← hpieces]
    by_cases hshorter : shorter.pieces = []
    · simp [hshorter]
    by_cases hlater : later = []
    · simp [hlater]
    rw [String.intercalate_append_of_ne_nil hshorter hlater, String.utf8ByteSize_append,
      String.utf8ByteSize_append, Nat.add_assoc]
    exact Nat.le_add_right _ _

/-- The text of a plain path with a name is admitted. -/
theorem IsPlainPath.checkPath_eq (h : IsPlainPath path) {front : List String} {name : String}
    (hpieces : path.pieces = front ++ [name]) (hname : name ≠ "") : checkPath path = .ok () := by
  have hnul : '\x00' ∉ path.toString.toList := by
    intro hmem
    rcases Path.eq_slash_or_exists_of_mem_toString hmem with hslash | ⟨piece, hpiece, hchar⟩
    · exact absurd hslash (by decide)
    · have hne : piece ≠ "" := by
        rintro rfl
        simp at hchar
      exact (h.isPlain piece hpiece hne).2 hchar
  have hempty := Path.toString_ne_empty hpieces hname
  have hsize := Nat.not_lt.mpr h.size_le
  simp [checkPath, hnul, hempty, hsize]

/-- **A plain path leads where its names say.** -/
theorem IsPlainPath.leads (h : IsPlainPath path) (hdisk : disk.HasWorkingDir)
    {front : List String} {name : String} (hpieces : path.pieces = front ++ [name])
    (hname : name ≠ "") :
    disk.Leads path (disk.baseOf path ++ front.filter (· ≠ "")) name := by
  have hlast : path.pieces.getLast? ≠ some "" := by simpa [hpieces] using hname
  have hnames : path.names = front.filter (· ≠ "") ++ [name] := by
    simp [Path.names_of_getLast?_ne hlast, hpieces, hname]
  refine ⟨h.checkPath_eq hpieces hname, ?_, ?_⟩
  · -- an absolute path is followed from the root, any other one from the working directory
    rw [namesFromRoot, baseOf, hnames, List.append_assoc]
    split <;> rfl
  · intro other hother
    rw [List.append_assoc] at hother
    rcases List.mem_append.mp hother with hbase | hpiece
    · exact hdisk.canFollow_baseOf path other hbase
    · rw [← hnames, Path.names_of_getLast?_ne hlast] at hpiece
      obtain ⟨hmem, hne⟩ := List.mem_filter.mp hpiece
      exact (h.isPlain other hmem (of_decide_eq_true hne)).1

/-- Pieces that lead on one by one, given from the last to the first, have a lineage. -/
theorem lineage_lineageOf {start : Location} {reversed : List String}
    (hdot : "." ∉ reversed)
    (hleads : ∀ path ∈ Path.lineageOf reversed, ∀ front name, path.pieces = front ++ [name] →
      name ≠ "" → disk.Leads path (start ++ front.filter (· ≠ "")) name) :
    disk.Lineage start (Path.lineageOf reversed)
      (start ++ reversed.reverse.filter (· ≠ "")) := by
  -- by induction along `lineageOf`, which drops the pieces that are no names
  induction reversed with
  | nil =>
      rw [List.reverse_nil, List.filter_nil, List.append_nil]
      exact .nil
  | cons piece above ih =>
      obtain ⟨hpiece, habove⟩ := not_or.mp (mt List.mem_cons.mpr hdot)
      by_cases hempty : piece = ""
      · -- an empty piece adds no name
        rw [Path.lineageOf, if_pos (.inl hempty)] at hleads ⊢
        simpa [hempty] using ih habove hleads
      · rw [Path.lineageOf, if_neg (not_or.mpr ⟨hempty, Ne.symm hpiece⟩)] at hleads ⊢
        have hlater := ih habove fun path hmem => hleads path (List.mem_cons_of_mem _ hmem)
        have hhead := hleads _ List.mem_cons_self above.reverse piece List.reverse_cons hempty
        have hlocation : start ++ (piece :: above).reverse.filter (· ≠ "") =
            start ++ above.reverse.filter (· ≠ "") ++ [piece] := by
          simp [hempty]
        rw [hlocation]
        exact .cons hhead hlater

/-- **The directories that a plain path names are those of its location.** -/
theorem IsPlainPath.lineage (h : IsPlainPath path) (hdisk : disk.HasWorkingDir) :
    disk.Lineage (disk.baseOf path) path.lineage (disk.locationOf path) := by
  have hdot : "." ∉ path.pieces.reverse := by
    intro hmem
    have hplain := h.isPlain "." (List.mem_reverse.mp hmem) (by decide)
    exact hplain.1.1 rfl
  have hlineage : disk.Lineage (disk.baseOf path) (Path.lineageOf path.pieces.reverse)
      (disk.baseOf path ++ path.pieces.reverse.reverse.filter (· ≠ "")) := by
    apply lineage_lineageOf hdot
    intro shorter hmem front name hpieces hname
    have hpre := Path.prefix_of_mem_lineageOf hmem
    rw [List.reverse_reverse] at hpre
    have hbase : disk.baseOf shorter = disk.baseOf path := by
      rw [baseOf, baseOf, Path.isAbsolute_of_isPrefix hpieces hname hpre]
    rw [← hbase]
    exact (h.of_isPrefix hpre).leads hdisk hpieces hname
  rw [List.reverse_reverse] at hlineage
  exact hlineage

/-! ## Writing to a plain path -/

variable {name : String}

/-- A plain child leads to its name in the directory of the path. -/
theorem IsPlainPath.leads_child (h : IsPlainPath (path.child name)) (hdisk : disk.HasWorkingDir)
    (hlast : path.pieces.getLast? ≠ some "") (hname : name ≠ "") :
    disk.Leads (path.child name) (disk.locationOf path) name := by
  have hleads := h.leads hdisk (Path.pieces_child hlast name) hname
  rw [baseOf, Path.isAbsolute_child] at hleads
  exact hleads

/-- The directories above a child are those of the path. -/
theorem lineage_child_tail (hlast : path.pieces.getLast? ≠ some "") (hname : name ≠ "")
    (hdot : name ≠ ".") : (path.child name).lineage.tail = path.lineage := by
  have hnot : ¬ (name = "" ∨ name = ".") := not_or.mpr ⟨hname, hdot⟩
  rw [Path.lineage, Path.pieces_child hlast, List.reverse_append, List.reverse_singleton,
    List.singleton_append, Path.lineageOf, if_neg hnot]
  rfl

/-- **Writing to a plain path adds the file or changes nothing.** -/
theorem IsPlainPath.writeBelow_cases (h : IsPlainPath (path.child name))
    (hdisk : disk.HasWorkingDir) (hlast : path.pieces.getLast? ≠ some "") (hname : name ≠ "")
    (content : ByteArray) :
    (∃ after, (writeBelow (path.child name) content : Request) disk = (.ok (), after) ∧
        disk.FileAdded (disk.locationOf path) name content after) ∨
      ∃ cause, (writeBelow (path.child name) content : Request) disk = (.error cause, disk) ∧
        disk.Refuses (disk.locationOf path) name cause := by
  have hpieces := Path.pieces_child hlast name
  have hdot : name ≠ "." := (h.isPlain name (by simp [hpieces]) hname).1.1
  have habove : IsPlainPath path := h.of_isPrefix (hpieces ▸ List.prefix_append _ _)
  have hlineage := habove.lineage hdisk
  rw [← lineage_child_tail hlast hname hdot] at hlineage
  exact Disk.writeBelow_cases (h.leads_child hdisk hlast hname) hlineage
    (hdisk.kind?_baseOf path) content

/-- Adding a file leaves the working directory in place. -/
theorem FileAdded.hasWorkingDir {location : Location} {content : ByteArray} {after : Disk}
    (h : disk.FileAdded location name content after) (hdisk : disk.HasWorkingDir) :
    after.HasWorkingDir := by
  constructor
  · intro other hother
    rw [h.workingDir_eq] at hother
    exact hdisk.canFollow other hother
  · -- the place of the file was no directory, and the working directory is one
    have hplace : disk.workingDir ≠ location ++ [name] := by
      intro heq
      exact h.not_directory (heq ▸ hdisk.kind?_eq)
    rw [h.workingDir_eq, h.kind?_eq, if_neg hplace, hdisk.kind?_eq, ite_self]

end Disk

end SpanReport
