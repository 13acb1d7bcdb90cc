import Mathlib.Data.List.Basic
import SpanReport.File.Disk

/-! # What a file tree holds where

`kind?` tells of every location whether a file with its content, a directory or nothing is there;
two trees with the same kinds hold the same files and directories. Putting a node without entries of
its own into a directory changes the kind at that place and no other (`Disk.kind?_put`). A location
without a file on the way to it either leads to a directory, or nothing is there
(`Disk.kind?_eq_directory_or_none`). -/

namespace SpanReport

/-- What a node is, without what it holds. -/
inductive Node.Kind
  /-- A file with its content. -/
  | file (content : ByteArray)
  /-- A directory. -/
  | directory

namespace Node

/-- The kind of a node. -/
def kind : Node → Kind
  | file content => .file content
  | directory _ => .directory

/-- The kind of what is found at a location below a node. -/
def kind? (node : Node) (location : Location) : Option Kind :=
  (node.get? location).map kind

/-! ## Looking up -/

@[simp] theorem child?_file (content : ByteArray) (name : String) :
    (file content).child? name = none := rfl

@[simp] theorem child?_directory (entries : List (String × Node)) (name : String) :
    (directory entries).child? name = entries.lookup name := rfl

@[simp] theorem get?_nil (node : Node) : node.get? [] = some node := rfl

theorem get?_cons (node : Node) (name : String) (later : Location) :
    node.get? (name :: later) = (node.child? name).bind fun child => child.get? later := rfl

/-- A location may be followed in two parts. -/
theorem get?_append (node : Node) (first later : Location) :
    node.get? (first ++ later) = (node.get? first).bind fun child => child.get? later := by
  induction first generalizing node with
  | nil => rfl
  | cons name first ih =>
      rw [List.cons_append, get?_cons, get?_cons]
      cases node.child? name with
      | none => rfl
      | some child => exact ih child

/-- The node at a location with one more name is a child of the node at the location. -/
theorem get?_concat (node : Node) (location : Location) (name : String) :
    node.get? (location ++ [name]) = (node.get? location).bind fun child => child.child? name := by
  rw [get?_append]
  congr 1
  funext child
  rw [get?_cons]
  cases child.child? name <;> rfl

/-- A directory is a node with entries. -/
theorem kind?_eq_directory_iff {node : Node} {location : Location} :
    node.kind? location = some .directory ↔
      ∃ entries, node.get? location = some (directory entries) := by
  unfold kind?
  cases node.get? location with
  | none => simp
  | some found => cases found <;> simp [kind]

/-- A file is a node with its content. -/
theorem kind?_eq_file_iff {node : Node} {location : Location} {content : ByteArray} :
    node.kind? location = some (.file content) ↔ node.get? location = some (file content) := by
  unfold kind?
  cases node.get? location with
  | none => simp
  | some found => cases found <;> simp [kind]

/-- Nothing has no kind. -/
theorem kind?_eq_none_iff {node : Node} {location : Location} :
    node.kind? location = none ↔ node.get? location = none := by
  rw [kind?, Option.map_eq_none_iff]

/-! ## Putting -/

/-- The first entry answers for its own name only. -/
theorem lookup_cons (entries : List (String × Node)) (name other : String) (node : Node) :
    ((name, node) :: entries).lookup other =
      if other = name then some node else entries.lookup other := by
  by_cases hname : other = name
  · simp [hname]
  · rw [List.lookup_cons, beq_false_of_ne hname, if_neg hname]

/-- Entries under other names are found after those under one name are taken out. -/
theorem lookup_filter_of_ne (entries : List (String × Node)) {name other : String}
    (hname : other ≠ name) :
    (entries.filter (·.1 ≠ name)).lookup other = entries.lookup other := by
  induction entries with
  | nil => rfl
  | cons entry later ih =>
      obtain ⟨key, value⟩ := entry
      by_cases hkey : key = name
      · rw [List.filter_cons_of_neg (by simpa using hkey), ih, lookup_cons, hkey, if_neg hname]
      · rw [List.filter_cons_of_pos (by simpa using hkey), lookup_cons, lookup_cons, ih]

/-- Setting an entry changes what is found under its name, and nothing else. -/
theorem lookup_setEntry (entries : List (String × Node)) (name other : String) (node : Node) :
    (setEntry entries name node).lookup other =
      if other = name then some node else entries.lookup other := by
  rw [setEntry, lookup_cons]
  by_cases hname : other = name
  · rw [if_pos hname, if_pos hname]
  · rw [if_neg hname, if_neg hname, lookup_filter_of_ne entries hname]

/-- Setting an entry changes what lies below its name, and nothing else. -/
theorem kind?_directory_setEntry (entries : List (String × Node)) (name : String) (node : Node)
    (next : String) (later : Location) :
    (directory (setEntry entries name node)).kind? (next :: later) =
      if next = name then node.kind? later else (directory entries).kind? (next :: later) := by
  unfold kind?
  rw [get?_cons, get?_cons, child?_directory, child?_directory, lookup_setEntry]
  by_cases hnext : next = name
  · rw [if_pos hnext, if_pos hnext]
    rfl
  · rw [if_neg hnext, if_neg hnext]

/-- A node without entries of its own. -/
def IsLeaf (node : Node) : Prop :=
  ∀ name, node.child? name = none

/-- Below a leaf there is nothing but the leaf. -/
theorem IsLeaf.get?_cons {node : Node} (h : node.IsLeaf) (name : String) (later : Location) :
    node.get? (name :: later) = none := by
  rw [Node.get?_cons, h name]
  rfl

theorem isLeaf_file (content : ByteArray) : (file content).IsLeaf := fun _ => rfl

theorem isLeaf_directory_nil : (directory []).IsLeaf := fun _ => rfl

/-- Putting further down replaces a child by the child with the node in it. -/
theorem put_directory_cons (replacement : Node) {entries : List (String × Node)} {name : String}
    {later : Location} {child : Node} (hlater : later ≠ [])
    (hchild : entries.lookup name = some child) :
    replacement.put (directory entries) (name :: later) =
      directory (setEntry entries name (replacement.put child later)) := by
  rw [put.eq_4 replacement entries name later hlater, hchild]

/-- **Putting a leaf in the place of a leaf changes the kind there and nowhere else**, if the place
is in a directory. -/
theorem kind?_put {replacement tree : Node} {location : Location} {name : String}
    (hdirectory : tree.kind? location = some .directory) (hnew : replacement.IsLeaf)
    (hold : ∀ node, tree.get? (location ++ [name]) = some node → node.IsLeaf) (other : Location) :
    (replacement.put tree (location ++ [name])).kind? other =
      if other = location ++ [name] then some replacement.kind else tree.kind? other := by
  -- along the location, every name but the last is that of a directory
  induction location generalizing tree other with
  | nil =>
      obtain ⟨entries, hentries⟩ := kind?_eq_directory_iff.mp hdirectory
      obtain rfl : tree = directory entries := by simpa using hentries
      rw [List.nil_append, put.eq_3]
      cases other with
      | nil => rfl
      | cons first later =>
          rw [kind?_directory_setEntry]
          by_cases hfirst : first = name
          · subst hfirst
            cases later with
            | nil => simp [kind?]
            | cons next later =>
                -- below the place there was nothing before, and there is nothing now
                have hbelow : (directory entries).get? (first :: next :: later) = none := by
                  rw [← List.singleton_append, get?_append]
                  cases hfound : (directory entries).get? [first] with
                  | none => rfl
                  | some node => exact (hold node hfound).get?_cons next later
                simp [kind?, hnew.get?_cons, hbelow]
          · simp [hfirst]
  | cons first location ih =>
      obtain ⟨entries, hentries⟩ := kind?_eq_directory_iff.mp hdirectory
      cases tree with
      | file content => simp [get?_cons] at hentries
      | directory children =>
          rw [get?_cons, child?_directory] at hentries
          obtain ⟨child, hchild, hget⟩ := Option.bind_eq_some_iff.mp hentries
          have hput : (replacement.put (directory children) (first :: location ++ [name])) =
              directory (setEntry children first (replacement.put child (location ++ [name]))) :=
            put_directory_cons replacement (by simp) hchild
          have hbelow (rest : Location) :
              (directory children).kind? (first :: rest) = child.kind? rest := by
            rw [kind?, get?_cons, child?_directory, hchild]
            rfl
          have hlater := ih (kind?_eq_directory_iff.mpr ⟨entries, hget⟩) fun node hnode =>
            hold node (by rw [List.cons_append, get?_cons, child?_directory, hchild]; exact hnode)
          rw [hput]
          cases other with
          | nil => rfl
          | cons next later =>
              rw [kind?_directory_setEntry]
              by_cases hnext : next = first
              · subst hnext
                rw [if_pos rfl, hlater, hbelow]
                simp
              · simp [hnext]

end Node

/-! ## On a disk -/

namespace Disk

/-- The kind of what the disk holds at a location. -/
def kind? (disk : Disk) (location : Location) : Option Node.Kind :=
  disk.root.kind? location

/-- A file stands at the location or on the way to it. -/
def Obstructed (disk : Disk) (location : Location) : Prop :=
  ∃ above, above <+: location ∧ ∃ content, disk.kind? above = some (.file content)

@[simp] theorem kind?_nil (disk : Disk) : disk.kind? [] = some .directory := rfl

/-- What lies below a location is found below what is found there. -/
theorem kind?_append (disk : Disk) (location later : Location) :
    disk.kind? (location ++ later) =
      (disk.root.get? location).bind fun node => node.kind? later := by
  rw [kind?, Node.kind?, Node.get?_append]
  cases disk.root.get? location <;> rfl

/-- Nothing lies below a file. -/
theorem kind?_append_of_file {disk : Disk} {location later : Location} {content : ByteArray}
    (h : disk.kind? location = some (.file content)) (hlater : later ≠ []) :
    disk.kind? (location ++ later) = none := by
  obtain ⟨name, later, rfl⟩ := List.exists_cons_of_ne_nil hlater
  rw [kind?_append, Node.kind?_eq_file_iff.mp h]
  rfl

/-- Nothing lies below nothing. -/
theorem kind?_append_of_none {disk : Disk} {location : Location}
    (h : disk.kind? location = none) (later : Location) :
    disk.kind? (location ++ later) = none := by
  rw [kind?_append, Node.kind?_eq_none_iff.mp h]
  rfl

/-- Everything on the way to something is a directory. -/
theorem kind?_of_isPrefix {disk : Disk} {above location : Location} (h : above <+: location)
    (hne : above ≠ location) (hkind : disk.kind? location ≠ none) :
    disk.kind? above = some .directory := by
  obtain ⟨later, rfl⟩ := h
  have hlater : later ≠ [] := by
    rintro rfl
    exact hne (List.append_nil above).symm
  cases habove : disk.kind? above with
  | none => exact absurd (kind?_append_of_none habove later) hkind
  | some kind =>
      cases kind with
      | file content => exact absurd (kind?_append_of_file habove hlater) hkind
      | directory => rfl

/-- No location is on the way to a directory above it. -/
theorem not_concat_isPrefix (location : Location) (name : String) :
    ¬ location ++ [name] <+: location := by
  intro hpre
  have hlength := hpre.length_le
  rw [List.length_append, List.length_singleton] at hlength
  omega

/-- What has a name lies in a directory. -/
theorem kind?_of_concat_ne_none {disk : Disk} {location : Location} {name : String}
    (h : disk.kind? (location ++ [name]) ≠ none) : disk.kind? location = some .directory :=
  kind?_of_isPrefix (List.prefix_append location [name]) (by simp) h

/-- Where a directory is, the locations on the way to it are directories already. -/
theorem kind?_ite_isPrefix {disk : Disk} {location : Location}
    (h : disk.kind? location = some .directory) (other : Location) :
    (if other <+: location then some .directory else disk.kind? other) = disk.kind? other := by
  by_cases hpre : other <+: location
  · rw [if_pos hpre]
    by_cases heq : other = location
    · rw [heq, h]
    · rw [kind?_of_isPrefix hpre heq (by rw [h]; simp)]
  · rw [if_neg hpre]

/-- A directory is not obstructed. -/
theorem not_obstructed_of_directory {disk : Disk} {location : Location}
    (h : disk.kind? location = some .directory) : ¬ disk.Obstructed location := by
  rintro ⟨above, hpre, content, hfile⟩
  by_cases heq : above = location
  · rw [heq, h] at hfile
    exact absurd hfile (by simp)
  · have hdirectory := kind?_of_isPrefix hpre heq (by rw [h]; simp)
    rw [hdirectory] at hfile
    exact absurd hfile (by simp)

/-- What obstructs a location also obstructs everything below it. -/
theorem Obstructed.of_isPrefix {disk : Disk} {above location : Location}
    (h : disk.Obstructed above) (hpre : above <+: location) : disk.Obstructed location := by
  obtain ⟨top, htop, hfile⟩ := h
  exact ⟨top, htop.trans hpre, hfile⟩

/-- A name further down is obstructed by what obstructs its directory, or by a file of that name. -/
theorem obstructed_concat_iff {disk : Disk} {location : Location} {name : String} :
    disk.Obstructed (location ++ [name]) ↔ disk.Obstructed location ∨
      ∃ content, disk.kind? (location ++ [name]) = some (.file content) := by
  constructor
  · rintro ⟨above, hpre, hfile⟩
    rcases List.prefix_concat_iff.mp hpre with rfl | hpre
    · exact .inr hfile
    · exact .inl ⟨above, hpre, hfile⟩
  · rintro (hobstructed | hfile)
    · exact hobstructed.of_isPrefix (List.prefix_append _ _)
    · exact ⟨_, List.prefix_rfl, hfile⟩

/-- **A location that is not obstructed is a directory, or free.** -/
theorem kind?_eq_directory_or_none {disk : Disk} {location : Location}
    (h : ¬ disk.Obstructed location) :
    disk.kind? location = some .directory ∨ disk.kind? location = none := by
  cases hkind : disk.kind? location with
  | none => exact .inr rfl
  | some kind =>
      cases kind with
      | file content => exact absurd ⟨location, List.prefix_rfl, content, hkind⟩ h
      | directory => exact .inl rfl

/-- **Putting a leaf into a directory changes the kind there and nowhere else**, unless the place
holds a directory. -/
theorem kind?_put {disk : Disk} {location : Location} {name : String} {node : Node}
    (hdirectory : disk.kind? location = some .directory) (hnode : node.IsLeaf)
    (hplace : disk.kind? (location ++ [name]) ≠ some .directory) (other : Location) :
    (disk.put (location ++ [name]) node).kind? other =
      if other = location ++ [name] then some node.kind else disk.kind? other := by
  have hold : ∀ found, disk.root.get? (location ++ [name]) = some found → found.IsLeaf := by
    intro found hfound
    cases found with
    | file content => exact Node.isLeaf_file content
    | directory entries => exact absurd (Node.kind?_eq_directory_iff.mpr ⟨entries, hfound⟩) hplace
  have hput := Node.kind?_put hdirectory hnode hold
  -- a disk keeps the entries of its root, which stays a directory
  have hroot : (disk.put (location ++ [name]) node).root =
      node.put disk.root (location ++ [name]) := by
    have hkind := hput []
    rw [if_neg (by simp)] at hkind
    obtain ⟨entries, hentries⟩ := Node.kind?_eq_directory_iff.mp hkind
    rw [Node.get?_nil, Option.some.injEq] at hentries
    rw [root, put, hentries]
    rfl
  rw [kind?, hroot, hput other]
  rfl

end Disk

end SpanReport
