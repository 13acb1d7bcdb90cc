import Mathlib.Data.List.Basic
import SpanReport.File.Component
import SpanReport.Proofs.Text.Split

/-! # The text of a path

Cutting a text at its slashes loses nothing, and pieces without slashes are had back from their text
(`Path.toString_ofString`, `Path.ofString_toString`). Joining a name to the text of a path therefore
adds one piece at its end (`Path.ofString_joinText`), in the place of an empty last piece if there
is one, and one component behind those that the path has (`Path.components_child`). The paths of
`Path.lineage` begin as the path does (`Path.prefix_of_mem_lineageOf`). -/

namespace SpanReport

namespace Path

/-! ## Cutting and joining -/

/-- **The text of a path is had back as it was.** -/
theorem toString_ofString (text : String) : (ofString text).toString = text := by
  have hpieces : (ofString text).pieces.map String.toList = split ['/'] text.toList := by
    simp [ofString, Function.comp_def]
  apply String.toList_inj.mp
  rw [toString, String.toList_intercalate, hpieces]
  exact intercalate_split (List.cons_ne_nil _ _) text.toList

/-- The pieces of a path hold no slash. -/
theorem slash_not_mem_of_mem_pieces {text piece : String} (h : piece ∈ (ofString text).pieces) :
    '/' ∉ piece.toList := by
  obtain ⟨chars, hchars, rfl⟩ := List.mem_map.mp h
  rw [String.toList_ofList]
  intro hslash
  exact (mem_of_mem_split_singleton hchars hslash).2 rfl

/-- A text has pieces. -/
theorem pieces_ofString_ne_nil (text : String) : (ofString text).pieces ≠ [] := by
  simpa [ofString] using split_ne_nil ['/'] text.toList

/-- **Pieces without slashes are had back from their text.** -/
theorem ofString_toString {path : Path} (hne : path.pieces ≠ [])
    (h : ∀ piece ∈ path.pieces, '/' ∉ piece.toList) : ofString path.toString = path := by
  have hsplit : split ['/'] ("/".intercalate path.pieces).toList =
      path.pieces.map String.toList := by
    rw [split_singleton_eq_splitOn, String.toList_intercalate]
    refine List.splitOn_intercalate '/' ?_ (by simpa using hne)
    intro chars hchars
    obtain ⟨piece, hpiece, rfl⟩ := List.mem_map.mp hchars
    exact h piece hpiece
  rw [ofString, toString, hsplit]
  simp [Function.comp_def]

/-- A character of the text of a path is a slash or stands in a piece. -/
theorem eq_slash_or_exists_of_mem_toString {path : Path} {c : Char} (h : c ∈ path.toString.toList) :
    c = '/' ∨ ∃ piece ∈ path.pieces, c ∈ piece.toList := by
  rw [toString, String.toList_intercalate] at h
  rcases mem_intercalate h with hslash | ⟨chars, hchars, hc⟩
  · exact .inl (List.mem_singleton.mp hslash)
  · obtain ⟨piece, hpiece, rfl⟩ := List.mem_map.mp hchars
    exact .inr ⟨piece, hpiece, hc⟩

/-- A path with a name has a text. -/
theorem toString_ne_empty {path : Path} {front : List String} {name : String}
    (hpieces : path.pieces = front ++ [name]) (hname : name ≠ "") : path.toString ≠ "" := by
  rw [toString, hpieces]
  by_cases hfront : front = []
  · simpa [hfront] using hname
  · rw [String.intercalate_append_of_ne_nil hfront (List.cons_ne_nil _ _)]
    simp [hname]

/-! ## Joining a name -/

/-- The path of a name in a directory. A slash at the end of the path of the directory is not
repeated. -/
def child (path : Path) (name : String) : Path :=
  ⟨(if path.pieces.getLast? = some "" then path.pieces.dropLast else path.pieces) ++ [name]⟩

/-- A path that ends at a name gets one more piece. -/
theorem pieces_child {path : Path} (h : path.pieces.getLast? ≠ some "") (name : String) :
    (path.child name).pieces = path.pieces ++ [name] := by
  rw [child, if_neg h]

/-- A piece of a child is one of the path, or the name of the child. -/
theorem mem_pieces_child {path : Path} {name piece : String}
    (h : piece ∈ (path.child name).pieces) : piece ∈ path.pieces ∨ piece = name := by
  rcases List.mem_append.mp h with hpiece | hpiece
  · split at hpiece
    · exact .inl (List.dropLast_subset _ hpiece)
    · exact .inl hpiece
  · exact .inr (List.mem_singleton.mp hpiece)

/-- A slash stands between a name and a text that does not end with one. -/
theorem joinText_of_getLast? {base : String} {c : Char} (hend : base.toList.getLast? = some c)
    (hc : c ≠ '/') (name : String) : joinText base name = base ++ "/" ++ name := by
  unfold joinText
  rw [hend]
  split
  · contradiction
  · rename_i heq
    exact absurd (Option.some.inj heq) hc
  · rfl

/-- What stands between the text of a directory and that of a name in it: a slash, unless the
directory is empty or has one at its end. -/
def seam (base : String) : String :=
  if base = "" ∨ base.toList.getLast? = some '/' then "" else "/"

/-- Joining a name to a text puts it behind the text and the seam. -/
theorem joinText_eq (base name : String) : joinText base name = base ++ seam base ++ name := by
  cases hend : base.toList.getLast? with
  | none =>
      have hempty : base = "" := by simpa using hend
      simp [hempty, joinText, seam]
  | some c =>
      by_cases hc : c = '/'
      · rw [hc] at hend
        rw [seam, if_pos (.inr hend), String.append_empty, joinText, hend]
        rfl
      · have hempty : base ≠ "" := by
          rintro rfl
          cases hend
        have hseam : ¬ (base = "" ∨ base.toList.getLast? = some '/') := by simp [hempty, hend, hc]
        rw [joinText_of_getLast? hend hc, seam, if_neg hseam]

/-- Behind a name stands a slash. -/
theorem seam_append {name : String} (hne : name ≠ "") (hslash : '/' ∉ name.toList) (base : String) :
    seam (base ++ name) = "/" := by
  have hchars : name.toList ≠ [] := mt String.toList_eq_nil_iff.mp hne
  have hend : (base ++ name).toList.getLast? = some (name.toList.getLast hchars) := by
    rw [String.toList_append, List.getLast?_append_of_ne_nil _ hchars,
      List.getLast?_eq_some_getLast hchars]
  have hlast : name.toList.getLast hchars ≠ '/' := fun heq =>
    hslash (heq ▸ List.getLast_mem hchars)
  refine if_neg (not_or.mpr ⟨?_, ?_⟩)
  · simp [hne]
  · rw [hend, Option.some.injEq]
    exact hlast

/-- Joining a name to the text of a path gives the text of the child. -/
theorem joinText_toString {path : Path} (hne : path.pieces ≠ [])
    (h : ∀ piece ∈ path.pieces, '/' ∉ piece.toList) (name : String) :
    joinText path.toString name = (path.child name).toString := by
  obtain ⟨front, last, hpieces⟩ : ∃ front last, path.pieces = front ++ [last] :=
    ⟨_, _, (List.dropLast_concat_getLast hne).symm⟩
  have hslash : '/' ∉ last.toList := h last (by rw [hpieces]; simp)
  rw [child, toString, toString, hpieces, List.getLast?_concat, List.dropLast_concat]
  by_cases hlast : last = ""
  · -- the text is empty or ends with the slash before the empty piece
    rw [if_pos (by rw [hlast])]
    by_cases hfront : front = []
    · simp [hlast, hfront, joinText]
    · rw [String.intercalate_append_of_ne_nil hfront (by simp),
        String.intercalate_append_of_ne_nil hfront (by simp)]
      simp [hlast, joinText]
  · -- the text ends with the last piece
    obtain ⟨base, hbase⟩ : ∃ base, "/".intercalate (front ++ [last]) = base ++ last := by
      by_cases hfront : front = []
      · exact ⟨"", by simp [hfront]⟩
      · exact ⟨_, by rw [String.intercalate_append_of_ne_nil hfront (List.cons_ne_nil _ _),
          String.intercalate_singleton]⟩
    have hfull : front ++ [last] ≠ [] := by simp
    rw [if_neg (by simpa using hlast),
      String.intercalate_append_of_ne_nil hfull (List.cons_ne_nil _ _),
      String.intercalate_singleton, joinText_eq, hbase, seam_append hlast hslash]

/-- **Joining a name to a text adds a piece to its path.** -/
theorem ofString_joinText {name : String} (h : '/' ∉ name.toList) (root : String) :
    ofString (joinText root name) = (ofString root).child name := by
  have hroot : ∀ piece ∈ (ofString root).pieces, '/' ∉ piece.toList := fun piece =>
    slash_not_mem_of_mem_pieces
  have hchild : ∀ piece ∈ ((ofString root).child name).pieces, '/' ∉ piece.toList := by
    intro piece hpiece
    rcases mem_pieces_child hpiece with hpiece | rfl
    · exact hroot piece hpiece
    · exact h
  have hjoin := joinText_toString (pieces_ofString_ne_nil root) hroot name
  rw [toString_ofString] at hjoin
  rw [hjoin]
  -- the pieces of the child hold no slash, so they are those of its text
  exact ofString_toString (by simp [child]) hchild

/-! ## Names -/

/-- The names of a path that ends with a name are its pieces that are not empty. -/
theorem names_of_getLast?_ne {path : Path} (h : path.pieces.getLast? ≠ some "") :
    path.names = path.pieces.filter (· ≠ "") :=
  if_neg fun hcondition => h hcondition.2

/-- An absolute path has a slash in front, and so an empty piece in front of another one. -/
theorem isAbsolute_iff {path : Path} :
    path.isAbsolute = true ↔ path.pieces.head? = some "" ∧ 2 ≤ path.pieces.length := by
  obtain ⟨pieces⟩ := path
  match pieces with
  | [] => simp [isAbsolute]
  | [only] => simp [isAbsolute]
  | first :: second :: later =>
      by_cases hfirst : first = ""
      · simp [isAbsolute, hfirst]
      · simp [isAbsolute, hfirst]

/-- The names of a child are followed from where those of the directory are. -/
theorem isAbsolute_child (path : Path) (name : String) :
    (path.child name).isAbsolute = path.isAbsolute := by
  rw [Bool.eq_iff_iff, isAbsolute_iff, isAbsolute_iff, child]
  obtain ⟨pieces⟩ := path
  match pieces with
  | [] => simp
  | [only] => by_cases honly : only = "" <;> simp [honly]
  | [first, second] => by_cases hsecond : second = "" <;> simp [hsecond]
  | first :: second :: third :: later => split <;> simp

/-- The names of a path that goes on from a name are followed from where those up to the name
are. -/
theorem isAbsolute_of_isPrefix {path longer : Path} {front : List String} {name : String}
    (hpieces : path.pieces = front ++ [name]) (hname : name ≠ "")
    (hpre : path.pieces <+: longer.pieces) : path.isAbsolute = longer.isAbsolute := by
  obtain ⟨later, hlonger⟩ := hpre
  rw [Bool.eq_iff_iff, isAbsolute_iff, isAbsolute_iff, ← hlonger, hpieces]
  cases front with
  | nil => simp [hname]
  | cons first rest =>
      have hlength : 2 ≤ (first :: rest ++ [name]).length := by simp
      have hlonger : 2 ≤ (first :: rest ++ [name] ++ later).length := by
        rw [List.length_append]
        exact Nat.le_add_right_of_le hlength
      simp only [hlength, hlonger, and_true]
      rfl

/-! ## Components -/

/-- A child of a path starts as the path does. -/
theorem start_child {path : Path} (hne : path.pieces ≠ []) {name : String} (hname : name ≠ ".") :
    (path.child name).start = path.start := by
  have hhead : (path.child name).pieces.head? = some "." ↔ path.pieces.head? = some "." := by
    obtain ⟨pieces⟩ := path
    match pieces with
    | [] => exact absurd rfl hne
    | [only] => by_cases honly : only = "" <;> simp [child, honly, hname]
    | first :: second :: later => rw [child]; split <;> simp
  rw [start, start, isAbsolute_child]
  simp only [hhead]

/-- **A child of a path makes one more step.** -/
theorem components_child {path : Path} (hne : path.pieces ≠ []) {name : String}
    (hempty : name ≠ "") (hcurrent : name ≠ ".") (hparent : name ≠ "..") :
    (path.child name).components = path.components ++ [.normal name] := by
  have hstep := step?_of_ne hempty hcurrent hparent
  have hsteps : (path.child name).pieces.filterMap step? =
      path.pieces.filterMap step? ++ [.normal name] := by
    by_cases hlast : path.pieces.getLast? = some ""
    · -- the name stands in the place of an empty piece, which makes no step
      obtain ⟨front, hpieces⟩ := List.getLast?_eq_some_iff.mp hlast
      rw [child, if_pos hlast, hpieces, List.dropLast_concat]
      simp [hstep]
    · rw [pieces_child hlast]
      simp [hstep]
  rw [components, components, start_child hne hcurrent, hsteps, List.append_assoc]

/-! ## Lineage -/

/-- A path of a lineage begins as the whole path does. -/
theorem prefix_of_mem_lineageOf {reversed : List String} {path : Path}
    (h : path ∈ lineageOf reversed) : path.pieces <+: reversed.reverse := by
  induction reversed with
  | nil => exact absurd h List.not_mem_nil
  | cons piece above ih =>
      have hlonger : above.reverse <+: (piece :: above).reverse := by simp
      by_cases hpiece : piece = "" ∨ piece = "."
      · rw [lineageOf, if_pos hpiece] at h
        exact (ih h).trans hlonger
      · rw [lineageOf, if_neg hpiece] at h
        rcases List.mem_cons.mp h with rfl | hmem
        · exact List.prefix_rfl
        · exact (ih hmem).trans hlonger

end Path

end SpanReport
