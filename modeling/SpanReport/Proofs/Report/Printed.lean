import SpanReport.Report.Json

/-! # What is printed of a report

`Report.printed` tells what is printed of a report line by line: a line for every bound and every
message, two spaces for every level, and a comma behind all but the last of several. Written as
JSON with line breaks, a report is just that (`Report.render_json`), as long as its messages need no
escape. -/

namespace SpanReport

/-- A text of lines, each ended by a line feed. -/
def unlines (lines : List String) : String :=
  String.join (lines.map (· ++ "\n"))

@[simp] theorem unlines_nil : unlines [] = "" := rfl

@[simp] theorem unlines_cons (line : String) (later : List String) :
    unlines (line :: later) = line ++ "\n" ++ unlines later :=
  String.join_cons

@[simp] theorem unlines_append (earlier later : List String) :
    unlines (earlier ++ later) = unlines earlier ++ unlines later := by
  induction earlier with
  | nil => simp
  | cons line earlier ih => simp [ih, String.append_assoc]

/-! ## Lines -/

/-- The lines of an editor record in front of its closing brace. -/
def EditorRecord.printedLines (record : EditorRecord String) : List String :=
  ["    \x7b",
    "      \"line\": " ++ toString record.line ++ ",",
    "      \"start\": " ++ toString record.startColumn ++ ",",
    "      \"end\": " ++ toString record.endColumn ++ ",",
    "      \"message\": \"" ++ record.message ++ "\""]

/-- The lines of a flat record in front of its closing brace. -/
def FlatRecord.printedLines (record : FlatRecord String) : List String :=
  ["    \x7b",
    "      \"start\": " ++ toString record.startOffset ++ ",",
    "      \"end\": " ++ toString record.endOffset ++ ",",
    "      \"message\": \"" ++ record.message ++ "\""]

/-- The lines of records, with a comma behind every closing brace but the last. -/
def recordLines {α : Type} (lines : α → List String) : List α → List String
  | [] => []
  | [record] => lines record ++ ["    \x7d"]
  | record :: later => lines record ++ ["    \x7d,"] ++ recordLines lines later

/-- The lines of a key and its records, with something behind the closing bracket. -/
def sectionLines {α : Type} (key ending : String) (lines : α → List String) :
    List α → List String
  | [] => ["  \"" ++ key ++ "\": []" ++ ending]
  | records => ["  \"" ++ key ++ "\": ["] ++ recordLines lines records ++ ["  ]" ++ ending]

/-- What is printed of a report. -/
def Report.printed (report : Report String) : String :=
  unlines (["\x7b"] ++ sectionLines "pretty" "," EditorRecord.printedLines report.editor ++
    sectionLines "raw" "" FlatRecord.printedLines report.flat ++ ["\x7d"])

/-! ## Strings without escapes -/

/-- A string that needs no escape. -/
def IsUnescaped (value : String) : Prop :=
  ∀ c ∈ value.toList, c ≠ '"' ∧ c ≠ '\\' ∧ 0x20 ≤ c.toNat

instance : DecidablePred IsUnescaped :=
  fun value => List.decidableBAll _ value.toList

namespace JsonValue

/-- A character that needs no escape stands as it is. -/
theorem escape_eq_self {c : Char} (h : c ≠ '"' ∧ c ≠ '\\' ∧ 0x20 ≤ c.toNat) :
    escape c = [c] := by
  obtain ⟨hquote, hbackslash, hspace⟩ := h
  unfold escape
  split
  case h_8 => rw [if_neg (Nat.not_lt.mpr hspace)]
  all_goals contradiction

/-- A string that needs no escape stands between quotation marks as it is. -/
theorem quote_eq {value : String} (h : IsUnescaped value) :
    quote value = "\"" ++ value ++ "\"" := by
  have hself : value.toList.flatMap escape = value.toList := by
    have hall : ∀ c ∈ value.toList, escape c = [c] := fun c hc => escape_eq_self (h c hc)
    generalize value.toList = chars at hall
    induction chars with
    | nil => rfl
    | cons c later ih =>
        obtain ⟨hc, hlater⟩ := List.forall_mem_cons.mp hall
        rw [List.flatMap_cons, hc, ih hlater, List.singleton_append]
  apply String.toList_inj.mp
  simp [quote, hself]

/-! ## Layout -/

/-- The line breaks of the levels of a report. -/
theorem lineBreak_pretty :
    JsonLayout.pretty.lineBreak 0 = "\n" ∧ JsonLayout.pretty.lineBreak 1 = "\n  " ∧
      JsonLayout.pretty.lineBreak 2 = "\n    " ∧ JsonLayout.pretty.lineBreak 3 = "\n      " :=
  ⟨rfl, rfl, rfl, rfl⟩

/-- The keys of a report need no escape. -/
theorem quote_keys :
    quote "pretty" = "\"pretty\"" ∧ quote "raw" = "\"raw\"" ∧ quote "line" = "\"line\"" ∧
      quote "start" = "\"start\"" ∧ quote "end" = "\"end\"" ∧ quote "message" = "\"message\"" :=
  ⟨rfl, rfl, rfl, rfl, rfl, rfl⟩

/-- The items of an array are written one by one. -/
theorem renderItems_map {α : Type} (layout : JsonLayout) (depth : Nat) (json : α → JsonValue)
    (items : List α) :
    renderItems layout depth (items.map json) =
      items.map fun item => renderAt layout depth (json item) := by
  induction items with
  | nil => rfl
  | cons item later ih => rw [List.map_cons, renderItems, ih, List.map_cons]

end JsonValue

open JsonValue

/-! ## Records -/

/-- An editor record as it is written at its place. -/
theorem EditorRecord.renderAt_json {record : EditorRecord String}
    (h : IsUnescaped record.message) :
    "    " ++ (record.json .text).renderAt .pretty 2 =
      unlines record.printedLines ++ "    \x7d" := by
  apply String.toList_inj.mp
  simp [json, renderAt, renderMembers, JsonLayout.enclose, lineBreak_pretty,
    String.intercalate_cons_cons, printedLines, quote_keys, quote_eq h, JsonLayout.colon]

/-- A flat record as it is written at its place. -/
theorem FlatRecord.renderAt_json {record : FlatRecord String} (h : IsUnescaped record.message) :
    "    " ++ (record.json .text).renderAt .pretty 2 =
      unlines record.printedLines ++ "    \x7d" := by
  apply String.toList_inj.mp
  simp [json, renderAt, renderMembers, JsonLayout.enclose, lineBreak_pretty,
    String.intercalate_cons_cons, printedLines, quote_keys, quote_eq h, JsonLayout.colon]

section Records

variable {α : Type} {lines : α → List String} {json : α → JsonValue} {records : List α}

/-- Records are written one behind the other, with commas in between. -/
theorem unlines_recordLines (first : α) (later : List α)
    (h : ∀ record ∈ first :: later,
      "    " ++ (json record).renderAt .pretty 2 = unlines (lines record) ++ "    \x7d") :
    unlines (recordLines lines (first :: later)) =
      "    " ++ ",\n    ".intercalate ((first :: later).map fun record =>
        (json record).renderAt .pretty 2) ++ "\n" := by
  induction later generalizing first with
  | nil =>
      have hfirst := h first List.mem_cons_self
      simp only [recordLines, unlines_append, unlines_cons, unlines_nil, List.map_cons,
        List.map_nil, String.intercalate_singleton, hfirst]
      simp only [String.append_assoc, String.append_empty]
  | cons second later ih =>
      obtain ⟨hfirst, hlater⟩ := List.forall_mem_cons.mp h
      have hsplit : recordLines lines (first :: second :: later) =
          lines first ++ ["    \x7d,"] ++ recordLines lines (second :: later) := rfl
      have hclose : unlines ["    \x7d,"] = "    \x7d" ++ ",\n" := rfl
      rw [hsplit, unlines_append, unlines_append, hclose, ← String.append_assoc, ← hfirst,
        ih second hlater]
      apply String.toList_inj.mp
      simp [String.intercalate_cons_cons]

/-- **A section is written with one line for every bound and message.** -/
theorem unlines_sectionLines (key : String) (hkey : IsUnescaped key) (ending : String)
    (h : ∀ record ∈ records,
      "    " ++ (json record).renderAt .pretty 2 = unlines (lines record) ++ "    \x7d") :
    unlines (sectionLines key ending lines records) =
      "  " ++ quote key ++ ": " ++ (JsonValue.array (records.map json)).renderAt .pretty 1 ++
        ending ++ "\n" := by
  rw [quote_eq hkey, renderAt, renderItems_map]
  cases records with
  | nil =>
      apply String.toList_inj.mp
      simp [sectionLines, JsonLayout.enclose]
  | cons first later =>
      have hrecords := unlines_recordLines first later h
      have hsection : sectionLines key ending lines (first :: later) =
        ["  \"" ++ key ++ "\": ["] ++ recordLines lines (first :: later) ++ ["  ]" ++ ending] := rfl
      rw [hsection, unlines_append, unlines_append, hrecords]
      apply String.toList_inj.mp
      simp [JsonLayout.enclose, lineBreak_pretty]

end Records

/-- **A report is written line by line**, if its messages need no escape. -/
theorem Report.render_json {report : Report String}
    (h : ∀ entry ∈ report.entries, IsUnescaped entry.message) :
    (report.json .text).render .pretty ++ "\n" = report.printed := by
  have heditor : ∀ record ∈ report.editor, IsUnescaped record.message :=
    List.forall_mem_map.mpr h
  have hflat : ∀ record ∈ report.flat, IsUnescaped record.message := List.forall_mem_map.mpr h
  have hpretty := unlines_sectionLines "pretty" (by decide) ","
    fun record hrecord => EditorRecord.renderAt_json (heditor record hrecord)
  have hraw := unlines_sectionLines "raw" (by decide) ""
    fun record hrecord => FlatRecord.renderAt_json (hflat record hrecord)
  rw [Report.printed, unlines_append, unlines_append, unlines_append, hpretty, hraw]
  apply String.toList_inj.mp
  simp [json, render, renderAt, renderMembers, JsonLayout.enclose, lineBreak_pretty,
    String.intercalate_cons_cons, JsonLayout.colon]

example : (Report.json .text ⟨[⟨⟨2, 1⟩, 7, 3, "error"⟩]⟩).render .pretty =
    "\x7b
  \"pretty\": [
    \x7b
      \"line\": 2,
      \"start\": 1,
      \"end\": 4,
      \"message\": \"error\"
    \x7d
  ],
  \"raw\": [
    \x7b
      \"start\": 7,
      \"end\": 10,
      \"message\": \"error\"
    \x7d
  ]
\x7d" := by decide +kernel

end SpanReport
