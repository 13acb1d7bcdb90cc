import SpanReport.Proofs.Detect.Sample

/-! # Draws in turn

Draws may be taken in parts (`draws_add`, `values_draws_add`), so that items which draw one after
another go on with the draws that those before them leave (`inTurn`, `getElem?_inTurn`). A script
yields its values in turn (`draws_script`): the token at an index is flagged by the value whose turn
it is after the draws before (`flaggedSpans_script`). -/

namespace SpanReport

/-- **Draws may be taken in two parts**: the later part goes on where the first one ends. -/
theorem draws_add {σ : Type} [DrawSource σ] (first later : Nat) (source : σ) :
    (draws (first + later) source).2 = (draws later (draws first source).2).2 := by
  induction first generalizing source with
  | zero =>
      rw [Nat.zero_add]
      rfl
  | succ first ih =>
      rw [Nat.add_right_comm]
      exact ih (DrawSource.draw source).2

/-- The numbers that are drawn in two parts are those of the first part, and then those that the
later part draws from what is left. -/
theorem values_draws_add {σ : Type} [DrawSource σ] (first later : Nat) (source : σ) :
    (draws (first + later) source).1 =
      (draws first source).1 ++ (draws later (draws first source).2).1 := by
  induction first generalizing source with
  | zero =>
      rw [Nat.zero_add]
      rfl
  | succ first ih =>
      rw [Nat.add_right_comm]
      show (DrawSource.draw source).1 :: _ = (DrawSource.draw source).1 :: _
      rw [ih]
      rfl

/-- As many numbers are drawn as told. -/
theorem length_draws {σ : Type} [DrawSource σ] (count : Nat) (source : σ) :
    (draws count source).1.length = count := by
  induction count generalizing source with
  | zero => rfl
  | succ count ih => exact congrArg (· + 1) (ih (DrawSource.draw source).2)

/-! ## Items that draw in turn -/

section InTurn

variable {σ α β γ : Type} [DrawSource σ] {count : α → Nat}

/-- The draws that items take together. -/
def drawTotal (count : α → Nat) : List α → Nat
  | [] => 0
  | item :: later => count item + drawTotal count later

/-- What every item makes of the draws that the items before it leave. -/
def inTurn (count : α → Nat) (make : σ → α → β) : σ → List α → List β
  | _, [] => []
  | source, item :: later =>
    make source item :: inTurn count make (draws (count item) source).2 later

/-- Items that stand for others take as many draws as these. -/
theorem drawTotal_map (count : α → Nat) (f : β → α) (items : List β) :
    drawTotal count (items.map f) = drawTotal (fun item => count (f item)) items := by
  induction items with
  | nil => rfl
  | cons item later ih => rw [List.map_cons, drawTotal, drawTotal, ih]

/-- Every item makes one thing. -/
theorem length_inTurn (make : σ → α → β) (source : σ) (items : List α) :
    (inTurn count make source items).length = items.length := by
  induction items generalizing source with
  | nil => rfl
  | cons item later ih => rw [inTurn, List.length_cons, List.length_cons, ih]

/-- **An item draws after the items before it**, whatever they made of their draws. -/
theorem getElem?_inTurn (make : σ → α → β) (source : σ) (items : List α) (index : Nat) :
    (inTurn count make source items)[index]? =
      items[index]?.map (make (draws (drawTotal count (items.take index)) source).2) := by
  induction items generalizing source index with
  | nil => rfl
  | cons item later ih =>
      cases index with
      | zero => rfl
      | succ index =>
          rw [inTurn, List.getElem?_cons_succ, List.getElem?_cons_succ, ih, List.take_succ_cons,
            drawTotal, draws_add]

/-- Changing what every item makes changes the whole list. -/
theorem map_inTurn {make : σ → α → β} {made : σ → α → γ} {f : β → γ} {items : List α}
    (h : ∀ item ∈ items, ∀ source, f (make source item) = made source item) (source : σ) :
    (inTurn count make source items).map f = inTurn count made source items := by
  induction items generalizing source with
  | nil => rfl
  | cons item later ih =>
      rw [inTurn, inTurn, List.map_cons, h item List.mem_cons_self,
        ih fun other hmem => h other (List.mem_cons_of_mem item hmem)]

/-- Something that the items make has a property exactly if some item gives it this property with
any draws. -/
theorem exists_mem_inTurn_iff {make : σ → α → β} {p : β → Prop} {q : α → Prop} {items : List α}
    (h : ∀ item ∈ items, ∀ source, p (make source item) ↔ q item) (source : σ) :
    (∃ made ∈ inTurn count make source items, p made) ↔ ∃ item ∈ items, q item := by
  induction items generalizing source with
  | nil => exact ⟨nofun, nofun⟩
  | cons item later ih =>
      rw [inTurn, List.exists_mem_cons_iff, List.exists_mem_cons_iff, h item List.mem_cons_self,
        ih fun other hmem => h other (List.mem_cons_of_mem item hmem)]

end InTurn

/-! ## The draws of a script -/

/-- The draws of a script of values are these values, round and round; an empty script always draws
the least number. -/
theorem Script.value_ofList (values : List Nat) (taken index : Nat) :
    Script.value ⟨values.toArray, taken⟩ index =
      values[index % values.length]?.getD leastDraw := by
  rw [Script.value, List.getElem?_toArray, List.size_toArray]

/-- **A script yields its values in turn**, from the one whose turn it is. -/
theorem draws_script (script : Script) (count : Nat) :
    draws count script =
      ((List.range count).map fun index => script.value (script.taken + index),
        { script with taken := script.taken + count }) := by
  induction count generalizing script with
  | zero => rfl
  | succ count ih =>
      -- the later draws are those of the script that has taken one more
      have hlater := ih { script with taken := script.taken + 1 }
      have hvalue (index : Nat) :
          Script.value { script with taken := script.taken + 1 } index = script.value index := rfl
      have hdraw : DrawSource.draw script =
        (script.value script.taken, { script with taken := script.taken + 1 }) := rfl
      rw [draws, hdraw]
      simp only [hlater, hvalue, List.range_succ_eq_map, List.map_cons, List.map_map, Nat.add_zero]
      congr 1
      · congr 1
        refine List.map_congr_left fun index _ => ?_
        rw [Function.comp_apply, Nat.succ_eq_add_one]
        congr 1
        omega
      · congr 1
        omega

/-- What is flagged if the value at an index is given by the index. -/
theorem flagged_map_range {α : Type} (threshold : Nat) (items : List α) (value : Nat → Nat) :
    flagged threshold items ((List.range items.length).map value) =
      (items.zipIdx.filter fun (_, index) => threshold < value index).map Prod.fst := by
  rw [flagged, List.range_eq_range', List.zip_map_right, ← List.zipIdx_eq_zip_range',
    List.filter_map, List.map_map]
  rfl

/-- Joining tokens keeps their number. -/
theorem length_joinTokens (start : Nat) (found : List Token) :
    (joinTokens start found).length = found.length := by
  induction found generalizing start with
  | nil => rfl
  | cons token later ih => rw [joinTokens, List.length_cons, List.length_cons, ih]

/-- In either coordinates, every token has one span. -/
theorem length_tokenSpans (mode : OffsetMode) (found : List Token) :
    (tokenSpans mode found).length = found.length := by
  cases mode with
  | concatenated => exact length_joinTokens 0 found
  | textAware => exact List.length_map _

/-- **The tokens that a script flags**: those at whose index the value is above the threshold, as
counted on from the draws taken before. -/
theorem flaggedSpans_script (config : Config) (text : Text) (script : Script) :
    flaggedSpans config text script =
      ((tokenSpans config.offsets (tokens text)).zipIdx.filter fun (_, index) =>
        config.threshold < script.value (script.taken + index)).map Prod.fst := by
  rw [flaggedSpans, draws_script, ← length_tokenSpans config.offsets]
  exact flagged_map_range _ _ _

end SpanReport
