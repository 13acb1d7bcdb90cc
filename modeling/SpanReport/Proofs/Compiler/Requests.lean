import SpanReport.Proofs.Compiler.Store
import SpanReport.Proofs.Draw.Script

/-! # Requests one after another

Answering a list of requests asks the sink for one artifact after another, and the answers depend on
nothing else that it does (`Compiler.answerAll_eq_map`). With the draws of a script, every answer is
therefore settled by what the sink says and by the number of tokens of the texts that were compiled
before (`Compiler.answerAll_script`). -/

namespace SpanReport

namespace Compiler

variable {m : Type → Type} {σ : Type} [DrawSource σ]

/-! ## A single request -/

/-- The draws that a request takes: one for each token of a text to compile. -/
def Request.drawCount : Request → Nat
  | .compile _ _ text => (tokens text).length
  | .lines _ => 0

/-- What a request asks of the sink. A line check asks for nothing, and nothing fails. -/
def Request.store [Monad m] (sink : Sink m) : Request → m (Except StoreError (Option String))
  | .compile identity file text => sink identity file text
  | .lines _ => return .ok none

/-- The answer to a request by what the sink says. -/
def Request.answerBy (config : Config) (source : σ) (stored : Except StoreError (Option String)) :
    Request → Answer
  | .compile _ _ text => .compiled (outcome (reportSample config text source).1 stored)
  | .lines text => .checked ((detectCapitals config text).filterMap EditorRecord.ofMark?)

/-- Answering a request is asking the sink; the draws taken do not depend on what it says. -/
theorem answer_eq_map [Monad m] [LawfulMonad m] (compiler : Compiler m σ) (request : Request) :
    compiler.answer request =
      (fun stored => (request.answerBy compiler.config compiler.source stored,
        compiler.skip request.drawCount)) <$> request.store compiler.sink := by
  cases request with
  | compile identity file text =>
      rw [answer, compile_eq_map, bind_map_left, Request.store, map_eq_pure_bind]
      rfl
  | lines text =>
      rw [answer, Request.store, map_pure]
      rfl

/-! ## All requests -/

/-- The answers to requests by what the sink says to each of them. -/
def answersBy (config : Config) (source : σ) (requests : List Request)
    (stored : List (Except StoreError (Option String))) : List Answer :=
  inTurn (fun asked => asked.1.drawCount)
    (fun source asked => asked.1.answerBy config source asked.2) source (requests.zip stored)

/-- **Answering requests is asking the sink for one artifact after another.** Neither the answers
nor the draws depend on anything else that the sink does. -/
theorem answerAll_eq_map [Monad m] [LawfulMonad m] (compiler : Compiler m σ)
    (requests : List Request) :
    compiler.answerAll requests =
      (fun stored => (answersBy compiler.config compiler.source requests stored,
        compiler.skip (drawTotal Request.drawCount requests))) <$>
          requests.mapM (Request.store compiler.sink) := by
  induction requests generalizing compiler with
  | nil =>
      rw [answerAll, List.mapM_nil, map_pure]
      rfl
  | cons request later ih =>
      have hskip : (compiler.skip request.drawCount).skip (drawTotal Request.drawCount later) =
          compiler.skip (drawTotal Request.drawCount (request :: later)) := by
        rw [skip, skip, skip, drawTotal, draws_add]
      have hsink : (compiler.skip request.drawCount).sink = compiler.sink := rfl
      rw [answerAll, answer_eq_map, List.mapM_cons]
      simp only [ih, bind_map_left, map_bind, map_pure, hskip, hsink]
      rfl

/-! ## With the draws of a script -/

/-- The flat records of the tokens of a text that a script flags, if so many draws were taken before
the first of them. -/
def scriptedRecords (config : Config) (values : List Nat) (taken : Nat) (text : Text) :
    List (FlatRecord String) :=
  ((tokenSpans config.offsets (tokens text)).zipIdx.filter fun (_, index) =>
    config.threshold < values[(taken + index) % values.length]?.getD leastDraw).map fun (span, _) =>
      ⟨span.base, span.base + span.length, config.sampleMessage⟩

/-- The answer to a request is settled by what the sink says to it, if so many draws were taken
before. -/
inductive Answer.Settled (config : Config) (values : List Nat) (taken : Nat)
    (stored : Except StoreError (Option String)) : Request → Answer → Prop
  /-- A compilation has the error of the sink, or else a report of the tokens that the script flags;
  there is a report in every text that offsets can reach. -/
  | compiled {identity : Identity} {file : String} {text : Text}
      {outcome : Except CompileError (Report String)}
      (hrefused : ∀ error, stored = .error error → outcome = .error (.store error))
      (hreport : ∀ report, outcome = .ok report →
        report.flat = scriptedRecords config values taken text)
      (hstored : ∀ path, stored = .ok path → text.length + 1 < offsetLimit →
        ∃ report, outcome = .ok report) :
      Settled config values taken stored (.compile identity file text) (.compiled outcome)
  /-- A line check has the capitals of its text, whatever happened before. -/
  | checked {text : Text} :
      Settled config values taken stored (.lines text)
        (.checked ((detectCapitals config text).filterMap EditorRecord.ofMark?))

/-- A report of sampled tokens shows those that the script flags. -/
theorem flat_reportSample_script {config : Config} {values : List Nat} {taken : Nat} {text : Text}
    {report : Report String}
    (h : (reportSample config text (Script.mk values.toArray taken)).1 = .ok report) :
    report.flat = scriptedRecords config values taken text := by
  rw [flat_reportSample h, flaggedSpans_script, scriptedRecords, List.map_map]
  simp only [Script.value_ofList]
  rfl

/-- A single answer is settled. -/
theorem settled_answerBy (config : Config) (values : List Nat) (taken : Nat)
    (stored : Except StoreError (Option String)) (request : Request) :
    Answer.Settled config values taken stored request
      (request.answerBy config (Script.mk values.toArray taken) stored) := by
  cases request with
  | lines text => exact .checked
  | compile identity file text =>
      refine .compiled ?_ ?_ ?_
      · rintro error rfl
        rfl
      · intro report h
        cases stored with
        | error error => exact absurd h (by simp [outcome])
        | ok path => exact flat_reportSample_script (mapError_eq_ok_iff.mp h)
      · rintro path rfl hsize
        obtain ⟨report, hreport⟩ :=
          exists_reportSample config hsize (Script.mk values.toArray taken)
        exact ⟨report, mapError_eq_ok_iff.mpr hreport⟩

/-- There are as many answers as requests. -/
theorem length_answersBy (config : Config) (source : σ) {requests : List Request}
    {stored : List (Except StoreError (Option String))} (h : stored.length = requests.length) :
    (answersBy config source requests stored).length = requests.length := by
  rw [answersBy, length_inTurn, List.length_zip, h, Nat.min_self]

/-- **Every answer is settled** by what the sink says to its request and by the draws taken for the
requests before it. -/
theorem settled_answersBy (config : Config) (values : List Nat) {requests : List Request}
    {stored : List (Except StoreError (Option String))} (hlength : stored.length = requests.length)
    {index : Nat} {request : Request} (hrequest : requests[index]? = some request) :
    ∃ outcome answer, stored[index]? = some outcome ∧
      (answersBy config (Script.ofList values) requests stored)[index]? = some answer ∧
      Answer.Settled config values (drawTotal Request.drawCount (requests.take index)) outcome
        request answer := by
  have hindex : index < stored.length := by
    rw [hlength]
    exact (List.getElem?_eq_some_iff.mp hrequest).1
  have hstored : stored[index]? = some stored[index] := List.getElem?_eq_getElem hindex
  have hasked : (requests.zip stored)[index]? = some (request, stored[index]) :=
    List.getElem?_zip_eq_some.mpr ⟨hrequest, hstored⟩
  -- what the sink says takes no draws
  have htotal : drawTotal (fun asked => asked.1.drawCount) ((requests.zip stored).take index) =
      drawTotal Request.drawCount (requests.take index) := by
    rw [← drawTotal_map Request.drawCount Prod.fst, List.map_take,
      List.map_fst_zip (Nat.le_of_eq hlength.symm)]
  refine ⟨stored[index], _, hstored, ?_, settled_answerBy config values _ stored[index] request⟩
  rw [answersBy, getElem?_inTurn, hasked, htotal, draws_script, Script.ofList, Nat.zero_add]
  rfl

/-- **A script settles all answers.** A compiler with the draws of a script answers requests one
after another, by asking the sink for one artifact after another. A compilation with a report shows,
in their order, exactly the tokens whose value is above the threshold, where the values go round and
one of them was taken for every token of each text compiled before, whether or not its artifact was
stored. A line check takes none, and depends on its text and the settings only. -/
theorem answerAll_script [Monad m] [LawfulMonad m] (config : Config) (values : List Nat)
    (sink : Sink m) (requests : List Request) :
    ∃ answers : List (Except StoreError (Option String)) → List Answer,
      (Compiler.mk config (Script.ofList values) sink).answerAll requests =
        (fun stored => (answers stored,
          ⟨config, ⟨values.toArray, drawTotal Request.drawCount requests⟩, sink⟩)) <$>
            requests.mapM (Request.store sink) ∧
      ∀ stored, stored.length = requests.length →
        (answers stored).length = requests.length ∧
        ∀ index request, requests[index]? = some request →
          ∃ outcome answer, stored[index]? = some outcome ∧ (answers stored)[index]? = some answer ∧
            Answer.Settled config values (drawTotal Request.drawCount (requests.take index)) outcome
              request answer := by
  refine ⟨answersBy config (Script.ofList values) requests, ?_, ?_⟩
  · rw [answerAll_eq_map, skip, draws_script, Script.ofList]
    simp only [Nat.zero_add]
  · intro stored hlength
    exact ⟨length_answersBy config _ hlength,
      fun index request hrequest => settled_answersBy config values hlength hrequest⟩

/-- A compilation whose artifact has no file name, and one after it, with a line check between
them. -/
theorem answerAll_script_refused :
    let sink : Sink (StateM Disk) := .directory "out"
    let requests : List Request :=
      [.compile .unknown "" "a b".toList, .lines "Cd".toList, .compile .unknown "f" "c d e".toList]
    ∃ answers : List (Except StoreError (Option String)) → List Answer,
      (Compiler.mk {} (Script.ofList [9, 1, 7]) sink).answerAll requests =
        (fun stored => (answers stored,
          ⟨{}, ⟨#[9, 1, 7], drawTotal Request.drawCount requests⟩, sink⟩)) <$>
            requests.mapM (Request.store sink) ∧
      ∀ stored, stored.length = requests.length →
        (answers stored).length = requests.length ∧
        ∀ index request, requests[index]? = some request →
          ∃ outcome answer, stored[index]? = some outcome ∧ (answers stored)[index]? = some answer ∧
            Answer.Settled {} [9, 1, 7] (drawTotal Request.drawCount (requests.take index)) outcome
              request answer :=
  answerAll_script {} [9, 1, 7] (.directory "out")
    [.compile .unknown "" "a b".toList, .lines "Cd".toList, .compile .unknown "f" "c d e".toList]

example : scriptedRecords {} [9, 1, 7] 2 "c d e".toList =
    [⟨0, 1, "errorroror"⟩, ⟨2, 3, "errorroror"⟩] := by cbv

end Compiler

end SpanReport
