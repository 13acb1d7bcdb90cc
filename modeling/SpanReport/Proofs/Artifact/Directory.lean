import SpanReport.Artifact.Store
import SpanReport.File.Disk
import SpanReport.Proofs.Artifact.Path
import SpanReport.Proofs.Digest.Sha256

/-! # Storing below a directory

Every request to `Sink.directory` on a disk ends in one of three ways (`Disk.Stored`): the artifact
is added to the disk, with the directories above it that were missing; or a name is refused; or the
disk refuses the file. In the last two cases the disk stays as it was. From the single request
follows what any sequence of requests leaves behind (`storeAll_atomic`): each artifact holds the
hash of the text that was stored last under its identity and file name, and a line feed; every other
file is as it was. -/

namespace SpanReport

/-- A text to be stored under an identity and a file name. -/
structure StoreRequest where
  /-- The identity. -/
  identity : Identity
  /-- The file name. -/
  file : String
  /-- The text. -/
  text : Text

/-- What a sink answers. -/
abbrev StoreOutcome := Except StoreError (Option String)

namespace StoreRequest

/-- The path of the artifact below a root directory. -/
def path (request : StoreRequest) (root : String) : String :=
  Path.joinText (Path.joinText root request.identity.name) request.file

/-- The request made to the sink that writes below a root directory of a disk. -/
def store (root : String) (request : StoreRequest) : StateM Disk StoreOutcome :=
  Sink.directory root request.identity request.file request.text

/-- The requests made one after the other. -/
def storeAll (root : String) (requests : List StoreRequest) : StateM Disk (List StoreOutcome) :=
  requests.mapM (store root)

/-- If the names of the request are components of a path, they are within the limits of a disk, and
so is the path. -/
def Fits (root : String) (request : StoreRequest) : Prop :=
  isComponent request.identity.name = true → isComponent request.file = true →
    request.identity.name.utf8ByteSize ≤ Disk.nameLimit ∧
      request.file.utf8ByteSize ≤ Disk.nameLimit ∧
        (request.path root).utf8ByteSize ≤ Disk.pathLimit

/-- Whether a request with its outcome stored something under an identity and a file name. -/
def Stores (identity : Identity) (file : String) (step : StoreRequest × StoreOutcome) : Prop :=
  step.1.identity = identity ∧ step.1.file = file ∧ step.2.isOk = true

/-- Whether something was stored can be decided. -/
instance (identity : Identity) (file : String) : DecidablePred (Stores identity file) :=
  fun _ => inferInstanceAs (Decidable (_ ∧ _ ∧ _))

/-- The text that was stored last under an identity and a file name. -/
def lastStored? (identity : Identity) (file : String)
    (steps : List (StoreRequest × StoreOutcome)) : Option Text :=
  (steps.filter fun step => Stores identity file step).getLast?.map fun step => step.1.text

end StoreRequest

namespace Disk

/-- The location of the directory for an identity below the root of a sink. -/
def artifactDirectory (disk : Disk) (root : String) (identity : Identity) : Location :=
  disk.locationOf (Path.ofString root) ++ [identity.name]

/-- The location of an artifact. -/
def artifactLocation (disk : Disk) (root : String) (identity : Identity) (file : String) :
    Location :=
  disk.artifactDirectory root identity ++ [file]

/-- How one request to a sink ends: with what outcome, and with what disk. -/
inductive Stored (root : String) (before : Disk) (request : StoreRequest) :
    StoreOutcome → Disk → Prop
  /-- The artifact is added: the hash of the text and a line feed. -/
  | added {after : Disk} :
      isComponent request.identity.name = true → isComponent request.file = true →
      before.FileAdded (before.artifactDirectory root request.identity) request.file
        (contentHash request.text ++ "\n").toUTF8 after →
      Stored root before request (.ok (some (request.path root))) after
  /-- A name is no component of a path; the identity is looked at first. -/
  | invalid {name : String} :
      isComponent name = false →
      name = request.identity.name ∨
        isComponent request.identity.name = true ∧ name = request.file →
      Stored root before request (.error (.invalidComponent name)) before
  /-- A file or a directory is in the way. -/
  | refused {cause : FileError} :
      isComponent request.identity.name = true → isComponent request.file = true →
      before.Refuses (before.artifactDirectory root request.identity) request.file cause →
      Stored root before request (.error (.write (request.path root) cause)) before

/-- How a sequence of requests to a sink ends: each request finds the disk that the one before it
left behind. -/
inductive StoredAll (root : String) :
    Disk → List StoreRequest → List StoreOutcome → Disk → Prop
  /-- Without a request nothing happens. -/
  | nil {disk : Disk} : StoredAll root disk [] [] disk
  /-- The first request leaves a disk to the others. -/
  | cons {before between after : Disk} {request : StoreRequest} {requests : List StoreRequest}
      {outcome : StoreOutcome} {outcomes : List StoreOutcome} :
      Stored root before request outcome between →
      StoredAll root between requests outcomes after →
      StoredAll root before (request :: requests) (outcome :: outcomes) after

end Disk

open StoreRequest Disk

variable {root : String} {before after : Disk} {request : StoreRequest}

/-! ## One request -/

/-- The location of an artifact tells its identity and its file name. -/
theorem artifactLocation_inj {disk : Disk} {identity identity' : Identity} {file file' : String} :
    disk.artifactLocation root identity file = disk.artifactLocation root identity' file' ↔
      identity = identity' ∧ file = file' := by
  obtain ⟨name⟩ := identity
  obtain ⟨name'⟩ := identity'
  simp [artifactLocation, artifactDirectory]

/-- What the disk answers to the writing of the artifact is what the request is told. -/
theorem store_of_writeBelow {outcome : Except FileError Unit}
    (hpath : artifactPath root request.identity request.file = .ok (request.path root))
    (h : (writeBelow (Path.ofString (request.path root)) (artifactContent request.text) :
      Request) before = (outcome, after)) :
    store root request before =
      (match outcome with
        | .ok () => .ok (some (request.path root))
        | .error cause => .error (.write (request.path root) cause), after) := by
  simp only [store, Sink.directory, hpath, bind, StateT.bind, h]
  cases outcome <;> rfl

/-- A refused name is what the request is told, and the disk is not asked. -/
theorem store_of_artifactPath_error {error : StoreError}
    (hpath : artifactPath root request.identity request.file = .error error) (before : Disk) :
    store root request before = (.error error, before) := by
  simp only [store, Sink.directory, hpath]
  rfl

/-- The path of an artifact below a plain root is plain, if the request fits. -/
theorem isPlainPath_of_fits (hroot : IsPlainRoot root) (hfits : request.Fits root)
    (hidentity : isComponent request.identity.name = true)
    (hfile : isComponent request.file = true) :
    IsPlainPath (((Path.ofString root).child request.identity.name).child request.file) := by
  obtain ⟨hidentitySize, hfileSize, hsize⟩ := hfits hidentity hfile
  have hidentityPlain := isPlain_of_isComponent hidentity hidentitySize
  have hfilePlain := isPlain_of_isComponent hfile hfileSize
  apply hroot.isPlainPath_artifact hidentityPlain hfilePlain
  rw [← ofString_artifact hidentity hfile, Path.toString_ofString]
  exact hsize

/-- **A request ends in one of three ways.** -/
theorem exists_stored (hroot : IsPlainRoot root) (hdisk : before.HasWorkingDir)
    (hfits : request.Fits root) :
    ∃ outcome after, store root request before = (outcome, after) ∧
      Stored root before request outcome after := by
  rcases artifactPath_cases root request.identity request.file with
    ⟨hidentity, hfile, hpath⟩ | ⟨name, hname, hwhich, hpath⟩
  · -- the path is that of a file in the directory of the identity, and it is plain
    have hplain := isPlainPath_of_fits hroot hfits hidentity hfile
    have hchild := ofString_artifact hidentity hfile root
    obtain ⟨⟨hidentityNe, -⟩, -⟩ := isComponent_iff.mp hidentity
    obtain ⟨⟨hfileNe, -⟩, -⟩ := isComponent_iff.mp hfile
    have hlast : ((Path.ofString root).child request.identity.name).pieces.getLast? ≠ some "" := by
      simpa [Path.child] using hidentityNe
    have hlocation := before.locationOf_child (Path.ofString root) hidentityNe
    rcases hplain.writeBelow_cases hdisk hlast hfileNe (artifactContent request.text) with
      ⟨after, hwrite, hadded⟩ | ⟨cause, hwrite, hrefuses⟩
    · rw [← hchild] at hwrite
      rw [hlocation] at hadded
      exact ⟨_, after, store_of_writeBelow hpath hwrite, .added hidentity hfile hadded⟩
    · rw [← hchild] at hwrite
      rw [hlocation] at hrefuses
      exact ⟨_, before, store_of_writeBelow hpath hwrite, .refused hidentity hfile hrefuses⟩
  · exact ⟨_, before, store_of_artifactPath_error hpath before, .invalid hname hwhich⟩

namespace Disk

/-- A request leaves the working directory in place. -/
theorem Stored.hasWorkingDir {outcome : StoreOutcome} (h : Stored root before request outcome after)
    (hdisk : before.HasWorkingDir) : after.HasWorkingDir := by
  cases h with
  | added _ _ hadded => exact hadded.hasWorkingDir hdisk
  | invalid => exact hdisk
  | refused => exact hdisk

/-- After a request, artifacts have the locations that they had before. -/
theorem Stored.artifactLocation_eq {outcome : StoreOutcome}
    (h : Stored root before request outcome after) (identity : Identity) (file : String) :
    after.artifactLocation root identity file = before.artifactLocation root identity file := by
  have hworkingDir : after.workingDir = before.workingDir := by
    cases h with
    | added _ _ hadded => exact hadded.workingDir_eq
    | invalid => rfl
    | refused => rfl
  simp only [artifactLocation, artifactDirectory, locationOf, baseOf, hworkingDir]

/-- **A request that stores something changes its own artifact and no other**; any other request
changes none. -/
theorem Stored.kind?_artifactLocation {outcome : StoreOutcome}
    (h : Stored root before request outcome after) (identity : Identity) (file : String) :
    after.kind? (before.artifactLocation root identity file) =
      if Stores identity file (request, outcome)
      then some (.file (contentHash request.text ++ "\n").toUTF8)
      else before.kind? (before.artifactLocation root identity file) := by
  cases h with
  | added _ _ hadded =>
      -- an artifact is no directory on the way to one, as it lies as deep as the artifact itself
      have hdeep : ¬ before.artifactLocation root identity file <+:
          before.artifactDirectory root request.identity := by
        intro hpre
        have hlength := hpre.length_le
        simp [artifactLocation, artifactDirectory] at hlength
      rw [hadded.kind?_eq, if_neg hdeep]
      have hplace : before.artifactLocation root identity file =
          before.artifactDirectory root request.identity ++ [request.file] ↔
            Stores identity file (request, .ok (some (request.path root))) := by
        refine artifactLocation_inj.trans ?_
        simp [Stores, Except.isOk, Except.toBool, eq_comm]
      simp only [hplace]
  | invalid => simp [Stores, Except.isOk, Except.toBool]
  | refused => simp [Stores, Except.isOk, Except.toBool]

/-- **A request changes no file but the artifact that it stores.** -/
theorem Stored.kind?_eq_file_iff {outcome : StoreOutcome}
    (h : Stored root before request outcome after) {location : Location}
    (hother : outcome.isOk = true →
      location ≠ before.artifactLocation root request.identity request.file)
    (content : ByteArray) :
    after.kind? location = some (.file content) ↔
      before.kind? location = some (.file content) := by
  cases h with
  | added _ _ hadded =>
      have hplace : location ≠
          before.artifactDirectory root request.identity ++ [request.file] := hother rfl
      rw [hadded.kind?_eq, if_neg hplace]
      by_cases hpre : location <+: before.artifactDirectory root request.identity
      · -- what became a directory was none before, but it was no file either
        rw [if_pos hpre]
        have hnofile : before.kind? location ≠ some (.file content) := by
          intro hfile
          exact hadded.not_obstructed ⟨location, hpre, content, hfile⟩
        simp [hnofile]
      · rw [if_neg hpre]
  | invalid => rfl
  | refused => rfl

end Disk

/-! ## A sequence of requests -/

/-- What a sequence stored last was stored by the later requests, or else by the first one. -/
theorem lastStored?_cons (identity : Identity) (file : String)
    (step : StoreRequest × StoreOutcome) (later : List (StoreRequest × StoreOutcome)) :
    lastStored? identity file (step :: later) =
      (lastStored? identity file later).or
        (if Stores identity file step then some step.1.text else none) := by
  unfold lastStored?
  by_cases hstep : Stores identity file step
  · rw [List.filter_cons_of_pos (by simpa using hstep), List.getLast?_cons, if_pos hstep]
    cases (later.filter fun step => Stores identity file step).getLast? <;> rfl
  · rw [List.filter_cons_of_neg (by simpa using hstep), if_neg hstep, Option.or_none]

/-- What a step stores, the sequence that begins with it has stored. -/
theorem lastStored?_cons_ne_none {identity : Identity} {file : String}
    {step : StoreRequest × StoreOutcome} (h : Stores identity file step)
    (later : List (StoreRequest × StoreOutcome)) :
    lastStored? identity file (step :: later) ≠ none := by
  rw [lastStored?_cons, if_pos h]
  cases lastStored? identity file later <;> simp

namespace Disk

variable {requests : List StoreRequest} {outcomes : List StoreOutcome}

/-- **After a sequence of requests, each artifact holds the hash of the text that was stored
last.** -/
theorem StoredAll.kind?_artifactLocation (h : StoredAll root before requests outcomes after)
    (identity : Identity) (file : String) :
    after.kind? (before.artifactLocation root identity file) =
      ((lastStored? identity file (requests.zip outcomes)).map fun text =>
        .file (contentHash text ++ "\n").toUTF8).or
          (before.kind? (before.artifactLocation root identity file)) := by
  induction h with
  | nil => rfl
  | @cons before between after request requests outcome outcomes hfirst _ ih =>
      -- the later requests answer for the artifact, or the first one does, or the disk before it
      rw [hfirst.artifactLocation_eq] at ih
      rw [ih, hfirst.kind?_artifactLocation, List.zip_cons_cons, lastStored?_cons]
      cases lastStored? identity file (requests.zip outcomes) with
      | some text => rfl
      | none => by_cases hstores : Stores identity file (request, outcome) <;> simp [hstores]

/-- **After a sequence of requests, no other file has changed.** -/
theorem StoredAll.kind?_eq_file_iff (h : StoredAll root before requests outcomes after)
    {location : Location}
    (hother : ∀ identity file, lastStored? identity file (requests.zip outcomes) ≠ none →
      location ≠ before.artifactLocation root identity file) (content : ByteArray) :
    after.kind? location = some (.file content) ↔
      before.kind? location = some (.file content) := by
  induction h with
  | nil => rfl
  | @cons before between after request requests outcome outcomes hfirst _ ih =>
      have hlater : after.kind? location = some (.file content) ↔
          between.kind? location = some (.file content) := by
        apply ih
        intro identity file hstored
        rw [hfirst.artifactLocation_eq]
        apply hother identity file
        rw [List.zip_cons_cons, lastStored?_cons]
        simp [hstored]
      have hhead : between.kind? location = some (.file content) ↔
          before.kind? location = some (.file content) := by
        apply hfirst.kind?_eq_file_iff
        intro hok
        exact hother request.identity request.file
          (lastStored?_cons_ne_none ⟨rfl, rfl, hok⟩ (requests.zip outcomes))
      exact hlater.trans hhead

/-- **A sequence of requests is served one by one.** -/
theorem exists_storedAll (hroot : IsPlainRoot root) (hdisk : before.HasWorkingDir)
    (hfits : ∀ request ∈ requests, request.Fits root) :
    ∃ outcomes after, storeAll root requests before = (outcomes, after) ∧
      StoredAll root before requests outcomes after := by
  induction requests generalizing before with
  | nil => exact ⟨[], before, rfl, .nil⟩
  | cons request requests ih =>
      obtain ⟨hfirst, hlater⟩ := List.forall_mem_cons.mp hfits
      obtain ⟨outcome, between, hstore, hstored⟩ := exists_stored hroot hdisk hfirst
      obtain ⟨outcomes, after, hstores, hall⟩ := ih (hstored.hasWorkingDir hdisk) hlater
      refine ⟨outcome :: outcomes, after, ?_, .cons hstored hall⟩
      simp only [storeAll] at hstores
      simp only [storeAll, List.mapM_cons, bind, StateT.bind, hstore, hstores]
      rfl

end Disk

/-- **Storing is atomic.** Each of a sequence of requests either adds its artifact, with the
directories above it that were missing, or leaves the disk as it was. In the end, every artifact
holds the hash of the text that was stored last under its identity and file name, and a line feed,
and no other file has changed. The hash of a text is its digest, written with 64 digits. -/
theorem storeAll_atomic (hroot : IsPlainRoot root) (hdisk : before.HasWorkingDir)
    {requests : List StoreRequest} (hfits : ∀ request ∈ requests, request.Fits root) :
    ∃ outcomes after, storeAll root requests before = (outcomes, after) ∧
      StoredAll root before requests outcomes after ∧
      (∀ identity file, after.kind? (before.artifactLocation root identity file) =
        ((lastStored? identity file (requests.zip outcomes)).map fun text =>
          .file (contentHash text ++ "\n").toUTF8).or
            (before.kind? (before.artifactLocation root identity file))) ∧
      (∀ request ∈ requests, IsContentHash request.text (contentHash request.text)) ∧
      ∀ location, (∀ identity file, lastStored? identity file (requests.zip outcomes) ≠ none →
          location ≠ before.artifactLocation root identity file) →
        ∀ content, after.kind? location = some (.file content) ↔
          before.kind? location = some (.file content) := by
  obtain ⟨outcomes, after, hstores, hall⟩ := exists_storedAll hroot hdisk hfits
  exact ⟨outcomes, after, hstores, hall, hall.kind?_artifactLocation,
    fun request _ => isContentHash_contentHash request.text,
    fun location hother => hall.kind?_eq_file_iff hother⟩

/-- A request that adds its artifact, one that a file stops, and one whose name is refused: the
first artifact holds its hash, and the file in the way of the second one is kept. -/
theorem storeAll_atomic_file_in_the_way :
    ∃ after,
      storeAll "out" [⟨⟨"ada"⟩, "plan", ['A']⟩, ⟨⟨"notes"⟩, "plan", ['B']⟩, ⟨⟨".."⟩, "plan", ['C']⟩]
          ⟨[("scratch", .directory [("out", .directory [("notes", .file ByteArray.empty)])])],
            ["scratch"]⟩ =
          ([.ok (some "out/ada/plan"), .error (.write "out/notes/plan" .alreadyExists),
            .error (.invalidComponent "..")], after) ∧
        after.kind? ["scratch", "out", "ada", "plan"] = some (.file
          "559aead08264d5795d3909718cdd05abd49572e84fe55590eef31a88a08fdffd\n".toUTF8) ∧
        after.kind? ["scratch", "out", "notes"] = some (.file ByteArray.empty) := by
  have hpath : Path.ofString "out" = ⟨["out"]⟩ := by cbv
  have hroot : IsPlainRoot "out" := by
    unfold IsPlainRoot
    rw [hpath]
    decide
  have hdisk : HasWorkingDir
      ⟨[("scratch", .directory [("out", .directory [("notes", .file ByteArray.empty)])])],
        ["scratch"]⟩ := ⟨by decide, rfl⟩
  have hfits : ∀ request ∈ ([⟨⟨"ada"⟩, "plan", ['A']⟩, ⟨⟨"notes"⟩, "plan", ['B']⟩,
      ⟨⟨".."⟩, "plan", ['C']⟩] : List StoreRequest), request.Fits "out" := by
    unfold Fits
    decide
  have houtcomes : (storeAll "out"
      [⟨⟨"ada"⟩, "plan", ['A']⟩, ⟨⟨"notes"⟩, "plan", ['B']⟩, ⟨⟨".."⟩, "plan", ['C']⟩]
      ⟨[("scratch", .directory [("out", .directory [("notes", .file ByteArray.empty)])])],
        ["scratch"]⟩).1 = [.ok (some "out/ada/plan"),
          .error (.write "out/notes/plan" .alreadyExists), .error (.invalidComponent "..")] := by
    decide +kernel
  obtain ⟨outcomes, after, hstores, -, hlast, -, hkept⟩ := storeAll_atomic hroot hdisk hfits
  rw [hstores] at houtcomes
  obtain rfl := houtcomes
  refine ⟨after, hstores, ?added, (hkept _ ?kept _).mpr rfl⟩
  case added =>
    have hlocation : artifactLocation
        ⟨[("scratch", .directory [("out", .directory [("notes", .file ByteArray.empty)])])],
          ["scratch"]⟩ "out" ⟨"ada"⟩ "plan" = ["scratch", "out", "ada", "plan"] := by
      simp [artifactLocation, artifactDirectory, locationOf, baseOf, hpath, Path.isAbsolute]
    have hhash : contentHash ['A'] =
        "559aead08264d5795d3909718cdd05abd49572e84fe55590eef31a88a08fdffd" := by decide +kernel
    have hstored : lastStored? ⟨"ada"⟩ "plan" ([⟨⟨"ada"⟩, "plan", ['A']⟩,
        ⟨⟨"notes"⟩, "plan", ['B']⟩, ⟨⟨".."⟩, "plan", ['C']⟩].zip [.ok (some "out/ada/plan"),
          .error (.write "out/notes/plan" .alreadyExists), .error (.invalidComponent "..")]) =
        some ['A'] := by decide
    rw [← hlocation, hlast ⟨"ada"⟩ "plan", hstored, Option.map_some, hhash]
    rfl
  case kept =>
    -- every artifact lies one directory deeper
    intro identity file _ heq
    have hlength := congrArg List.length heq
    simp [artifactLocation, artifactDirectory, locationOf, baseOf, hpath, Path.isAbsolute]
      at hlength

end SpanReport
