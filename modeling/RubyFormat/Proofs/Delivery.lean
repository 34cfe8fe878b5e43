import Mathlib.Control.Monad.Basic
import RubyFormat.CommandLine.Run

/-!
# What a run delivers

A run that fails says nothing on standard output and leaves all files as they were.  A run that
succeeds delivers its output, to standard output or to the file that was asked for, and leaves all
other files as they were.  The one exception is an empty output: it is not delivered, so that a file
that was there keeps what it held.
-/

namespace RubyFormat.CommandLine

namespace Directory

variable {directory after : Directory} {path : List String} {fileName : String}
  {content : ByteArray}

/-! ## Files that are written -/

section Entries

variable {entry : Entry} {entries : List (List String × Entry)}

theorem find?_setEntry_self :
    (setEntry path entry entries).find? (·.1 == path) = some (path, entry) := by
  induction entries with
  | nil => simp [setEntry]
  | cons pair rest ih =>
      obtain ⟨other, old⟩ := pair
      by_cases same : other = path
      · simp [setEntry, same]
      · simp [setEntry, same, ih]

theorem find?_setEntry_of_ne {other : List String} (differ : other ≠ path) :
    (setEntry path entry entries).find? (·.1 == other) = entries.find? (·.1 == other) := by
  induction entries with
  | nil => simp [setEntry, Ne.symm differ]
  | cons pair rest ih =>
      obtain ⟨key, old⟩ := pair
      by_cases same : key = path
      · subst same
        simp [setEntry, Ne.symm differ]
      · simp only [setEntry, beq_eq_false_iff_ne.2 same, Bool.false_eq_true, if_false,
          List.find?_cons, ih]

/-- The paths that were there are there still. -/
theorem any_setEntry {p : List String → Bool} (found : entries.any (fun pair => p pair.1) = true) :
    (setEntry path entry entries).any (fun pair => p pair.1) = true := by
  induction entries with
  | nil => cases found
  | cons pair rest ih =>
      obtain ⟨key, old⟩ := pair
      rw [List.any_cons, Bool.or_eq_true] at found
      unfold setEntry
      split
      · rw [List.any_cons, Bool.or_eq_true]
        exact found
      · rw [List.any_cons, Bool.or_eq_true]
        exact found.imp_right ih

end Entries

/-- A file stands where it has an entry. -/
theorem find?_eq_file_iff :
    directory.find? path = some (.file content) ↔
      ∃ key, directory.entries.find? (·.1 == path) = some (key, .file content) := by
  unfold find?
  split
  next pair isPair =>
    obtain ⟨key, entry⟩ := pair
    rw [isPair]
    simp
  next none =>
    rw [none]
    split <;> simp

/-- The directory with a file under a path. -/
def writing (directory : Directory) (path : List String) (content : ByteArray) : Directory :=
  ⟨setEntry path (.file content) directory.entries⟩

theorem find?_writing : (directory.writing path content).find? path = some (.file content) :=
  find?_eq_file_iff.2 ⟨path, find?_setEntry_self⟩

/-- Other files are as they were. -/
theorem find?_writing_of_ne {other : List String} (differ : other ≠ path) (old : ByteArray) :
    (directory.writing path content).find? other = some (.file old) ↔
      directory.find? other = some (.file old) := by
  rw [find?_eq_file_iff, find?_eq_file_iff, writing, find?_setEntry_of_ne differ]

/-- Folders are as they were, where no folder is written over. -/
theorem findAt?_writing (noFolder : directory.findAt? ⟨0, path⟩ ≠ some .folder) {place : Place}
    (isFolder : directory.findAt? place = some .folder) :
    (directory.writing path content).findAt? place = some .folder := by
  unfold findAt? at isFolder ⊢
  split
  · rfl
  next some =>
    rw [if_neg some] at isFolder
    split at isFolder
    next inside =>
      rw [if_pos inside]
      have differ : place.path ≠ path := by
        rintro rfl
        rw [findAt?, if_neg some, if_pos rfl] at noFolder
        exact noFolder isFolder
      unfold find? at isFolder ⊢
      rw [writing, find?_setEntry_of_ne differ]
      split at isFolder
      · exact isFolder
      · split at isFolder
        next within => rw [if_pos (any_setEntry within)]
        · cases isFolder
    · cases isFolder

/-- Names lead to the same place as long as the folders on their way stay. -/
theorem follow_of_kept
    (kept : ∀ place, directory.findAt? place = some .folder → after.findAt? place = some .folder)
    {place final : Place} {names : List String} (found : directory.follow place names = some final) :
    after.follow place names = some final := by
  induction names generalizing place with
  | nil => exact found
  | cons name rest ih =>
      unfold follow at found ⊢
      split at found
      · cases found
      next isFolder =>
        have folder : directory.findAt? place = some .folder := by simpa using isFolder
        rw [kept place folder]
        simp only [bne_self_eq_false, Bool.false_eq_true, if_false]
        split at found
        next stays => rw [if_pos stays, ih found]
        next moves =>
          rw [if_neg moves]
          split at found
          next back =>
            rw [if_pos back]
            split at found
            next top => rw [if_pos top, ih found]
            next inner => rw [if_neg inner, ih found]
          next forward =>
            rw [if_neg forward]
            split at found
            · cases found
            next short => rw [if_neg short, ih found]

theorem write?_eq (place : directory.resolve fileName = some ⟨0, path⟩) :
    directory.write? fileName content =
      if directory.findAt? ⟨0, path⟩ = some .folder then none
      else some (directory.writing path content) := by
  simp [write?, place, writing]

/-- What is written can be read back, and nothing else has changed. -/
theorem read?_of_write? (written : directory.write? fileName content = some after)
    (place : directory.resolve fileName = some ⟨0, path⟩) :
    after.read? fileName = some content ∧
      ∀ other, other ≠ path → ∀ old, after.find? other = some (.file old) ↔
        directory.find? other = some (.file old) := by
  rw [write?_eq place] at written
  split at written
  · cases written
  next noFolder =>
    obtain rfl := Option.some.inj written
    refine ⟨?_, fun other differ old => find?_writing_of_ne differ old⟩
    have same : (directory.writing path content).resolve fileName = some ⟨0, path⟩ := by
      unfold resolve at place ⊢
      split at place
      · cases place
      next relative =>
        rw [if_neg relative]
        exact follow_of_kept (fun _ => findAt?_writing noFolder) place
    have nonempty : path.isEmpty = false := by
      rw [Bool.eq_false_iff]
      intro empty
      exact noFolder (by rw [findAt?, if_pos empty])
    rw [read?, same, Option.bind_some, findAt?, nonempty]
    simp [find?_writing]

/-- What is written outside leaves no trace. -/
theorem eq_of_write? (written : directory.write? fileName content = some after)
    (outside : ∀ path, directory.resolve fileName ≠ some ⟨0, path⟩) : after = directory := by
  unfold write? at written
  cases found : directory.resolve fileName with
  | none =>
      rw [found] at written
      cases written
  | some place =>
      rw [found] at written
      obtain ⟨above, path⟩ := place
      have levels : above ≠ 0 := by
        rintro rfl
        exact outside path found
      have unchanged : directory.findAt? ⟨above, path⟩ ≠ some .folder ∧ directory = after := by
        simpa [levels] using written
      exact unchanged.2.symm

/-- Devices are outside of the directory. -/
theorem resolve_of_isDevice {device : String} (named : device ≠ "")
    (found : isDevice device fileName = true) : directory.resolve fileName = none := by
  have slash : fileName.toList.head? = some '/' := by
    simp only [isDevice, namesOf, Bool.and_eq_true, beq_iff_eq] at found
    obtain ⟨⟨first, last⟩, -⟩ := found
    cases text : fileName.toList with
    | nil =>
        rw [text] at last
        exact absurd (Option.some.inj last).symm named
    | cons c rest =>
        by_cases isSlash : c = '/'
        · rw [isSlash, List.head?_cons]
        · -- the first name has a character
          rw [text, Text.cut, if_neg (by simpa using isSlash)] at first
          split at first <;> simp at first
  rw [resolve, if_pos (.inl slash)]

end Directory

/-! ## Steps of a run -/

section Steps

variable {directory after : Directory} {input : ByteArray} {request : Request} {text : String}

theorem readFile_run (directory : Directory) (input : ByteArray) (fileName : String) :
    ∃ found, ((Directory.files input).readFile fileName).run directory = (found, directory) := by
  unfold Directory.files
  dsimp only
  split
  · exact ⟨_, rfl⟩
  · exact ⟨_, rfl⟩

/-- Reading leaves the directory as it is. -/
theorem readSource_run (directory : Directory) (input : ByteArray) (request : Request) :
    ∃ result, (readSource (Directory.files input) request).run directory = (result, directory) := by
  unfold readSource
  cases request.input with
  | none => exact ⟨_, rfl⟩
  | some fileName =>
      dsimp only
      split
      · exact ⟨_, rfl⟩
      split
      · exact ⟨_, rfl⟩
      obtain ⟨found, isFound⟩ := readFile_run directory input fileName
      rw [StateT.run_bind, isFound]
      cases found with
      | none => exact ⟨_, rfl⟩
      | some content => exact ⟨_, rfl⟩

/-- A file is written, or it is a device or cannot be written and leaves the directory as it is. -/
theorem writeFile_run (directory : Directory) (input : ByteArray) (fileName : String)
    (content : ByteArray) :
    ∃ done after, ((Directory.files input).writeFile fileName content).run directory = (done, after) ∧
      (done = true ∧ directory.write? fileName content = some after ∨
        after = directory ∧ (done = true → directory.resolve fileName = none)) := by
  unfold Directory.files
  dsimp only
  split
  next isNull =>
    exact ⟨_, _, rfl, .inr ⟨rfl, fun _ => Directory.resolve_of_isDevice (by decide) isNull⟩⟩
  rw [StateT.run_bind, StateT.run_get, pure_bind]
  cases written : directory.write? fileName content with
  | none => exact ⟨_, _, rfl, .inr ⟨rfl, nofun⟩⟩
  | some after => exact ⟨_, _, rfl, .inl ⟨rfl, rfl⟩⟩

/-- What becomes of a text that is written to a file. -/
inductive Written (directory : Directory) (fileName text : String) :
    Except Stop Outcome → Directory → Prop where
  | failed (stop : Stop) : Written directory fileName text (.error stop) directory
  | file {after : Directory} (written : directory.write? fileName text.toUTF8 = some after) :
      Written directory fileName text (.ok ⟨0, "", ""⟩) after
  | device (stdout stderr : String) (outside : directory.resolve fileName = none) :
      Written directory fileName text (.ok ⟨0, stdout, stderr⟩) directory

theorem written_of_writeTo (directory : Directory) (input : ByteArray) (fileName text : String) :
    ∃ result after, (writeTo (Directory.files input) fileName text).run directory = (result, after) ∧
      Written directory fileName text result after := by
  unfold writeTo
  split
  · exact ⟨_, _, rfl, .failed _⟩
  split
  next isDevice =>
    exact ⟨_, _, rfl, .device _ _ (Directory.resolve_of_isDevice (by decide) isDevice)⟩
  split
  next isDevice =>
    exact ⟨_, _, rfl, .device _ _ (Directory.resolve_of_isDevice (by decide) isDevice)⟩
  obtain ⟨done, after, ran, how⟩ := writeFile_run directory input fileName text.toUTF8
  rw [StateT.run_bind, ran]
  cases done with
  | false =>
      obtain ⟨isDone, -⟩ | ⟨rfl, -⟩ := how
      · cases isDone
      · exact ⟨_, _, rfl, .failed _⟩
  | true =>
      obtain ⟨-, written⟩ | ⟨rfl, outside⟩ := how
      · exact ⟨_, _, rfl, .file written⟩
      · exact ⟨_, _, rfl, .device _ _ (outside rfl)⟩

/-- What becomes of the output of a request. -/
inductive Delivered (directory : Directory) (request : Request) (text : String) :
    Except Stop Outcome → Directory → Prop where
  | printed (toStdout : request.output = none) :
      Delivered directory request text (.ok ⟨0, text, ""⟩) directory
  | dropped {fileName : String} (toFile : request.output = some fileName) (empty : text = "") :
      Delivered directory request text (.ok ⟨0, "", ""⟩) directory
  | written {fileName : String} (toFile : request.output = some fileName) (some : text ≠ "")
      {result : Except Stop Outcome} {after : Directory}
      (written : Written directory fileName text result after) :
      Delivered directory request text result after

theorem delivered_of_deliver (directory : Directory) (input : ByteArray) (request : Request)
    (text : String) :
    ∃ result after, (deliver (Directory.files input) request text).run directory = (result, after) ∧
      Delivered directory request text result after := by
  unfold deliver
  cases toFile : request.output with
  | none => exact ⟨_, _, rfl, .printed toFile⟩
  | some fileName =>
      dsimp only
      split
      next empty => exact ⟨_, _, rfl, .dropped toFile (by simpa using empty)⟩
      next some =>
        obtain ⟨result, after, ran, written⟩ := written_of_writeTo directory input fileName text
        exact ⟨result, after, ran, .written toFile (by simpa using some) written⟩

/-- What becomes of a request. -/
inductive Performed (directory : Directory) (input : ByteArray) (request : Request) :
    Except Stop Outcome → Directory → Prop where
  | stopped (stop : Stop) : Performed directory input request (.error stop) directory
  | delivered {source text : String} {outcome : Outcome} {after : Directory}
      (isSource : (readSource (Directory.files input) request).run directory = (.ok source, directory))
      (isOutput : output request source = .ok text)
      (delivered : Delivered directory request text (.ok outcome) after) :
      Performed directory input request (.ok outcome) after

theorem performed_of_perform (directory : Directory) (input : ByteArray) (request : Request) :
    ∃ result after, (perform (Directory.files input) request).run directory = (result, after) ∧
      Performed directory input request result after := by
  obtain ⟨found, isSource⟩ := readSource_run directory input request
  rw [perform, StateT.run_bind, isSource]
  cases found with
  | error stop => exact ⟨_, _, rfl, .stopped stop⟩
  | ok source =>
      dsimp only [bind]
      cases isOutput : output request source with
      | error stop => exact ⟨_, _, rfl, .stopped stop⟩
      | ok text =>
          obtain ⟨result, after, ran, delivered⟩ := delivered_of_deliver directory input request text
          refine ⟨result, after, ran, ?_⟩
          cases result with
          | error stop =>
              obtain rfl : after = directory := by
                cases delivered with
                | written _ _ written => cases written with | failed stop => rfl
              exact .stopped stop
          | ok outcome => exact .delivered isSource isOutput delivered

end Steps

/-! ## Runs -/

/-- The exit code of a run, which is that of an error if the run crashes. -/
def exitCode : Except Crash Outcome → Nat
  | .error _ => 1
  | .ok outcome => outcome.exitCode

/-- What a run writes to standard output. -/
def stdout : Except Crash Outcome → String
  | .error _ => ""
  | .ok outcome => outcome.stdout

theorem Failure.exitCode_ne_zero (failure : Failure) : failure.exitCode ≠ 0 := by
  cases failure <;> exact nofun

/-- All that can become of a run. -/
inductive Ran (directory : Directory) (input : ByteArray) (arguments : List String) :
    Except Crash Outcome → Directory → Prop where
  | failed {result : Except Crash Outcome} (code : exitCode result ≠ 0) (silent : stdout result = "") :
      Ran directory input arguments result directory
  | helped (asked : Request.ofArguments arguments = .error .help) :
      Ran directory input arguments (.ok ⟨0, usage, ""⟩) directory
  | performed {request : Request} {outcome : Outcome} {after : Directory}
      (asked : Request.ofArguments arguments = .ok request)
      (performed : Performed directory input request (.ok outcome) after) :
      Ran directory input arguments (.ok outcome) after

theorem ran_of_runIn (directory : Directory) (input : ByteArray) (arguments : List String) :
    ∃ result after, runIn directory input arguments = (result, after) ∧
      Ran directory input arguments result after := by
  rw [runIn, run]
  cases asked : Request.ofArguments arguments with
  | error stop =>
      cases stop with
      | help => exact ⟨_, _, rfl, .helped asked⟩
      | usage error => exact ⟨_, _, rfl, .failed nofun rfl⟩
      | numeral error => exact ⟨_, _, rfl, .failed nofun rfl⟩
  | ok request =>
      obtain ⟨result, after, ran, performed⟩ := performed_of_perform directory input request
      rw [StateT.run_bind, ran]
      cases performed with
      | stopped stop =>
          cases stop with
          | failure failure => exact ⟨_, _, rfl, .failed failure.exitCode_ne_zero rfl⟩
          | crash crash => exact ⟨_, _, rfl, .failed nofun rfl⟩
      | delivered isSource isOutput delivered =>
          exact ⟨_, _, rfl, .performed asked (.delivered isSource isOutput delivered)⟩

/-- What a file holds when the output of a request was to be written to it.  Places outside of the
directory cannot be looked at. -/
structure Left (directory after : Directory) (fileName text : String)
    (result : Except Crash Outcome) : Prop where
  outside : (∀ path, directory.resolve fileName ≠ some ⟨0, path⟩) → after = directory
  silent : ∀ path, directory.resolve fileName = some ⟨0, path⟩ → stdout result = ""
  others : ∀ path, directory.resolve fileName = some ⟨0, path⟩ → ∀ other, other ≠ path →
    ∀ content, after.find? other = some (.file content) ↔ directory.find? other = some (.file content)
  holds : ∀ path, directory.resolve fileName = some ⟨0, path⟩ →
    (after.read? fileName = some text.toUTF8 ↔
      text ≠ "" ∨ directory.read? fileName = some ByteArray.empty)

theorem left_of_written {directory after : Directory} {fileName text : String} {outcome : Outcome}
    (some : text ≠ "") (written : Written directory fileName text (.ok outcome) after) :
    Left directory after fileName text (.ok outcome) := by
  cases written with
  | file written =>
      refine ⟨Directory.eq_of_write? written, fun _ _ => rfl, fun path place => ?_, fun path place => ?_⟩
      · exact (Directory.read?_of_write? written place).2
      · exact ⟨fun _ => .inl some, fun _ => (Directory.read?_of_write? written place).1⟩
  | device stdout stderr outside =>
      have nowhere {path : List String} : directory.resolve fileName ≠ .some ⟨0, path⟩ := by
        rw [outside]
        exact nofun
      exact ⟨fun _ => rfl, fun _ place => absurd place nowhere, fun _ place => absurd place nowhere,
        fun _ place => absurd place nowhere⟩

/-- An empty output is not written, and the file keeps what it held. -/
theorem left_of_dropped (directory : Directory) (fileName : String) :
    Left directory directory fileName "" (.ok ⟨0, "", ""⟩) := by
  have empty : "".toUTF8 = ByteArray.empty := rfl
  refine ⟨fun _ => rfl, fun _ _ => rfl, fun _ _ _ _ _ => Iff.rfl, fun _ _ => ?_⟩
  rw [empty]
  simp

/--
A run that fails is silent and leaves the directory as it was.  A run that was asked for something and
succeeds has an output; it goes to standard output, or to the file that was asked for.  That file holds
the output exactly if the output is not empty or the file was empty before.
-/
theorem delivers_or_keeps {directory after : Directory} {input : ByteArray} {arguments : List String}
    {result : Except Crash Outcome} (ran : runIn directory input arguments = (result, after)) :
    (exitCode result ≠ 0 → stdout result = "" ∧ after = directory) ∧
      ∀ request, Request.ofArguments arguments = .ok request → exitCode result = 0 →
        ∃ source text,
          (readSource (Directory.files input) request).run directory = (.ok source, directory) ∧
          output request source = .ok text ∧
          match request.output with
          | none => stdout result = text ∧ after = directory
          | some fileName => Left directory after fileName text result := by
  obtain ⟨found, later, same, how⟩ := ran_of_runIn directory input arguments
  obtain ⟨rfl, rfl⟩ := Prod.mk.inj (ran.symm.trans same)
  cases how with
  | failed code silent =>
      exact ⟨fun _ => ⟨silent, rfl⟩, fun request _ zero => absurd zero code⟩
  | helped asked =>
      refine ⟨fun code => absurd rfl code, fun request isRequest => ?_⟩
      rw [asked] at isRequest
      cases isRequest
  | performed asked performed =>
      obtain ⟨_⟩ | ⟨isSource, isOutput, delivered⟩ := performed
      constructor
      · intro code
        exfalso
        cases delivered with
        | printed => exact code rfl
        | dropped => exact code rfl
        | written _ _ written => cases written <;> exact code rfl
      · intro request isRequest _
        obtain rfl := Except.ok.inj (asked.symm.trans isRequest)
        refine ⟨_, _, isSource, isOutput, ?_⟩
        cases delivered with
        | printed toStdout =>
            rw [toStdout]
            exact ⟨rfl, rfl⟩
        | dropped toFile empty =>
            rw [toFile, empty]
            exact left_of_dropped _ _
        | written toFile some written =>
            rw [toFile]
            exact left_of_written some written

/-- The output of a run is written over a file. -/
theorem delivers_or_keeps_over :
    let before : Directory := ⟨[(["out.rb"], .file "old\n".toUTF8)]⟩
    let after : Directory := ⟨[(["out.rb"], .file "x = 1\n".toUTF8)]⟩
    let result : Except Crash Outcome := .ok ⟨0, "", ""⟩
    runIn before "x=1\n".toUTF8 ["-o", "out.rb"] = (result, after) ∧
      (exitCode result ≠ 0 → stdout result = "" ∧ after = before) ∧
      ∀ request, Request.ofArguments ["-o", "out.rb"] = .ok request → exitCode result = 0 →
        ∃ source text,
          (readSource (Directory.files "x=1\n".toUTF8) request).run before = (.ok source, before) ∧
          output request source = .ok text ∧
          match request.output with
          | none => stdout result = text ∧ after = before
          | some fileName => Left before after fileName text result := by
  intro before after result
  have ran : runIn before "x=1\n".toUTF8 ["-o", "out.rb"] = (result, after) := by decide +kernel
  exact ⟨ran, delivers_or_keeps ran⟩

/-- A source of one line break has an empty output, and the file that should hold it keeps its old
content. -/
theorem keeps_old_content :
    let before : Directory := ⟨[(["out.rb"], .file "old\n".toUTF8)]⟩
    runIn before "\n".toUTF8 ["-o", "out.rb"] = (.ok ⟨0, "", ""⟩, before) ∧
      output { output := some "out.rb" } "\n" = .ok "" ∧
      before.read? "out.rb" = some "old\n".toUTF8 := by
  refine ⟨?_, ?_, ?_⟩ <;> decide +kernel

end RubyFormat.CommandLine
