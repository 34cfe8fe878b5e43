import RubyFormat.CommandLine.Arguments
import RubyFormat.CommandLine.Directory
import RubyFormat.Data.Json
import RubyFormat.Doc.Debug
import RubyFormat.Format
import RubyFormat.Node.Data

/-!
# A run of the command line

A run reads the source, formats it or stops after a phase, and delivers the output to a file or to
standard output.  It is written over the means to read and write, so that the same run works on the
files of a machine and on a `Directory`.  Only the last step writes, and only if all went well.
-/

namespace RubyFormat.CommandLine

/-- Why a run fails after its arguments are read. -/
inductive Failure where
  | cannotOpen (fileName : String)
  | invalidText
  | noInput
  | source (error : SourceError)
  | notFormatted
  | cannotWrite (fileName : String)
  deriving DecidableEq, Repr

/-- The line that tells a failure. -/
def Failure.message : Failure → String
  | .cannotOpen fileName => "error: cannot open '" ++ fileName ++ "'\n"
  | .invalidText => "error: invalid utf-8 in input\n"
  | .noInput => "error: no input provided\n"
  | .source error =>
      "error:" ++ toString error.pos.line ++ ":" ++ toString error.pos.col ++ ": "
        ++ error.wording ++ "\n"
  | .notFormatted => "error: input is not formatted\n"
  | .cannotWrite fileName => "error: cannot write '" ++ fileName ++ "'\n"

/-- The exit code of a failure. -/
def Failure.exitCode : Failure → Nat
  | .noInput => 2
  | _ => 1

/-- What ends a run before it has an outcome. -/
inductive Crash where
  | numeral (error : NumeralError)
  | dump (error : DumpError)
  | layout (fault : Fault)
  | width (error : WidthError)
  /-- A file name has a null character. -/
  | nullInName
  deriving DecidableEq, Repr

/-- The wording of a crash. -/
def Crash.message : Crash → String
  | .numeral error => error.message
  | .dump error => error.message
  | .layout fault => fault.message
  | .width error => error.message
  | .nullInName => "embedded null byte"

/-- Why there is no output. -/
inductive Stop where
  | failure (failure : Failure)
  | crash (crash : Crash)
  deriving DecidableEq, Repr

/-- How a run ends. -/
structure Outcome where
  exitCode : Nat
  stdout : String
  stderr : String
  deriving DecidableEq, Repr

namespace Outcome

/-- The end of a run that fails. -/
def ofFailure (failure : Failure) : Outcome :=
  ⟨failure.exitCode, "", failure.message⟩

/-- The end of a run with wrong arguments. -/
def ofUsageError (error : UsageError) : Outcome :=
  ⟨2, "", "error: " ++ error.message ++ "\n"⟩

end Outcome

/-- The text of a source given as bytes. -/
def decode (content : ByteArray) : Except Stop String :=
  match String.fromUTF8? content with
  | none => .error (.failure .invalidText)
  | some source => if source.isEmpty then .error (.failure .noInput) else .ok source

/-- The output for a source; nothing is to be delivered where it is empty. -/
def output (request : Request) (source : String) : Except Stop String :=
  let pragmas := Pragmas.ofSource source
  if pragmas.skip && request.stopAt.isNone then
    .ok (if request.check then "" else source)
  else
    match Node.ofSource source with
    | .error error => .error (.failure (.source error))
    | .ok tree =>
        if request.stopAt = some .parse then
          match tree.toData.dump Text.maxDigits with
          | .error error => .error (.crash (.dump error))
          | .ok text => .ok (text ++ "\n")
        else
          match tree.toDoc (pragmas.apply request.options) with
          | .error fault => .error (.crash (.layout fault))
          | .ok doc =>
              if request.stopAt = some .doc then .ok (doc.debug ++ "\n")
              else
                match doc.write request.options.indentWidth with
                | .error error => .error (.crash (.width error))
                | .ok formatted =>
                    if !request.check then .ok formatted
                    else if formatted = source then .ok ""
                    else .error (.failure .notFormatted)

/-- The means of a run to read and write. -/
structure Files (m : Type → Type) where
  /-- All of standard input. -/
  readInput : m ByteArray
  /-- The content of a file, if it can be read. -/
  readFile : String → m (Option ByteArray)
  /-- Write a file, and say whether that went well. -/
  writeFile : String → ByteArray → m Bool

/-- Read the source of a request. -/
def readSource [Monad m] (files : Files m) (request : Request) : m (Except Stop String) := do
  match request.input with
  | none => return decode (← files.readInput)
  | some fileName =>
      if hasNull fileName then
        return .error (.crash .nullInName)
      else if isDevice "stdin" fileName then
        return decode (← files.readInput)
      else
        match ← files.readFile fileName with
        | none => return .error (.failure (.cannotOpen fileName))
        | some content => return decode content

/-- Write the output of a request to a file; some devices are the streams that a run has anyway. -/
def writeTo [Monad m] (files : Files m) (fileName text : String) : m (Except Stop Outcome) := do
  if hasNull fileName then
    return .error (.crash .nullInName)
  else if isDevice "stdout" fileName then
    return .ok ⟨0, text, ""⟩
  else if isDevice "stderr" fileName then
    return .ok ⟨0, "", text⟩
  else if ← files.writeFile fileName text.toUTF8 then
    return .ok ⟨0, "", ""⟩
  else
    return .error (.failure (.cannotWrite fileName))

/-- Deliver the output of a request. -/
def deliver [Monad m] (files : Files m) (request : Request) (text : String) :
    m (Except Stop Outcome) := do
  match request.output with
  | none => return .ok ⟨0, text, ""⟩
  | some fileName =>
      if text.isEmpty then return .ok ⟨0, "", ""⟩ else writeTo files fileName text

/-- Do what a request asks for. -/
def perform [Monad m] (files : Files m) (request : Request) : m (Except Stop Outcome) := do
  match ← readSource files request with
  | .error stop => return .error stop
  | .ok source =>
      match output request source with
      | .error stop => return .error stop
      | .ok text => deliver files request text

/-- A run with the given arguments. -/
def run [Monad m] (files : Files m) (arguments : List String) : m (Except Crash Outcome) := do
  match Request.ofArguments arguments with
  | .error .help => return .ok ⟨0, usage, ""⟩
  | .error (.usage error) => return .ok (.ofUsageError error)
  | .error (.numeral error) => return .error (.numeral error)
  | .ok request =>
      match ← perform files request with
      | .error (.failure failure) => return .ok (.ofFailure failure)
      | .error (.crash crash) => return .error crash
      | .ok outcome => return .ok outcome

/-- The files of a directory, with the given standard input. -/
def Directory.files (input : ByteArray) : Files (StateM Directory) where
  readInput := return input
  readFile fileName := do
    if isDevice "null" fileName then
      return some ByteArray.empty
    else
      return (← get).read? fileName
  writeFile fileName content := do
    if isDevice "null" fileName then
      return true
    else
      match (← get).write? fileName content with
      | none => return false
      | some written =>
          set written
          return true

/-- A run in a directory, with the directory that it leaves. -/
def runIn (directory : Directory) (input : ByteArray) (arguments : List String) :
    Except Crash Outcome × Directory :=
  (run (Directory.files input) arguments).run directory

end RubyFormat.CommandLine
