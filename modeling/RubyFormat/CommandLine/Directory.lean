import RubyFormat.Data.Basic
import RubyFormat.Text.Blank

/-!
# The files that a run can reach

A directory holds files and folders under their paths, which are lists of names.  Files are named
relative to it, with the names of a path between slashes; a single dot stays where it is, and two
dots go back.  A name takes at most 255 bytes, and a file name with all its slashes 4095.  The
folders above the directory hold nothing, and what is written there leaves no trace in the
directory.  Nothing else can be reached, apart from a few devices.
-/

namespace RubyFormat.CommandLine

/-- A file with its content, or a folder. -/
inductive Entry where
  | file (content : ByteArray)
  | folder

/-- Contents are compared byte by byte. -/
instance : DecidableEq Entry
  | .file left, .file right =>
      if same : left.data = right.data then .isTrue (congrArg Entry.file (ByteArray.ext same))
      else .isFalse fun equal => same (congrArg ByteArray.data (Entry.file.inj equal))
  | .file _, .folder | .folder, .file _ => .isFalse nofun
  | .folder, .folder => .isTrue rfl

/-- The largest number of bytes in a name. -/
def maxNameSize : Nat := 255

/-- The largest number of bytes in a file name. -/
def maxFileNameSize : Nat := 4095

/-- The names between the slashes of a file name. -/
def namesOf (fileName : String) : List String :=
  (Text.cut (· == '/') fileName.toList).map String.ofList

/-- Whether a file name is that of the given device. -/
def isDevice (device fileName : String) : Bool :=
  let names := namesOf fileName
  names.head? == some "" && names.getLast? == some device
    && names.filter (fun name => name != "" && name != ".") == ["dev", device]

/-- Whether a file name cannot be passed on, because a null character would end it. -/
def hasNull (fileName : String) : Bool :=
  fileName.toList.contains '\x00'

/-- Files and folders under their paths. -/
structure Directory where
  entries : List (List String × Entry)
  deriving DecidableEq

/-- A path from the directory, or from the folder so many levels above it. -/
structure Place where
  above : Nat
  path : List String
  deriving DecidableEq, Repr

namespace Directory

/-- What stands under a path; the folders on the way to a file are there with it. -/
def find? (directory : Directory) (path : List String) : Option Entry :=
  match directory.entries.find? (·.1 == path) with
  | some entry => some entry.2
  | none => if directory.entries.any fun entry => path.isPrefixOf entry.1 then some .folder else none

/-- What stands at a place. -/
def findAt? (directory : Directory) (place : Place) : Option Entry :=
  if place.path.isEmpty then some .folder
  else if place.above = 0 then directory.find? place.path
  else none

/-- Follow names from a folder; every name but the last must be one of a folder. -/
def follow (directory : Directory) (place : Place) : List String → Option Place
  | [] => some place
  | name :: rest =>
      if directory.findAt? place != some .folder then none
      else if name = "" ∨ name = "." then follow directory place rest
      else if name = ".." then
        if place.path.isEmpty then follow directory ⟨place.above + 1, []⟩ rest
        else follow directory ⟨place.above, place.path.dropLast⟩ rest
      else if maxNameSize < name.utf8ByteSize then none
      else follow directory ⟨place.above, place.path ++ [name]⟩ rest

/-- The place that a file name leads to. -/
def resolve (directory : Directory) (fileName : String) : Option Place :=
  if fileName.toList.head? = some '/' ∨ maxFileNameSize < fileName.utf8ByteSize then none
  else directory.follow ⟨0, []⟩ (namesOf fileName)

/-- The content of a file, if there is one of that name. -/
def read? (directory : Directory) (fileName : String) : Option ByteArray :=
  match (directory.resolve fileName).bind directory.findAt? with
  | some (.file content) => some content
  | _ => none

/-- The directory after a file is written, if that can be done. -/
def write? (directory : Directory) (fileName : String) (content : ByteArray) :
    Option Directory := do
  let place ← directory.resolve fileName
  if directory.findAt? place = some .folder then none
  else if place.above = 0 then some ⟨setEntry place.path (.file content) directory.entries⟩
  else some directory

/-- The files right in the directory whose content is new or changed since an earlier state. -/
def changesSince (directory earlier : Directory) : List (String × ByteArray) :=
  directory.entries.filterMap fun (path, entry) =>
    match path, entry with
    | [name], .file content =>
        if earlier.find? path == some entry then none else some (name, content)
    | _, _ => none

end Directory

end RubyFormat.CommandLine
