/-!
# Folders of files

The files a program can read, as data: a folder maps paths to bytes, and reading a path gives a
text or says why there is none.
-/

namespace ShaderNodes

/-- Why a file cannot be read. -/
inductive ReadError
  | notFound
  | notFolder
  | isFolder
  | nameTooLong
  | nulInName
  | notText
  /-- Any other reason, in the words of the system. -/
  | other (reason : String)
deriving DecidableEq, Repr

/-- The reason in words. -/
def ReadError.message : ReadError → String
  | notFound => "No such file or directory (os error 2)"
  | notFolder => "Not a directory (os error 20)"
  | isFolder => "Is a directory (os error 21)"
  | nameTooLong => "File name too long (os error 36)"
  | nulInName => "file name contained an unexpected NUL byte"
  | notText => "stream did not contain valid UTF-8"
  | other reason => reason

/-- Gives the text behind a path. -/
abbrev ReadFile := String → Except ReadError String

/-- Files by path, relative to the folder. -/
structure Folder where
  files : List (String × ByteArray)

/-- What stands at a place in a folder. -/
inductive FolderEntry
  | file (bytes : ByteArray)
  | folder

/-- Where a path leads, as far as a folder can tell. -/
inductive Place
  /-- A place in the folder, by the names that lead to it. -/
  | inside (names : List String)
  /-- One of the folders around it. -/
  | outside
deriving DecidableEq, Repr

namespace Place

/-- The place one level up. Around the folder there are only folders, up to one that is its own
parent. -/
def parent : Place → Place
  | inside [] => outside
  | inside names => inside names.dropLast
  | outside => outside

/-- The place under a name. What else the folders around hold is not known. -/
def child? : Place → String → Option Place
  | inside names, name => some (inside (names ++ [name]))
  | outside, _ => none

end Place

namespace Folder

/-- The steps of a path. -/
def steps (path : String) : List String := path.splitOn "/"

/-- Whether a step stays where it is. -/
def stays (step : String) : Bool := step = "" || step = "."

/-- The names that lead to a file. -/
def names (f : String × ByteArray) : List String := (steps f.1).filter fun s => !stays s

/-- What stands at a place. -/
def entry? (folder : Folder) : Place → Option FolderEntry
  | .outside => some .folder
  | .inside place =>
    match folder.files.find? fun f => names f = place with
    | some f => some (.file f.2)
    | none =>
      if place = [] || folder.files.any fun f => place.isPrefixOf (names f) then some .folder
      else none

/-- Follows steps from a place. Each step needs a folder to start from. -/
def follow (folder : Folder) (place : Place) : List String → Except ReadError ByteArray
  | [] =>
    match folder.entry? place with
    | some (.file bytes) => .ok bytes
    | some .folder => .error .isFolder
    | none => .error .notFound
  | step :: rest =>
    match folder.entry? place with
    | none => .error .notFound
    | some (.file _) => .error .notFolder
    | some .folder =>
      if stays step then folder.follow place rest
      else if step = ".." then folder.follow place.parent rest
      else if 255 < step.utf8ByteSize then .error .nameTooLong
      else
        match place.child? step with
        | some place => folder.follow place rest
        | none => .error .notFound

/-- The bytes behind a path, followed from the folder on. A path that begins with a slash starts
outside the folder. -/
def bytes (folder : Folder) (path : String) : Except ReadError ByteArray :=
  if path.toList.contains '\x00' then .error .nulInName
  else if 4095 < path.utf8ByteSize then .error .nameTooLong
  else folder.follow (if path.startsWith "/" then .outside else .inside []) (steps path)

/-- The text behind a path, followed from the folder on; no path at all leads to the folder. -/
def readBelow (folder : Folder) : ReadFile := fun path => do
  let bytes ← folder.bytes path
  match String.fromUTF8? bytes with
  | some text => pure text
  | none => throw .notText

/-- The text behind a path, as a program reads it that runs in the folder: it needs a path. -/
def read (folder : Folder) : ReadFile := fun path =>
  if path = "" then .error .notFound else folder.readBelow path

end Folder

end ShaderNodes
