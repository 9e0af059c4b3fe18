import GemLang.Error
import GemLang.Foreign.CData
import GemLang.Path
import GemLang.Text.Utf8

/-!
# Files

The files that a run can see, as a finite tree without links. A place in it is the list of names on
the way from the root. Directories are not kept: they are the places on the way to a file or to the
current directory.

`walk` follows the segments of a path step by step: every place that is left must be a directory,
and every name that is entered must be there. A file has one place, so `canonical` gives it one
path.

A path can be used in two ways. `locate` hands it to the system as a whole, which refuses it
outright if it is too long. `follow` takes it one name at a time, so that only the names count; a
long path through `.` and `..` can be made canonical even where it cannot be opened.
-/

namespace GemLang

/-- What a file holds. -/
inductive Content where
  | plain (text : String)
  | bytes (bytes : List UInt8)
  | library (library : Foreign.Library)

def Content.text : Content → Except FileFault String
  | .plain s => .ok s
  | .bytes bs =>
    match Text.decodeUtf8? bs with
    | some s => .ok s
    | none => .error .notUtf8
  | .library _ => .error .notUtf8

/-- A place in the tree: the names on the way to it. -/
abbrev Place := List String

/-- The files that a run can see, and the place of the current directory. -/
structure FileTree where
  home : Place
  files : List (Place × Content)

namespace FileTree

variable (t : FileTree)

def content? (place : Place) : Option Content :=
  (t.files.find? (·.1 == place)).map (·.2)

def isDirectory (place : Place) : Bool :=
  place.isPrefixOf t.home ||
    t.files.any fun f ↦ place.isPrefixOf f.1 && place.length < f.1.length

def occupied (place : Place) : Bool := t.isDirectory place || (t.content? place).isSome

/-! ## Following paths -/

/-- The longest name that a file can have, in bytes. -/
def maxName : Nat := 255

/-- The longest path that the system takes as a whole, in bytes. -/
def maxPath : Nat := 4095

/-- Why the system refuses a path as a whole, wherever it leads. -/
def refusal? (p : Path) : Option FileFault :=
  if p.text.toList.contains '\x00' then some .nulInName
  else if maxPath < p.text.utf8ByteSize then some .nameTooLong
  else none

/-- The place that segments lead to from a place. -/
def walk (place : Place) : List String → Except FileFault Place
  | [] => .ok place
  | segment :: rest =>
    if !t.isDirectory place then .error .notDirectory
    else if segment = "" ∨ segment = "." then walk place rest
    else if segment = ".." then walk place.dropLast rest
    else if maxName < segment.utf8ByteSize then .error .nameTooLong
    else if t.occupied (place ++ [segment]) then walk (place ++ [segment]) rest
    else .error .notFound

/-- The place of a path that is taken one name at a time. -/
def follow (p : Path) : Except FileFault Place :=
  if p.text.isEmpty then .error .notFound
  else t.walk (if p.isAbsolute then [] else t.home) p.segments

/-- The place of a path that is taken as a whole. -/
def locate (p : Path) : Except FileFault Place :=
  match refusal? p with
  | some fault => .error fault
  | none => t.follow p

def isFile (p : Path) : Bool :=
  match t.locate p with
  | .ok place => (t.content? place).isSome
  | .error _ => false

def leadsSomewhere (p : Path) : Bool := (t.locate p).isOk

def pathOf (place : Place) : Path := ⟨"/" ++ "/".intercalate place⟩

/-- The one absolute path of what a path leads to, name by name; a path that leads nowhere stays as
it is. -/
def canonical (p : Path) : Path :=
  match t.follow p with
  | .ok place => pathOf place
  | .error _ => p

/-! ## Reading and writing -/

def readText (p : Path) : Except FileFault String :=
  match t.locate p with
  | .error e => .error e
  | .ok place =>
    match t.content? place with
    | none => .error .isDirectory
    | some content => content.text

/-- Puts a file at a place, over one that is there. -/
def put (place : Place) (content : Content) : FileTree :=
  if (t.content? place).isSome then
    { t with files := t.files.map fun f ↦ if f.1 == place then (place, content) else f }
  else
    { t with files := t.files ++ [(place, content)] }

/-- The place at which a file can be written: a name in a directory that is there. A name with a
slash after it can only be a directory. -/
def writable (p : Path) : Except FileFault Place :=
  match refusal? p with
  | some fault => .error fault
  | none =>
    match p.segments.reverse.dropWhile (· == "") with
    | [] => .error (if p.isAbsolute then .isDirectory else .notFound)
    | name :: front =>
      match t.walk (if p.isAbsolute then [] else t.home) front.reverse with
      | .error e => .error e
      | .ok directory =>
        if !t.isDirectory directory then .error .notDirectory
        else if name = "." ∨ name = ".." ∨ p.segments.getLast? = some "" then .error .isDirectory
        else if maxName < name.utf8ByteSize then .error .nameTooLong
        else if t.isDirectory (directory ++ [name]) then .error .isDirectory
        else .ok (directory ++ [name])

def writeText (p : Path) (text : String) : Except FileFault FileTree :=
  match t.writable p with
  | .error e => .error e
  | .ok place => .ok (t.put place (.plain text))

end FileTree

end GemLang
