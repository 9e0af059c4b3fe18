import GemLang.FileTree
import GemLang.Machine.Host

/-!
# The loader of the command

A library is loaded by path. A path with a slash names a file; one without is looked for among the
libraries of the system, of which there are none here. The empty path is the program itself, which
has no functions to lend. What can go wrong is told in the words of the system's loader.
-/

namespace GemLang.Foreign

/-! ## Files that are no libraries -/

/-- The size of the header without which a file is no library. -/
def headerSize : Nat := 64

/-- A rule on the header of a library: the bytes that may stand at an offset, and the complaint if
others do. -/
structure HeaderRule where
  offset : Nat
  allowed : List (List UInt8)
  complaint : String

/-- Whether a file keeps to a rule. -/
def HeaderRule.holds (rule : HeaderRule) (bytes : List UInt8) : Bool :=
  rule.allowed.any fun allowed ↦ allowed.isPrefixOf (bytes.drop rule.offset)

/-- The rules on the header, in the order in which the loader looks. -/
def headerRules : List HeaderRule :=
  [⟨0, [[0x7f, 0x45, 0x4c, 0x46]], "invalid ELF header"⟩,
   ⟨4, [[2]], "wrong ELF class: ELFCLASS32"⟩,
   ⟨5, [[1]], "ELF file data encoding not little-endian"⟩,
   ⟨6, [[1]], "ELF file version ident does not match current one"⟩,
   ⟨7, [[0], [3]], "ELF file OS ABI invalid"⟩,
   ⟨8, [[0]], "ELF file ABI version invalid"⟩,
   ⟨9, [List.replicate 7 0], "nonzero padding in e_ident"⟩,
   ⟨20, [[1, 0, 0, 0]], "ELF file version does not match current one"⟩,
   ⟨18, [[62, 0]], "cannot open shared object file: No such file or directory"⟩,
   ⟨16, [[3, 0], [2, 0]], "only ET_DYN and ET_EXEC can be loaded"⟩,
   ⟨54, [[56, 0]], "ELF file's phentsize not the expected size"⟩]

/-- Why a file that is no library cannot be loaded: the first rule that its header breaks. A header
alone has nothing to load. -/
def refusal (bytes : List UInt8) : String :=
  if bytes.length < headerSize then "file too short"
  else
    match headerRules.find? (!·.holds bytes) with
    | some rule => rule.complaint
    | none => "object file has no loadable segments"

/-! ## Opening a library -/

/-- A text as the system is given it: up to a zero at its very end. A zero elsewhere cannot be
passed on. -/
def systemText (s : String) : Except String String :=
  let cs := s.toList
  if cs.getLast? = some '\x00' then
    if cs.dropLast.contains '\x00' then
      .error "could not create a C string from bytes with trailing null"
    else
      .ok (String.ofList cs.dropLast)
  else if cs.contains '\x00' then
    .error "could not create a C string from bytes"
  else
    .ok s

/-- A library that a path leads to: the name the system knows it by, the place of its file, and its
functions. -/
structure LocatedLibrary where
  name : String
  place : Place
  exports : Library

/-- The program itself, as a library. -/
def LocatedLibrary.program : LocatedLibrary := ⟨"gem", [], []⟩

/-- The library that a path leads to. Its name is the path as the system was given it. -/
def locateLibrary (t : FileTree) (path : String) : Except String LocatedLibrary :=
  match systemText path with
  | .error reason => .error reason
  | .ok name =>
    let missing (why : String) := s!"{name}: cannot open shared object file: {why}"
    if name.isEmpty then .ok .program
    else if !name.toList.contains '/' then .error (missing "No such file or directory")
    else
      match t.locate ⟨name⟩ with
      | .error .notDirectory => .error (missing "Not a directory")
      | .error .nameTooLong => .error (missing "File name too long")
      | .error _ => .error (missing "No such file or directory")
      | .ok place =>
        match t.content? place with
        | none => .error s!"{name}: cannot read file data: Is a directory"
        | some (.plain text) => .error s!"{name}: {refusal (Text.utf8 text)}"
        | some (.bytes bytes) => .error s!"{name}: {refusal bytes}"
        | some (.library exports) => .ok ⟨name, place, exports⟩

/-- The function that a library has under a symbol. -/
def LocatedLibrary.function (l : LocatedLibrary) (symbol : String) : Except String CFunction :=
  match systemText symbol with
  | .error reason => .error reason
  | .ok name =>
    match l.exports.find? (·.1 == name) with
    | some (_, f) => .ok f
    | none => .error s!"{l.name}: undefined symbol: {name}"

/-- The name of the library at a place, if a path among these leads there. -/
def nameAt? (t : FileTree) (paths : List Path) (place : Place) : Option String :=
  paths.findSome? fun path ↦
    match locateLibrary t path.text with
    | .ok l => if l.place == place then some l.name else none
    | .error _ => none

/-- The loader that opens the libraries in a tree. A file that is open under another path keeps the
name it was first opened under. -/
def Loader.ofFiles (t : FileTree) : Loader where
  openLibrary paths path :=
    match locateLibrary t path with
    | .error reason => .error reason
    | .ok l => .ok { l with name := (nameAt? t paths l.place).getD l.name }.function

end GemLang.Foreign
