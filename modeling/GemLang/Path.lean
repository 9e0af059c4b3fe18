/-!
# Paths

A path is the text it was written as; that text is what messages show. What a path means is the
list of its segments, the pieces between slashes. Two paths are the same path when they have the
same components: repeated slashes and inner `.` segments do not count, a leading `.` does.
-/

namespace GemLang

/-- A path, as it was written. -/
structure Path where
  text : String
  deriving DecidableEq

namespace Path

/-- Cuts a text at every slash. -/
def segmentsOf : List Char → List (List Char)
  | [] => [[]]
  | '/' :: cs => [] :: segmentsOf cs
  | c :: cs =>
    match segmentsOf cs with
    | [] => [[c]]
    | s :: ss => (c :: s) :: ss

/-- The pieces of a path between slashes; an absolute path starts with an empty one. -/
def segments (p : Path) : List String := (segmentsOf p.text.toList).map String.ofList

/-- Whether the path starts at the root of the file system. -/
def isAbsolute (p : Path) : Bool := p.text.toList.head? == some '/'

/-- Whether a segment that is not the first one counts as a component. -/
def isComponent (segment : String) : Bool := segment != "" && segment != "."

/-- The first component: the root, a leading `.`, or a name. -/
def firstComponent (absolute : Bool) (segment : String) : List String :=
  if absolute then ["/"] else if segment = "" then [] else [segment]

/-- The components of a path, the root being written `/`. -/
def components (p : Path) : List String :=
  match p.segments with
  | [] => []
  | s :: ss => firstComponent p.isAbsolute s ++ ss.filter isComponent

/-- Whether two paths have the same components. -/
def same (p q : Path) : Bool := p.components == q.components

/-- The path of `q` seen from the directory `p`. -/
def join (p q : Path) : Path :=
  if q.isAbsolute ∨ p.text.isEmpty then q
  else if p.text.toList.getLast? = some '/' then ⟨p.text ++ q.text⟩
  else ⟨p.text ++ "/" ++ q.text⟩

/-- Drops segments at the end that are no components, the first segment excepted. -/
def trimEnd (segments : List String) : List String :=
  match segments with
  | [] => []
  | s :: ss => s :: (ss.reverse.dropWhile fun x ↦ !isComponent x).reverse

/-- The text of leading segments of a path. -/
def ofSegments (absolute : Bool) (segments : List String) : Path :=
  if absolute ∧ segments = [""] then ⟨"/"⟩ else ⟨"/".intercalate segments⟩

/-- The directory that a path is in: the path up to its last component. -/
def parent? (p : Path) : Option Path :=
  match trimEnd p.segments with
  | [] => none
  | [s] => if p.isAbsolute ∨ s = "" then none else some ⟨""⟩
  | s :: ss => some (ofSegments p.isAbsolute (trimEnd (s :: ss.dropLast)))

/-- The directory against which paths in the file `p` are resolved. -/
def directory (p : Path) : Path :=
  match p.parent? with
  | some d => if d.text.isEmpty then ⟨"."⟩ else d
  | none => ⟨"."⟩

/-- A file name up to its last dot; a dot in front does not part an extension. -/
def stem (name : List Char) : List Char :=
  match name.reverse.dropWhile (· != '.') with
  | '.' :: front => if front.isEmpty then name else front.reverse
  | _ => name

/-- A file name with another extension in place of its own. A name whose own extension leaves only
`..` in front of it is no file name without it, and gets none. -/
def renamed (name extension : String) : String :=
  let stem := stem name.toList
  if stem = ['.'] then ".." else String.ofList stem ++ "." ++ extension

/-- The path with another extension in place of its own. A path that ends in no file name stays as
it is. -/
def withExtension (p : Path) (extension : String) : Path :=
  match (trimEnd p.segments).reverse with
  | [] => p
  | name :: front =>
    if name = "" ∨ name = "." ∨ name = ".." then p
    else ofSegments false (front.reverse ++ [renamed name extension])

end Path

end GemLang
