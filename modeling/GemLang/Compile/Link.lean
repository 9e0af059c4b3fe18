import GemLang.FileTree
import GemLang.Syntax.Parser

/-!
# Bringing in other files

A `reflect` statement stands for the exports of another file, and a path to a C library is meant
relative to the file it is written in. Both are settled before any code is made: `resolve` replaces
every `reflect` by the statements it stands for and every library path by the path it leads to, all
over a program and in the order in which code is made, so that the first problem found is the first
one a reader of the code would meet.

A file that is being brought in cannot be brought in once more inside itself. This is also why
linking ends: each file on the way is new, and there are only finitely many (`unreflected`).
-/

namespace GemLang

/-! ## Replacing statements -/

/-- What the statements of one file stand for: the statements behind a `reflect`, and the library
behind a path. -/
structure Resolver where
  reflect : String → List String → Except Error (List Stmt)
  library : String → String

namespace Resolver

variable (r : Resolver)

mutual

def expr : Expr → Except Error Expr
  | .number value => .ok (.number value)
  | .text value => .ok (.text value)
  | .bool value => .ok (.bool value)
  | .name x => .ok (.name x)
  | .binary op left right => do
    let left ← expr left
    let right ← expr right
    return .binary op left right
  | .unary op operand => return .unary op (← expr operand)
  | .call callee args => do
    let args ← arguments args
    let callee ← expr callee
    return .call callee args
  | .member object property computed => do
    let object ← expr object
    let property ← expr property
    return .member object property computed
  | .table es => return .table (← entries es)
  | .function name params body => return .function name params (← stmts body)

/-- Resolves arguments, last one first. -/
def arguments : List Expr → Except Error (List Expr)
  | [] => .ok []
  | e :: es => do
    let es ← arguments es
    let e ← expr e
    return e :: es

/-- Resolves table entries, the value of an entry before its key. -/
def entries : List (Expr × Expr) → Except Error (List (Expr × Expr))
  | [] => .ok []
  | (key, value) :: es => do
    let value ← expr value
    let key ← expr key
    let es ← entries es
    return (key, value) :: es

/-- Resolves the keys of a path, last one first. -/
def path : List (Expr × Bool) → Except Error (List (Expr × Bool))
  | [] => .ok []
  | (key, computed) :: ks => do
    let ks ← path ks
    let key ← expr key
    return (key, computed) :: ks

def expr? : Option Expr → Except Error (Option Expr)
  | none => .ok none
  | some e => return some (← expr e)

def stmts : List Stmt → Except Error (List Stmt)
  | [] => .ok []
  | s :: ss => do
    let s ← stmt s
    let ss ← stmts ss
    return s ++ ss

def stmts? : Option (List Stmt) → Except Error (Option (List Stmt))
  | none => .ok none
  | some body => return some (← stmts body)

/-- The statements that a statement stands for. -/
def stmt : Stmt → Except Error (List Stmt)
  | .var name value => return [.var name (← expr value)]
  | .function name params body => return [.function name params (← stmts body)]
  | .assign root keys value => do
    let value ← expr value
    let keys ← path keys
    return [.assign root keys value]
  | .cond condition body more otherwise => do
    let condition ← expr condition
    let body ← stmts body
    let more ← branches more
    let otherwise ← stmts? otherwise
    return [.cond condition body more otherwise]
  | .while condition body => do
    let condition ← expr condition
    let body ← stmts body
    return [.while condition body]
  | .forRange counter start stop step body => do
    let start ← expr start
    let step ← expr? step
    let stop ← expr stop
    let body ← stmts body
    return [.forRange counter start stop step body]
  | .forEach key value iterator body => do
    let iterator ← expr iterator
    let body ← stmts body
    return [.forEach key value iterator body]
  | .return value => return [.return (← expr? value)]
  | .break => .ok [.break]
  | .continue => .ok [.continue]
  | .reflect file names => r.reflect file names
  | .shine inner => stmt inner
  | .foreign name file argTypes returnType =>
    .ok [.foreign name (r.library file) argTypes returnType]
  | .delete name => .ok [.delete name]
  | .expr value => return [.expr (← expr value)]

def branches : List (Expr × List Stmt) → Except Error (List (Expr × List Stmt))
  | [] => .ok []
  | (condition, body) :: more => do
    let condition ← expr condition
    let body ← stmts body
    let more ← branches more
    return (condition, body) :: more

end

end Resolver

/-! ## Files -/

/-- Whether a statement of a file is taken over by a `reflect` with the given names. Its own
`reflect` statements always are, so that its exports can use what they bring in. -/
def Stmt.isTakenOver (names : List String) : Stmt → Bool
  | .reflect _ _ => true
  | .shine inner => names.isEmpty || inner.declaredName?.any names.contains
  | _ => false

namespace Link

variable (t : FileTree)

/-- The file that a `reflect` in the file `origin` means: the path as written if there is a file, or
else with the extension of source files if there is one. -/
def candidate (origin : Path) (path : String) : Path :=
  let plain := origin.directory.join ⟨path⟩
  let extended : Path := ⟨plain.text ++ ".gem"⟩
  if !t.isFile plain && t.isFile extended then extended else plain

/-- The library that a path in the file `origin` means: one next to that file if there is one, and
else the path as it is, for the loader to search. -/
def library (origin : Path) (path : String) : String :=
  let beside := origin.directory.join ⟨path⟩
  if !(Path.mk path).isAbsolute && t.leadsSomewhere beside then (t.canonical beside).text else path

/-- Whether a path is the path of a file that is being brought in. -/
def isReflecting (reflecting : List Path) (p : Path) : Bool := reflecting.any (·.same p)

/-- The number of files that are not being brought in. -/
def unreflected (reflecting : List Path) : Nat :=
  t.files.countP fun f ↦ !isReflecting reflecting (FileTree.pathOf f.1)

theorem isReflecting_cons_self (reflecting : List Path) (p : Path) :
    isReflecting (p :: reflecting) p = true := by
  simp [isReflecting, Path.same]

theorem isReflecting_cons_of {reflecting : List Path} {p : Path} (q : Path)
    (h : isReflecting reflecting p = true) : isReflecting (q :: reflecting) p = true := by
  simp only [isReflecting, List.any_cons, Bool.or_eq_true] at *
  exact .inr h

/-- Counting elements with a stronger property, which some element with the weaker one lacks, gives
less. -/
theorem countP_lt_countP {α : Type} {p q : α → Bool} {xs : List α}
    (hpq : ∀ x ∈ xs, p x = true → q x = true) {a : α} (ha : a ∈ xs) (hq : q a = true)
    (hp : p a = false) : xs.countP p < xs.countP q := by
  induction xs with
  | nil => cases ha
  | cons x xs ih =>
    have hmono := List.countP_mono_left fun y hy ↦ hpq y (List.mem_cons_of_mem _ hy)
    rw [List.countP_cons, List.countP_cons]
    rcases List.mem_cons.mp ha with rfl | ha
    · simp only [hp, hq, Bool.false_eq_true, ↓reduceIte]
      omega
    · have hlt := ih (fun y hy ↦ hpq y (List.mem_cons_of_mem _ hy)) ha
      have hx := hpq x List.mem_cons_self
      by_cases hpx : p x = true
      · simp only [hpx, hx hpx, ↓reduceIte]
        omega
      · simp only [hpx, Bool.false_eq_true, ↓reduceIte]
        split <;> omega

/-- Bringing in a new file leaves fewer files. -/
theorem unreflected_cons_lt {reflecting : List Path} {place : Place} {content : Content}
    (hfile : t.content? place = some content)
    (hnew : isReflecting reflecting (FileTree.pathOf place) = false) :
    unreflected t (FileTree.pathOf place :: reflecting) < unreflected t reflecting := by
  simp only [FileTree.content?, Option.map_eq_some_iff] at hfile
  obtain ⟨f, hfind, -⟩ := hfile
  have hplace : f.1 = place := by simpa using List.find?_some hfind
  have hmem := List.mem_of_find?_eq_some hfind
  refine countP_lt_countP ?_ hmem ?_ ?_
  · intro x _ hx
    by_cases hold : isReflecting reflecting (FileTree.pathOf x.1) = true
    · simp [isReflecting_cons_of _ hold] at hx
    · simpa using hold
  · simp [hplace, hnew]
  · simp [hplace, isReflecting_cons_self]

/-- The statements behind a `reflect` in the file `origin`, while the files `reflecting` are being
brought in. A file is read by its canonical path; a path without one is tried as it is, and its
fault is the one that the system finds first. -/
def inline (origin : Path) (reflecting : List Path) (path : String) (names : List String) :
    Except Error (List Stmt) :=
  let wanted := candidate t origin path
  match t.follow wanted with
  | .error fault =>
    if isReflecting reflecting wanted then .error (.reflectCycle wanted.text origin.text)
    else .error (.unreadable wanted.text ((FileTree.refusal? wanted).getD fault))
  | .ok place =>
    let file := FileTree.pathOf place
    if _hnew : isReflecting reflecting file then .error (.reflectCycle file.text origin.text)
    else
      match _hfile : t.content? place with
      | none => .error (.unreadable file.text .isDirectory)
      | some content =>
        match content.text with
        | .error fault => .error (.unreadable file.text fault)
        | .ok source => do
          let body ← parseSource source file.text
          Resolver.stmts
            ⟨fun path names ↦ inline file (file :: reflecting) path names, library t file⟩
            (body.filter (Stmt.isTakenOver names))
termination_by unreflected t reflecting
decreasing_by exact unreflected_cons_lt t _hfile (by simpa using _hnew)

/-- A program with everything from other files in its place; `origin` is the file it came from. -/
def program (origin : Path) (body : Program) : Except Error Program :=
  Resolver.stmts
    ⟨fun path names ↦ inline t origin [t.canonical origin] path names, library t origin⟩ body

end Link

end GemLang
