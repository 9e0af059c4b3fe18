import GemLang.Error
import GemLang.Syntax
import Mathlib

/-!
# What trees are spelled with

Most of a syntax tree is structure. What is left are texts and numbers that end up as operands: the
names a program uses, the paths of its libraries, and how long the paths of keys are that it assigns
to. A `Spelling` is a condition on these, and a tree satisfies it when everything in it does,
functions and blocks included.

Whether a tree reflects other files is a condition of the same kind, so it is part of a spelling
too.

A function that may fail is described by what it *ensures*, which is what holds of its result if it
has one.
-/

namespace GemLang

/-- Conditions on what is written in a program. -/
structure Spelling where
  /-- On every name, of variables, functions, parameters and C types alike. -/
  name : String → Prop
  /-- On the path of every C library. -/
  library : String → Prop
  /-- On there being a `reflect` statement. -/
  reflect : Prop
  /-- On the number of keys in the target of every assignment. -/
  depth : Nat → Prop

namespace Spelling

variable (S : Spelling)

mutual

def expr : Expr → Prop
  | .number _ | .text _ | .bool _ => True
  | .name x => S.name x
  | .binary _ left right => expr left ∧ expr right
  | .unary _ operand => expr operand
  | .call callee args => expr callee ∧ arguments args
  | .member object property _ => expr object ∧ expr property
  | .table es => entries es
  | .function name params body => S.name name ∧ (∀ x ∈ params, S.name x) ∧ stmts body

def arguments : List Expr → Prop
  | [] => True
  | e :: es => expr e ∧ arguments es

def entries : List (Expr × Expr) → Prop
  | [] => True
  | (key, value) :: es => expr key ∧ expr value ∧ entries es

def path : List (Expr × Bool) → Prop
  | [] => True
  | (key, _) :: ks => expr key ∧ path ks

def expr? : Option Expr → Prop
  | none => True
  | some e => expr e

def stmts : List Stmt → Prop
  | [] => True
  | s :: ss => stmt s ∧ stmts ss

def stmts? : Option (List Stmt) → Prop
  | none => True
  | some ss => stmts ss

def stmt : Stmt → Prop
  | .var name value => S.name name ∧ expr value
  | .function name params body => S.name name ∧ (∀ x ∈ params, S.name x) ∧ stmts body
  | .assign root keys value => S.name root ∧ S.depth keys.length ∧ path keys ∧ expr value
  | .cond condition body more otherwise =>
    expr condition ∧ stmts body ∧ branches more ∧ stmts? otherwise
  | .while condition body => expr condition ∧ stmts body
  | .forRange counter start stop step body =>
    S.name counter ∧ expr start ∧ expr stop ∧ expr? step ∧ stmts body
  | .forEach key value iterator body => S.name key ∧ S.name value ∧ expr iterator ∧ stmts body
  | .return value => expr? value
  | .break | .continue => True
  | .reflect _ _ => S.reflect
  | .shine inner => stmt inner
  | .foreign name library argTypes returnType =>
    S.name name ∧ S.library library ∧ (∀ x ∈ argTypes, S.name x) ∧ S.name returnType
  | .delete name => S.name name
  | .expr value => expr value

def branches : List (Expr × List Stmt) → Prop
  | [] => True
  | (condition, body) :: more => expr condition ∧ stmts body ∧ branches more

end

variable {S}

theorem stmts_iff {ss : List Stmt} : S.stmts ss ↔ ∀ s ∈ ss, S.stmt s := by
  induction ss with
  | nil => simp [stmts]
  | cons s ss ih => simp [stmts, ih]

theorem stmts_append {ss ts : List Stmt} : S.stmts (ss ++ ts) ↔ S.stmts ss ∧ S.stmts ts := by
  simp only [stmts_iff, List.forall_mem_append]

theorem path_append {ks ls : List (Expr × Bool)} :
    S.path (ks ++ ls) ↔ S.path ks ∧ S.path ls := by
  induction ks with
  | nil => simp [path]
  | cons k ks ih => simp [path, ih, and_assoc]

/-! ## Joining spellings -/

/-- What satisfies the conditions of two spellings satisfies those of a third. -/
structure Joins (S T U : Spelling) : Prop where
  name {x : String} : S.name x → T.name x → U.name x
  library {p : String} : S.library p → T.library p → U.library p
  reflect : S.reflect → T.reflect → U.reflect
  depth {n : Nat} : S.depth n → T.depth n → U.depth n

variable {T U : Spelling}

theorem Joins.names (hU : Joins S T U) {xs : List String} (hS : ∀ x ∈ xs, S.name x)
    (hT : ∀ x ∈ xs, T.name x) : ∀ x ∈ xs, U.name x :=
  fun x hx ↦ hU.name (hS x hx) (hT x hx)

mutual

theorem Joins.expr (hU : Joins S T U) (e : Expr) (hS : S.expr e) (hT : T.expr e) : U.expr e := by
  match e with
  | .number _ | .text _ | .bool _ => trivial
  | .name x => exact hU.name hS hT
  | .binary _ left right => exact ⟨hU.expr left hS.1 hT.1, hU.expr right hS.2 hT.2⟩
  | .unary _ operand => exact hU.expr operand hS hT
  | .call callee args => exact ⟨hU.expr callee hS.1 hT.1, hU.arguments args hS.2 hT.2⟩
  | .member object property _ =>
    exact ⟨hU.expr object hS.1 hT.1, hU.expr property hS.2 hT.2⟩
  | .table es => exact hU.entries es hS hT
  | .function name params body =>
    exact ⟨hU.name hS.1 hT.1, hU.names hS.2.1 hT.2.1, hU.stmts body hS.2.2 hT.2.2⟩

theorem Joins.arguments (hU : Joins S T U) (es : List Expr) (hS : S.arguments es)
    (hT : T.arguments es) : U.arguments es := by
  match es with
  | [] => trivial
  | e :: es => exact ⟨hU.expr e hS.1 hT.1, hU.arguments es hS.2 hT.2⟩

theorem Joins.entries (hU : Joins S T U) (es : List (Expr × Expr)) (hS : S.entries es)
    (hT : T.entries es) : U.entries es := by
  match es with
  | [] => trivial
  | (key, value) :: es =>
    exact ⟨hU.expr key hS.1 hT.1, hU.expr value hS.2.1 hT.2.1,
      hU.entries es hS.2.2 hT.2.2⟩

theorem Joins.path (hU : Joins S T U) (ks : List (Expr × Bool)) (hS : S.path ks) (hT : T.path ks) :
    U.path ks := by
  match ks with
  | [] => trivial
  | (key, _) :: ks => exact ⟨hU.expr key hS.1 hT.1, hU.path ks hS.2 hT.2⟩

theorem Joins.expr? (hU : Joins S T U) (e : Option Expr) (hS : S.expr? e) (hT : T.expr? e) :
    U.expr? e := by
  match e with
  | none => trivial
  | some e => exact hU.expr e hS hT

theorem Joins.stmts (hU : Joins S T U) (ss : List Stmt) (hS : S.stmts ss) (hT : T.stmts ss) :
    U.stmts ss := by
  match ss with
  | [] => trivial
  | s :: ss => exact ⟨hU.stmt s hS.1 hT.1, hU.stmts ss hS.2 hT.2⟩

theorem Joins.stmts? (hU : Joins S T U) (ss : Option (List Stmt)) (hS : S.stmts? ss)
    (hT : T.stmts? ss) : U.stmts? ss := by
  match ss with
  | none => trivial
  | some ss => exact hU.stmts ss hS hT

theorem Joins.stmt (hU : Joins S T U) (s : Stmt) (hS : S.stmt s) (hT : T.stmt s) : U.stmt s := by
  match s with
  | .var name value => exact ⟨hU.name hS.1 hT.1, hU.expr value hS.2 hT.2⟩
  | .function name params body =>
    exact ⟨hU.name hS.1 hT.1, hU.names hS.2.1 hT.2.1, hU.stmts body hS.2.2 hT.2.2⟩
  | .assign root keys value =>
    exact ⟨hU.name hS.1 hT.1, hU.depth hS.2.1 hT.2.1, hU.path keys hS.2.2.1 hT.2.2.1,
      hU.expr value hS.2.2.2 hT.2.2.2⟩
  | .cond condition body more otherwise =>
    exact ⟨hU.expr condition hS.1 hT.1, hU.stmts body hS.2.1 hT.2.1,
      hU.branches more hS.2.2.1 hT.2.2.1, hU.stmts? otherwise hS.2.2.2 hT.2.2.2⟩
  | .while condition body => exact ⟨hU.expr condition hS.1 hT.1, hU.stmts body hS.2 hT.2⟩
  | .forRange counter start stop step body =>
    exact ⟨hU.name hS.1 hT.1, hU.expr start hS.2.1 hT.2.1, hU.expr stop hS.2.2.1 hT.2.2.1,
      hU.expr? step hS.2.2.2.1 hT.2.2.2.1, hU.stmts body hS.2.2.2.2 hT.2.2.2.2⟩
  | .forEach key value iterator body =>
    exact ⟨hU.name hS.1 hT.1, hU.name hS.2.1 hT.2.1, hU.expr iterator hS.2.2.1 hT.2.2.1,
      hU.stmts body hS.2.2.2 hT.2.2.2⟩
  | .return value => exact hU.expr? value hS hT
  | .break | .continue => trivial
  | .reflect _ _ => exact hU.reflect hS hT
  | .shine inner => exact hU.stmt inner hS hT
  | .foreign name library argTypes returnType =>
    exact ⟨hU.name hS.1 hT.1, hU.library hS.2.1 hT.2.1, hU.names hS.2.2.1 hT.2.2.1,
      hU.name hS.2.2.2 hT.2.2.2⟩
  | .delete name => exact hU.name hS hT
  | .expr value => exact hU.expr value hS hT

theorem Joins.branches (hU : Joins S T U) (bs : List (Expr × List Stmt)) (hS : S.branches bs)
    (hT : T.branches bs) : U.branches bs := by
  match bs with
  | [] => trivial
  | (condition, body) :: more =>
    exact ⟨hU.expr condition hS.1 hT.1, hU.stmts body hS.2.1 hT.2.1,
      hU.branches more hS.2.2 hT.2.2⟩

end

end Spelling

/-! ## Functions that may fail -/

section Results

variable {α β : Type} {E : Error → Prop} {Q : α → Prop} {R : β → Prop}

/-- A result that satisfies `Q`, or an error that satisfies `E`. -/
inductive Delivers (E : Error → Prop) (Q : α → Prop) : Except Error α → Prop where
  | ok {a : α} (h : Q a) : Delivers E Q (.ok a)
  | error {e : Error} (h : E e) : Delivers E Q (.error e)

theorem Delivers.bind {x : Except Error α} {f : α → Except Error β} (hx : Delivers E Q x)
    (hf : ∀ a, Q a → Delivers E R (f a)) : Delivers E R (x >>= f) := by
  cases hx with
  | ok h => exact hf _ h
  | error h => exact .error h

theorem Delivers.mono {Q' : α → Prop} {x : Except Error α} (hx : Delivers E Q x)
    (h : ∀ a, Q a → Q' a) : Delivers E Q' x := by
  cases hx with
  | ok ha => exact .ok (h _ ha)
  | error he => exact .error he

/-- If there is a result, it satisfies `Q`. -/
def Ensures (Q : α → Prop) (x : Except Error α) : Prop := Delivers (fun _ ↦ True) Q x

namespace Ensures

theorem ok {a : α} (h : Q a) : Ensures Q (.ok a) := Delivers.ok h

theorem error {e : Error} : Ensures Q (.error e) := Delivers.error trivial

theorem bind {x : Except Error α} {f : α → Except Error β} (hx : Ensures Q x)
    (hf : ∀ a, Q a → Ensures R (f a)) : Ensures R (x >>= f) :=
  Delivers.bind hx hf

theorem mono {Q' : α → Prop} {x : Except Error α} (hx : Ensures Q x) (h : ∀ a, Q a → Q' a) :
    Ensures Q' x :=
  Delivers.mono hx h

theorem of_eq_ok {x : Except Error α} (hx : Ensures Q x) {a : α} (h : x = .ok a) : Q a := by
  subst h
  cases hx with
  | ok h => exact h

end Ensures

end Results

end GemLang
