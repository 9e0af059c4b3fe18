import GemLang.Text.Shown
import GemLang.Value

/-!
# Scopes

A scope is where names are bound. It has an operand stack of its own and stands inside other scopes.
Scopes are shared by the functions made in them, so they live in a heap and are named by number; a
scope once made is never taken away.

Every scope keeps the numbers of the scopes around it, nearest first. A name means its nearest
binding: the one in `owner?`, the first scope from inside out that binds it.
-/

namespace GemLang

/-- An operand stack with its top first, the bindings made here, and the scopes around, nearest
first. -/
structure Scope where
  stack : List Value
  bindings : Assoc String Value
  outer : List ScopeId

/-- A scope with nothing in it, inside others. -/
def Scope.empty (outer : List ScopeId) : Scope := ⟨[], [], outer⟩

/-- All scopes. -/
structure Heap where
  scopes : Array Scope

namespace Heap

/-- A heap with one scope that stands in no other. -/
def initial : Heap := ⟨#[Scope.empty []]⟩

variable (h : Heap)

def scope (s : ScopeId) : Scope := h.scopes.getD s (Scope.empty [])

def modify (s : ScopeId) (f : Scope → Scope) : Heap := ⟨h.scopes.modify s f⟩

def nextScope : ScopeId := h.scopes.size

def addChild (parent : ScopeId) : Heap :=
  ⟨h.scopes.push (Scope.empty (parent :: (h.scope parent).outer))⟩

/-! ## Stacks -/

/-- The values on the stack of a scope, top first. -/
def stack (s : ScopeId) : List Value := (h.scope s).stack

/-- The number of values on the stack of a scope. -/
def depth (s : ScopeId) : Nat := (h.stack s).length

def setStack (s : ScopeId) (values : List Value) : Heap := h.modify s ({ · with stack := values })

/-- Puts a value on top of the stack of a scope. -/
def push (s : ScopeId) (v : Value) : Heap :=
  h.modify s fun scope ↦ { scope with stack := v :: scope.stack }

/-! ## Names -/

/-- A scope and the scopes around it, nearest first. -/
def chain (s : ScopeId) : List ScopeId := s :: (h.scope s).outer

/-- Whether a scope itself binds a name. -/
def binds (s : ScopeId) (name : String) : Bool := Assoc.has (h.scope s).bindings name

/-- The scope that holds the nearest binding of a name. -/
def owner? (s : ScopeId) (name : String) : Option ScopeId := (h.chain s).find? (h.binds · name)

def lookup (s : ScopeId) (name : String) : Option Value :=
  (h.owner? s name).bind fun o ↦ Assoc.get? (h.scope o).bindings name

def declare (s : ScopeId) (name : String) (v : Value) : Heap :=
  h.modify s fun scope ↦ { scope with bindings := Assoc.insert scope.bindings name v }

/-- Removes the binding of a name in a scope itself. -/
def undeclare (s : ScopeId) (name : String) : Heap :=
  h.modify s fun scope ↦ { scope with bindings := Assoc.erase scope.bindings name }

/-- Changes the nearest binding of a name; there is none to change when no scope binds it. -/
def assign? (s : ScopeId) (name : String) (v : Value) : Option Heap :=
  (h.owner? s name).map fun o ↦ h.declare o name v

/-- Removes the nearest binding of a name. -/
def remove? (s : ScopeId) (name : String) : Option (Value × Heap) :=
  match h.owner? s name with
  | none => none
  | some o => (Assoc.get? (h.scope o).bindings name).map fun v ↦ (v, h.undeclare o name)

/-! ## Description -/

/-- A description of a scope: the names it binds in order, the depth of its stack, and whether it
stands in another scope. -/
def describe (s : ScopeId) : String :=
  let names := ((h.scope s).bindings.map (·.1)).mergeSort fun a b ↦ decide (a ≤ b)
  let outer := if (h.scope s).outer.isEmpty then "false" else "true"
  "Scope \x7b bindings: [" ++ ", ".intercalate (names.map Text.shown) ++ "], depth: " ++
    toString (h.depth s) ++ ", has_parent: " ++ outer ++ " \x7d"

end Heap

end GemLang
