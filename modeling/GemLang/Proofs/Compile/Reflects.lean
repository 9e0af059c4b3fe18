import GemLang.Proofs.Compile.Linked

/-!
# The reflect statements of a program

Linking goes over a program for its `reflect` statements only: with every file that these mean it
succeeds, and it stops at the first one whose file it cannot bring in. So the order of the `reflect`
statements is all that matters of a program, wherever they stand, inside functions and blocks too
(`Resolver.settles_stmts`). It is the order in which code is made for the program.
-/

namespace GemLang

/-- What a `reflect` statement asks for: a path and names. -/
abbrev Request := String × List String

/-! ## The order -/

namespace Requests

mutual

def expr : Expr → List Request
  | .number _ | .text _ | .bool _ | .name _ => []
  | .binary _ left right => expr left ++ expr right
  | .unary _ operand => expr operand
  | .call callee args => arguments args ++ expr callee
  | .member object property _ => expr object ++ expr property
  | .table es => entries es
  | .function _ _ body => stmts body

/-- The requests in arguments, those of the last one first. -/
def arguments : List Expr → List Request
  | [] => []
  | e :: es => arguments es ++ expr e

/-- The requests in table entries, those in a value before those in its key. -/
def entries : List (Expr × Expr) → List Request
  | [] => []
  | (key, value) :: es => expr value ++ (expr key ++ entries es)

/-- The requests in the keys of a path, those of the last one first. -/
def path : List (Expr × Bool) → List Request
  | [] => []
  | (key, _) :: ks => path ks ++ expr key

def expr? : Option Expr → List Request
  | none => []
  | some e => expr e

def stmts : List Stmt → List Request
  | [] => []
  | s :: ss => stmt s ++ stmts ss

def stmts? : Option (List Stmt) → List Request
  | none => []
  | some body => stmts body

/-- The requests in a statement. -/
def stmt : Stmt → List Request
  | .var _ value => expr value
  | .function _ _ body => stmts body
  | .assign _ keys value => expr value ++ path keys
  | .cond condition body more otherwise =>
    expr condition ++ (stmts body ++ (branches more ++ stmts? otherwise))
  | .while condition body => expr condition ++ stmts body
  | .forRange _ start stop step body => expr start ++ (expr? step ++ (expr stop ++ stmts body))
  | .forEach _ _ iterator body => expr iterator ++ stmts body
  | .return value => expr? value
  | .break | .continue | .foreign _ _ _ _ | .delete _ => []
  | .reflect file names => [(file, names)]
  | .shine inner => stmt inner
  | .expr value => expr value

def branches : List (Expr × List Stmt) → List Request
  | [] => []
  | (condition, body) :: more => expr condition ++ (stmts body ++ branches more)

end

end Requests

/-! ## Linking requests -/

/-- Whether something succeeds, or the error that it stops with. -/
def outcome {α : Type} (x : Except Error α) : Except Error Unit := x.map fun _ ↦ ()

theorem outcome_bind {α β : Type} {x : Except Error α} {f : α → Except Error β}
    {y : Except Error Unit} (h : ∀ a, outcome (f a) = y) :
    outcome (x >>= f) = (outcome x >>= fun _ ↦ y) := by
  cases x with
  | error e => rfl
  | ok a => exact h a

theorem outcome_map {α β : Type} (x : Except Error α) (f : α → β) :
    outcome (x >>= fun a ↦ pure (f a)) = outcome x := by
  cases x <;> rfl

/-- Requests are settled one after the other, up to the first one that fails. -/
def settle (f : Request → Except Error Unit) : List Request → Except Error Unit
  | [] => .ok ()
  | r :: rs => f r >>= fun _ ↦ settle f rs

theorem settle_append (f : Request → Except Error Unit) (rs qs : List Request) :
    settle f (rs ++ qs) = (settle f rs >>= fun _ ↦ settle f qs) := by
  induction rs with
  | nil => rfl
  | cons r rs ih =>
    rw [List.cons_append, settle, settle, ih]
    cases f r <;> rfl

namespace Resolver

variable (r : Resolver)

/-- Settling a request by what it stands for. -/
def settles (q : Request) : Except Error Unit := outcome (r.reflect q.1 q.2)

/-- Something that settles the requests `rs` on the way, and nothing else. -/
def Settles {α : Type} (rs : List Request) (x : Except Error α) : Prop :=
  outcome x = settle r.settles rs

variable {r}

theorem Settles.pure {α : Type} {a : α} : r.Settles [] (.ok a) := rfl

theorem Settles.bind {α β : Type} {rs qs : List Request} {x : Except Error α}
    {f : α → Except Error β} (hx : r.Settles rs x) (hf : ∀ a, r.Settles qs (f a)) :
    r.Settles (rs ++ qs) (x >>= f) := by
  rw [Settles, settle_append, outcome_bind hf, hx]

theorem Settles.map {α β : Type} {rs : List Request} {x : Except Error α} (hx : r.Settles rs x)
    (f : α → β) : r.Settles rs (x >>= fun a ↦ Pure.pure (f a)) :=
  (outcome_map x f).trans hx

variable (r)

mutual

theorem settles_expr (e : Expr) : r.Settles (Requests.expr e) (r.expr e) := by
  match e with
  | .number _ | .text _ | .bool _ | .name _ => exact .pure
  | .binary _ left right =>
    exact (settles_expr left).bind fun _ ↦ (settles_expr right).map _
  | .unary _ operand => exact (settles_expr operand).map _
  | .call callee args =>
    exact (settles_arguments args).bind fun _ ↦ (settles_expr callee).map _
  | .member object property _ =>
    exact (settles_expr object).bind fun _ ↦ (settles_expr property).map _
  | .table es => exact (settles_entries es).map _
  | .function _ _ body => exact (settles_stmts body).map _

theorem settles_arguments (es : List Expr) :
    r.Settles (Requests.arguments es) (r.arguments es) := by
  match es with
  | [] => exact .pure
  | e :: es => exact (settles_arguments es).bind fun _ ↦ (settles_expr e).map _

theorem settles_entries (es : List (Expr × Expr)) :
    r.Settles (Requests.entries es) (r.entries es) := by
  match es with
  | [] => exact .pure
  | (key, value) :: es =>
    exact (settles_expr value).bind fun _ ↦ (settles_expr key).bind fun _ ↦
      (settles_entries es).map _

theorem settles_path (ks : List (Expr × Bool)) : r.Settles (Requests.path ks) (r.path ks) := by
  match ks with
  | [] => exact .pure
  | (key, _) :: ks => exact (settles_path ks).bind fun _ ↦ (settles_expr key).map _

theorem settles_expr? (e : Option Expr) : r.Settles (Requests.expr? e) (r.expr? e) := by
  match e with
  | none => exact .pure
  | some e => exact (settles_expr e).map _

/-- **Linking settles the requests of a program**, in their order. -/
theorem settles_stmts (ss : List Stmt) : r.Settles (Requests.stmts ss) (r.stmts ss) := by
  match ss with
  | [] => exact .pure
  | s :: ss => exact (settles_stmt s).bind fun _ ↦ (settles_stmts ss).map _

theorem settles_stmts? (ss : Option (List Stmt)) :
    r.Settles (Requests.stmts? ss) (r.stmts? ss) := by
  match ss with
  | none => exact .pure
  | some ss => exact (settles_stmts ss).map _

theorem settles_stmt (s : Stmt) : r.Settles (Requests.stmt s) (r.stmt s) := by
  match s with
  | .var _ value => exact (settles_expr value).map _
  | .function _ _ body => exact (settles_stmts body).map _
  | .assign _ keys value =>
    exact (settles_expr value).bind fun _ ↦ (settles_path keys).map _
  | .cond condition body more otherwise =>
    exact (settles_expr condition).bind fun _ ↦ (settles_stmts body).bind fun _ ↦
      (settles_branches more).bind fun _ ↦ (settles_stmts? otherwise).map _
  | .while condition body =>
    exact (settles_expr condition).bind fun _ ↦ (settles_stmts body).map _
  | .forRange _ start stop step body =>
    exact (settles_expr start).bind fun _ ↦ (settles_expr? step).bind fun _ ↦
      (settles_expr stop).bind fun _ ↦ (settles_stmts body).map _
  | .forEach _ _ iterator body =>
    exact (settles_expr iterator).bind fun _ ↦ (settles_stmts body).map _
  | .return value => exact (settles_expr? value).map _
  | .break | .continue | .foreign _ _ _ _ | .delete _ => exact .pure
  | .reflect file names =>
    change outcome (r.reflect file names) = (outcome (r.reflect file names) >>= fun _ ↦ .ok ())
    cases r.reflect file names <;> rfl
  | .shine inner => exact settles_stmt inner
  | .expr value => exact (settles_expr value).map _

theorem settles_branches (bs : List (Expr × List Stmt)) :
    r.Settles (Requests.branches bs) (r.branches bs) := by
  match bs with
  | [] => exact .pure
  | (condition, body) :: more =>
    exact (settles_expr condition).bind fun _ ↦ (settles_stmts body).bind fun _ ↦
      (settles_branches more).map _

end

end Resolver

end GemLang
