import GemLang.Compile.Lower
import GemLang.Proofs.Compile.Shape

/-!
# Lowering and shapes

Whatever is lowered, the code has one of the shapes of compiled code: `shaped_expr`, `shaped_stmt`
and their companions, one for each kind of construct. If a tree is *tidy*, which is to say that it
reads a member only to call it and declares no foreign function of more arguments than a float can
count, then so is the shape of its code.

Lowering numbers hidden names as it goes. The shapes do not depend on these numbers, so all
statements are about every number to start from (`Yields`).
-/

namespace GemLang

open Bytecode

/-! ## Tidy trees -/

namespace Tidy

mutual

/-- Whether a member is read in an expression, functions in it apart, only to be called. -/
def expr : Expr → Bool
  | .number _ | .text _ | .bool _ | .name _ => true
  | .binary _ left right => expr left && expr right
  | .unary _ operand => expr operand
  | .call callee args => (expr callee || receiver callee) && arguments args
  | .member _ _ _ => false
  | .table es => entries es
  | .function _ _ _ => true

/-- Whether an expression is a member of something tidy, under a tidy key. -/
def receiver : Expr → Bool
  | .member object property _ => expr object && expr property
  | _ => false

def arguments : List Expr → Bool
  | [] => true
  | e :: es => expr e && arguments es

def entries : List (Expr × Expr) → Bool
  | [] => true
  | (key, value) :: es => expr key && expr value && entries es

def path : List (Expr × Bool) → Bool
  | [] => true
  | (key, _) :: ks => expr key && path ks

def stmts : List Stmt → Bool
  | [] => true
  | s :: ss => stmt s && stmts ss

/-- Whether a statement is tidy. The target of an assignment is not read. -/
def stmt : Stmt → Bool
  | .var _ value => expr value
  | .function _ _ _ => true
  | .assign _ keys value => expr value && path keys
  | .cond condition body more none => expr condition && stmts body && branches more
  | .cond condition body more (some other) =>
    expr condition && stmts body && branches more && stmts other
  | .while condition body => expr condition && stmts body
  | .forRange _ start stop none body => expr start && expr stop && stmts body
  | .forRange _ start stop (some step) body =>
    expr start && expr stop && expr step && stmts body
  | .forEach _ _ iterator body => expr iterator && stmts body
  | .return none => true
  | .return (some value) => expr value
  | .shine inner => stmt inner
  | .expr value => expr value
  | .foreign _ _ argTypes _ => argTypes.length < 2 ^ 53
  | .break | .continue | .reflect _ _ | .delete _ => true

def branches : List (Expr × List Stmt) → Bool
  | [] => true
  | (condition, body) :: more => expr condition && stmts body && branches more

end

end Tidy

/-! ## The pieces of lowering -/

def Bytecode.instructionsOf (ls : List Line) : List Instruction := ls.map (·.instruction)

@[simp] theorem instructionsOf_nil : instructionsOf [] = [] := rfl

@[simp] theorem instructionsOf_append (ls ms : List Line) :
    instructionsOf (ls ++ ms) = instructionsOf ls ++ instructionsOf ms := by
  simp [instructionsOf]

@[simp] theorem instructionsOf_cons (l : Line) (ls : List Line) :
    instructionsOf (l :: ls) = l.instruction :: instructionsOf ls := rfl

@[simp] theorem instructionsOf_block (opener : Instruction) (ls : List Line) :
    instructionsOf (block opener ls) = opener :: instructionsOf ls := by
  simp [instructionsOf, block, indent]

@[simp] theorem instructionsOf_bare (op : Opcode) : instructionsOf (bare op) = [.plain op []] := rfl

@[simp] theorem instructionsOf_unary (op : Opcode) (operand : String) :
    instructionsOf (unary op operand) = [.plain op [operand]] := rfl

theorem codeOf_eq_flatten (ls : List Line) : codeOf ls = flatten (instructionsOf ls) := by
  simp [codeOf, flatten, instructionsOf, List.flatMap_map]

namespace Lower

/-- What the lowering of a construct produces, whatever hidden names have been used before. -/
structure Yields {α : Type} (Q : α → Prop) (x : StateM Nat α) : Prop where
  run (n : Nat) : Q (x.run n).1

variable {α β : Type} {Q : α → Prop} {R : β → Prop}

theorem Yields.pure {a : α} (h : Q a) : Yields Q (pure a) := ⟨fun _ ↦ h⟩

theorem Yields.bind {x : StateM Nat α} {f : α → StateM Nat β} (hx : Yields Q x)
    (hf : ∀ a, Q a → Yields R (f a)) : Yields R (x >>= f) :=
  ⟨fun n ↦ (hf (x.run n).1 (hx.run n)).run (x.run n).2⟩

theorem Yields.mono {Q' : α → Prop} {x : StateM Nat α} (hx : Yields Q x)
    (h : ∀ a, Q a → Q' a) : Yields Q' x :=
  ⟨fun n ↦ h _ (hx.run n)⟩

/-- A construct that may be computed beforehand yields the push of a number, or what it yields
otherwise. -/
theorem Yields.constantOr {Q : List Line → Prop} {lines : StateM Nat (List Line)}
    (hnumber : ∀ value, Q (pushNumber value)) (hlines : Yields Q lines) (optimize : Bool)
    (e : Expr) : Yields Q (constantOr optimize e lines) := by
  unfold Lower.constantOr
  split
  · exact .pure (hnumber _)
  · exact hlines

theorem yields_freshName : Yields (fun name ↦ ∃ n, name = hiddenName n) freshName :=
  ⟨fun n ↦ ⟨n + 1, rfl⟩⟩

/-- Lines of a shape. -/
def Shaped (form : Form) (ls : List Line) : Prop := Shape form (instructionsOf ls)

theorem shaped_pushNumber {t : Bool} (value : Float) : Shaped (.value t) (pushNumber value) :=
  .operand (.inl rfl)

theorem shaped_noChain {t : Bool} : Shaped (.chain t) [] := .chainEnd

theorem shaped_branchLines {t : Bool} {c b : List Line} {chain : List Line}
    (hc : Shaped (.value t) c) (hb : Shaped (.body t) b) (hchain : Shaped (.chain t) chain) :
    Shaped (.body t) (branchLines .ifOp c b ++ chain) := by
  have h := Shape.branch hc hb hchain
  simpa [Shaped, branchLines] using h

theorem shaped_elif {t : Bool} {c b : List Line} {chain : List Line}
    (hc : Shaped (.value t) c) (hb : Shaped (.body t) b) (hchain : Shaped (.chain t) chain) :
    Shaped (.chain t) (branchLines .elifOp c b ++ chain) := by
  have h := Shape.chainElif hc hb hchain
  simpa [Shaped, branchLines] using h

theorem shaped_otherwiseLines {t : Bool} {b : List Line} (hb : Shaped (.body t) b) :
    Shaped (.chain t) (otherwiseLines b) := by
  have h := Shape.chainElse hb
  simpa [Shaped, otherwiseLines] using h

theorem shaped_loopLines {t : Bool} {b : List Line} (hb : Shaped (.body t) b) :
    Shaped (.body t) (loopLines b) := by
  have h := Shape.loop hb
  simpa [Shaped, loopLines] using h

theorem shaped_functionLines {t : Bool} {name : String} {params : List String} {b : List Line}
    (hb : Shaped (.body false) b) : Shaped (.value t) (functionLines name params b) := by
  have h := Shape.function (t := t) name params hb
  simpa [Shaped, functionLines] using h

theorem shaped_member {t : Bool} {o k : List Line} (ho : Shaped (.value t) o)
    (hk : Shaped (.value t) k) : Shaped (.callee t) (o ++ k ++ bare .loadKey) := by
  have h := Shape.calleeMember ho hk
  simpa [Shaped] using h

theorem shaped_binary {t : Bool} {l r : List Line} (op : BinaryOp) (hl : Shaped (.value t) l)
    (hr : Shaped (.value t) r) : Shaped (.value t) (l ++ r ++ bare op.opcode) := by
  have h := Shape.binary op hl hr
  simpa [Shaped] using h

theorem shaped_bind {t : Bool} {x : List Line} {op : Opcode} (name : String)
    (hop : op = .declareLocal ∨ op = .storeLocal) (hx : Shaped (.value t) x) :
    Shaped (.body t) (x ++ unary op name) := by
  have h := Shape.bind name hop hx
  simpa [Shaped] using h

theorem shaped_sequence {t : Bool} {a b : List Line} (ha : Shaped (.body t) a)
    (hb : Shaped (.body t) b) : Shaped (.body t) (a ++ b) := by
  have h := Shape.sequence ha hb
  simpa [Shaped] using h

theorem shaped_breakWhen {t : Bool} {c : List Line} (hc : Shaped (.value t) c) :
    Shaped (.body t) (breakWhen c) := by
  have hbreak : Shaped (.body t) (bare .breakOp) := .jump (.inl rfl)
  simpa [breakWhen] using shaped_branchLines hc hbreak shaped_noChain

theorem shaped_rangeLines {t : Bool} {counter : String} {first step stop body : List Line}
    (hfirst : Shaped (.value t) first) (hstep : Shaped (.value t) step)
    (hstop : Shaped (.value t) stop) (hbody : Shaped (.body t) body) :
    Shaped (.body t) (rangeLines counter first step stop body) := by
  have hread : Shaped (.value t) (unary .loadLocal counter) := .operand (.inr rfl)
  have hnext : Shaped (.body t)
      (unary .loadLocal counter ++ step ++ bare .add ++ unary .storeLocal counter) :=
    shaped_bind counter (.inr rfl) (shaped_binary .add hread hstep)
  have htest : Shaped (.body t) (breakWhen (unary .loadLocal counter ++ stop ++ bare .greaterEq)) :=
    shaped_breakWhen (shaped_binary .greaterEq hread hstop)
  have hloop := shaped_loopLines (shaped_sequence (shaped_sequence hnext htest) hbody)
  have hinside := shaped_sequence (shaped_bind counter (.inl rfl) hfirst) hloop
  have hone : Shaped (.value t) (unary .push "1") := .operand (.inl rfl)
  simpa [rangeLines] using shaped_branchLines hone hinside shaped_noChain

theorem shaped_eachLines {t : Bool} {hidden key value : String} {iterator body : List Line}
    (hiterator : Shaped (.value t) iterator) (hbody : Shaped (.body t) body) :
    Shaped (.body t) (eachLines hidden key value iterator body) := by
  have hread (name : String) : Shaped (.value t) (unary .loadLocal name) := .operand (.inr rfl)
  have htest : Shaped (.body t)
      (breakWhen (unary .loadLocal key ++ unary .loadLocal "null" ++ bare .eq)) :=
    shaped_breakWhen (shaped_binary .eq (hread key) (hread "null"))
  have hloop := Shape.each hidden key value (shaped_sequence htest hbody)
  have hstart := shaped_bind hidden (.inl rfl) hiterator
  have h := (Shape.sequence hstart hloop).sequence (.delete hidden)
  simpa [Shaped, eachLines, loopLines] using h

theorem shaped_storeLines {t : Bool} {x keys : List Line} {depth : Nat} {root : String}
    (hx : Shaped (.value t) x) (hkeys : Shaped (.values t depth) keys) :
    Shaped (.body t) (x ++ keys ++ storeLines root depth) := by
  cases depth with
  | zero =>
    generalize hform : Form.values t 0 = form at hkeys
    unfold Shaped at hkeys
    generalize his : instructionsOf keys = is at hkeys
    cases hkeys <;> cases hform
    have h := Shape.bind root (.inr rfl) hx
    simpa [Shaped, storeLines, his] using h
  | succ count =>
    have h := Shape.storePath root hx hkeys
    simpa [Shaped, storeLines] using h

theorem shaped_foreignLines {t : Bool} (name path : String) {argTypes : List String}
    (returnType : String) (hcount : t = true → argTypes.length < 2 ^ 53) :
    Shaped (.body t) (foreignLines name path argTypes returnType) := by
  have hpushes (xs : List String) :
      instructionsOf (xs.flatMap (unary .push)) = xs.map fun x ↦ .plain .push [x] := by
    induction xs with
    | nil => rfl
    | cons x xs ih => simp [ih]
  have hlength : t = true → argTypes.reverse.length < 2 ^ 53 := by simpa using hcount
  have h := Shape.foreign name (libraryOperand path) returnType hlength
  simpa [Shaped, foreignLines, hpushes] using h

/-! ## Trees -/

theorem tidy_left {t a b : Bool} (h : t = true → (a && b) = true) : t = true → a = true :=
  fun ht ↦ (Bool.and_eq_true_iff.mp (h ht)).1

theorem tidy_right {t a b : Bool} (h : t = true → (a && b) = true) : t = true → b = true :=
  fun ht ↦ (Bool.and_eq_true_iff.mp (h ht)).2

variable (optimize : Bool)

mutual

theorem shaped_expr {t : Bool} (e : Expr) (h : t = true → Tidy.expr e = true) :
    Yields (Shaped (.value t)) (expr optimize e) := by
  match e with
  | .number value => exact .pure (shaped_pushNumber value)
  | .text value => exact .pure (.operand (.inl rfl))
  | .bool value => exact .pure (.operand (.inr rfl))
  | .name x => exact .pure (.operand (.inr rfl))
  | .binary op left right =>
    refine .constantOr shaped_pushNumber ?_ optimize _
    refine (shaped_expr left (tidy_left h)).bind fun l hl ↦ ?_
    refine (shaped_expr right (tidy_right h)).bind fun r hr ↦ ?_
    exact .pure (shaped_binary op hl hr)
  | .unary op operand =>
    refine .constantOr shaped_pushNumber ?_ optimize _
    refine (shaped_expr operand h).bind fun x hx ↦ ?_
    cases op with
    | negate =>
      have hzero : Shaped (.value t) (unary .push "0") := .operand (.inl rfl)
      exact .pure (shaped_binary .sub hzero hx)
    | not => exact .pure (by simpa [Shaped] using Shape.not hx)
  | .call callee args =>
    refine (shaped_arguments args (tidy_right h)).bind fun xs hxs ↦ ?_
    refine (shaped_callee callee (tidy_left h)).bind fun f hf ↦ ?_
    exact .pure (by simpa [Shaped] using Shape.call hxs hf)
  | .member object property _ =>
    obtain rfl : t = false := by simpa [Tidy.expr] using h
    refine (shaped_expr object (t := false) (by simp)).bind fun o ho ↦ ?_
    refine (shaped_expr property (t := false) (by simp)).bind fun k hk ↦ ?_
    exact .pure (by simpa [Shaped] using Shape.member ho hk)
  | .table es =>
    refine (shaped_entries es h).bind fun xs hxs ↦ ?_
    exact .pure (hxs _ .newTable)
  | .function name params body =>
    refine (shaped_stmts body (t := false) (by simp)).bind fun b hb ↦ ?_
    exact .pure (shaped_functionLines hb)
termination_by (sizeOf e, 0)
decreasing_by
  all_goals
    simp
    omega

/-- The code of what is called has the shape of a function to be called. -/
theorem shaped_callee {t : Bool} (e : Expr)
    (h : t = true → (Tidy.expr e || Tidy.receiver e) = true) :
    Yields (Shaped (.callee t)) (expr optimize e) := by
  by_cases hmember : ∃ object property computed, e = .member object property computed
  · obtain ⟨object, property, computed, rfl⟩ := hmember
    have h' : t = true → (Tidy.expr object && Tidy.expr property) = true := by
      simpa [Tidy.expr, Tidy.receiver] using h
    refine (shaped_expr object (tidy_left h')).bind fun o ho ↦ ?_
    refine (shaped_expr property (tidy_right h')).bind fun k hk ↦ ?_
    exact .pure (shaped_member ho hk)
  · have hreceiver : Tidy.receiver e = false := by
      cases e <;> simp_all [Tidy.receiver]
    -- what is called is no smaller as a value, so the measure puts values before what is called
    refine (shaped_expr e fun ht ↦ ?_).mono fun _ ↦ .calleeValue
    simpa [hreceiver] using h ht
termination_by (sizeOf e, 1)
decreasing_by
  all_goals subst_vars
  · exact .left _ _ (by simp; omega)
  · exact .left _ _ (by simp)
  · exact .right _ Nat.zero_lt_one

theorem shaped_arguments {t : Bool} (es : List Expr) (h : t = true → Tidy.arguments es = true) :
    Yields (Shaped (.values t es.length)) (arguments optimize es) := by
  match es with
  | [] => exact .pure .noValues
  | e :: es =>
    refine (shaped_arguments es (tidy_right h)).bind fun later hlater ↦ ?_
    refine (shaped_expr e (tidy_left h)).bind fun x hx ↦ ?_
    exact .pure (by simpa [Shaped] using Shape.moreValues hlater hx)
termination_by (sizeOf es, 0)
decreasing_by
  all_goals
    simp
    omega

/-- Stores into a table leave the table. -/
theorem shaped_entries {t : Bool} (es : List (Expr × Expr))
    (h : t = true → Tidy.entries es = true) :
    Yields (fun ls ↦ ∀ table, Shaped (.value t) table → Shaped (.value t) (table ++ ls))
      (entries optimize es) := by
  match es with
  | [] => exact .pure fun table htable ↦ by simpa using htable
  | (key, value) :: es =>
    refine (shaped_expr value (tidy_right (tidy_left h))).bind fun v hv ↦ ?_
    refine (shaped_expr key (tidy_left (tidy_left h))).bind fun k hk ↦ ?_
    refine (shaped_entries es (tidy_right h)).bind fun later hlater ↦ .pure fun table htable ↦ ?_
    have hentry : Shaped (.value t) (table ++ v ++ k ++ bare .storeKey) := by
      simpa [Shaped] using Shape.entry htable hv hk
    simpa using hlater _ hentry
termination_by (sizeOf es, 0)
decreasing_by
  all_goals
    simp
    omega

theorem shaped_path {t : Bool} (ks : List (Expr × Bool)) (h : t = true → Tidy.path ks = true) :
    Yields (Shaped (.values t ks.length)) (path optimize ks) := by
  match ks with
  | [] => exact .pure .noValues
  | (key, _) :: ks =>
    refine (shaped_path ks (tidy_right h)).bind fun later hlater ↦ ?_
    refine (shaped_expr key (tidy_left h)).bind fun k hk ↦ ?_
    exact .pure (by simpa [Shaped] using Shape.moreValues hlater hk)
termination_by (sizeOf ks, 0)
decreasing_by
  all_goals
    simp
    omega

theorem shaped_stmts {t : Bool} (ss : List Stmt) (h : t = true → Tidy.stmts ss = true) :
    Yields (Shaped (.body t)) (stmts optimize ss) := by
  match ss with
  | [] => exact .pure .nothing
  | s :: ss =>
    refine (shaped_stmt s (tidy_left h)).bind fun x hx ↦ ?_
    refine (shaped_stmts ss (tidy_right h)).bind fun xs hxs ↦ ?_
    exact .pure (shaped_sequence hx hxs)
termination_by (sizeOf ss, 0)
decreasing_by
  all_goals
    simp
    omega

theorem shaped_stmt {t : Bool} (s : Stmt) (h : t = true → Tidy.stmt s = true) :
    Yields (Shaped (.body t)) (stmt optimize s) := by
  match s with
  | .var name value =>
    refine (shaped_expr value h).bind fun x hx ↦ ?_
    exact .pure (shaped_bind name (.inl rfl) hx)
  | .function name params body =>
    refine (shaped_stmts body (t := false) (by simp)).bind fun b hb ↦ ?_
    exact .pure (shaped_bind name (.inl rfl) (shaped_functionLines hb))
  | .assign root keys value =>
    refine (shaped_expr value (tidy_left h)).bind fun v hv ↦ ?_
    refine (shaped_path keys (tidy_right h)).bind fun ks hks ↦ ?_
    exact .pure (shaped_storeLines hv hks)
  | .cond condition body more none =>
    refine (shaped_expr condition (tidy_left (tidy_left h))).bind fun c hc ↦ ?_
    refine (shaped_stmts body (tidy_right (tidy_left h))).bind fun b hb ↦ ?_
    refine (shaped_branches more (tidy_right h)).bind fun later hlater ↦ ?_
    have hchain := hlater [] .chainEnd
    rw [List.append_nil] at hchain
    exact .pure (shaped_branchLines hc hb hchain)
  | .cond condition body more (some other) =>
    have h' := tidy_left h
    refine (shaped_expr condition (tidy_left (tidy_left h'))).bind fun c hc ↦ ?_
    refine (shaped_stmts body (tidy_right (tidy_left h'))).bind fun b hb ↦ ?_
    refine (shaped_branches more (tidy_right h')).bind fun later hlater ↦ ?_
    refine (shaped_stmts other (tidy_right h)).bind fun o ho ↦ .pure ?_
    rw [List.append_assoc]
    exact shaped_branchLines hc hb (hlater _ (shaped_otherwiseLines ho))
  | .while condition body =>
    refine (shaped_expr condition (tidy_left h)).bind fun c hc ↦ ?_
    refine (shaped_stmts body (tidy_right h)).bind fun b hb ↦ .pure ?_
    have hbreak : Shaped (.chain t) (otherwiseLines (bare .breakOp)) :=
      shaped_otherwiseLines (.jump (.inl rfl))
    exact shaped_loopLines (shaped_branchLines hc hb hbreak)
  | .forRange counter start stop (some step) body =>
    have hparts := tidy_left (tidy_left h)
    have hstart := shaped_expr start (tidy_left hparts)
    have hstep := shaped_expr step (tidy_right (tidy_left h))
    have hfirst : Yields (Shaped (.value t)) (do
        let a ← expr optimize start
        let b ← expr optimize step
        return a ++ b ++ bare .sub) :=
      hstart.bind fun a ha ↦ hstep.bind fun b hb ↦ .pure (shaped_binary .sub ha hb)
    refine (Yields.constantOr shaped_pushNumber hfirst optimize _).bind fun first hfirst ↦ ?_
    refine hstep.bind fun b hb ↦ ?_
    refine (shaped_expr stop (tidy_right hparts)).bind fun e he ↦ ?_
    refine (shaped_stmts body (tidy_right h)).bind fun x hx ↦ ?_
    exact .pure (shaped_rangeLines hfirst hb he hx)
  | .forRange counter start stop none body =>
    have hfirst : Yields (Shaped (.value t)) (do
        let a ← expr optimize start
        return a ++ pushNumber 1 ++ bare .sub) :=
      (shaped_expr start (tidy_left (tidy_left h))).bind fun a ha ↦
        .pure (shaped_binary .sub ha (shaped_pushNumber 1))
    refine (Yields.constantOr shaped_pushNumber hfirst optimize _).bind fun first hfirst ↦ ?_
    refine (shaped_expr stop (tidy_right (tidy_left h))).bind fun e he ↦ ?_
    refine (shaped_stmts body (tidy_right h)).bind fun x hx ↦ ?_
    exact .pure (shaped_rangeLines hfirst (shaped_pushNumber 1) he hx)
  | .forEach key value iterator body =>
    refine (yields_freshName).bind fun hidden _ ↦ ?_
    refine (shaped_expr iterator (tidy_left h)).bind fun i hi ↦ ?_
    refine (shaped_stmts body (tidy_right h)).bind fun x hx ↦ ?_
    exact .pure (shaped_eachLines hi hx)
  | .return none =>
    have hnull : Shaped (.value t) (unary .loadLocal "null") := .operand (.inr rfl)
    exact .pure (by simpa [Shaped] using Shape.leave hnull)
  | .return (some value) =>
    refine (shaped_expr value h).bind fun x hx ↦ ?_
    exact .pure (by simpa [Shaped] using Shape.leave hx)
  | .break => exact .pure (.jump (.inl rfl))
  | .continue => exact .pure (.jump (.inr rfl))
  | .reflect _ _ => exact .pure .nothing
  | .shine inner => exact shaped_stmt inner h
  | .foreign name path argTypes returnType =>
    exact .pure (shaped_foreignLines name path returnType fun ht ↦ of_decide_eq_true (h ht))
  | .delete name => exact .pure (.delete name)
  | .expr value =>
    refine (shaped_expr value h).bind fun x hx ↦ ?_
    exact .pure (by simpa [Shaped] using Shape.discard hx)
termination_by (sizeOf s, 0)
decreasing_by
  all_goals
    simp
    omega

/-- The code of `elif` branches goes in front of the rest of a conditional. -/
theorem shaped_branches {t : Bool} (bs : List (Expr × List Stmt))
    (h : t = true → Tidy.branches bs = true) :
    Yields (fun ls ↦ ∀ last, Shaped (.chain t) last → Shaped (.chain t) (ls ++ last))
      (branches optimize bs) := by
  match bs with
  | [] => exact .pure fun last hlast ↦ hlast
  | (condition, body) :: more =>
    refine (shaped_expr condition (tidy_left (tidy_left h))).bind fun c hc ↦ ?_
    refine (shaped_stmts body (tidy_right (tidy_left h))).bind fun b hb ↦ ?_
    refine (shaped_branches more (tidy_right h)).bind fun later hlater ↦ .pure fun last hlast ↦ ?_
    rw [List.append_assoc]
    exact shaped_elif hc hb (hlater last hlast)
termination_by (sizeOf bs, 0)
decreasing_by
  all_goals
    simp
    omega

end

end Lower

end GemLang
