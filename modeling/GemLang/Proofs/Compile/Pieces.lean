import GemLang.Proofs.Compile.Lowered
import GemLang.Proofs.Compile.Operand
import GemLang.Proofs.Syntax.Spelling

/-!
# What lowering puts together

Lowering puts code together from a few kinds of lines: pushes, instructions on names, instructions
without operands, and the blocks of conditionals, loops and functions. A judgment on lines that
holds of these, and of what is put together from lines that it holds of (`Lower.Pieces`), holds of
the code of every tree, in any spelling that the judgment asks for.

A branch of a conditional is not code by itself: what may follow the first branch is the rest of a
*chain*. So the judgment is on parts of code, as being well nested is.
-/

namespace GemLang

open Bytecode

namespace Lower

theorem isName_null : IsName "null" := by decide

theorem isName_bool (value : Bool) : IsName (if value then "true" else "false") := by
  cases value <;> decide

/-- The judgment `Q` goes through the pieces that lowering puts together, where names, paths and
counts are as in the spelling `S`. -/
structure Pieces (S : Spelling) (Q : Part → List Line → Prop) : Prop where
  /-- Names that lowering uses by itself. -/
  null : S.name "null"
  bool (value : Bool) : S.name (if value then "true" else "false")
  nil : Q .whole []
  append {ls ms : List Line} (hls : Q .whole ls) (hms : Q .whole ms) : Q .whole (ls ++ ms)
  bare (op : Opcode) (hrole : op.role = .plain ∨ op.isJump = true) (hcount : op.operandCount = 0) :
    Q .whole (bare op)
  push {x : String} (hword : IsWord x) (hpushable : IsPushable x) : Q .whole (unary .push x)
  pushName {x : String} (hx : S.name x) : Q .whole (unary .push x)
  name {op : Opcode} {x : String}
    (hop : op ∈ [Opcode.loadLocal, .declareLocal, .storeLocal, .delete]) (hx : S.name x) :
    Q .whole (unary op x)
  storePath {n : Nat} (hn : S.depth (n + 1)) : Q .whole (unary .storePath (toString (n + 1)))
  define {name path : String} (hname : S.name name) (hpath : S.library path) :
    Q .whole [⟨0, .plain .define [name, libraryOperand path]⟩]
  branch {c b later : List Line} (hc : Q .whole c) (hb : Q .whole b) (hlater : Q .chain later) :
    Q .whole (branchLines .ifOp c b ++ later)
  noChain : Q .chain []
  elif {c b later : List Line} (hc : Q .whole c) (hb : Q .whole b) (hlater : Q .chain later) :
    Q .chain (branchLines .elifOp c b ++ later)
  otherwise {b : List Line} (hb : Q .whole b) : Q .chain (otherwiseLines b)
  loop {b : List Line} (hb : Q .whole b) : Q .whole (loopLines b)
  function {name : String} {params : List String} {b : List Line} (hname : S.name name)
    (hparams : ∀ x ∈ params, S.name x) (hb : Q .whole b) : Q .whole (functionLines name params b)
  each {key value : String} {i b : List Line} (n : Nat) (hkey : S.name key) (hvalue : S.name value)
    (hi : Q .whole i) (hb : Q .whole b) : Q .whole (eachLines (hiddenName n) key value i b)

namespace Pieces

variable {S : Spelling} {Q : Part → List Line → Prop} (h : Pieces S Q)

include h

theorem pushNumber (value : Float) : Q .whole (pushNumber value) :=
  h.push (isWord_text value) (isPushable_text value)

theorem pushNat (n : Nat) : Q .whole (unary .push (toString n)) :=
  h.push (isWord_toString n) (isPushable_toString n)

theorem load {x : String} (hx : S.name x) : Q .whole (unary .loadLocal x) := h.name (by simp) hx

theorem declare {x : String} (hx : S.name x) : Q .whole (unary .declareLocal x) :=
  h.name (by simp) hx

theorem store {x : String} (hx : S.name x) : Q .whole (unary .storeLocal x) := h.name (by simp) hx

theorem breakWhen {c : List Line} (hc : Q .whole c) : Q .whole (breakWhen c) := by
  have hbranch := h.branch hc (h.bare .breakOp (.inr rfl) rfl) h.noChain
  rwa [List.append_nil] at hbranch

theorem rangeLines {counter : String} {first step stop body : List Line} (hcounter : S.name counter)
    (hfirst : Q .whole first) (hstep : Q .whole step) (hstop : Q .whole stop)
    (hbody : Q .whole body) : Q .whole (rangeLines counter first step stop body) := by
  have hnext := h.append (h.append (h.load hcounter) hstep) (h.bare .add (.inl rfl) rfl)
  have hdone := h.append (h.append (h.load hcounter) hstop)
    (h.bare .greaterEq (.inl rfl) rfl)
  have hpass := h.append (h.append (h.append hnext (h.store hcounter)) (h.breakWhen hdone)) hbody
  have hinside := h.append (h.append hfirst (h.declare hcounter)) (h.loop hpass)
  have hbranch := h.branch (h.pushNat 1) hinside h.noChain
  rwa [List.append_nil] at hbranch

theorem foreignLines {name path returnType : String} {argTypes : List String} (hname : S.name name)
    (hpath : S.library path) (hargs : ∀ x ∈ argTypes, S.name x) (hresult : S.name returnType) :
    Q .whole (foreignLines name path argTypes returnType) := by
  have hpushes (xs : List String) (hxs : ∀ x ∈ xs, S.name x) :
      Q .whole (xs.flatMap (unary .push)) := by
    induction xs with
    | nil => exact h.nil
    | cons x xs ih =>
      rw [List.forall_mem_cons] at hxs
      exact h.append (h.pushName hxs.1) (ih hxs.2)
  have htypes := h.append (hpushes argTypes.reverse (by simpa using hargs)) (h.pushName hresult)
  exact h.append (h.append htypes (h.pushNat _)) (h.define hname hpath)

theorem storeLines {root : String} {count : Nat} (hroot : S.name root) (hcount : S.depth count) :
    Q .whole (storeLines root count) := by
  refine h.append ?_ (h.store hroot)
  split
  · exact h.nil
  · next hne =>
    obtain ⟨n, rfl⟩ := Nat.exists_eq_succ_of_ne_zero hne
    exact h.append (h.load hroot) (h.storePath hcount)

/-! ## Trees -/

variable (optimize : Bool)

mutual

theorem expr (e : Expr) (he : S.expr e) : Yields (Q .whole) (expr optimize e) := by
  match e with
  | .number value => exact .pure (h.pushNumber value)
  | .text value => exact .pure (h.push (.inr ⟨value, rfl⟩) (isPushable_quote value))
  | .bool value => exact .pure (h.load (h.bool value))
  | .name x => exact .pure (h.load he)
  | .binary op left right =>
    refine .constantOr h.pushNumber ?_ optimize _
    refine (expr left he.1).bind fun l hl ↦ (expr right he.2).bind fun r hr ↦ .pure ?_
    refine h.append (h.append hl hr) (h.bare _ (.inl ?_) ?_)
    · cases op <;> rfl
    · cases op <;> rfl
  | .unary op operand =>
    refine .constantOr h.pushNumber ?_ optimize _
    refine (expr operand he).bind fun x hx ↦ ?_
    cases op with
    -- a negation is a subtraction from zero
    | negate =>
      exact .pure (h.append (h.append (h.pushNat 0) hx) (h.bare .sub (.inl rfl) rfl))
    | not => exact .pure (h.append hx (h.bare .not (.inl rfl) rfl))
  | .call callee args =>
    refine (arguments args he.2).bind fun xs hxs ↦ (expr callee he.1).bind fun f hf ↦ .pure ?_
    have hargs := h.append (h.bare .args (.inl rfl) rfl) hxs
    exact h.append (h.append hargs hf) (h.bare .call (.inr rfl) rfl)
  | .member object property _ =>
    refine (expr object he.1).bind fun o ho ↦ (expr property he.2).bind fun k hk ↦ .pure ?_
    exact h.append (h.append ho hk) (h.bare .loadKey (.inl rfl) rfl)
  | .table es =>
    refine (entries es he).bind fun xs hxs ↦ .pure ?_
    exact h.append (h.bare .newTable (.inl rfl) rfl) hxs
  | .function name params body =>
    exact (stmts body he.2.2).bind fun b hb ↦ .pure (h.function he.1 he.2.1 hb)

theorem arguments (es : List Expr) (hes : S.arguments es) :
    Yields (Q .whole) (arguments optimize es) := by
  match es with
  | [] => exact .pure h.nil
  | e :: es =>
    refine (arguments es hes.2).bind fun later hlater ↦ (expr e hes.1).bind fun x hx ↦ ?_
    exact .pure (h.append hlater hx)

theorem entries (es : List (Expr × Expr)) (hes : S.entries es) :
    Yields (Q .whole) (entries optimize es) := by
  match es with
  | [] => exact .pure h.nil
  | (key, value) :: es =>
    refine (expr value hes.2.1).bind fun v hv ↦ (expr key hes.1).bind fun k hk ↦ ?_
    refine (entries es hes.2.2).bind fun later hlater ↦ .pure ?_
    exact h.append (h.append (h.append hv hk) (h.bare .storeKey (.inl rfl) rfl)) hlater

theorem path (ks : List (Expr × Bool)) (hks : S.path ks) :
    Yields (Q .whole) (path optimize ks) := by
  match ks with
  | [] => exact .pure h.nil
  | (key, _) :: ks =>
    refine (path ks hks.2).bind fun later hlater ↦ (expr key hks.1).bind fun k hk ↦ ?_
    exact .pure (h.append hlater hk)

theorem stmts (ss : List Stmt) (hss : S.stmts ss) : Yields (Q .whole) (stmts optimize ss) := by
  match ss with
  | [] => exact .pure h.nil
  | s :: ss =>
    refine (stmt s hss.1).bind fun x hx ↦ (stmts ss hss.2).bind fun xs hxs ↦ ?_
    exact .pure (h.append hx hxs)

theorem stmt (s : Stmt) (hs : S.stmt s) : Yields (Q .whole) (stmt optimize s) := by
  match s with
  | .var name value =>
    exact (expr value hs.2).bind fun x hx ↦ .pure (h.append hx (h.declare hs.1))
  | .function name params body =>
    refine (stmts body hs.2.2).bind fun b hb ↦ .pure ?_
    exact h.append (h.function hs.1 hs.2.1 hb) (h.declare hs.1)
  | .assign root keys value =>
    refine (expr value hs.2.2.2).bind fun v hv ↦ (path keys hs.2.2.1).bind fun ks hks ↦ .pure ?_
    exact h.append (h.append hv hks) (h.storeLines hs.1 hs.2.1)
  | .cond condition body more none =>
    refine (expr condition hs.1).bind fun c hc ↦ (stmts body hs.2.1).bind fun b hb ↦ ?_
    refine (branches more hs.2.2.1).bind fun later hlater ↦ .pure (h.branch hc hb ?_)
    have hchain := hlater [] h.noChain
    rwa [List.append_nil] at hchain
  | .cond condition body more (some other) =>
    refine (expr condition hs.1).bind fun c hc ↦ (stmts body hs.2.1).bind fun b hb ↦ ?_
    refine (branches more hs.2.2.1).bind fun later hlater ↦ ?_
    refine (stmts other hs.2.2.2).bind fun o ho ↦ .pure ?_
    rw [List.append_assoc]
    exact h.branch hc hb (hlater _ (h.otherwise ho))
  | .while condition body =>
    refine (expr condition hs.1).bind fun c hc ↦ (stmts body hs.2).bind fun b hb ↦ .pure ?_
    exact h.loop (h.branch hc hb (h.otherwise (h.bare .breakOp (.inr rfl) rfl)))
  | .forRange counter start stop (some step) body =>
    have hstep := expr step hs.2.2.2.1
    -- the counter starts one step early, which is computed beforehand where that is possible
    have hfirst : Yields (Q .whole) (do
        let a ← Lower.expr optimize start
        let b ← Lower.expr optimize step
        return a ++ b ++ Bytecode.bare .sub) :=
      (expr start hs.2.1).bind fun a ha ↦ hstep.bind fun b hb ↦
        .pure (h.append (h.append ha hb) (h.bare .sub (.inl rfl) rfl))
    refine (Yields.constantOr h.pushNumber hfirst optimize _).bind fun first hfirst ↦ ?_
    refine hstep.bind fun b hb ↦ (expr stop hs.2.2.1).bind fun e he ↦ ?_
    exact (stmts body hs.2.2.2.2).bind fun x hx ↦ .pure (h.rangeLines hs.1 hfirst hb he hx)
  | .forRange counter start stop none body =>
    have hone := h.pushNumber 1
    have hfirst : Yields (Q .whole) (do
        let a ← Lower.expr optimize start
        return a ++ Lower.pushNumber 1 ++ Bytecode.bare .sub) :=
      (expr start hs.2.1).bind fun a ha ↦
        .pure (h.append (h.append ha hone) (h.bare .sub (.inl rfl) rfl))
    refine (Yields.constantOr h.pushNumber hfirst optimize _).bind fun first hfirst ↦ ?_
    refine (expr stop hs.2.2.1).bind fun e he ↦ ?_
    exact (stmts body hs.2.2.2.2).bind fun x hx ↦ .pure (h.rangeLines hs.1 hfirst hone he hx)
  | .forEach key value iterator body =>
    refine yields_freshName.bind fun hidden hhidden ↦ ?_
    obtain ⟨n, rfl⟩ := hhidden
    refine (expr iterator hs.2.2.1).bind fun i hi ↦ (stmts body hs.2.2.2).bind fun x hx ↦ ?_
    exact .pure (h.each n hs.1 hs.2.1 hi hx)
  | .return none => exact .pure (h.append (h.load h.null) (h.bare .returnOp (.inr rfl) rfl))
  | .return (some value) =>
    refine (expr value hs).bind fun x hx ↦ .pure ?_
    exact h.append hx (h.bare .returnOp (.inr rfl) rfl)
  | .break => exact .pure (h.bare .breakOp (.inr rfl) rfl)
  | .continue => exact .pure (h.bare .continueOp (.inr rfl) rfl)
  | .reflect _ _ => exact .pure h.nil
  | .shine inner => exact stmt inner hs
  | .foreign name path argTypes returnType =>
    exact .pure (h.foreignLines hs.1 hs.2.1 hs.2.2.1 hs.2.2.2)
  | .delete name => exact .pure (h.name (by simp) hs)
  | .expr value =>
    refine (expr value hs).bind fun x hx ↦ .pure ?_
    exact h.append hx (h.bare .pop (.inl rfl) rfl)

/-- `elif` branches go before what follows them in the conditional. -/
theorem branches (bs : List (Expr × List Stmt)) (hbs : S.branches bs) :
    Yields (fun ls ↦ ∀ later, Q .chain later → Q .chain (ls ++ later)) (branches optimize bs) := by
  match bs with
  | [] => exact .pure fun later hlater ↦ hlater
  | (condition, body) :: more =>
    refine (expr condition hbs.1).bind fun c hc ↦ (stmts body hbs.2.1).bind fun b hb ↦ ?_
    refine (branches more hbs.2.2).bind fun ls hls ↦ .pure fun later hlater ↦ ?_
    rw [List.append_assoc]
    exact h.elif hc hb (hls later hlater)

end

end Pieces

end Lower

end GemLang
