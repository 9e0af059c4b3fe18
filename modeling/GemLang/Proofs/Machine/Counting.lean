import GemLang.Proofs.Compile.Literal
import GemLang.Proofs.Machine.Passes

/-!
# Loops over ranges

A `for` loop over a range starts its counter one step early and moves it on at the top of every
pass, and three scopes are in play: the counter is declared in the block of a conditional that is
always taken, passes run in the scope of the loop inside of that, and the test for the end in one
more scope inside of that.

```text
IF 1 THEN                                  a new scope inside the one of the statement: block
  start - step, DECLARE counter
  LOOP                                     a new scope inside block: around
    LOAD counter, step, ADD, STORE counter
    IF LOAD counter, stop, GTE THEN BREAK  a new scope inside around, in every pass
    body
```

The invariant is `Machine.Counts`: the counter is bound in the block, and not in the scope of the
loop. What the counter is before pass `k` is said by `countedBefore`, and what the body finds by
`countedFrom`.

An expression may be anything that comes to the same number each time (`Gives`), calls included. It
must leave the name of the counter alone: computing the end of the range may change the counter, and
then the body does not run for every number (`forRange_skips_zero`).
-/

namespace GemLang

open Bytecode
open Behavior (code seq skip leave inside loop test choose Comes Pass Last)
open Structured (NestedLines breakIf)
open Exec

/-! ## The code of a loop -/

/-- The code of a `for` loop over a range: where it stands, and its parts. Before the first pass the
step is needed as well, where the counter is computed that lies one step back; the code of this is
`first`. If constants are computed beforehand, it need not be made from `start` and `early`. -/
structure RangeCode where
  position : Nat
  counter : String
  start : List Line
  early : List Line
  first : List Line
  step : List Line
  stop : List Line
  body : List Line

/-- The code that a loop over a range is lowered to. -/
def rangeCode (optimize : Bool) (counter : String) (start stop step : Expr) (body : List Stmt)
    (l : Layout) : RangeCode :=
  let a := Lower.expr optimize start l.hidden
  let b := Lower.expr optimize step a.2
  let f := Lower.constantOr optimize (.binary .sub start step)
    (do return (← Lower.expr optimize start) ++ (← Lower.expr optimize step) ++ bare .sub) l.hidden
  let d := Lower.expr optimize step f.2
  let e := Lower.expr optimize stop d.2
  let x := Lower.stmts optimize body e.2
  ⟨l.position, counter, a.1, b.1, f.1, d.1, e.1, x.1⟩

namespace RangeCode

variable (c : RangeCode)

def openingLines : List Line := c.first ++ unary .declareLocal c.counter

/-- What moves the counter on. -/
def nextLines : List Line :=
  unary .loadLocal c.counter ++ c.step ++ bare .add ++ unary .storeLocal c.counter

/-- What says that the counter has come to the end. -/
def doneLines : List Line := unary .loadLocal c.counter ++ c.stop ++ bare .greaterEq

/-- What comes before the body in every pass. -/
def headLines : List Line := c.nextLines ++ Lower.breakWhen c.doneLines

def top : Nat := c.position + 4 + (codeOf c.openingLines).length + 1

/-- The position of the test in a pass. -/
def middle : Nat := c.top + (codeOf c.nextLines).length + 1

def startCode : Stretch := ⟨c.position + 4, codeOf c.start⟩

def earlyCode : Stretch := ⟨c.position + 4 + (codeOf c.start).length, codeOf c.early⟩

def openingCode : Stretch := ⟨c.position + 4, codeOf c.openingLines⟩

def nextCode : Stretch := ⟨c.top, codeOf c.nextLines⟩

def stepCode : Stretch := ⟨c.top + 2, codeOf c.step⟩

def doneCode : Stretch := ⟨c.middle, codeOf c.doneLines⟩

def stopCode : Stretch := ⟨c.middle + 2, codeOf c.stop⟩

def headCode : Stretch := ⟨c.top, codeOf c.headLines⟩

def bodyCode : Stretch := ⟨c.top + (codeOf c.headLines).length, codeOf c.body⟩

def pass (around : ScopeId) : Behavior := (code around c.headCode).seq (code around c.bodyCode)

/-- What is known of the code of every loop over a range. -/
structure Lawful : Prop where
  start : NestedLines .whole c.start
  early : NestedLines .whole c.early
  first : NestedLines .whole c.first
  step : NestedLines .whole c.step
  stop : NestedLines .whole c.stop
  body : NestedLines .whole c.body
  /-- The first counter is computed by the machine, or it was computed from constants. -/
  counter : c.first = c.start ++ c.early ++ bare .sub ∨ ∃ a b : Float, (a - b).isFinite = true ∧
    c.start = Lower.pushNumber a ∧ c.early = Lower.pushNumber b ∧ c.step = Lower.pushNumber b ∧
      c.first = Lower.pushNumber (a - b)

end RangeCode

theorem lawful_rangeCode (optimize : Bool) (counter : String) (start stop step : Expr)
    (body : List Stmt) (l : Layout) :
    (rangeCode optimize counter start stop step body l).Lawful := by
  have hfirst : Lower.Yields (NestedLines .whole) (do
      let a ← Lower.expr optimize start
      let b ← Lower.expr optimize step
      return a ++ b ++ bare .sub) :=
    .bind ⟨Structured.nested_expr optimize start⟩ fun a ha ↦
      .bind ⟨Structured.nested_expr optimize step⟩ fun b hb ↦
        .pure ((ha.append hb).append (Structured.nested_bare _))
  refine ⟨Structured.nested_expr optimize start _, Structured.nested_expr optimize step _,
    (Lower.Yields.constantOr Structured.nested_pushNumber hfirst optimize _).run l.hidden,
    Structured.nested_expr optimize step _, Structured.nested_expr optimize stop _,
    Structured.nested_stmts optimize body _, ?_⟩
  simp only [rangeCode, Lower.constantOr]
  cases hconstant : (if optimize then (Expr.binary .sub start step).constant? else none) with
  | none => exact .inl rfl
  | some v =>
    cases optimize with
    | false => cases hconstant
    | true =>
      rw [if_pos rfl, Expr.constant?] at hconstant
      split at hconstant
      · next a b ha hb =>
        unfold BinaryOp.compute? at hconstant
        obtain ⟨hv, hfinite⟩ := Option.filter_eq_some_iff.mp hconstant
        obtain rfl := Option.some.inj hv
        refine .inr ⟨a, b, hfinite, ?_, ?_, ?_, ?_⟩
        · exact Lower.lines_constant ha _
        · exact Lower.lines_constant hb _
        · exact Lower.lines_constant hb _
        · rfl
      · cases hconstant

namespace RangeCode

variable {c : RangeCode} (hc : c.Lawful)

include hc

theorem Lawful.nested_opening : NestedLines .whole c.openingLines :=
  hc.first.append (Structured.nested_unary .declareLocal c.counter)

theorem Lawful.nested_next : NestedLines .whole c.nextLines :=
  (((Structured.nested_unary .loadLocal c.counter).append hc.step).append
    (Structured.nested_bare .add)).append (Structured.nested_unary .storeLocal c.counter)

theorem Lawful.nested_done : NestedLines .whole c.doneLines :=
  ((Structured.nested_unary .loadLocal c.counter).append hc.stop).append
    (Structured.nested_bare .greaterEq)

theorem Lawful.nested_head : NestedLines .whole c.headLines :=
  hc.nested_next.append (Structured.nested_breakWhen hc.nested_done)

/-- A loop over a range is a loop in a conditional that is always taken. -/
theorem Lawful.code_lines (s : ScopeId) :
    code s ⟨c.position, codeOf (Lower.rangeLines c.counter c.first c.step c.stop c.body)⟩ =
      inside s fun block ↦
        test block (code block ⟨c.position + 1, codeOf (unary .push "1")⟩)
          ((code block c.openingCode).seq
            (inside block fun around ↦ loop (c.pass around))) skip := by
  have hloop := Structured.nested_loopLines (hc.nested_head.append hc.body)
  have hlines : Lower.rangeLines c.counter c.first c.step c.stop c.body =
      Lower.branchLines .ifOp (unary .push "1")
        (c.openingLines ++ Lower.loopLines (c.headLines ++ c.body)) := by
    simp [Lower.rangeLines, openingLines, headLines, nextLines, doneLines]
  rw [hlines, Structured.code_ifLines (Structured.nested_unary .push "1")
    (hc.nested_opening.append hloop)]
  simp only [Structured.code_lines_append hc.nested_opening hloop,
    Structured.code_loopLines (hc.nested_head.append hc.body),
    Structured.code_lines_append hc.nested_head hc.body]
  rfl

theorem Lawful.code_next (around : ScopeId) : code around c.nextCode =
    (((code around ⟨c.top, codeOf (unary .loadLocal c.counter)⟩).seq
      (code around c.stepCode)).seq
        (code around ⟨c.top + 2 + (codeOf c.step).length, codeOf (bare .add)⟩)).seq
          (code around ⟨c.top + 2 + (codeOf c.step).length + 1,
            codeOf (unary .storeLocal c.counter)⟩) := by
  have hload := Structured.nested_unary .loadLocal c.counter
  rw [nextCode, nextLines, Structured.code_lines_append
      ((hload.append hc.step).append (Structured.nested_bare .add))
      (Structured.nested_unary .storeLocal c.counter),
    Structured.code_lines_append (hload.append hc.step) (Structured.nested_bare .add),
    Structured.code_lines_append hload hc.step]
  simp only [codeOf_append, codeOf_unary, codeOf_bare, List.length_append, List.length_cons,
    List.length_nil, Nat.add_assoc, Nat.reduceAdd, stepCode]

theorem Lawful.code_done (check : ScopeId) : code check c.doneCode =
    ((code check ⟨c.middle, codeOf (unary .loadLocal c.counter)⟩).seq (code check c.stopCode)).seq
      (code check ⟨c.middle + 2 + (codeOf c.stop).length, codeOf (bare .greaterEq)⟩) := by
  have hload := Structured.nested_unary .loadLocal c.counter
  rw [doneCode, doneLines, Structured.code_lines_append (hload.append hc.stop)
    (Structured.nested_bare .greaterEq), Structured.code_lines_append hload hc.stop]
  simp only [codeOf_append, codeOf_unary, List.length_append, List.length_cons,
    List.length_nil, Nat.add_assoc, Nat.reduceAdd, stopCode]

theorem Lawful.code_head (around : ScopeId) : code around c.headCode =
    (code around c.nextCode).seq (breakIf (fun check ↦ code check c.doneCode) around) := by
  rw [headCode, headLines, Structured.code_lines_append hc.nested_next
    (Structured.nested_breakWhen hc.nested_done), Structured.code_breakWhen hc.nested_done]
  rfl

end RangeCode

/-! ## The counter -/

/-- The counter is bound in `block`, to `x`, and not in the scope `around` right inside it. -/
structure Machine.Counts (counter : String) (block around : ScopeId) (x : Float) (m : Machine) :
    Prop where
  inner : block < around
  scope : around < m.heap.nextScope
  outer : ∃ rest, (m.heap.scope around).outer = block :: rest
  free : m.heap.own? around counter = none
  value : m.heap.own? block counter = some (.number x)

namespace Machine.Counts

variable {counter : String} {block around : ScopeId} {x : Float} {m m' : Machine}

theorem owner (h : m.Counts counter block around x) :
    m.heap.owner? around counter = some block := by
  obtain ⟨rest, houter⟩ := h.outer
  refine Heap.owner?_of_own? [around] rest ?_ ?_ h.value
  · rw [Heap.chain, houter]
    rfl
  · simpa using h.free

theorem lookup (h : m.Counts counter block around x) :
    m.heap.lookup around counter = some (.number x) := by
  rw [Heap.lookup_of_owner? h.owner, h.value]

/-- The counter is found from a new scope in the loop as well. -/
theorem lookup_nest (h : m.Counts counter block around x) :
    (m.nest around).heap.lookup m.heap.nextScope counter = some (.number x) := by
  obtain ⟨rest, houter⟩ := h.outer
  have hblock : block < m.heap.nextScope := h.inner.trans h.scope
  have hown (t : ScopeId) (ht : t < m.heap.nextScope) :
      (m.nest around).heap.own? t counter = m.heap.own? t counter :=
    Heap.own?_addChild_of_lt around ht counter
  have howner : (m.nest around).heap.owner? m.heap.nextScope counter = some block := by
    refine Heap.owner?_of_own? [m.heap.nextScope, around] rest (v := .number x) ?_ ?_ ?_
    · simp [Machine.nest, Heap.chain, Heap.scope_addChild, Scope.empty, houter]
    · have hself : (m.nest around).heap.own? m.heap.nextScope counter = none :=
        Heap.own?_addChild_self m.heap around counter
      simp [hself, hown around h.scope, h.free]
    · rw [hown block hblock, h.value]
  rw [Heap.lookup_of_owner? howner, hown block hblock, h.value]

theorem of_own (h : m.Counts counter block around x) (hlater : m.Later m')
    (hblock : m'.heap.own? block counter = m.heap.own? block counter)
    (haround : m'.heap.own? around counter = m.heap.own? around counter) :
    m'.Counts counter block around x where
  inner := h.inner
  scope := h.scope.trans_le hlater.nextScope
  outer := hlater.outer h.scope ▸ h.outer
  free := haround.trans h.free
  value := hblock.trans h.value

theorem of_spares (h : m.Counts counter block around x)
    (hm : Machine.Spares counter (fun _ ↦ False) m m') : m'.Counts counter block around x :=
  h.of_own hm.toLater (hm.own (h.inner.trans h.scope) id) (hm.own h.scope id)

theorem declare (h : m.Counts counter block around x) (y : Float) :
    Machine.Counts counter block around y
      { m with heap := m.heap.declare block counter (.number y) } where
  inner := h.inner
  scope := by simpa using h.scope
  outer := (Machine.Later.declare m block counter (.number y)).outer h.scope ▸ h.outer
  free := (Heap.own?_declare_of_ne (Nat.ne_of_lt h.inner) ..).trans h.free
  value := Heap.own?_declare_self (h.inner.trans h.scope) ..

end Machine.Counts

/-! ## Expressions that give numbers -/

/-- An expression comes to the number `x`. That and nothing else is on the stack of `t` then, above
what was there before, and no scope binds `name` to anything else than before. -/
def Gives (name : String) (A : Behavior) (t : ScopeId) (x : Float) (m : Machine) : Prop :=
  Comes A m fun left m' ↦ left = none ∧ m'.heap.stack t = .number x :: m.heap.stack t ∧
    ∀ u < m.heap.nextScope, m'.heap.own? u name = m.heap.own? u name

theorem Gives.comes {name : String} {s t : ScopeId} {c : Stretch} {x : Float} {m : Machine}
    (h : Gives name (code s c) t x m) : Comes (code s c) m fun left m' ↦
      left = none ∧ m'.heap.stack t = .number x :: m.heap.stack t ∧
        Machine.Spares name (fun _ ↦ False) m m' :=
  (Comes.mem h).mono fun _ _ ⟨⟨hleft, hstack, hown⟩, hcode⟩ ↦
    ⟨hleft, hstack, later_code hcode, fun ht _ ↦ hown _ ht⟩

section

variable {name : String} {s : ScopeId} {m : Machine} {y : Float}

theorem comes_counter (hs : s < m.heap.nextScope) (hy : m.heap.lookup s name = some (.number y))
    (position : Nat) :
    Comes (code s ⟨position, codeOf (unary .loadLocal name)⟩) m fun left m' ↦ left = none ∧
      perform s .loadLocal [name] m = .ok () m' ∧
        m'.heap.stack s = .number y :: m.heap.stack s ∧
          Machine.Spares name (fun _ ↦ False) m m' :=
  comes_loadLocal hy (fun h ↦ ⟨rfl, h, Heap.stack_push_self hs _, .push m s _⟩) position

/-- An operator on two numbers. What is known of the machine after the first operand is `P`. -/
theorem comes_operator (op : BinaryOp) {A : Behavior} {P : Machine → Prop} {c : Stretch} {x : Float}
    {v : Value} (hs : s < m.heap.nextScope)
    (hA : Comes A m fun left m' ↦ left = none ∧ P m' ∧
      m'.heap.stack s = .number y :: m.heap.stack s ∧ Machine.Spares name (fun _ ↦ False) m m')
    (hc : ∀ m', P m' → Gives name (code s c) s x m')
    (hop : Direct.binary op (.number y) (.number x) = .ok v) (position : Nat) :
    Comes ((A.seq (code s c)).seq (code s ⟨position, codeOf (bare op.opcode)⟩)) m fun left m' ↦
      left = none ∧ m.heap.depth s < m.config.maxStack ∧ m'.heap.stack s = v :: m.heap.stack s ∧
        Machine.Spares name (fun _ ↦ False) m m' := by
  have hoperands : Comes (A.seq (code s c)) m fun left m' ↦ left = none ∧
      m'.heap.stack s = .number x :: .number y :: m.heap.stack s ∧
        Machine.Spares name (fun _ ↦ False) m m' := by
    refine hA.thenComes fun m₁ ⟨hm₁, hstack₁, hspares₁⟩ ↦ ?_
    refine (hc m₁ hm₁).comes.mono fun left m₂ ⟨hleft, hstack₂, hspares₂⟩ ↦ ?_
    exact ⟨hleft, hstack₂.trans (hstack₁ ▸ rfl), hspares₁.trans hspares₂⟩
  refine hoperands.thenComes fun m₂ ⟨hstack₂, hspares₂⟩ ↦ ?_
  have hs₂ := hs.trans_le hspares₂.nextScope
  refine comes_binary hs₂ hstack₂ hop (fun hroom ↦ ?_) position
  exact ⟨rfl, hspares₂.config ▸ hroom, Heap.stack_setStack_self hs₂ _,
    hspares₂.trans (.setStack m₂ s _)⟩

end

/-! ## Passes -/

namespace RangeCode

variable {c : RangeCode} {block around : ScopeId} {m p q : Machine} {x y z st e : Float}

/-- The step is a constant, and there is no room for it above the counter. -/
def Cramped (c : RangeCode) (m : Machine) : Prop :=
  m.config.maxStack ≤ 1 ∧ ∃ text v, c.step = unary .push text ∧ literal text = .ok v

/-- The code of a pass overflows when there is no room for the step. -/
theorem Cramped.comes_next (hc : c.Lawful) (hp : p.Counts c.counter block around y)
    (hcramped : c.Cramped p) (Q : Option Signal → Machine → Prop) :
    Comes (code around c.nextCode) p Q := by
  obtain ⟨hroom, text, v, hlines, htext⟩ := hcramped
  have hstep : Comes ((code around ⟨c.top, codeOf (unary .loadLocal c.counter)⟩).seq
      (code around c.stepCode)) p fun _ _ ↦ False := by
    refine (comes_counter hp.scope hp.lookup _).thenComes fun p' ⟨_, hstack, hspares⟩ ↦ ?_
    rw [stepCode, hlines]
    refine comes_push htext (fun hlt ↦ absurd hlt ?_) _
    rw [hspares.config, Heap.depth, hstack, List.length_cons]
    omega
  rw [hc.code_next]
  exact ((hstep.overflow_seq _).overflow_seq _).mono fun _ _ h ↦ h.elim

theorem Lawful.comes_next (hc : c.Lawful) (hp : p.Counts c.counter block around y)
    (hy : y = z ∨ c.Cramped p)
    (hstep : ∀ p', perform around .loadLocal [c.counter] p = .ok () p' →
      Gives c.counter (code around c.stepCode) around st p') :
    Comes (code around c.nextCode) p fun left q ↦ left = none ∧
      Machine.Spares c.counter (· = block) p q ∧ q.Counts c.counter block around (z + st) := by
  rcases hy with rfl | hcramped
  · have hsum := comes_operator .add (v := .number (y + st)) hp.scope
      (comes_counter hp.scope hp.lookup c.top) hstep rfl (c.top + 2 + (codeOf c.step).length)
    rw [hc.code_next]
    refine hsum.thenComes fun m' ⟨_, hstack, hspares⟩ ↦ ?_
    have hset : Machine.Spares c.counter (fun _ ↦ False) p
        { m' with heap := m'.heap.setStack around (p.heap.stack around) } :=
      hspares.trans (.setStack m' around _)
    refine Comes.plain .storeLocal [c.counter] rfl rfl ?_
    rw [perform_storeLocal hstack (hp.of_spares hspares).owner]
    refine .ok ⟨rfl, ?_, (hp.of_spares hset).declare (y + st)⟩
    exact (hset.mono fun _ ↦ False.elim).trans (.declare (E := (· = block)) _ rfl _)
  · exact hcramped.comes_next hc hp _

theorem Lawful.comes_done (hc : c.Lawful) (hq : q.Counts c.counter block around y)
    (hstop : ∀ q', perform q.heap.nextScope .loadLocal [c.counter] (q.nest around) = .ok () q' →
      Gives c.counter (code q.heap.nextScope c.stopCode) q.heap.nextScope e q') :
    Comes (breakIf (fun check ↦ code check c.doneCode) around) q fun left q' ↦
      Machine.Spares c.counter (fun _ ↦ False) q q' ∧
        (left = none ∧ ¬y ≥ e ∨ left = some .broke ∧ y ≥ e) := by
  have hcheck : q.heap.nextScope < (q.nest around).heap.nextScope := by simp [Machine.nest]
  have hempty : (q.nest around).heap.stack q.heap.nextScope = [] :=
    Heap.stack_addChild_self q.heap around
  have htest := comes_operator .greaterEq (v := .bool (y ≥ e)) hcheck
    (comes_counter hcheck hq.lookup_nest c.middle) hstop rfl (c.middle + 2 + (codeOf c.stop).length)
  rw [hempty] at htest
  refine Comes.inside ?_
  change Comes (test _ (code q.heap.nextScope c.doneCode) _ _) _ _
  rw [hc.code_done]
  refine htest.thenComes fun m' hm' ↦ ?_
  obtain ⟨-, hstack, hspares⟩ := hm'
  have hspares' := (Machine.Spares.nest q around).trans
    (hspares.trans (.setStack m' q.heap.nextScope []))
  refine Comes.choose hstack (fun hfalsy ↦ ?_) fun hfalsy ↦ ?_
  · exact .ends rfl ⟨hspares', .inr ⟨rfl, by simpa [Value.isFalsy] using hfalsy⟩⟩
  · exact .ends rfl ⟨hspares', .inl ⟨rfl, by simpa [Value.isFalsy] using hfalsy⟩⟩

/-- What comes before the body moves the counter on, and leaves the loop at the end. -/
theorem Lawful.comes_head (hc : c.Lawful) (hp : p.Counts c.counter block around y)
    (hy : y = z ∨ c.Cramped p)
    (hstep : ∀ p', perform around .loadLocal [c.counter] p = .ok () p' →
      Gives c.counter (code around c.stepCode) around st p')
    (hstop : ∀ q q', code around c.nextCode p (.ok none q) →
      perform q.heap.nextScope .loadLocal [c.counter] (q.nest around) = .ok () q' →
      Gives c.counter (code q.heap.nextScope c.stopCode) q.heap.nextScope e q') :
    Comes (code around c.headCode) p fun left b ↦
      Machine.Spares c.counter (· = block) p b ∧ b.Counts c.counter block around (z + st) ∧
        (left = none ∧ ¬z + st ≥ e ∨ left = some .broke ∧ z + st ≥ e) := by
  rw [hc.code_head]
  refine (hc.comes_next hp hy hstep).mem.seq ?_ fun signal q h ↦ nomatch h.1.1
  rintro q ⟨⟨-, hspares, hcounts⟩, hcode⟩
  refine (hc.comes_done hcounts fun q' h ↦ hstop q q' hcode h).mono ?_
  rintro left b ⟨hspares', hleft⟩
  exact ⟨hspares.trans (hspares'.mono fun _ ↦ False.elim), hcounts.of_spares hspares', hleft⟩

end RangeCode

/-! ## The first counter -/

section

variable {name : String} {s : ScopeId} {m : Machine}

theorem literal_text_eq_ok (a : Float) :
    ∃ v, literal (Number.text a) = .ok v ∧ ∀ x, v = .number x → a = x := by
  cases ha : a.isFinite with
  | true => exact ⟨_, literal_text ha, fun x h ↦ by cases h; rfl⟩
  | false => exact ⟨_, literal_text_of_not_isFinite ha, fun x h ↦ by cases h⟩

theorem gives_pushNumber (hs : s < m.heap.nextScope) {a : Float} (ha : a.isFinite = true)
    (position : Nat) : Gives name (code s ⟨position, codeOf (Lower.pushNumber a)⟩) s a m :=
  comes_push (literal_text ha)
    (fun _ ↦ ⟨rfl, Heap.stack_push_self hs _, fun u _ ↦ Heap.own?_push m.heap s u _ name⟩) position

/-- A constant that gives a number is that number, if there is room for it. -/
theorem eq_of_gives_pushNumber {a x : Float} {position : Nat}
    (hs : s < m.heap.nextScope) (hroom : m.heap.depth s < m.config.maxStack)
    (h : Gives name (code s ⟨position, codeOf (Lower.pushNumber a)⟩) s x m) : a = x ∧
      ∃ m', code s ⟨position, codeOf (Lower.pushNumber a)⟩ m (.ok none m') ∧
        m'.heap.stack s = .number x :: m.heap.stack s ∧ m.Later m' := by
  obtain ⟨v, htext, hv⟩ := literal_text_eq_ok a
  have hpush := code_push htext hroom position
  obtain ⟨-, hstack, -⟩ := Comes.of_code_ok h hpush
  have hvalue : v = .number x := by
    rw [Heap.stack_push_self hs] at hstack
    exact (List.cons.inj hstack).1
  exact ⟨hv x hvalue, _, hpush, hstack, .push m s v⟩

end

/-! ## Runs of a loop -/

/-- What the counter is in the passes of a loop: `x - st + st`, and a step more each time. -/
def countedFrom (x st : Float) : Nat → Float
  | 0 => x - st + st
  | k + 1 => countedFrom x st k + st

/-- What the counter is before a pass moves it on. -/
def countedBefore (x st : Float) : Nat → Float
  | 0 => x - st
  | k + 1 => countedFrom x st k

theorem countedBefore_add (x st : Float) (k : Nat) :
    countedBefore x st k + st = countedFrom x st k := by
  cases k <;> rfl

namespace RangeCode

/-- When the loop is run in the scope `s` of the machine `m`, a pass starts in the machine `p`, in
the scope `around`, with `k` passes before it. -/
def Reached (c : RangeCode) (s : ScopeId) (m : Machine) (around : ScopeId) (k : Nat) (p : Machine) :
    Prop :=
  ∃ m', code m.heap.nextScope c.openingCode (m.nest s) (.ok none m') ∧ around = m'.heap.nextScope ∧
    Pass (c.pass around) (m'.nest m.heap.nextScope) k p

/-- The body starts for the time `k`, counted from zero, in the machine `b`. -/
def BodyStarts (c : RangeCode) (s : ScopeId) (m : Machine) (around : ScopeId) (k : Nat)
    (b : Machine) : Prop :=
  ∃ p, c.Reached s m around k p ∧ code around c.headCode p (.ok none b)

/-- When the loop is run in the scope `s` of the machine `m`, its expressions come to the numbers
`x`, `e` and `st`, whenever they are computed, and change no binding of the name of the counter. The
body comes to its end or to a `continue` with the binding of the counter as it was, and without one
in its own scope; or it comes to a `break`. Overflows are excepted. -/
structure Steady (c : RangeCode) (s : ScopeId) (m : Machine) (x e st : Float) : Prop where
  start : Gives c.counter (code m.heap.nextScope c.startCode) m.heap.nextScope x (m.nest s)
  early {m' : Machine} (h : code m.heap.nextScope c.startCode (m.nest s) (.ok none m')) :
    Gives c.counter (code m.heap.nextScope c.earlyCode) m.heap.nextScope st m'
  step {around : ScopeId} {k : Nat} {p p' : Machine} (h : c.Reached s m around k p)
    (hload : perform around .loadLocal [c.counter] p = .ok () p') :
    Gives c.counter (code around c.stepCode) around st p'
  stop {around : ScopeId} {k : Nat} {p q q' : Machine} (h : c.Reached s m around k p)
    (hnext : code around c.nextCode p (.ok none q))
    (hload : perform q.heap.nextScope .loadLocal [c.counter] (q.nest around) = .ok () q') :
    Gives c.counter (code q.heap.nextScope c.stopCode) q.heap.nextScope e q'
  body {around : ScopeId} {k : Nat} {b : Machine} (h : c.BodyStarts s m around k b) :
    Comes (code around c.bodyCode) b fun left b' ↦ left = some .broke ∨
      (left = none ∨ left = some .continued) ∧
        b'.heap.own? m.heap.nextScope c.counter = b.heap.own? m.heap.nextScope c.counter ∧
        b'.heap.own? around c.counter = b.heap.own? around c.counter

section

variable {c : RangeCode} {s block around : ScopeId} {m m' p : Machine} {x y z e st : Float}
  {k : Nat}

theorem Steady.comes_first (hc : c.Lawful) (h : c.Steady s m x e st) :
    Comes (code m.heap.nextScope ⟨c.position + 4, codeOf c.first⟩) (m.nest s) fun left m' ↦
      left = none ∧ 0 < m.config.maxStack ∧ ∃ y, m'.heap.stack m.heap.nextScope = [.number y] ∧
        (y = x - st ∨ c.Cramped m') ∧ Machine.Spares c.counter (fun _ ↦ False) (m.nest s) m' := by
  have hs : m.heap.nextScope < (m.nest s).heap.nextScope := by simp [Machine.nest]
  have hempty : (m.nest s).heap.stack m.heap.nextScope = [] := Heap.stack_addChild_self m.heap s
  rcases hc.counter with hlines | ⟨a, b, hfinite, hstart, hearly, hstep, hlines⟩
  · -- the machine subtracts
    have hsub := comes_operator .sub (v := .number (x - st)) hs
      (P := fun m' ↦ code m.heap.nextScope c.startCode (m.nest s) (.ok none m'))
      (h.start.comes.mem.mono fun _ _ h ↦ ⟨h.1.1, h.1.1 ▸ h.2, h.1.2.1, h.1.2.2⟩)
      (fun m' ↦ h.early) rfl (c.position + 4 + (codeOf (c.start ++ c.early)).length)
    rw [hempty] at hsub
    rw [hlines, Structured.code_lines_append (hc.start.append hc.early) (Structured.nested_bare _),
      Structured.code_lines_append hc.start hc.early]
    refine hsub.mono fun left m' hm' ↦ ?_
    obtain ⟨hleft, hroom, hstack, hspares⟩ := hm'
    exact ⟨hleft, Nat.zero_lt_of_lt hroom, x - st, hstack, .inl rfl, hspares⟩
  · -- the difference was computed beforehand; there may be no room for two operands
    rw [hlines]
    refine comes_push (literal_text hfinite) (fun hroom ↦ ?_) _
    refine ⟨rfl, Nat.zero_lt_of_lt hroom, a - b, ?_, ?_, .push _ _ _⟩
    · exact hempty ▸ Heap.stack_push_self hs _
    have hgives := h.start
    rw [startCode, hstart] at hgives
    obtain ⟨rfl, m', hcode, hstack, hlater⟩ := eq_of_gives_pushNumber hs hroom hgives
    by_cases hroom' : 1 < m.config.maxStack
    · rw [← hstart] at hcode
      have hgives' := h.early hcode
      rw [earlyCode, hearly] at hgives'
      have hdepth : m'.heap.depth m.heap.nextScope < m'.config.maxStack := by
        rw [hlater.config, Heap.depth, hstack, hempty]
        exact hroom'
      obtain ⟨rfl, -⟩ := eq_of_gives_pushNumber (hs.trans_le hlater.nextScope) hdepth hgives'
      exact .inl rfl
    · obtain ⟨v, htext, -⟩ := literal_text_eq_ok b
      exact .inr ⟨Nat.le_of_not_lt hroom', _, v, hstep, htext⟩

theorem Steady.comes_opening (hc : c.Lawful) (h : c.Steady s m x e st) :
    Comes (code m.heap.nextScope c.openingCode) (m.nest s) fun left m' ↦ left = none ∧
      Machine.Spares c.counter (· = m.heap.nextScope) (m.nest s) m' ∧
        0 < m.config.maxStack ∧ ∃ y, m'.heap.own? m.heap.nextScope c.counter = some (.number y) ∧
          (y = x - st ∨ c.Cramped m') := by
  rw [openingCode, openingLines, Structured.code_lines_append hc.first
    (Structured.nested_unary .declareLocal c.counter)]
  refine (h.comes_first hc).thenComes fun m' ⟨hroom, y, hstack, hy, hspares⟩ ↦ ?_
  have hs : m.heap.nextScope < m'.heap.nextScope := by
    have hle := hspares.nextScope
    rw [Machine.nest, Heap.nextScope_addChild] at hle
    exact hle
  refine Comes.plain .declareLocal [c.counter] rfl rfl ?_
  rw [perform_declareLocal hstack]
  refine .ok ⟨rfl, ?_, hroom, y, ?_, hy⟩
  · refine (hspares.mono fun _ ↦ False.elim).trans (.trans (.setStack m' m.heap.nextScope []) ?_)
    exact .declare (E := (· = m.heap.nextScope)) _ rfl _
  · exact Heap.own?_declare_self (by simpa using hs) ..

/-- The scope of a loop is right inside the one of its counter. -/
theorem counts_nest {counter : String} (hblock : block < m.heap.nextScope)
    (hvalue : m.heap.own? block counter = some (.number y)) :
    (m.nest block).Counts counter block m.heap.nextScope y where
  inner := hblock
  scope := by simp [Machine.nest]
  outer := ⟨(m.heap.scope block).outer, by simp [Machine.nest, Heap.scope_addChild, Scope.empty]⟩
  free := Heap.own?_addChild_self ..
  value := (Heap.own?_addChild_of_lt _ hblock _).trans hvalue

/-- What a pass is like if the counter is right when it starts. -/
theorem Steady.comes_head_of_counts (hc : c.Lawful) (h : c.Steady s m x e st)
    (hreached : c.Reached s m around k p) (hp : p.Counts c.counter m.heap.nextScope around y)
    (hy : y = countedBefore x st k ∨ c.Cramped p) :
    Comes (code around c.headCode) p fun left b ↦
      Machine.Spares c.counter (· = m.heap.nextScope) p b ∧
        b.Counts c.counter m.heap.nextScope around (countedFrom x st k) ∧
        (left = none ∧ ¬countedFrom x st k ≥ e ∨ left = some .broke ∧ countedFrom x st k ≥ e) := by
  have hhead := hc.comes_head hp hy (fun p' ↦ h.step hreached) fun q q' ↦ h.stop hreached
  rwa [countedBefore_add] at hhead

/-- **The counter is right when a pass starts**, and the scopes are where they should be. -/
theorem Steady.counts (hc : c.Lawful) (h : c.Steady s m x e st)
    (hreached : c.Reached s m around k p) :
    (m.nest s).Later p ∧ ∃ y, p.Counts c.counter m.heap.nextScope around y ∧
      (y = countedBefore x st k ∨ c.Cramped p) := by
  obtain ⟨m', hopening, rfl, hpass⟩ := hreached
  induction hpass with
  | first =>
    obtain ⟨-, hspares, -, y, hvalue, hy⟩ := (h.comes_opening hc).of_code_ok hopening
    have hblock : m.heap.nextScope < m'.heap.nextScope := by
      have hle := hspares.nextScope
      rw [Machine.nest, Heap.nextScope_addChild] at hle
      exact hle
    exact ⟨hspares.toLater.trans (.nest m' _), y, counts_nest hblock hvalue, hy⟩
  | next hpass hrun hleft ih =>
    next k p p' left =>
    obtain ⟨hlater, y, hp, hy⟩ := ih
    have hreached : c.Reached s m m'.heap.nextScope k p := ⟨m', hopening, rfl, hpass⟩
    have hhead := h.comes_head_of_counts hc hreached hp hy
    cases hrun with
    | left hrun =>
      obtain ⟨-, -, ⟨hnone, -⟩ | ⟨hbroke, -⟩⟩ := hhead.of_code_ok hrun
      · cases hnone
      · rcases hleft with hnone | hcontinued
        · cases hnone
        · cases hbroke
          cases hcontinued
    | passed hrun hbody =>
      next b =>
      obtain ⟨hspares, hb, -⟩ := hhead.of_code_ok hrun
      obtain hbroke | ⟨-, hblock, haround⟩ := (h.body ⟨p, hreached, hrun⟩).of_code_ok hbody
      · rcases hleft with rfl | rfl <;> cases hbroke
      · have hlater' := later_code hbody
        exact ⟨hlater.trans (hspares.toLater.trans hlater'), _,
          hb.of_own hlater' hblock haround, .inl rfl⟩

theorem Steady.comes_head (hc : c.Lawful) (h : c.Steady s m x e st)
    (hreached : c.Reached s m around k p) :
    Comes (code around c.headCode) p fun left b ↦
      Machine.Spares c.counter (· = m.heap.nextScope) p b ∧
        b.Counts c.counter m.heap.nextScope around (countedFrom x st k) ∧
        (left = none ∧ ¬countedFrom x st k ≥ e ∨ left = some .broke ∧ countedFrom x st k ≥ e) := by
  obtain ⟨-, y, hp, hy⟩ := h.counts hc hreached
  exact h.comes_head_of_counts hc hreached hp hy

theorem Reached.lt (h : c.Reached s m around k p) : around < p.heap.nextScope := by
  obtain ⟨m', -, rfl, hpass⟩ := h
  induction hpass with
  | first => simp [Machine.nest]
  | next _ hrun _ ih =>
    cases hrun with
    | left hb => exact ih.trans_le (later_code hb).nextScope
    | passed hb hrun => exact ih.trans_le ((later_code hb).trans (later_code hrun)).nextScope

theorem steady_of_numbers (hx : x.isFinite = true) (he : e.isFinite = true)
    (hst : st.isFinite = true) (hstart : c.start = Lower.pushNumber x)
    (hearly : c.early = Lower.pushNumber st) (hstep : c.step = Lower.pushNumber st)
    (hstop : c.stop = Lower.pushNumber e)
    (hbody : ∀ around k b, c.BodyStarts s m around k b →
      Comes (code around c.bodyCode) b fun left b' ↦ left = some .broke ∨
        (left = none ∨ left = some .continued) ∧
          b'.heap.own? m.heap.nextScope c.counter = b.heap.own? m.heap.nextScope c.counter ∧
          b'.heap.own? around c.counter = b.heap.own? around c.counter) :
    c.Steady s m x e st := by
  have hs : m.heap.nextScope < (m.nest s).heap.nextScope := by simp [Machine.nest]
  refine ⟨?_, fun h ↦ ?_, fun h hload ↦ ?_, fun {around _ _ q _} h hnext hload ↦ ?_, hbody _ _ _⟩
  · rw [startCode, hstart]
    exact gives_pushNumber hs hx _
  · rw [earlyCode, hearly]
    exact gives_pushNumber (hs.trans_le (later_code h).nextScope) hst _
  · rw [stepCode, hstep]
    exact gives_pushNumber (h.lt.trans_le (later_perform hload).nextScope) hst _
  · have hcheck : q.heap.nextScope < (q.nest around).heap.nextScope := by simp [Machine.nest]
    rw [stopCode, hstop]
    exact gives_pushNumber (hcheck.trans_le (later_perform hload).nextScope) he _

/-! ## The loop as a whole -/

def stretch (c : RangeCode) : Stretch :=
  ⟨c.position, codeOf (Lower.rangeLines c.counter c.first c.step c.stop c.body)⟩

theorem Lawful.code_iff (hc : c.Lawful) (hroom : 0 < m.config.maxStack)
    {r : Exec.Result (Option Signal)} : code s c.stretch m r ↔
      ((code m.heap.nextScope c.openingCode).seq
        (inside m.heap.nextScope fun around ↦ loop (c.pass around))) (m.nest s) r := by
  have hs : m.heap.nextScope < (m.nest s).heap.nextScope := by simp [Machine.nest]
  have hempty : (m.nest s).heap.stack m.heap.nextScope = [] := Heap.stack_addChild_self m.heap s
  have hpush : code m.heap.nextScope ⟨c.position + 1, codeOf (unary .push "1")⟩ (m.nest s)
      (.ok none ((m.nest s).withStack m.heap.nextScope [.number 1])) := by
    have hone : literal "1" = .ok (.number 1) := rfl
    have hcode := code_push (m := m.nest s) hone (by rwa [Heap.depth, hempty]) (c.position + 1)
    rwa [Heap.push_eq_setStack, hempty] at hcode
  have hpop : pop m.heap.nextScope ((m.nest s).withStack m.heap.nextScope [.number 1]) =
      .ok (.number 1) (m.nest s) := by
    rw [pop_withStack hs, ← hempty, withStack_stack]
  rw [stretch, hc.code_lines]
  constructor
  · intro h
    cases h with
    | passed h h' =>
      cases Behavior.code_unique h hpush
      cases h' with
      | holds hpop' _ h =>
        rw [hpop] at hpop'
        cases hpop'
        exact h
      | fails hpop' hv _ =>
        rw [hpop] at hpop'
        cases hpop'
        cases hv
      | stopped hpop' =>
        rw [hpop] at hpop'
        cases hpop'
    | left h => cases Behavior.code_unique h hpush
    | stopped h => cases Behavior.code_unique h hpush
  · exact fun h ↦ .passed hpush (.holds hpop rfl h)

theorem Lawful.code_of_noRoom (hc : c.Lawful) (hroom : ¬0 < m.config.maxStack) (s : ScopeId) :
    ∃ m', code s c.stretch m (.error (.error .stackOverflow) m') := by
  have hone : literal "1" = .ok (.number 1) := rfl
  have hcondition : Comes (code m.heap.nextScope ⟨c.position + 1, codeOf (unary .push "1")⟩)
      (m.nest s) fun _ _ ↦ False :=
    comes_push (m := m.nest s) hone (fun hlt ↦ hroom (Nat.zero_lt_of_lt hlt)) _
  rw [stretch, hc.code_lines]
  cases hcondition with
  | overflow h => exact ⟨_, .stopped h⟩
  | ends _ h => exact h.elim

theorem Steady.code_of_last (hc : c.Lawful) (h : c.Steady s m x e st)
    (hreached : c.Reached s m around k p) {r : Exec.Result (Option Signal)}
    (hlast : Last (c.pass around) p r) : code s c.stretch m r := by
  obtain ⟨m', hopening, rfl, hpass⟩ := hreached
  obtain ⟨-, -, hroom, -⟩ := (h.comes_opening hc).of_code_ok hopening
  exact (hc.code_iff hroom).mpr (.passed hopening (Behavior.loop_iff.mpr ⟨k, p, hpass, hlast⟩))

theorem Steady.exists_last (hc : c.Lawful) (h : c.Steady s m x e st)
    {r : Exec.Result (Option Signal)} (hr : code s c.stretch m r) :
    Overflows r ∨ ∃ around k p, c.Reached s m around k p ∧ Last (c.pass around) p r := by
  by_cases hroom : 0 < m.config.maxStack
  · have hopening := h.comes_opening hc
    rw [hc.code_iff hroom] at hr
    cases hr with
    | passed hfirst hr =>
      obtain ⟨k, p, hpass, hlast⟩ := Behavior.loop_iff.mp hr
      exact .inr ⟨_, k, p, ⟨_, hfirst, rfl, hpass⟩, hlast⟩
    | left hfirst => exact nomatch (hopening.of_code_ok hfirst).1
    | stopped hfirst =>
      obtain hover | ⟨_, _, heq, -⟩ := hopening.of_code hfirst
      · exact .inl hover
      · cases heq
  · obtain ⟨m', hover⟩ := hc.code_of_noRoom hroom s
    exact .inl ⟨m', Behavior.code_unique hr hover⟩

theorem Steady.last_or_reached (hc : c.Lawful) (h : c.Steady s m x e st)
    (hreached : c.Reached s m around k p) :
    (∃ r, Last (c.pass around) p r) ∨ ∃ p', c.Reached s m around (k + 1) p' := by
  cases h.comes_head hc hreached with
  | overflow hhead => exact .inl ⟨_, .stopped (.stopped hhead)⟩
  | ends hhead hleft =>
    obtain ⟨-, -, ⟨rfl, -⟩ | ⟨rfl, -⟩⟩ := hleft
    · cases h.body ⟨p, hreached, hhead⟩ with
      | overflow hbody => exact .inl ⟨_, .stopped (.passed hhead hbody)⟩
      | ends hbody hleft =>
        obtain rfl | ⟨hleft, -⟩ := hleft
        · exact .inl ⟨_, .broke (.passed hhead hbody)⟩
        · obtain ⟨m', hopening, haround, hpass⟩ := hreached
          exact .inr ⟨_, m', hopening, haround, .next hpass (.passed hhead hbody) hleft⟩
    · exact .inl ⟨_, .broke (.left hhead)⟩

theorem Steady.last_cases (hc : c.Lawful) (h : c.Steady s m x e st)
    (hreached : c.Reached s m around k p) {r : Exec.Result (Option Signal)}
    (hlast : Last (c.pass around) p r) : Overflows r ∨ ∃ m', r = .ok none m' ∧
      (countedFrom x st k ≥ e ∧ code around c.headCode p (.ok (some .broke) m') ∨
        ∃ b, c.BodyStarts s m around k b ∧ code around c.bodyCode b (.ok (some .broke) m')) := by
  have hhead := h.comes_head hc hreached
  have hbody {b : Machine} (hb : code around c.headCode p (.ok none b)) := h.body ⟨p, hreached, hb⟩
  cases hlast with
  | broke hrun =>
    cases hrun with
    | passed hb hbroke => exact .inr ⟨_, rfl, .inr ⟨_, ⟨p, hreached, hb⟩, hbroke⟩⟩
    | left hb =>
      obtain ⟨-, -, ⟨hnone, -⟩ | ⟨-, hend⟩⟩ := hhead.of_code_ok hb
      · cases hnone
      · exact .inr ⟨_, rfl, .inl ⟨hend, hb⟩⟩
  | returned hrun =>
    cases hrun with
    | passed hb hreturn =>
      obtain hbroke | ⟨hnone | hcontinued, -⟩ := (hbody hb).of_code_ok hreturn
      · cases hbroke
      · cases hnone
      · cases hcontinued
    | left hb =>
      obtain ⟨-, -, ⟨hnone, -⟩ | ⟨hbroke, -⟩⟩ := hhead.of_code_ok hb
      · cases hnone
      · cases hbroke
  | stopped hrun =>
    cases hrun with
    | passed hb hstop =>
      obtain hover | ⟨_, _, heq, -⟩ := (hbody hb).of_code hstop
      · exact .inl hover
      · cases heq
    | stopped hstop =>
      obtain hover | ⟨_, _, heq, -⟩ := hhead.of_code hstop
      · exact .inl hover
      · cases heq

/-- Where the body starts, the counter is right. -/
theorem Steady.bodyStarts (hc : c.Lawful) (h : c.Steady s m x e st) {b : Machine}
    (hb : c.BodyStarts s m around k b) :
    b.heap.lookup around c.counter = some (.number (countedFrom x st k)) ∧
      ¬countedFrom x st k ≥ e := by
  obtain ⟨p, hreached, hhead⟩ := hb
  obtain ⟨-, hcounts, ⟨-, hend⟩ | ⟨hbroke, -⟩⟩ := (h.comes_head hc hreached).of_code_ok hhead
  · exact ⟨hcounts.lookup, hend⟩
  · cases hbroke

theorem Steady.bodyStarts_of_lt (hc : c.Lawful) (h : c.Steady s m x e st)
    (hreached : c.Reached s m around k p) {j : Nat} (hj : j < k) :
    ∃ b, c.BodyStarts s m around j b := by
  obtain ⟨m', hopening, haround, hpass⟩ := hreached
  obtain ⟨q, q', left, hq, hrun, hleft⟩ := hpass.before hj
  have hreached : c.Reached s m around j q := ⟨m', hopening, haround, hq⟩
  cases hrun with
  | passed hb _ => exact ⟨_, q, hreached, hb⟩
  | left hb =>
    obtain ⟨-, -, ⟨hnone, -⟩ | ⟨hbroke, -⟩⟩ := (h.comes_head hc hreached).of_code_ok hb
    · cases hnone
    · rcases hleft with hnone | hcontinued
      · cases hnone
      · cases hbroke
        cases hcontinued

theorem Steady.exists_end_or_reached (hc : c.Lawful) (h : c.Steady s m x e st) (n : Nat) :
    (∃ r, code s c.stretch m r) ∨ ∃ around p, c.Reached s m around n p := by
  induction n with
  | zero =>
    by_cases hroom : 0 < m.config.maxStack
    · cases h.comes_opening hc with
      | overflow hopening => exact .inl ⟨_, (hc.code_iff hroom).mpr (.stopped hopening)⟩
      | ends hopening hQ =>
        obtain ⟨rfl, -⟩ := hQ
        exact .inr ⟨_, _, _, hopening, rfl, .first⟩
    · obtain ⟨m', hover⟩ := hc.code_of_noRoom hroom s
      exact .inl ⟨_, hover⟩
  | succ n ih =>
    obtain hend | ⟨around, p, hreached⟩ := ih
    · exact .inl hend
    · obtain ⟨r, hlast⟩ | ⟨p', hnext⟩ := h.last_or_reached hc hreached
      · exact .inl ⟨r, h.code_of_last hc hreached hlast⟩
      · exact .inr ⟨around, p', hnext⟩

/-- The body leaves what the scope `t` itself binds the name of the counter to as it is. -/
def BodyKeeps (c : RangeCode) (s : ScopeId) (m : Machine) (t : ScopeId) : Prop :=
  ∀ around k b left b', c.BodyStarts s m around k b → code around c.bodyCode b (.ok left b') →
    b'.heap.own? t c.counter = b.heap.own? t c.counter

/-- The counter is kept to the loop: up to any pass, other scopes bind its name as before. -/
theorem Steady.own_of_reached (hc : c.Lawful) (h : c.Steady s m x e st) {t : ScopeId}
    (ht : t < m.heap.nextScope) (hbody : c.BodyKeeps s m t) (hreached : c.Reached s m around k p) :
    p.heap.own? t c.counter = m.heap.own? t c.counter := by
  obtain ⟨m', hopening, rfl, hpass⟩ := hreached
  have hne : ¬t = m.heap.nextScope := Nat.ne_of_lt ht
  induction hpass with
  | first =>
    obtain ⟨-, hspares, -⟩ := (h.comes_opening hc).of_code_ok hopening
    have ht' : t < m'.heap.nextScope :=
      ht.trans_le ((Machine.Later.nest m s).trans hspares.toLater).nextScope
    calc (m'.nest m.heap.nextScope).heap.own? t c.counter
      _ = m'.heap.own? t c.counter := Heap.own?_addChild_of_lt _ ht' _
      _ = (m.nest s).heap.own? t c.counter :=
        hspares.own (ht.trans_le (Machine.Later.nest m s).nextScope) hne
      _ = m.heap.own? t c.counter := Heap.own?_addChild_of_lt _ ht _
  | next hpass hrun hleft ih =>
    next k p p' left =>
    have hreached : c.Reached s m m'.heap.nextScope k p := ⟨m', hopening, rfl, hpass⟩
    have hlater := (Machine.Later.nest m s).trans (h.counts hc hreached).1
    have hhead := h.comes_head hc hreached
    cases hrun with
    | left hb =>
      exact ((hhead.of_code_ok hb).1.own (ht.trans_le hlater.nextScope) hne).trans ih
    | passed hb hrun =>
      calc p'.heap.own? t c.counter
        _ = _ := hbody _ _ _ _ _ ⟨p, hreached, hb⟩ hrun
        _ = p.heap.own? t c.counter :=
          (hhead.of_code_ok hb).1.own (ht.trans_le hlater.nextScope) hne
        _ = m.heap.own? t c.counter := ih

theorem Steady.own_of_code (hc : c.Lawful) (h : c.Steady s m x e st) {t : ScopeId}
    (ht : t < m.heap.nextScope) (hbody : c.BodyKeeps s m t)
    (hr : code s c.stretch m (.ok none m')) :
    m'.heap.own? t c.counter = m.heap.own? t c.counter := by
  have hne : ¬t = m.heap.nextScope := Nat.ne_of_lt ht
  obtain ⟨_, hover⟩ | ⟨around, k, p, hreached, hlast⟩ := h.exists_last hc hr
  · cases hover
  have hlater := (Machine.Later.nest m s).trans (h.counts hc hreached).1
  have hp := h.own_of_reached hc ht hbody hreached
  have hhead {left : Option Signal} {b : Machine} (hb : code around c.headCode p (.ok left b)) :
      b.heap.own? t c.counter = m.heap.own? t c.counter :=
    (((h.comes_head hc hreached).of_code_ok hb).1.own (ht.trans_le hlater.nextScope) hne).trans hp
  cases hlast with
  | broke hrun =>
    cases hrun with
    | left hb => exact hhead hb
    | passed hb hrun =>
      exact (hbody _ _ _ _ _ ⟨p, hreached, hb⟩ hrun).trans (hhead hb)

end

end RangeCode

/-- **A loop over a range walks the range**, however constants are computed, as long as its
expressions come to the same numbers in every pass and leave the name of the counter alone, and as
long as its body does so too, or breaks the loop.

The body runs for `x - st + st`, then for one step more each time, up to the first number that is at
least `e`. A run that does not overflow ends there or in a pass that the body breaks, and if there
is such a number, then it does end. Scopes that were there before bind the name of the counter to
what they bound it to, unless the body changes that. -/
theorem forRange_walks (optimize : Bool) (counter : String) (start stop step : Expr)
    (body : List Stmt) (l : Layout) {s : ScopeId} {m : Machine} {x e st : Float}
    (h : (rangeCode optimize counter start stop step body l).Steady s m x e st) :
    let c := rangeCode optimize counter start stop step body l
    let A := code s ⟨l.position,
      codeOf (Lower.stmt optimize (.forRange counter start stop (some step) body) l.hidden).1⟩
    (∀ around k b, c.BodyStarts s m around k b →
      b.heap.lookup around counter = some (.number (countedFrom x st k)) ∧
        ¬countedFrom x st k ≥ e) ∧
    (∀ r, A m r → Overflows r ∨ ∃ around k p m', r = .ok none m' ∧ c.Reached s m around k p ∧
      (∀ j < k, ∃ b, c.BodyStarts s m around j b) ∧ (∀ j < k, ¬countedFrom x st j ≥ e) ∧
      (countedFrom x st k ≥ e ∧ code around c.headCode p (.ok (some .broke) m') ∨
        ∃ b, c.BodyStarts s m around k b ∧ code around c.bodyCode b (.ok (some .broke) m'))) ∧
    (∀ n, countedFrom x st n ≥ e → ∃ r, A m r) ∧
    (∀ around k b m', c.BodyStarts s m around k b →
      code around c.bodyCode b (.ok (some .broke) m') → A m (.ok none m')) ∧
    ∀ t < m.heap.nextScope, c.BodyKeeps s m t → ∀ m', A m (.ok none m') →
      m'.heap.own? t counter = m.heap.own? t counter := by
  intro c A
  have hc : c.Lawful := lawful_rangeCode optimize counter start stop step body l
  have hA : A = code s c.stretch := rfl
  rw [hA]
  refine ⟨fun around k b ↦ h.bodyStarts hc, fun r hr ↦ ?_, fun n hn ↦ ?_, ?_, ?_⟩
  · refine (h.exists_last hc hr).elim .inl fun ⟨around, k, p, hreached, hlast⟩ ↦ ?_
    refine (h.last_cases hc hreached hlast).imp_right fun ⟨m', hm', hend⟩ ↦ ?_
    have hstarts (j : Nat) (hj : j < k) := h.bodyStarts_of_lt hc hreached hj
    refine ⟨around, k, p, m', hm', hreached, hstarts, fun j hj ↦ ?_, hend⟩
    obtain ⟨b, hb⟩ := hstarts j hj
    exact (h.bodyStarts hc hb).2
  · obtain hend | ⟨around, p, hreached⟩ := h.exists_end_or_reached hc (n + 1)
    · exact hend
    · obtain ⟨b, hb⟩ := h.bodyStarts_of_lt hc hreached (Nat.lt_succ_self n)
      exact absurd hn (h.bodyStarts hc hb).2
  · rintro around k b m' ⟨p, hreached, hhead⟩ hbroke
    exact h.code_of_last hc hreached (.broke (.passed hhead hbroke))
  · intro t ht hkeeps m' hr
    exact h.own_of_code hc ht hkeeps hr

/-- The range from 0 to 2 has two passes, although both of them end by a `continue`. -/
theorem forRange_walks_continue :
    let c := rangeCode true "i" (.number 0) (.number 2) (.number 1) [.continue] ⟨0, 0⟩
    let m := Machine.start (.standard true) .plain
    let A := code Machine.root ⟨0, codeOf (Lower.stmt true
      (.forRange "i" (.number 0) (.number 2) (some (.number 1)) [.continue]) 0).1⟩
    c.Steady Machine.root m 0 2 1 ∧ ∃ around p m', A m (.ok none m') ∧
      c.Reached Machine.root m around 2 p ∧
      (∀ j < 2, ∃ b, c.BodyStarts Machine.root m around j b) ∧
      code around c.headCode p (.ok (some .broke) m') ∧
      m'.heap.own? Machine.root "i" = none := by
  intro c m A
  have hcontinue (around : ScopeId) : code around c.bodyCode = leave .continued :=
    Behavior.code_continue around _ []
  have hsteady : c.Steady Machine.root m 0 2 1 := by
    refine RangeCode.steady_of_numbers rfl rfl rfl rfl rfl rfl rfl fun around k b _ ↦ ?_
    rw [hcontinue]
    exact .ends rfl (.inr ⟨.inr rfl, rfl, rfl⟩)
  obtain ⟨-, hends, -, -, hkeeps⟩ := forRange_walks true "i" (.number 0) (.number 2) (.number 1)
    [.continue] ⟨0, 0⟩ hsteady
  have hrun : (run 60 Machine.root ⟨0, codeOf (Lower.stmt true
      (.forRange "i" (.number 0) (.number 2) (some (.number 1)) [.continue]) 0).1⟩).comesToEnd m =
        true := by decide +kernel
  obtain ⟨m', hm'⟩ := comesToEnd_iff.mp hrun
  have hcode : A m (.ok none m') := ⟨60, hm', trivial⟩
  have hown : m'.heap.own? Machine.root "i" = m.heap.own? Machine.root "i" := by
    refine hkeeps Machine.root Nat.one_pos ?_ m' hcode
    intro around k b left b' _ hbody
    rw [hcontinue] at hbody
    cases hbody
    rfl
  obtain ⟨_, hover⟩ | ⟨around, k, p, _, hok, hreached, hstarts, hbefore, hend⟩ :=
    hends _ hcode
  · cases hover
  cases hok
  obtain ⟨hlast, hhead⟩ | ⟨b, -, hbroke⟩ := hend
  · have hk : k = 2 := by
      have hzero : ¬countedFrom 0 1 0 ≥ 2 := by decide +kernel
      have hone : ¬countedFrom 0 1 1 ≥ 2 := by decide +kernel
      have htwo : countedFrom 0 1 2 ≥ 2 := by decide +kernel
      match k with
      | 0 => exact absurd hlast hzero
      | 1 => exact absurd hlast hone
      | 2 => rfl
      | k + 3 => exact absurd htwo (hbefore 2 (by omega))
    subst hk
    exact ⟨hsteady, around, p, m', hcode, hreached, hstarts, hhead, hown⟩
  · rw [hcontinue] at hbroke
    cases hbroke

/-- The end of a range may change the counter when it is computed, though it is the same number each
time. The range from 0 to 2 has one pass here, for 1, and none for 0. -/
theorem forRange_skips_zero :
    let stop : Expr := .call (.function "_" []
      [.assign "i" [] (.binary .add (.name "i") (.number 1)), .return (some (.number 2))]) []
    let body : List Stmt :=
      [.expr (.call (.member (.name "console") (.text "out") false) [.name "i"])]
    let loop : Stmt := .forRange "i" (.number 0) stop (some (.number 1)) body
    countedFrom 0 1 0 = 0 ∧ ¬countedFrom 0 1 0 ≥ 2 ∧
      (run 100 Machine.root ⟨0, codeOf (Lower.stmt true loop 0).1⟩ >>= fun _ ↦ pure ()).printed?
        (.start (.standard false) .plain) = some "1\n" := by
  decide +kernel

end GemLang
