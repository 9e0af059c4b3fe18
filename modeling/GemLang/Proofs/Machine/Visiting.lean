import GemLang.Proofs.Compile.Hidden
import GemLang.Proofs.Machine.Iterators
import GemLang.Proofs.Machine.Tidy
import GemLang.Proofs.Machine.Veiling

/-!
# Loops over the entries of a table

A loop over an iterator keeps the iterator under a hidden name in the scope of the statement. In
every pass it calls the iterator, which gives a key and a value, and leaves when the key is `null`.

```text
iterator, DECLARE hidden                   in the scope of the statement
LOOP                                       a new scope inside it: around
  LOAD hidden, CALL, DECLARE key, DECLARE value
  IF LOAD key, LOAD null, EQ THEN BREAK    a new scope inside around, in every pass
  body
DELETE hidden
```

The body may be anything, with loops and calls of its own. That it does not get at the iterator is
shown by a guard, and `EachCode.Drawing` says what holds before every pass: the hidden name means
the iterator, and what is left of the iterator are the entries that have not been visited.

An iterator may be kept by the program as well. Then the body may draw entries from it, and the loop
goes on behind these (`forEach_skips_entries`).
-/

namespace GemLang

open Bytecode
open Behavior (code seq skip leave inside loop test choose Comes Pass Last Orderly)
open Structured (NestedLines breakIf)
open Lower (VeiledLines)
open Exec

/-! ## The code of a loop -/

/-- The code of a `for` loop over an iterator: where it stands, and its parts. -/
structure EachCode where
  position : Nat
  hidden : String
  key : String
  value : String
  iterator : List Line
  body : List Line

/-- The code that a loop over an iterator is lowered to. -/
def eachCode (optimize : Bool) (key value : String) (iterator : Expr) (body : List Stmt)
    (l : Layout) : EachCode :=
  let i := Lower.expr optimize iterator (l.hidden + 1)
  let x := Lower.stmts optimize body i.2
  ⟨l.position, Lower.hiddenName (l.hidden + 1), key, value, i.1, x.1⟩

namespace EachCode

variable (c : EachCode)

/-- What keeps the iterator. -/
def openingLines : List Line := c.iterator ++ unary .declareLocal c.hidden

/-- What draws an entry. -/
def drawLines : List Line :=
  unary .loadLocal c.hidden ++ bare .call ++ unary .declareLocal c.key ++
    unary .declareLocal c.value

/-- What says that there are no more entries. -/
def doneLines : List Line := unary .loadLocal c.key ++ unary .loadLocal "null" ++ bare .eq

/-- What comes before the body in every pass. -/
def headLines : List Line := c.drawLines ++ Lower.breakWhen c.doneLines

def loopLines : List Line := Lower.loopLines (c.headLines ++ c.body)

def top : Nat := c.position + (codeOf c.openingLines).length + 1

def iteratorCode : Stretch := ⟨c.position, codeOf c.iterator⟩

def openingCode : Stretch := ⟨c.position, codeOf c.openingLines⟩

def drawCode : Stretch := ⟨c.top, codeOf c.drawLines⟩

def testCode : Stretch :=
  ⟨c.top + (codeOf c.drawLines).length, codeOf (Lower.breakWhen c.doneLines)⟩

def doneCode : Stretch := ⟨c.top + (codeOf c.drawLines).length + 1, codeOf c.doneLines⟩

def headCode : Stretch := ⟨c.top, codeOf c.headLines⟩

def bodyCode : Stretch := ⟨c.top + (codeOf c.headLines).length, codeOf c.body⟩

def closingCode : Stretch :=
  ⟨c.position + (codeOf (c.openingLines ++ c.loopLines)).length, codeOf (unary .delete c.hidden)⟩

def pass (around : ScopeId) : Behavior := (code around c.headCode).seq (code around c.bodyCode)

def stretch : Stretch :=
  ⟨c.position, codeOf (Lower.eachLines c.hidden c.key c.value c.iterator c.body)⟩

/-- What is known of the code of every loop over an iterator. -/
structure Lawful : Prop where
  iterator : Lower.Shaped (.value false) c.iterator
  body : Lower.Shaped (.body false) c.body
  veiledIterator : VeiledLines c.hidden .whole c.iterator
  veiledBody : VeiledLines c.hidden .whole c.body
  hidden : ¬IsName c.hidden
  key : IsName c.key
  value : IsName c.value

end EachCode

theorem lawful_eachCode (optimize : Bool) {key value : String} {iterator : Expr} {body : List Stmt}
    (l : Layout) (h : Spelling.named.stmt (.forEach key value iterator body)) :
    (eachCode optimize key value iterator body l).Lawful := by
  obtain ⟨hkey, hvalue, hiterator, hbody⟩ := h
  have hhidden := not_isName_hiddenName (l.hidden + 1)
  exact ⟨(Lower.shaped_expr optimize iterator (by simp)).run _,
    (Lower.shaped_stmts optimize body (by simp)).run _,
    Lower.veiled_expr hhidden optimize iterator hiterator _,
    Lower.veiled_stmts hhidden optimize body hbody _, hhidden, hkey, hvalue⟩

namespace EachCode

variable {c : EachCode} (hc : c.Lawful)

theorem nested_draw : NestedLines .whole c.drawLines :=
  (((Structured.nested_unary .loadLocal c.hidden).append (Structured.nested_jump .call)).append
    (Structured.nested_unary .declareLocal c.key)).append
      (Structured.nested_unary .declareLocal c.value)

theorem nested_done : NestedLines .whole c.doneLines :=
  ((Structured.nested_unary .loadLocal c.key).append
    (Structured.nested_unary .loadLocal "null")).append (Structured.nested_bare .eq)

theorem nested_head : NestedLines .whole c.headLines :=
  nested_draw.append (Structured.nested_breakWhen nested_done)

include hc

theorem Lawful.nested_opening : NestedLines .whole c.openingLines :=
  (Structured.nested_of_shaped hc.iterator).append
    (Structured.nested_unary .declareLocal c.hidden)

theorem Lawful.nested_loop : NestedLines .whole c.loopLines :=
  Structured.nested_loopLines (nested_head.append (Structured.nested_of_shaped hc.body))

theorem Lawful.code_stretch (s : ScopeId) : code s c.stretch =
    ((code s c.openingCode).seq (inside s fun around ↦ loop (c.pass around))).seq
      (code s c.closingCode) := by
  have hlines : Lower.eachLines c.hidden c.key c.value c.iterator c.body =
      c.openingLines ++ c.loopLines ++ unary .delete c.hidden := by
    simp [Lower.eachLines, openingLines, loopLines, headLines, drawLines, doneLines]
  rw [stretch, hlines, Structured.code_lines_append (hc.nested_opening.append hc.nested_loop)
      (Structured.nested_unary .delete c.hidden),
    Structured.code_lines_append hc.nested_opening hc.nested_loop, loopLines,
    Structured.code_loopLines (nested_head.append (Structured.nested_of_shaped hc.body))]
  simp only [Structured.code_lines_append nested_head (Structured.nested_of_shaped hc.body)]
  rfl

theorem Lawful.code_opening (s : ScopeId) : code s c.openingCode =
    (code s c.iteratorCode).seq (code s ⟨c.position + (codeOf c.iterator).length,
      codeOf (unary .declareLocal c.hidden)⟩) :=
  Structured.code_lines_append (Structured.nested_of_shaped hc.iterator)
    (Structured.nested_unary .declareLocal c.hidden) s c.position

omit hc

theorem code_draw (around : ScopeId) : code around c.drawCode =
    (((code around ⟨c.top, codeOf (unary .loadLocal c.hidden)⟩).seq
      (code around ⟨c.top + 2, codeOf (bare .call)⟩)).seq
        (code around ⟨c.top + 3, codeOf (unary .declareLocal c.key)⟩)).seq
          (code around ⟨c.top + 5, codeOf (unary .declareLocal c.value)⟩) := by
  have hload := Structured.nested_unary .loadLocal c.hidden
  have hcall := hload.append (Structured.nested_jump .call)
  have hkey := Structured.nested_unary .declareLocal c.key
  have hvalue := Structured.nested_unary .declareLocal c.value
  rw [drawCode, drawLines, Structured.code_lines_append (hcall.append hkey) hvalue,
    Structured.code_lines_append hcall hkey,
    Structured.code_lines_append hload (Structured.nested_jump .call)]
  rfl

theorem code_done (check : ScopeId) : code check c.doneCode =
    ((code check ⟨c.doneCode.position, codeOf (unary .loadLocal c.key)⟩).seq
      (code check ⟨c.doneCode.position + 2, codeOf (unary .loadLocal "null")⟩)).seq
        (code check ⟨c.doneCode.position + 4, codeOf (bare .eq)⟩) := by
  have hkey := Structured.nested_unary .loadLocal c.key
  have hnull := Structured.nested_unary .loadLocal "null"
  rw [doneCode, doneLines, Structured.code_lines_append (hkey.append hnull)
    (Structured.nested_bare .eq), Structured.code_lines_append hkey hnull]
  rfl

theorem code_test (around : ScopeId) : code around c.testCode =
    breakIf (fun check ↦ code check c.doneCode) around :=
  Structured.code_breakWhen nested_done around _

theorem code_head (around : ScopeId) :
    code around c.headCode = (code around c.drawCode).seq (code around c.testCode) :=
  Structured.code_lines_append nested_draw (Structured.nested_breakWhen nested_done) around _

end EachCode

/-! ## Passes -/

namespace EachCode

variable {c : EachCode} {m p q : Machine} {s around check : ScopeId} {i : Nat} {alone : Prop}
  {pairs : List (Value × Value)} {x : Value}

/-- The key is compared with `null`. -/
theorem comes_done (hcheck : check < m.heap.nextScope) (hx : m.heap.lookup check c.key = some x)
    (hnull : m.heap.lookup check "null" = some .null) (vs : List Value) :
    Comes (code check c.doneCode) (m.withStack check vs) fun left m' ↦
      left = none ∧ m' = m.withStack check (.bool (x == .null) :: vs) := by
  have hoperands := (comes_loadLocal_withStack hcheck hx vs c.doneCode.position).thenComes
    (P := (· = m.withStack check (x :: vs))) fun m' hm' ↦
      hm' ▸ comes_loadLocal_withStack hcheck hnull (x :: vs) (c.doneCode.position + 2)
  rw [code_done]
  refine hoperands.thenComes fun m' hm' ↦ ?_
  subst hm'
  exact comes_withStack hcheck .eq [] rfl rfl
    (leaves_binary hcheck vs .eq x .null) _

/-- The test for the end changes nothing that names mean, and takes nothing from iterators. -/
theorem comes_test (hx : q.heap.own? around c.key = some x)
    (hnull : q.heap.lookup around "null" = some .null) :
    Comes (code around c.testCode) q fun left q' ↦
      (∀ t name, q'.heap.own? t name = q.heap.own? t name) ∧ q'.iterators = q.iterators ∧
        (left = none ∧ (x == .null) = false ∨ left = some .broke ∧ (x == .null) = true) := by
  have hcheck : q.heap.nextScope < (q.nest around).heap.nextScope := by simp [Machine.nest]
  have hkey : (q.nest around).heap.lookup q.heap.nextScope c.key = some x :=
    (Heap.lookup_addChild_self ..).trans (Heap.lookup_self hx)
  have hnull : (q.nest around).heap.lookup q.heap.nextScope "null" = some .null :=
    (Heap.lookup_addChild_self ..).trans hnull
  have hdone := comes_done hcheck hkey hnull ((q.nest around).heap.stack q.heap.nextScope)
  rw [withStack_stack] at hdone
  rw [code_test]
  refine Comes.inside (hdone.thenComes fun m' hm' ↦ ?_)
  subst hm'
  have hkept (vs vs' : List Value) :
      let m' := ((q.nest around).withStack q.heap.nextScope vs).withStack q.heap.nextScope vs'
      (∀ t name, m'.heap.own? t name = q.heap.own? t name) ∧ m'.iterators = q.iterators :=
    ⟨fun t name ↦ by simp [Machine.withStack, Machine.nest], rfl⟩
  refine Comes.choose (Heap.stack_setStack_self hcheck _) (fun hfalsy ↦ ?_) fun hfalsy ↦ ?_
  · obtain ⟨hown, hiterators⟩ := hkept _ _
    exact .ends rfl ⟨hown, hiterators, .inr ⟨rfl, by simpa [Value.isFalsy] using hfalsy⟩⟩
  · obtain ⟨hown, hiterators⟩ := hkept _ _
    exact .ends rfl ⟨hown, hiterators, .inl ⟨rfl, by simpa [Value.isFalsy] using hfalsy⟩⟩

/-! ### Drawing -/

/-- The guard of a loop. Its iterator is watched if nothing else leads to it. -/
def guard (hc : c.Lawful) (i : Nat) (alone : Prop) : Guard :=
  ⟨c.hidden, hc.hidden, fun j ↦ j = i ∧ alone⟩

/-- What is known while the loop runs: the scope of the statement keeps the iterator, the one of the
loop does not, and some entries are left. -/
def keeping (s around : ScopeId) (i : Nat) (pairs : List (Value × Value)) : Known :=
  ((Known.start (around + 1) fun _ ↦ pairs).learn s (some (.native (.nextOfTable i)))).learn around
    none

theorem keeping_around (s around : ScopeId) (i : Nat) (pairs : List (Value × Value)) :
    (keeping s around i pairs).binding around = some none :=
  Known.binding_learn_self ..

theorem keeping_kept (hne : s ≠ around) (i : Nat) (pairs : List (Value × Value)) :
    (keeping s around i pairs).binding s = some (some (.native (.nextOfTable i))) :=
  (Known.binding_learn_of_ne hne _).trans (Known.binding_learn_self ..)

theorem isOpen_keeping (s around : ScopeId) (i : Nat) (pairs : List (Value × Value)) :
    (keeping s around i pairs).IsOpen around :=
  ⟨Nat.lt_succ_self _, fun _ hv ↦ nomatch (keeping_around s around i pairs).symm.trans hv⟩

/-- **What holds when an entry is drawn**: the hidden name means the iterator, which has these
entries left. -/
structure Drawing (hc : c.Lawful) (s around : ScopeId) (i : Nat) (alone : Prop)
    (pairs : List (Value × Value)) (m : Machine) : Prop where
  guarded : m.Guarded (c.guard hc i alone) (keeping s around i pairs)
  rest : m.iterators[i]? = some pairs
  ne : s ≠ around
  outer : ∃ outer, (m.heap.scope around).outer = s :: outer
  ready : m.Ready around
  marks : ∀ mark ∈ m.marks, mark.1 ≠ around

/-- **What holds once the next of these entries has been drawn** in the machine `p`: both names are
bound to it, and the iterator has the others left. Other names mean what they did. -/
structure Drew (hc : c.Lawful) (s around : ScopeId) (i : Nat) (alone : Prop)
    (pairs : List (Value × Value)) (p q : Machine) : Prop where
  guarded : q.Guarded (c.guard hc i alone) (keeping s around i pairs.tail)
  rest : q.iterators[i]? = some pairs.tail
  key : q.heap.own? around c.key = some (drawn pairs).1
  value : q.heap.own? around c.value = some (drawn pairs).2
  lookup {x : String} (hkey : c.key ≠ x) (hvalue : c.value ≠ x) :
    q.heap.lookup around x = p.heap.lookup around x

variable {hc : c.Lawful}

theorem Drawing.lookup (h : c.Drawing hc s around i alone pairs p) :
    p.heap.lookup around c.hidden = some (.native (.nextOfTable i)) := by
  obtain ⟨outer, houter⟩ := h.outer
  exact h.guarded.lookup_kept (keeping_kept h.ne i pairs) (keeping_around ..) houter

/-- The iterator moves on, and nobody else is told. -/
theorem Drawing.moved (h : c.Drawing hc s around i alone pairs p) :
    Machine.Guarded (c.guard hc i alone) (keeping s around i pairs.tail)
        { p with iterators := p.iterators.setIfInBounds i pairs.tail } ∧
      (c.guard hc i alone).Holds (drawn pairs).1 ∧ (c.guard hc i alone).Holds (drawn pairs).2 := by
  have hpairs := h.guarded.pairs i
  rw [Array.getD_eq_getD_getElem?, h.rest, Option.getD_some] at hpairs
  have hmoved := h.guarded.setIterator i fun p hp ↦ hpairs p (List.mem_of_mem_tail hp)
  refine ⟨hmoved.congr_rest fun j hj ↦ ?_, ?_⟩
  · obtain ⟨rfl, -⟩ := hj
    exact Function.update_self ..
  · cases pairs with
    | nil => exact ⟨(Guard.made_holds _).text _, (Guard.made_holds _).text _⟩
    | cons pair pairs => exact hpairs pair List.mem_cons_self

theorem Drawing.comes_call (h : c.Drawing hc s around i alone pairs p) :
    Comes ((code around ⟨c.top, codeOf (unary .loadLocal c.hidden)⟩).seq
      (code around ⟨c.top + 2, codeOf (bare .call)⟩)) p fun left q ↦ left = none ∧ q = { p with
        iterators := p.iterators.setIfInBounds i pairs.tail
        heap := (p.heap.push around (drawn pairs).2).push around (drawn pairs).1 } := by
  have hs := h.ready.scope
  have hload := comes_loadLocal_withStack hs h.lookup (p.heap.stack around) c.top
  rw [withStack_stack] at hload
  refine hload.thenComes fun m' hm' ↦ ?_
  subst hm'
  have hstack : (p.withStack around (.native (.nextOfTable i) :: p.heap.stack around)).heap.stack
      around = .native (.nextOfTable i) :: p.heap.stack around :=
    Heap.stack_setStack_self hs _
  have hcall := comes_nextOfTable hstack h.marks h.rest (c.top + 2)
  simpa only [Machine.withStack, Heap.setStack_setStack, Heap.setStack_stack] using hcall

/-- Drawing an entry binds both names, and takes the entry from those that are left. -/
theorem Drawing.comes_draw (h : c.Drawing hc s around i alone pairs p) (hne : c.key ≠ c.value) :
    Comes (code around c.drawCode) p fun left q ↦
      left = none ∧ c.Drew hc s around i alone pairs p q := by
  have hs := h.ready.scope
  obtain ⟨hmoved, hkey, hvalue⟩ := h.moved
  have hnamed {x : String} (hx : IsName x) : x ≠ c.hidden := fun heq ↦ hc.hidden (heq ▸ hx)
  obtain ⟨hi, -⟩ := Array.getElem?_eq_some_iff.mp h.rest
  rw [code_draw]
  refine Comes.thenComes (P := fun q ↦
    q.Guarded (c.guard hc i alone) (keeping s around i pairs.tail) ∧
      q.iterators[i]? = some pairs.tail ∧ around < q.heap.nextScope ∧
        q.heap.stack around = (drawn pairs).2 :: p.heap.stack around ∧
          q.heap.own? around c.key = some (drawn pairs).1 ∧
            ∀ x, c.key ≠ x → q.heap.lookup around x = p.heap.lookup around x)
    (h.comes_call.thenComes fun q hq ↦ ?_) ?_
  · have hstack : q.heap.stack around =
        (drawn pairs).1 :: (drawn pairs).2 :: p.heap.stack around := by
      rw [hq, Heap.stack_push_self (by simpa using hs), Heap.stack_push_self hs]
    refine comes_declareLocal hstack ?_ _
    subst hq
    refine ⟨rfl, ?_, by simp [hi], by simpa using hs, ?_, ?_, fun x hx ↦ ?_⟩
    · have hpushed := (hmoved.push around hvalue).push around hkey
      exact (hpushed.pop hstack).1.declare around (absurd · (hnamed hc.key)) fun _ ↦ hkey
    · rw [Heap.stack_declare, Heap.stack_setStack_self (by simpa using hs)]
    · exact Heap.own?_declare_self (by simpa using hs) ..
    · rw [Heap.lookup_declare_of_ne hx, Heap.lookup_setStack, Heap.lookup_push, Heap.lookup_push]
  · rintro q ⟨hq, hrest, hlt, hstack, hown, hlookup⟩
    refine comes_declareLocal hstack ⟨rfl, ?_, hrest, ?_, ?_, fun {x} hx hx' ↦ ?_⟩ _
    · exact (hq.pop hstack).1.declare around (absurd · (hnamed hc.value)) fun _ ↦ hvalue
    · rw [Heap.own?_declare, if_neg fun heq ↦ hne heq.2.2.symm, Heap.own?_setStack, hown]
    · exact Heap.own?_declare_self (by simpa using hlt) ..
    · rw [Heap.lookup_declare_of_ne hx', Heap.lookup_setStack, hlookup x hx]

theorem Lawful.veiled_test (hc : c.Lawful) :
    VeiledLines c.hidden .whole (Lower.breakWhen c.doneLines) := by
  have hne {x : String} (hx : IsName x) : x ≠ c.hidden := fun heq ↦ hc.hidden (heq ▸ hx)
  have hoperands := (Lower.veiled_name .loadLocal (hne hc.key) (by simp)).append
    (Lower.veiled_name .loadLocal (hne Lower.isName_null) (by simp))
  exact Lower.veiled_breakWhen (hoperands.append (Lower.veiled_bare _ (.inl rfl) rfl))

/-- What comes before the body draws an entry, and leaves the loop if there is none. -/
theorem Drawing.comes_head (h : c.Drawing hc s around i alone pairs p) (hne : c.key ≠ c.value)
    (hnull : ∀ q, code around c.drawCode p (.ok none q) →
      q.heap.lookup around "null" = some .null) :
    Comes (code around c.headCode) p fun left b ↦ c.Drew hc s around i alone pairs p b ∧
      (left = none ∧ ((drawn pairs).1 == .null) = false ∨
        left = some .broke ∧ ((drawn pairs).1 == .null) = true) := by
  rw [code_head]
  refine (h.comes_draw hne).mem.seq ?_ fun _ _ h ↦ nomatch h.1.1
  rintro q ⟨⟨-, hq⟩, hdraw⟩
  refine (comes_test hq.key (hnull q hdraw)).mem.mono ?_
  rintro left b ⟨⟨hown, hiterators, hleft⟩, htest⟩
  refine ⟨⟨?_, hiterators ▸ hq.rest, (hown ..).trans hq.key, (hown ..).trans hq.value,
    fun {x} hx hx' ↦ ?_⟩, hleft⟩
  · have hb := hq.guarded.of_code (isOpen_keeping ..) hc.veiled_test htest
    obtain ⟨rfl, -⟩ | ⟨rfl, -⟩ := hleft <;> exact hb
  · have houter := (later_code htest).outer (hq.guarded.known (keeping_around ..)).1
    exact (Heap.lookup_eq_of_own? houter fun u ↦ hown u x).trans (hq.lookup hx hx')

theorem Drew.guarded_of_body (h : c.Drew hc s around i alone pairs p m) {left : Option Signal}
    (hbody : code around c.bodyCode m (.ok left q))
    (hleft : (left = none ∨ left = some .continued) ∨ left = some .broke) :
    q.Guarded (c.guard hc i alone) (keeping s around i pairs.tail) := by
  have hq := h.guarded.of_code (isOpen_keeping ..) hc.veiledBody hbody
  obtain (rfl | rfl) | rfl := hleft <;> exact hq

/-! ### Marks -/

theorem Lawful.ready_opening (hc : c.Lawful) (hm : m.Ready s)
    (h : code s c.openingCode m (.ok none q)) : q.Ready s ∧ q.marks = m.marks := by
  obtain ⟨fuel, hrun, -⟩ := h
  have hshape := Lower.shaped_bind c.hidden (.inl rfl) hc.iterator
  have hachieves : Achieves fuel (Ending.Balanced false) (codeOf c.openingLines) := by
    rw [openingLines, codeOf_eq_flatten]
    exact Shape.behaves (fun k _ ↦ bodiesKeepMarks k) hshape
  obtain ⟨hready, hbalanced⟩ := hachieves.of_ok (Nat.le_refl fuel) hm hrun
  exact ⟨hready, hbalanced.marks⟩

/-- A pass changes no marks, if none was made in the scope of the loop. -/
theorem Lawful.ready_pass (hc : c.Lawful) (hp : p.Ready around)
    (hmarks : ∀ mark ∈ p.marks, mark.1 ≠ around) {left : Option Signal}
    (h : c.pass around p (.ok left q)) : q.Ready around ∧ q.marks = p.marks := by
  have hread (name : String) : Lower.Shaped (.value false) (unary .loadLocal name) :=
    .operand (.inr rfl)
  have htest := Lower.shaped_breakWhen (Lower.shaped_binary .eq (hread c.key) (hread "null"))
  have hcode : c.pass around = code around ⟨c.top, codeOf (c.headLines ++ c.body)⟩ :=
    (Structured.code_lines_append nested_head (Structured.nested_of_shaped hc.body) ..).symm
  rw [hcode] at h
  obtain ⟨fuel, hrun, -⟩ := h
  have hrest : Achieves fuel (Ending.Balanced false)
      (codeOf (Lower.breakWhen c.doneLines ++ c.body)) := by
    rw [codeOf_eq_flatten]
    exact Shape.behaves (fun k _ ↦ bodiesKeepMarks k) (Lower.shaped_sequence htest hc.body)
  -- the draw may take a mark, but not one of the scope of the loop, where there is none
  have hpass := passed_each (fun k _ ↦ bodiesKeepMarks k) c.hidden c.key c.value
    (hrest.mono fun _ ↦ Ending.Balanced.passed)
  have hlines : codeOf (c.headLines ++ c.body) = .op .loadLocal :: .operand c.hidden :: .op .call ::
      .op .declareLocal :: .operand c.key :: .op .declareLocal :: .operand c.value ::
        codeOf (Lower.breakWhen c.doneLines ++ c.body) := by
    simp [headLines, drawLines]
  rw [← hlines] at hpass
  obtain ⟨hready, hpassed⟩ := hpass.of_ok (Nat.le_refl fuel) hp hrun
  exact ⟨hready, hpassed hmarks⟩

/-- The body is reached in a pass that does not leave the loop. -/
theorem Drawing.exists_body (h : c.Drawing hc s around i alone pairs p) (hne : c.key ≠ c.value)
    (hnull : ∀ q, code around c.drawCode p (.ok none q) →
      q.heap.lookup around "null" = some .null) {left : Option Signal}
    (hrun : c.pass around p (.ok left q)) (hleft : left = none ∨ left = some .continued) :
    ∃ b, code around c.headCode p (.ok none b) ∧ c.Drew hc s around i alone pairs p b ∧
      code around c.bodyCode b (.ok left q) := by
  have hhead := h.comes_head hne hnull
  cases hrun with
  | left hb =>
    obtain ⟨-, ⟨hnone, -⟩ | ⟨hbroke, -⟩⟩ := hhead.of_code_ok hb
    · cases hnone
    · cases hbroke
      obtain hnone | hcontinued := hleft
      · cases hnone
      · cases hcontinued
  | passed hb hbody => exact ⟨_, hb, (hhead.of_code_ok hb).1, hbody⟩

/-- **A pass takes one entry**, and leaves all as it was otherwise. -/
theorem Drawing.next (h : c.Drawing hc s around i alone pairs p) (hne : c.key ≠ c.value)
    (hnull : ∀ q, code around c.drawCode p (.ok none q) →
      q.heap.lookup around "null" = some .null) {left : Option Signal}
    (hspared : alone ∨ ∀ b, code around c.headCode p (.ok none b) →
      code around c.bodyCode b (.ok left q) → q.iterators[i]? = b.iterators[i]?)
    (hrun : c.pass around p (.ok left q)) (hleft : left = none ∨ left = some .continued) :
    c.Drawing hc s around i alone pairs.tail q := by
  obtain ⟨hready, hmarks⟩ := hc.ready_pass h.ready h.marks hrun
  obtain ⟨b, hb, hdrew, hbody⟩ := h.exists_body hne hnull hrun hleft
  have hguarded := hdrew.guarded_of_body hbody (.inl hleft)
  have hlater := (later_code hb).trans (later_code hbody)
  refine ⟨hguarded, ?_, h.ne, hlater.outer h.ready.scope ▸ h.outer, hready,
    fun mark hmark ↦ h.marks mark (hmarks ▸ hmark)⟩
  obtain halone | hspared := hspared
  · exact hguarded.cursor ⟨rfl, halone⟩
  · exact (hspared _ hb hbody).trans hdrew.rest

end EachCode

/-! ## Runs of a loop -/

/-- The body of a function of a program whose names are names. -/
def IsNamedBody (b : Code) : Prop :=
  ∃ optimize body n, Spelling.named.stmts body ∧ b = codeOf (Lower.stmts optimize body n).1

theorem IsNamedBody.anyBody {b : Code} (h : IsNamedBody b) : AnyBody b := by
  obtain ⟨optimize, body, n, -, rfl⟩ := h
  exact IsLoweredBody.anyBody ⟨optimize, body, n, rfl⟩

theorem IsNamedBody.veiled {b : Code} (h : IsNamedBody b) {hidden : String}
    (hhidden : ¬IsName hidden) : Veiled hidden .whole b := by
  obtain ⟨optimize, body, n, hbody, rfl⟩ := h
  exact Lower.veiled_stmts hhidden optimize body hbody n

/-- A machine that can run code in the scope `s`: the scope and the scopes with marks exist, the
functions are of programs whose names are names, and no scope binds a name twice. -/
structure Machine.Hosts (m : Machine) (s : ScopeId) : Prop where
  functions : m.All (·.HasBody IsNamedBody)
  scope : s < m.heap.nextScope
  marks : ∀ mark ∈ m.marks, mark.1 < m.heap.nextScope
  distinct (t : ScopeId) : Assoc.Distinct (m.heap.scope t).bindings

namespace Machine.Hosts

variable {m : Machine} {s : ScopeId}

theorem ready (h : m.Hosts s) : m.Ready s :=
  ⟨h.functions.mono fun _ ↦ IsNamedBody.anyBody, h.scope, h.marks⟩

/-- The hidden names in the program are left alone by what it calls. -/
theorem guarded (h : m.Hosts s) {g : Guard} (hwatched : ∀ i, ¬g.watched i)
    (rest : Nat → List (Value × Value)) : m.Guarded g (.start m.heap.nextScope rest) := by
  have hwithin (v : Value) : v.Within g.region :=
    v.within_of_forall (fun _ ↦ trivial) hwatched
  have hveiled (v : Value) (hv : v.All (·.HasBody IsNamedBody)) : g.Holds v :=
    ⟨hwithin v, hv.mono fun _ hf ↦ IsNamedBody.veiled hf g.hidden⟩
  exact {
    stack := fun t v hv ↦ hveiled v (h.functions.stack t v hv)
    own := fun {t _ _} _ hv ↦ hveiled _ (Assoc.forall_of_get? (h.functions.bindings t) hv)
    pairs := fun i p hp ↦ (h.functions.iterators i p hp).imp (hveiled _) (hveiled _)
    distinct := h.distinct
    scopes := Nat.le_refl _
    known := fun hx ↦ nomatch hx
    cursor := fun hi ↦ absurd hi (hwatched _) }

theorem declare (h : m.Hosts s) (t : ScopeId) (name : String) {v : Value}
    (hv : v.All (·.HasBody IsNamedBody)) :
    Machine.Hosts { m with heap := m.heap.declare t name v } s where
  functions := Machine.All.iff_holds.mpr ((Machine.All.iff_holds.mp h.functions).declare t name hv)
  scope := by simpa using h.scope
  marks := by simpa using h.marks
  distinct u := by
    rw [Heap.declare, Heap.scope_modify]
    split
    · exact (h.distinct u).insert name v
    · exact h.distinct u

end Machine.Hosts

theorem hosts_start (config : Config) (host : Host) :
    (Machine.start config host).Hosts Machine.root where
  functions := all_start config host
  scope := Nat.one_pos
  marks := List.forall_mem_nil _
  distinct t := by
    cases t with
    | zero =>
      have hglobals : Assoc.Distinct globals := by unfold Assoc.Distinct; decide
      exact hglobals
    | succ t => exact List.Pairwise.nil

namespace EachCode

/-- When the loop is run in the scope `s` of the machine `m`, a pass starts in the machine `p`, in
the scope `around`, with `k` passes before it. -/
def Reached (c : EachCode) (s : ScopeId) (m : Machine) (around : ScopeId) (k : Nat) (p : Machine) :
    Prop :=
  ∃ m', code s c.openingCode m (.ok none m') ∧ around = m'.heap.nextScope ∧
    Pass (c.pass around) (m'.nest s) k p

/-- The body starts for the time `k`, counted from zero, in the machine `b`. -/
def BodyStarts (c : EachCode) (s : ScopeId) (m : Machine) (around : ScopeId) (k : Nat)
    (b : Machine) : Prop :=
  ∃ p, c.Reached s m around k p ∧ code around c.headCode p (.ok none b)

/-- When the expression has come to the iterator `i`, nothing but the top of the stack of `s` leads
to it. -/
def Alone (c : EachCode) (s : ScopeId) (m : Machine) (i : Nat) : Prop :=
  ∀ m', code s c.iteratorCode m (.ok none m') →
    Machine.Holds (Value.Within (.without i)) (m'.withStack s (m'.heap.stack s).tail)

/-- When the loop is run in the scope `s` of the machine `m`, its expression comes to the iterator
`i`, which has all entries of the table `t` left. -/
def Iterates (c : EachCode) (s : ScopeId) (m : Machine) (i : Nat) (t : Table) : Prop :=
  Comes (code s c.iteratorCode) m fun left m' ↦
    left = none ∧ (m'.heap.stack s).head? = some (.native (.nextOfTable i)) ∧
      m'.iterators[i]? = some (entryPairs t)

/-- The expression comes to an iterator over the table. The name `null` means the value `null`
whenever an entry has been drawn. The body comes to its end, to a `continue` or to a `break`. It
takes nothing from the iterator, unless nothing leads there. Overflows are excepted. -/
structure Steady (c : EachCode) (s : ScopeId) (m : Machine) (i : Nat) (t : Table) : Prop where
  iterator : c.Iterates s m i t
  null {around : ScopeId} {k : Nat} {p q : Machine} (h : c.Reached s m around k p)
    (hdraw : code around c.drawCode p (.ok none q)) : q.heap.lookup around "null" = some .null
  body {around : ScopeId} {k : Nat} {b : Machine} (h : c.BodyStarts s m around k b) :
    Comes (code around c.bodyCode) b fun left _ ↦
      (left = none ∨ left = some .continued) ∨ left = some .broke
  spared : c.Alone s m i ∨ ∀ around k b left b', c.BodyStarts s m around k b →
    code around c.bodyCode b (.ok left b') → left ≠ some .broke →
      b'.iterators[i]? = b.iterators[i]?

section

variable {c : EachCode} (hc : c.Lawful) {s around : ScopeId} {m p b : Machine} {i k : Nat}
  {t : Table} (hm : m.Hosts s)

include hc hm

/-- The expression comes to the iterator, and then the hidden name is bound to it. -/
theorem Iterates.comes_guarded (h : c.Iterates s m i t) :
    Comes (code s c.openingCode) m fun left m' ↦ left = none ∧
      m'.iterators[i]? = some (entryPairs t) ∧
        m'.Guarded (c.guard hc i (c.Alone s m i))
          ((Known.start m.heap.nextScope fun _ ↦ entryPairs t).learn s
            (some (.native (.nextOfTable i)))) ∧
          ∃ m₁, code s c.iteratorCode m (.ok none m₁) ∧
            ∀ x, c.hidden ≠ x → m'.heap.lookup s x = m₁.heap.lookup s x := by
  rw [hc.code_opening]
  refine (Comes.thenComes (P := fun m' ↦ (m'.heap.stack s).head? = some (.native (.nextOfTable i)) ∧
    m'.iterators[i]? = some (entryPairs t) ∧ code s c.iteratorCode m (.ok none m'))
      (Comes.mono (Comes.mem h) ?_) ?_)
  · rintro left m' ⟨⟨rfl, hhead, hrest⟩, hcode⟩
    exact ⟨rfl, hhead, hrest, hcode⟩
  rintro m' ⟨hhead, hrest, hcode⟩
  obtain ⟨vs, hstack⟩ := List.head?_eq_some_iff.mp hhead
  have hopen : (Known.start m.heap.nextScope fun _ ↦ entryPairs t).IsOpen s :=
    ⟨hm.scope, fun _ hv ↦ nomatch hv⟩
  have hstart : m.Guarded ⟨c.hidden, hc.hidden, fun _ ↦ False⟩
      (.start m.heap.nextScope fun _ ↦ entryPairs t) :=
    hm.guarded (fun _ ↦ id) _
  have hguarded := hstart.of_code hopen hc.veiledIterator hcode
  -- the iterator is watched only if nothing leads to it, so all values are inside the region
  have hwithin : Machine.Holds (Value.Within (c.guard hc i (c.Alone s m i)).region)
      (m'.withStack s vs) := by
    by_cases halone : c.Alone s m i
    · have hholds := halone m' hcode
      rw [hstack, List.tail_cons] at hholds
      have hother (j : Nat) (hj : j ≠ i) : (c.guard hc i (c.Alone s m i)).region.iterators j :=
        fun h ↦ hj h.1
      exact hholds.mono fun v hv ↦ hv.mono (fun _ _ ↦ trivial) hother
    · exact .of_forall (fun v ↦ v.within_of_forall (fun _ ↦ trivial) fun j h ↦ halone h.2) _
  have hcursor (j : Nat) (hj : (c.guard hc i (c.Alone s m i)).watched j) :
      m'.iterators[j]? = some (entryPairs t) := hj.1 ▸ hrest
  have hname : (c.guard hc i (c.Alone s m i)).name = c.hidden := rfl
  have hpopped := (hguarded.pop hstack).1.watch hname hwithin (fun _ ↦ entryPairs t) hcursor
  refine comes_declareLocal hstack ⟨rfl, hrest, hpopped.hide ?_ _, m', hcode, fun x hx ↦ ?_⟩ _
  · simpa [Machine.withStack] using hm.scope.trans_le hguarded.scopes
  · rw [Heap.lookup_declare_of_ne hx, Heap.lookup_setStack]

theorem Iterates.comes_opening (h : c.Iterates s m i t) :
    Comes (code s c.openingCode) m fun left m' ↦ left = none ∧
      c.Drawing hc s m'.heap.nextScope i (c.Alone s m i) (entryPairs t) (m'.nest s) ∧
        ∃ m₁, code s c.iteratorCode m (.ok none m₁) ∧ ∀ x, c.hidden ≠ x →
          (m'.nest s).heap.lookup m'.heap.nextScope x = m₁.heap.lookup s x := by
  refine (h.comes_guarded hc hm).mem.mono ?_
  rintro _ m' ⟨⟨rfl, hrest, hguarded, m₁, hm₁, hlookup⟩, hcode⟩
  obtain ⟨hready, hmarks⟩ := hc.ready_opening hm.ready hcode
  refine ⟨rfl, ⟨?_, hrest, Nat.ne_of_lt hready.scope, ?_, hready.newScope, fun mark hmark ↦ ?_⟩,
    m₁, hm₁, fun x hx ↦ (Heap.lookup_addChild_self ..).trans (hlookup x hx)⟩
  · have hnest := hguarded.nest s
    exact hnest.learn (by simp [Machine.nest]) (Heap.own?_addChild_self ..)
  · exact ⟨(m'.heap.scope s).outer, by simp [Machine.nest, Heap.scope_addChild, Scope.empty]⟩
  · exact Nat.ne_of_lt (hready.marks mark hmark)

end

/-- Where an entry is drawn, the name `null` means what it meant before. -/
theorem Drawing.null_of_draw {c : EachCode} {hc : c.Lawful} {s around : ScopeId} {i : Nat}
    {alone : Prop} {pairs : List (Value × Value)} {p q : Machine}
    (h : c.Drawing hc s around i alone pairs p) (hne : c.key ≠ c.value) (hkey : c.key ≠ "null")
    (hvalue : c.value ≠ "null") (hnull : p.heap.lookup around "null" = some .null)
    (hdraw : code around c.drawCode p (.ok none q)) : q.heap.lookup around "null" = some .null :=
  (((h.comes_draw hne).of_code_ok hdraw).2.lookup hkey hvalue).trans hnull

/-- A loop over a new iterator, with a body that leaves the meaning of `null` alone. -/
theorem steady_of_made {c : EachCode} (hc : c.Lawful) {s : ScopeId} {m : Machine} {i : Nat}
    {t : Table} (hm : m.Hosts s) (hne : c.key ≠ c.value) (hkey : c.key ≠ "null")
    (hvalue : c.value ≠ "null")
    (hiterator : Comes (code s c.iteratorCode) m fun left m' ↦ left = none ∧ m.Made s i t m')
    (hnull : m.heap.lookup s "null" = some .null)
    (hbody : ∀ around k b, c.BodyStarts s m around k b →
      Comes (code around c.bodyCode) b fun left b' ↦
        (left = none ∨ left = some .continued) ∧
            b'.heap.lookup around "null" = b.heap.lookup around "null" ∨
          left = some .broke) :
    c.Steady s m i t := by
  have hiterates : c.Iterates s m i t :=
    hiterator.mono fun _ _ h ↦ ⟨h.1, h.2.top, h.2.entries⟩
  have halone : c.Alone s m i := fun m' hm' ↦ (hiterator.of_code_ok hm').2.others
  have hhidden : c.hidden ≠ "null" := fun heq ↦ hc.hidden (heq ▸ Lower.isName_null)
  have hbefore {around : ScopeId} {k : Nat} {p : Machine} (hreached : c.Reached s m around k p) :
      c.Drawing hc s around i (c.Alone s m i) ((entryPairs t).drop k) p ∧
        p.heap.lookup around "null" = some .null := by
    obtain ⟨m', hopening, rfl, hpass⟩ := hreached
    -- along the passes, `null` means the same as it did when the loop was reached
    induction hpass with
    | first =>
      obtain ⟨-, hdrawing, m₁, hm₁, hlookup⟩ := (hiterates.comes_opening hc hm).of_code_ok hopening
      refine ⟨hdrawing, (hlookup _ hhidden).trans ?_⟩
      exact ((hiterator.of_code_ok hm₁).2.lookup _).trans hnull
    | next hpass hrun hleft ih =>
      next k p p' left =>
      obtain ⟨hdrawing, hp⟩ := ih
      have hdraw (q : Machine) := hdrawing.null_of_draw hne hkey hvalue hp (q := q)
      have hreached : c.Reached s m m'.heap.nextScope k p := ⟨m', hopening, rfl, hpass⟩
      rw [← List.tail_drop]
      refine ⟨hdrawing.next hne hdraw (.inl halone) hrun hleft, ?_⟩
      obtain ⟨b, hb, hdrew, hrest⟩ := hdrawing.exists_body hne hdraw hrun hleft
      have hkept : p'.heap.lookup m'.heap.nextScope "null" =
          b.heap.lookup m'.heap.nextScope "null" := by
        obtain ⟨-, hkept⟩ | hbroke := (hbody _ k b ⟨p, hreached, hb⟩).of_code_ok hrest
        · exact hkept
        · rcases hleft with rfl | rfl <;> cases hbroke
      exact hkept.trans ((hdrew.lookup hkey hvalue).trans hp)
  exact {
    iterator := hiterates
    null := fun hreached hdraw ↦
      (hbefore hreached).1.null_of_draw hne hkey hvalue (hbefore hreached).2 hdraw
    body := fun hb ↦ (hbody _ _ _ hb).mono fun _ _ h ↦ h.imp_left And.left
    spared := .inl halone }

section

variable {c : EachCode} (hc : c.Lawful) {s around : ScopeId} {m p b : Machine} {i k : Nat}
  {t : Table} (hm : m.Hosts s) (h : c.Steady s m i t)

include hc hm h

/-- **What holds before a pass**: as many entries have been drawn as there were passes. -/
theorem Steady.drawing (hne : c.key ≠ c.value) (hreached : c.Reached s m around k p) :
    c.Drawing hc s around i (c.Alone s m i) ((entryPairs t).drop k) p := by
  obtain ⟨m', hopening, rfl, hpass⟩ := hreached
  induction hpass with
  | first => exact ((h.iterator.comes_opening hc hm).of_code_ok hopening).2.1
  | next hpass hrun hleft ih =>
    next k p p' left =>
    have hreached : c.Reached s m m'.heap.nextScope k p := ⟨m', hopening, rfl, hpass⟩
    have hne' : left ≠ some .broke := by rcases hleft with rfl | rfl <;> simp
    rw [← List.tail_drop]
    refine ih.next hne (fun q ↦ h.null hreached) (h.spared.imp_right fun hspared b hb hbody ↦ ?_)
      hrun hleft
    exact hspared _ k b left p' ⟨p, hreached, hb⟩ hbody hne'

theorem Steady.comes_head (hne : c.key ≠ c.value) (hreached : c.Reached s m around k p) :
    Comes (code around c.headCode) p fun left b ↦
      c.Drew hc s around i (c.Alone s m i) ((entryPairs t).drop k) p b ∧
        (left = none ∧ k < t.length ∨ left = some .broke ∧ t.length ≤ k) := by
  refine ((h.drawing hc hm hne hreached).comes_head hne fun q ↦ h.null hreached).mono ?_
  simp [drawn_beq_null]

/-- The passes of the loop go as those of loops with a head. -/
theorem Steady.orderly (hne : c.key ≠ c.value) {m' : Machine}
    (hopening : code s c.openingCode m (.ok none m')) :
    Orderly m'.heap.nextScope c.headCode c.bodyCode (m'.nest s) where
  head hp := (h.comes_head hc hm hne ⟨m', hopening, rfl, hp⟩).mono fun _ _ hb ↦
    hb.2.imp And.left And.left
  body hp hb := h.body ⟨_, ⟨m', hopening, rfl, hp⟩, hb⟩

/-- Where the body starts, both names are bound to the entry whose turn it is. -/
theorem Steady.bodyStarts (hne : c.key ≠ c.value) (hb : c.BodyStarts s m around k b) :
    ∃ e, t[k]? = some e ∧ b.heap.lookup around c.key = some (.ofKey e.1) ∧
      b.heap.lookup around c.value = some e.2 := by
  obtain ⟨p, hreached, hhead⟩ := hb
  obtain ⟨hdrew, ⟨-, hk⟩ | ⟨hbroke, -⟩⟩ := (h.comes_head hc hm hne hreached).of_code_ok hhead
  · obtain ⟨e, hentry, hdrawn⟩ := drawn_of_lt hk
    refine ⟨e, hentry, Heap.lookup_self ?_, Heap.lookup_self ?_⟩
    · rw [hdrew.key, hdrawn]
    · rw [hdrew.value, hdrawn]
  · cases hbroke

theorem Steady.bodyStarts_of_lt (hne : c.key ≠ c.value) (hreached : c.Reached s m around k p)
    {j : Nat} (hj : j < k) : ∃ b, c.BodyStarts s m around j b := by
  obtain ⟨m', hopening, rfl, hpass⟩ := hreached
  obtain ⟨q, b, hq, hb⟩ := (h.orderly hc hm hne hopening).started_of_lt hpass hj
  exact ⟨b, q, ⟨m', hopening, rfl, hq⟩, hb⟩

/-- There are no more passes before one than there are entries. -/
theorem Steady.le_length (hne : c.key ≠ c.value) (hreached : c.Reached s m around k p) :
    k ≤ t.length := by
  by_contra hlt
  obtain ⟨b, hb⟩ := h.bodyStarts_of_lt hc hm hne hreached (Nat.lt_of_not_le hlt)
  obtain ⟨e, hentry, -⟩ := h.bodyStarts hc hm hne hb
  rw [List.getElem?_eq_none (Nat.le_refl _)] at hentry
  cases hentry

/-- The loop is broken by its head when all entries have been visited, or by its body. -/
theorem Steady.broken_cases (hne : c.key ≠ c.value) (hreached : c.Reached s m around k p)
    {q : Machine} (hq : c.pass around p (.ok (some .broke) q)) :
    k = t.length ∧ code around c.headCode p (.ok (some .broke) q) ∨
      ∃ b, c.BodyStarts s m around k b ∧ code around c.bodyCode b (.ok (some .broke) q) := by
  cases hq with
  | passed hb hq => exact .inr ⟨_, ⟨p, hreached, hb⟩, hq⟩
  | left hq =>
    obtain ⟨-, ⟨hnone, -⟩ | ⟨-, hle⟩⟩ := (h.comes_head hc hm hne hreached).of_code_ok hq
    · cases hnone
    · exact .inl ⟨(h.le_length hc hm hne hreached).antisymm hle, hq⟩

/-- **The iterator is dropped in the end**: where the loop is broken, the scope of the statement
still keeps it, and it does no longer then. -/
theorem Steady.closing (hne : c.key ≠ c.value) (hreached : c.Reached s m around k p)
    {q : Machine} (hq : c.pass around p (.ok (some .broke) q)) :
    code s c.closingCode q (.ok none { q with heap := q.heap.undeclare s c.hidden }) ∧
      (q.heap.undeclare s c.hidden).own? s c.hidden = none := by
  have hhead := h.comes_head hc hm hne hreached
  obtain ⟨rest, hguarded⟩ : ∃ rest,
      q.Guarded (c.guard hc i (c.Alone s m i)) (keeping s around i rest) := by
    cases hq with
    | passed hb hq => exact ⟨_, (hhead.of_code_ok hb).1.guarded_of_body hq (.inr rfl)⟩
    | left hq => exact ⟨_, (hhead.of_code_ok hq).1.guarded⟩
  obtain ⟨-, hown⟩ := hguarded.known (keeping_kept (h.drawing hc hm hne hreached).ne i rest)
  refine ⟨code_of_perform .delete [c.hidden] rfl rfl ?_ _, ?_⟩
  · exact perform_delete (Heap.owner?_self hown)
  · rw [Heap.own?_undeclare (hguarded.distinct s), if_pos ⟨rfl, rfl⟩]

theorem Steady.code_of_broken (hne : c.key ≠ c.value) (hreached : c.Reached s m around k p)
    {q : Machine} (hq : c.pass around p (.ok (some .broke) q)) :
    code s c.stretch m (.ok none { q with heap := q.heap.undeclare s c.hidden }) := by
  have hclosing := (h.closing hc hm hne hreached hq).1
  obtain ⟨m', hopening, rfl, hpass⟩ := hreached
  have hloop := Behavior.loop_iff.mpr ⟨k, p, hpass, .broke hq⟩
  rw [hc.code_stretch]
  exact .passed (.passed hopening hloop) hclosing

theorem Steady.exists_last (hne : c.key ≠ c.value) {r : Exec.Result (Option Signal)}
    (hr : (code s c.openingCode).seq (inside s fun around ↦ loop (c.pass around)) m r) :
    Overflows r ∨ ∃ around k p q, c.Reached s m around k p ∧
      c.pass around p (.ok (some .broke) q) ∧ r = .ok none q := by
  have hopening := h.iterator.comes_opening hc hm
  cases hr with
  | passed hfirst hloop =>
    obtain ⟨k, p, hpass, hlast⟩ := Behavior.loop_iff.mp hloop
    refine ((h.orderly hc hm hne hfirst).last_cases hpass hlast).imp_right ?_
    rintro ⟨q, rfl, hq⟩
    exact ⟨_, k, p, q, ⟨_, hfirst, rfl, hpass⟩, hq, rfl⟩
  | left hfirst => exact nomatch (hopening.of_code_ok hfirst).1
  | stopped hfirst =>
    obtain hover | ⟨_, _, heq, -⟩ := hopening.of_code hfirst
    · exact .inl hover
    · cases heq

/-- The statement overflows, or it ends in a pass that breaks the loop. -/
theorem Steady.exists_broken (hne : c.key ≠ c.value) {r : Exec.Result (Option Signal)}
    (hr : code s c.stretch m r) : Overflows r ∨ ∃ around k p q, c.Reached s m around k p ∧
      c.pass around p (.ok (some .broke) q) ∧
        r = .ok none { q with heap := q.heap.undeclare s c.hidden } := by
  rw [hc.code_stretch] at hr
  cases hr with
  | passed hlast hclosing =>
    obtain ⟨_, hover⟩ | ⟨around, k, p, q, hreached, hq, heq⟩ := h.exists_last hc hm hne hlast
    · cases hover
    · cases heq
      have hend := (h.closing hc hm hne hreached hq).1
      exact .inr ⟨around, k, p, _, hreached, hq, Behavior.code_unique hclosing hend⟩
  | left hlast =>
    obtain ⟨_, hover⟩ | ⟨_, _, _, _, -, -, heq⟩ := h.exists_last hc hm hne hlast
    · cases hover
    · cases heq
  | stopped hlast =>
    obtain hover | ⟨_, _, _, _, -, -, heq⟩ := h.exists_last hc hm hne hlast
    · exact .inl hover
    · cases heq

/-- The statement comes to an end, as there are only so many entries. -/
theorem Steady.exists_end (hne : c.key ≠ c.value) : ∃ r, code s c.stretch m r := by
  cases h.iterator.comes_opening hc hm with
  | overflow hopening =>
    rw [hc.code_stretch]
    exact ⟨_, .stopped (.stopped hopening)⟩
  | ends hopening hQ =>
    obtain ⟨rfl, -⟩ := hQ
    obtain ⟨r, hloop⟩ | ⟨p, hpass⟩ :=
      (h.orderly hc hm hne hopening).exists_end_or_pass (t.length + 1)
    · have hlast := h.exists_last hc hm hne (.passed hopening hloop)
      obtain ⟨_, rfl⟩ | ⟨around, k, p, q, hreached, hq, -⟩ := hlast
      · rw [hc.code_stretch]
        exact ⟨_, .stopped (.passed hopening hloop)⟩
      · exact ⟨_, h.code_of_broken hc hm hne hreached hq⟩
    · have hle := h.le_length hc hm hne ⟨_, hopening, rfl, hpass⟩
      exact absurd hle (Nat.not_succ_le_self _)

end

end EachCode

/-- **A loop over an iterator visits every entry of the table once, in order**, with `null` among
the values and `"null"` among the keys as well. This is so whatever the body does, as long as it
comes to its end, to a `continue` or to a `break`, and takes nothing from the iterator itself. It
cannot if nothing leads to the iterator but the loop.

The body is run with the two names bound to an entry each time, and after every entry the loop ends,
or in the first pass that the body breaks. Then the scope that kept the iterator does no longer bind
the hidden name. -/
theorem forEach_visits (optimize : Bool) {key value : String} {iterator : Expr} {body : List Stmt}
    (l : Layout) {s : ScopeId} {m : Machine} {i : Nat} {t : Table}
    (hnames : Spelling.named.stmt (.forEach key value iterator body)) (hne : key ≠ value)
    (hm : m.Hosts s) (h : (eachCode optimize key value iterator body l).Steady s m i t) :
    let c := eachCode optimize key value iterator body l
    let A := code s ⟨l.position,
      codeOf (Lower.stmt optimize (.forEach key value iterator body) l.hidden).1⟩
    (∀ around k b, c.BodyStarts s m around k b → ∃ e, t[k]? = some e ∧
      b.heap.lookup around key = some (.ofKey e.1) ∧ b.heap.lookup around value = some e.2) ∧
    (∃ r, A m r) ∧
    (∀ r, A m r → Overflows r ∨ ∃ around k p q, c.Reached s m around k p ∧
      (∀ j < k, ∃ b, c.BodyStarts s m around j b) ∧
      r = .ok none { q with heap := q.heap.undeclare s c.hidden } ∧
      (q.heap.undeclare s c.hidden).own? s c.hidden = none ∧
      (k = t.length ∧ code around c.headCode p (.ok (some .broke) q) ∨
        ∃ b, c.BodyStarts s m around k b ∧ code around c.bodyCode b (.ok (some .broke) q))) ∧
    ∀ around k b q, c.BodyStarts s m around k b → code around c.bodyCode b (.ok (some .broke) q) →
      A m (.ok none { q with heap := q.heap.undeclare s c.hidden }) := by
  intro c A
  have hc : c.Lawful := lawful_eachCode optimize l hnames
  have hA : A = code s c.stretch := rfl
  rw [hA]
  refine ⟨fun around k b ↦ h.bodyStarts hc hm hne, h.exists_end hc hm hne, fun r hr ↦ ?_, ?_⟩
  · refine (h.exists_broken hc hm hne hr).imp_right fun ⟨around, k, p, q, hreached, hq, heq⟩ ↦ ?_
    exact ⟨around, k, p, q, hreached, fun j ↦ h.bodyStarts_of_lt hc hm hne hreached, heq,
      (h.closing hc hm hne hreached hq).2, h.broken_cases hc hm hne hreached hq⟩
  · rintro around k b q ⟨p, hreached, hhead⟩ hbroke
    exact h.code_of_broken hc hm hne hreached (.passed hhead hbroke)

/-- Neither a key that is the text `null` nor a value that is `null` ends the loop, and both passes
of this one end by a `continue`. -/
theorem forEach_visits_null :
    let t : Table := [(.text "null", .bool true), (.text "x", .null)]
    let start := Machine.start (.standard true) .plain
    let m : Machine := { start with heap := start.heap.declare Machine.root "t" (.table t) }
    let loop : Stmt := .forEach "k" "v" (iteratorOf "t") [.continue]
    let c := eachCode true "k" "v" (iteratorOf "t") [.continue] ⟨0, 0⟩
    let A := code Machine.root ⟨0, codeOf (Lower.stmt true loop 0).1⟩
    c.Steady Machine.root m 0 t ∧ ∃ around p q,
      A m (.ok none { q with heap := q.heap.undeclare Machine.root c.hidden }) ∧
        c.Reached Machine.root m around 2 p ∧ code around c.headCode p (.ok (some .broke) q) := by
  intro t start m loop c A
  have hnames : Spelling.named.stmt loop := by
    have hk : IsName "k" := by decide
    have hv : IsName "v" := by decide
    have ht : IsName "t" := by decide
    have htable : IsName "table" := by decide
    simp [loop, iteratorOf, Spelling.stmt, Spelling.stmts, Spelling.expr, Spelling.arguments,
      Spelling.named, hk, hv, ht, htable]
  have hm : m.Hosts Machine.root := by
    refine (hosts_start _ .plain).declare _ "t" ?_
    simp [t, Value.All, Value.AllEntries, Value.null]
  have hholds : m.Holds (Value.Within (.without 0)) := by
    refine (Machine.holds_start (within_globals _) _ _).declare _ "t" (.table ?_)
    simp only [t, List.forall_mem_cons]
    exact ⟨.plain trivial, .plain trivial, List.forall_mem_nil _⟩
  have hcontinue (around : ScopeId) : code around c.bodyCode = leave .continued :=
    Behavior.code_continue around _ []
  have hc : c.Lawful := lawful_eachCode true ⟨0, 0⟩ hnames
  have hne : c.key ≠ c.value := by decide
  have hkey : c.key ≠ "null" := by decide
  have hvalue : c.value ≠ "null" := by decide
  have hnull : m.heap.lookup Machine.root "null" = some .null := rfl
  have hiterator := comes_iteratorOf (x := "t") true 1 hm.scope rfl rfl rfl hholds 0
  have hsteady : c.Steady Machine.root m 0 t := by
    refine EachCode.steady_of_made hc hm hne hkey hvalue hiterator hnull ?_
    intro around k b _
    rw [hcontinue]
    exact .ends rfl (.inl ⟨.inr rfl, rfl⟩)
  obtain ⟨-, -, hends, -⟩ := forEach_visits true ⟨0, 0⟩ hnames (by decide) hm hsteady
  have hrun : (run 60 Machine.root ⟨0, codeOf (Lower.stmt true loop 0).1⟩).comesToEnd m = true := by
    decide +kernel
  obtain ⟨m', hm'⟩ := comesToEnd_iff.mp hrun
  have hcode : A m (.ok none m') := ⟨60, hm', trivial⟩
  obtain ⟨_, hover⟩ | ⟨around, k, p, q, hreached, -, hok, -, ⟨rfl, hlast⟩ | ⟨b, -, hbroke⟩⟩ :=
    hends _ hcode
  · cases hover
  · cases hok
    exact ⟨hsteady, around, p, q, hcode, hreached, hlast⟩
  · rw [hcontinue] at hbroke
    cases hbroke

/-- The program draws from the iterator as well, and the body is run for the first of two entries
only. Where one name stands for both the key and the value, the first value that is `null` ends the
loop, and the body is not run at all. -/
theorem forEach_skips_entries :
    let iterator (entries : List (Expr × Expr)) : Expr :=
      .call (.member (.name "table") (.text "iterator") false) [.table entries]
    let print (x : String) : Stmt :=
      .expr (.call (.member (.name "console") (.text "out") false) [.name x])
    let drawing : Program := [
      .var "it" (iterator [(.text "a", .number 1), (.text "b", .number 2)]),
      .forEach "k" "v" (.name "it") [.expr (.call (.name "it") []), print "k"]]
    let shared : Program :=
      [.forEach "x" "x" (iterator [(.text "a", .name "null"), (.text "b", .number 1)]) [print "x"]]
    let printed (body : Program) : Option String :=
      (run 100 Machine.root ⟨0, codeOf (Lower.stmts true body 0).1⟩ >>= fun _ ↦ pure ()).printed?
        (.start (.standard false) .plain)
    printed drawing = some "a\n" ∧ printed shared = some "" := by
  decide +kernel

end GemLang
