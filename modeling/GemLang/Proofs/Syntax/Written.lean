import GemLang.Proofs.Syntax.Consumed

/-!
# Expressions as they are written

An expression is written as the tokens of its parts, with parentheses only where a part is not tight
enough for its place. From loosest to tightest,

```text
0  ||      1  &&      2  == != > < >= <=      3  + -      4  * / %
5  - ! in front       6  ^                    7  everything else
```

An operator of the first five levels takes a left operand of its own level and a tighter right one.
A sign takes another sign or a power. A power takes only an operand of the tightest level on its
left, but anything from a sign on in its exponent.

Whatever is written in this way is read back as the same tree. The parser of a level reads on as
long as tokens go on with an expression of that level, so what it reads is known only up to the
tokens that follow. There are three such statements, one for each way in which the parser goes on:
`ReadAt` where nothing that follows belongs to the expression, `Chained` where operators of the same
level follow, and `Tight` where accesses and calls do. Each form of expression has its own rule, and
parentheses lead from the loosest level back to the tightest.
-/

namespace GemLang

open Cursor (Step)

/-! ## How trees are written -/

/-- The token stands for a part of a program. -/
def TokenKind.isProper : TokenKind → Bool
  | .error _ | .eof => false
  | _ => true

/-- What is written as one token. -/
inductive Item where
  | symbol (kind : TokenKind) (h : kind.isProper = true := by rfl)
  | number (value : Float)
  | text (value : String)
  | name (name : String)
  /-- The key of a table entry, written as a name or as a text. -/
  | key (value : String)

/-- The token stands for the item. -/
def Token.Spells (t : Token) : Item → Prop
  | .symbol kind _ => t.kind = kind
  | .number value => t.kind = .number ∧ numberValue? t.text = some value
  | .text value => t.kind = .text ∧ Text.literalText t.text = value
  | .name name => t.kind = .identifier ∧ t.text = name
  | .key value => (t.kind = .identifier ∧ t.text = value) ∨
      (t.kind = .text ∧ Text.literalText t.text = value)

def BinaryOp.symbol : BinaryOp → TokenKind
  | .add => .plus
  | .sub => .minus
  | .mul => .star
  | .div => .slash
  | .pow => .caret
  | .mod => .percent
  | .eq => .equalEqual
  | .notEq => .bangEqual
  | .greater => .greater
  | .less => .less
  | .greaterEq => .greaterEqual
  | .lessEq => .lessEqual
  | .and => .and
  | .or => .or

theorem BinaryOp.isProper_symbol (op : BinaryOp) : op.symbol.isProper = true := by
  cases op <;> rfl

def UnaryOp.symbol : UnaryOp → TokenKind
  | .negate => .minus
  | .not => .bang

theorem UnaryOp.isProper_symbol (op : UnaryOp) : op.symbol.isProper = true := by
  cases op <;> rfl

def BinaryOp.tightness : BinaryOp → Nat
  | .or => 0
  | .and => 1
  | .eq | .notEq | .greater | .less | .greaterEq | .lessEq => 2
  | .add | .sub => 3
  | .mul | .div | .mod => 4
  | .pow => 6

/-- How tight a left operand must be to need no parentheses. -/
def BinaryOp.left (op : BinaryOp) : Nat := if op = .pow then 7 else op.tightness

/-- How tight a right operand must be to need no parentheses. -/
def BinaryOp.right (op : BinaryOp) : Nat := if op = .pow then 5 else op.tightness + 1

def Expr.tightness : Expr → Nat
  | .binary op _ _ => op.tightness
  | .unary _ _ => 5
  | _ => 7

def parenthesised (items : List Item) : List Item :=
  .symbol .leftParen :: (items ++ [Item.symbol .rightParen])

/-- An operand at a place that takes operands from `need` on. -/
def grouped (need tightness : Nat) (items : List Item) : List Item :=
  if tightness < need then parenthesised items else items

/-- Keys of table entries are numbers and texts. -/
def Expr.IsKey : Expr → Prop
  | .number _ | .text _ => True
  | _ => False

/-- How the key of a table entry is written. -/
def Expr.keyItems : Expr → List Item
  | .number value => [.number value]
  | .text value => [.key value]
  | _ => []

mutual

/-- How an expression is written where it needs no parentheses. -/
def Expr.items : Expr → List Item
  | .number value => [.number value]
  | .text value => [.text value]
  | .bool true => [.symbol .kwTrue]
  | .bool false => [.symbol .kwFalse]
  | .name x => [.name x]
  | .binary op left right =>
    grouped op.left left.tightness left.items ++
      .symbol op.symbol op.isProper_symbol :: grouped op.right right.tightness right.items
  | .unary op e => .symbol op.symbol op.isProper_symbol :: grouped 5 e.tightness e.items
  | .call callee args =>
    grouped 7 callee.tightness callee.items ++
      .symbol .leftParen :: (Expr.argumentItems args ++ [Item.symbol .rightParen])
  | .member object property true =>
    grouped 7 object.tightness object.items ++
      .symbol .leftBracket :: (property.items ++ [Item.symbol .rightBracket])
  | .member object (.text x) false =>
    grouped 7 object.tightness object.items ++ [Item.symbol .dot, .name x]
  | .table entries => .symbol .leftBrace :: (Expr.entryItems entries ++ [Item.symbol .rightBrace])
  | _ => []

def Expr.argumentItems : List Expr → List Item
  | [] => []
  | [e] => e.items
  | e :: e' :: es => e.items ++ Item.symbol .comma :: Expr.argumentItems (e' :: es)

def Expr.entryItems : List (Expr × Expr) → List Item
  | [] => []
  | [(key, value)] => key.keyItems ++ Item.symbol .colon :: value.items
  | (key, value) :: entry :: es =>
    key.keyItems ++ Item.symbol .colon ::
      (value.items ++ Item.symbol .comma :: Expr.entryItems (entry :: es))

end

/-- An expression at a place that takes expressions from `need` on. -/
def Expr.itemsFrom (need : Nat) (e : Expr) : List Item := grouped need e.tightness e.items

example : (Expr.binary .pow (.unary .negate (.name "a")) (.unary .negate (.name "b"))).items =
    parenthesised [.symbol .minus, .name "a"] ++
      [Item.symbol .caret, .symbol .minus, .name "b"] := rfl

mutual

/-- Expressions of literals, names, operators, calls, accesses and tables whose entries have keys:
all but function literals. -/
def Expr.IsWritten : Expr → Prop
  | .number _ | .text _ | .bool _ | .name _ => True
  | .binary _ left right => left.IsWritten ∧ right.IsWritten
  | .unary _ e => e.IsWritten
  | .call callee args => callee.IsWritten ∧ Expr.AllWritten args
  | .member object property true => object.IsWritten ∧ property.IsWritten
  | .member object (.text _) false => object.IsWritten
  | .table entries => Expr.EntriesWritten entries
  | _ => False

def Expr.AllWritten : List Expr → Prop
  | [] => True
  | e :: es => e.IsWritten ∧ Expr.AllWritten es

def Expr.EntriesWritten : List (Expr × Expr) → Prop
  | [] => True
  | (key, value) :: es => key.IsKey ∧ value.IsWritten ∧ Expr.EntriesWritten es

end

/-! ## Tokens in front of a cursor -/

/-- The tokens from `c` on spell the items, and `c'` stands after them. -/
inductive Cursor.Spans (file : String) : Cursor → List Item → Cursor → Prop where
  | nil {c : Cursor} : Spans file c [] c
  | cons {c c₁ c' : Cursor} {item : Item} {items : List Item} (hspells : c.current.Spells item)
      (hstep : Step file c c₁) (hrest : Spans file c₁ items c') : Spans file c (item :: items) c'

theorem Token.Spells.isProper {t : Token} {item : Item} (h : t.Spells item) :
    t.kind.isProper = true := by
  rcases item with ⟨kind, hproper⟩ | _ | _ | _ | _
  · exact h ▸ hproper
  · simp [h.1, TokenKind.isProper]
  · simp [h.1, TokenKind.isProper]
  · simp [h.1, TokenKind.isProper]
  · obtain ⟨hkind, -⟩ | ⟨hkind, -⟩ := h <;> simp [hkind, TokenKind.isProper]

theorem Token.not_isError_of_isProper {t : Token} (h : t.kind.isProper = true) : ¬t.IsError := by
  rintro ⟨fault, hkind⟩
  simp [hkind, TokenKind.isProper] at h

namespace Cursor

variable {file : String} {c c' : Cursor}

theorem Spans.of_cons {item : Item} {items : List Item} (h : Spans file c (item :: items) c') :
    c.current.Spells item ∧ ∃ c₁, Step file c c₁ ∧ Spans file c₁ items c' := by
  obtain ⟨⟩ | ⟨hspells, hstep, hrest⟩ := h
  exact ⟨hspells, _, hstep, hrest⟩

theorem Spans.of_nil (h : Spans file c [] c') : c' = c := by
  obtain ⟨⟩ := h
  rfl

theorem Spans.of_append {items more : List Item} (h : Spans file c (items ++ more) c') :
    ∃ c₁, Spans file c items c₁ ∧ Spans file c₁ more c' := by
  induction items generalizing c with
  | nil => exact ⟨c, .nil, h⟩
  | cons item items ih =>
    obtain ⟨hspells, c₁, hstep, hrest⟩ := h.of_cons
    obtain ⟨c₂, hitems, hmore⟩ := ih hrest
    exact ⟨c₂, .cons hspells hstep hitems, hmore⟩

theorem Spans.of_singleton {item : Item} (h : Spans file c [item] c') :
    c.current.Spells item ∧ Step file c c' := by
  obtain ⟨hspells, c₁, hstep, hrest⟩ := h.of_cons
  obtain rfl := hrest.of_nil
  exact ⟨hspells, hstep⟩

theorem Spans.of_symbol {kind : TokenKind} {h : kind.isProper = true} {items : List Item}
    (hspans : Spans file c (.symbol kind h :: items) c') :
    c.current.kind = kind ∧ ∃ c₁, Step file c c₁ ∧ Spans file c₁ items c' :=
  hspans.of_cons

theorem Spans.of_last_symbol {kind : TokenKind} {h : kind.isProper = true}
    (hspans : Spans file c [.symbol kind h] c') : c.current.kind = kind ∧ Step file c c' :=
  hspans.of_singleton

theorem step_mk {t : Token} (h : t.kind.isProper = true) (hc : ¬c.current.IsError) :
    Step file ⟨t, c.tokens⟩ c := by
  have hkind : t.kind ≠ .eof := by
    intro hkind
    simp [hkind, TokenKind.isProper] at h
  have hless : c.remaining < (⟨t, c.tokens⟩ : Cursor).remaining := by
    simp only [remaining, tokens, List.length_cons, if_neg hkind]
    split <;> omega
  refine ⟨hkind, hless, ?_⟩
  simp only [advance, tokens]
  split
  · next hcheck => cases (checkLexical_eq_ok_iff.mpr hc).symm.trans hcheck
  · rfl

theorem exists_spans {tokens : List Token} {items : List Item}
    (h : List.Forall₂ Token.Spells tokens items) (hc' : ¬c'.current.IsError) :
    ∃ c : Cursor, c.tokens = tokens ++ c'.tokens ∧ ¬c.current.IsError ∧
      Spans file c items c' := by
  induction h with
  | nil => exact ⟨c', rfl, hc', .nil⟩
  | @cons t item tokens items hspells _ ih =>
    obtain ⟨c₁, htokens, hsound, hspans⟩ := ih
    have hproper : t.kind.isProper = true := hspells.isProper
    refine ⟨⟨t, c₁.tokens⟩, ?_, Token.not_isError_of_isProper hproper, ?_⟩
    · rw [Cursor.tokens, htokens]
      rfl
    · exact .cons hspells (step_mk hproper hsound) hspans

end Cursor

/-! ## Reading what was written -/

section Yields

variable {α β : Type} {p q : Cursor → Prop}

/-- The parser reads `a` and stops at `c`. -/
def Yields (x : Except Error (α × { c : Cursor // p c })) (a : α) (c : Cursor) : Prop :=
  ∃ h, x = .ok (a, ⟨c, h⟩)

theorem Yields.bind {x : Except Error (α × { c : Cursor // p c })}
    {f : α × { c : Cursor // p c } → Except Error (β × { c : Cursor // q c })} {a : α} {b : β}
    {c c' : Cursor} (hx : Yields x a c) (hf : ∀ h, Yields (f (a, ⟨c, h⟩)) b c') :
    Yields (x >>= f) b c' := by
  obtain ⟨h, rfl⟩ := hx
  exact hf h

end Yields

namespace Cursor

variable {file : String} {c c₁ c' : Cursor} {β : Type} {q : Cursor → Prop} {b : β}

theorem Step.advance (h : Step file c c₁) {hkind : c.current.kind ≠ .eof}
    {f : c.Shrunk → Except Error (β × { c : Cursor // q c })}
    (hf : ∀ h, Yields (f ⟨c₁, h⟩) b c') : Yields (c.advance file hkind >>= f) b c' := by
  obtain ⟨_, hless, heq⟩ := h
  rw [heq]
  exact hf hless

theorem Step.takeIf (h : Step file c c₁) {kind : TokenKind} (hkind : c.current.kind = kind)
    {f : Option c.Shrunk → Except Error (β × { c : Cursor // q c })}
    (hf : ∀ h, Yields (f (some ⟨c₁, h⟩)) b c') : Yields (c.takeIf file kind >>= f) b c' := by
  obtain ⟨hmore, hless, heq⟩ := h
  rw [Cursor.takeIf, dif_pos ⟨hkind, hkind ▸ hmore⟩, heq]
  exact hf hless

theorem yields_takeIf_of_ne {kind : TokenKind} (hkind : c.current.kind ≠ kind)
    {f : Option c.Shrunk → Except Error (β × { c : Cursor // q c })}
    (hf : Yields (f none) b c') : Yields (c.takeIf file kind >>= f) b c' := by
  rw [Cursor.takeIf, dif_neg (fun h ↦ hkind h.1)]
  exact hf

theorem Step.consume (h : Step file c c₁) {kind : TokenKind} (hkind : c.current.kind = kind)
    (what : String) : Yields (c.consume file kind what) c.current c₁ := by
  obtain ⟨hmore, hless, heq⟩ := h
  rw [Cursor.consume, dif_pos ⟨hkind, hkind ▸ hmore⟩, heq]
  exact ⟨hless, rfl⟩

theorem Step.identifier (h : Step file c c₁) (hkind : c.current.kind = .identifier) :
    Yields (c.identifier file) c.current.text c₁ := by
  obtain ⟨hless, heq⟩ := h.consume hkind "identifier"
  rw [Cursor.identifier, heq]
  exact ⟨hless, rfl⟩

theorem skipSemicolons_of_ne (hkind : c.current.kind ≠ .semicolon) :
    c.skipSemicolons file = .ok ⟨c, Nat.le_refl _⟩ := by
  rw [Cursor.skipSemicolons, Cursor.takeIf, dif_neg (fun h ↦ hkind h.1)]

end Cursor

/-! ## Levels -/

def Level.tightness : Level → Nat
  | .or => 0
  | .and => 1
  | .comparison => 2
  | .additive => 3
  | .multiplicative => 4

theorem Level.tightness_lt (level : Level) : level.tightness < 5 := by
  cases level <;> decide

theorem Level.exists_tightness_eq {n : Nat} (h : n < 5) : ∃ level : Level, level.tightness = n := by
  match n, h with
  | 0, _ => exact ⟨.or, rfl⟩
  | 1, _ => exact ⟨.and, rfl⟩
  | 2, _ => exact ⟨.comparison, rfl⟩
  | 3, _ => exact ⟨.additive, rfl⟩
  | 4, _ => exact ⟨.multiplicative, rfl⟩

theorem Level.eq_of_tightness_eq {level level' : Level} (h : level.tightness = level'.tightness) :
    level = level' := by
  cases level <;> cases level' <;> first | rfl | cases h

/-- Every operator but the power has a level. -/
theorem BinaryOp.exists_level {op : BinaryOp} (h : op ≠ .pow) : ∃ level : Level,
    level.tightness = op.tightness ∧ level.operator? op.symbol = some op := by
  cases op with
  | pow => exact absurd rfl h
  | or => exact ⟨.or, rfl, rfl⟩
  | and => exact ⟨.and, rfl, rfl⟩
  | add | sub => exact ⟨.additive, rfl, rfl⟩
  | mul | div | mod => exact ⟨.multiplicative, rfl, rfl⟩
  | eq | notEq | greater | less | greaterEq | lessEq => exact ⟨.comparison, rfl, rfl⟩

theorem unaryOperator?_symbol (op : UnaryOp) : unaryOperator? op.symbol = some op := by
  cases op <;> rfl

/-- An expression of level `n` does not go on with the token. -/
structure Follows (n : Nat) (kind : TokenKind) : Prop where
  operator : ∀ level : Level, n ≤ level.tightness → level.operator? kind = none
  caret : kind ≠ .caret
  dot : kind ≠ .dot
  leftBracket : kind ≠ .leftBracket
  leftParen : kind ≠ .leftParen

theorem Follows.mono {m n : Nat} {kind : TokenKind} (h : Follows m kind) (hmn : m ≤ n) :
    Follows n kind where
  operator level hn := h.operator level (Nat.le_trans hmn hn)
  caret := h.caret
  dot := h.dot
  leftBracket := h.leftBracket
  leftParen := h.leftParen

def closers : List TokenKind := [.rightParen, .rightBracket, .rightBrace, .comma, .eof]

theorem Follows.of_mem_closers {n : Nat} {kind : TokenKind} (h : kind ∈ closers) :
    Follows n kind := by
  have hnone (level : Level) : level.operator? kind = none := by
    simp only [closers, List.mem_cons, List.not_mem_nil, or_false] at h
    obtain rfl | rfl | rfl | rfl | rfl := h <;> cases level <;> rfl
  refine ⟨fun level _ ↦ hnone level, ?_, ?_, ?_, ?_⟩ <;>
  · rintro rfl
    exact absurd h (by decide)

/-- An operator ends what is tighter than itself. -/
theorem Follows.symbol {op : BinaryOp} (h : op ≠ .pow) : Follows (op.tightness + 1) op.symbol where
  operator level hn := by
    cases op <;> cases level <;> first | rfl | exact absurd hn (by decide)
  caret := by cases op <;> first | decide | exact absurd rfl h
  dot := by cases op <;> decide
  leftBracket := by cases op <;> decide
  leftParen := by cases op <;> decide

namespace Parser

variable (file : String)

/-- The parser of a level; the levels that are not of left-associative operators are one. -/
def layer {b : Cursor} : Nat → UpTo b Expr
  | 0 => expressionWith file (fun c _ ↦ expression file c) (fun c _ ↦ block file c)
  | 1 => conjunctions file (fun c _ ↦ expression file c) (fun c _ ↦ block file c)
  | 2 => comparisons file (fun c _ ↦ expression file c) (fun c _ ↦ block file c)
  | 3 => sums file (fun c _ ↦ expression file c) (fun c _ ↦ block file c)
  | 4 => products file (fun c _ ↦ expression file c) (fun c _ ↦ block file c)
  | _ => unary file (fun c _ ↦ expression file c) (fun c _ ↦ block file c)

theorem layer_tightness {b : Cursor} (level : Level) :
    layer file (b := b) level.tightness = binary file (layer file (level.tightness + 1)) level := by
  cases level <;> rfl

theorem expression_eq_layer (c : Cursor) :
    expression file c = @layer file c 0 c (Nat.le_refl _) := by
  rw [expression]
  rfl

/-- Where the expression ends with the items, the parser of level `n` reads it. -/
def ReadAt (n : Nat) (items : List Item) (e : Expr) : Prop :=
  ∀ (b c c' : Cursor) (hle : c.remaining ≤ b.remaining), c.Spans file items c' →
    Follows n c'.current.kind → Yields (@layer file b n c hle) e c'

/-- Where operators of the level may follow the items, the parser of the level goes on with them
after it has read the expression. -/
def Chained (level : Level) (items : List Item) (e : Expr) : Prop :=
  ∀ (b c c₁ c' : Cursor) (e' : Expr) (hle : c.remaining ≤ b.remaining), c.Spans file items c₁ →
    Follows (level.tightness + 1) c₁.current.kind →
    (∀ hle₁, Yields (binaryRest file (@layer file b (level.tightness + 1)) level e c₁ hle₁) e' c') →
    Yields (@layer file b level.tightness c hle) e' c'

/-- Where accesses and calls may follow the items, they are read after the expression. The items do
not begin with a sign. -/
structure Tight (items : List Item) (e : Expr) : Prop where
  unsigned {c c' : Cursor} : c.Spans file items c' → unaryOperator? c.current.kind = none
  suffixed (b c c₁ c' : Cursor) (e' : Expr) (hle : c.remaining ≤ b.remaining) :
    c.Spans file items c₁ →
    (∀ hle₁, Yields (@suffixes file b (fun c _ ↦ expression file c) e c₁ hle₁) e' c') →
    Yields (@suffixed file b (fun c _ ↦ expression file c) (fun c _ ↦ block file c) c hle) e' c'

variable {file} {items : List Item} {e : Expr}

/-! ### From one level to the next -/

theorem ReadAt.chained {level : Level} (h : ReadAt file (level.tightness + 1) items e) :
    Chained file level items e := by
  intro b c c₁ c' e' hle hspans hfollows hrest
  rw [layer_tightness, binary]
  refine (h b c c₁ hle hspans hfollows).bind fun h₁ ↦ ?_
  exact (hrest _).bind fun h₂ ↦ ⟨_, rfl⟩

theorem Chained.readAt {level : Level} (h : Chained file level items e) :
    ReadAt file level.tightness items e := by
  intro b c c' hle hspans hfollows
  refine h b c c' c' e hle hspans (hfollows.mono (Nat.le_succ _)) fun hle' ↦ ?_
  have hnone := hfollows.operator level (Nat.le_refl _)
  unfold binaryRest
  split
  · exact ⟨_, rfl⟩
  · next hop => cases hnone.symm.trans hop

theorem ReadAt.of_le {m n : Nat} (h : ReadAt file n items e) (hmn : m ≤ n) (hn : n ≤ 5) :
    ReadAt file m items e := by
  -- from the tighter level outwards, one level at a time
  induction hmn with
  | refl => exact h
  | @step k hmk ih =>
    obtain ⟨level, rfl⟩ := Level.exists_tightness_eq (by omega : k < 5)
    exact ih h.chained.readAt (by omega)

theorem Tight.readAt (h : Tight file items e) : ReadAt file 5 items e := by
  intro b c c' hle hspans hfollows
  have hsigned := h.unsigned hspans
  show Yields (unary ..) e c'
  unfold unary
  split
  · next hop => cases hsigned.symm.trans hop
  · refine (h.suffixed b c c' c' e hle hspans fun hle' ↦ ?_).bind fun h₁ ↦ ?_
    · rw [suffixes, dif_neg hfollows.dot, dif_neg hfollows.leftBracket, dif_neg hfollows.leftParen]
      exact ⟨_, rfl⟩
    · exact Cursor.yields_takeIf_of_ne hfollows.caret ⟨_, rfl⟩

/-- Parentheses make any expression tight. -/
theorem ReadAt.parenthesised (h : ReadAt file 0 items e) :
    Tight file (parenthesised items) e where
  unsigned hspans := by
    rw [hspans.of_symbol.1]
    rfl
  suffixed b c c₁ c' e' hle hspans hrest := by
    obtain ⟨hkind, c₂, hstep, hspans⟩ := hspans.of_symbol
    obtain ⟨c₃, hinner, hclose⟩ := hspans.of_append
    obtain ⟨hright, hstep'⟩ := hclose.of_last_symbol
    have hexpr : Yields (expression file c₂) e c₃ := by
      rw [expression_eq_layer]
      exact h c₂ c₂ c₃ _ hinner (.of_mem_closers (by simp [hright, closers]))
    unfold suffixed
    refine Yields.bind (a := e) (c := c₁) ?_ fun h₁ ↦ (hrest _).bind fun h₂ ↦ ⟨_, rfl⟩
    simp only [primary, hkind, reduceCtorEq, ↓reduceDIte, ↓reduceIte]
    refine hstep.advance fun h₂ ↦ hexpr.bind fun h₃ ↦ ?_
    exact (hstep'.consume hright _).bind fun h₄ ↦ ⟨_, rfl⟩

/-! ### One rule for each form -/

theorem Tight.of_primary (hsign : ∀ c c' : Cursor, c.Spans file items c' →
      unaryOperator? c.current.kind = none)
    (h : ∀ (b c c' : Cursor) (hle : c.remaining ≤ b.remaining), c.Spans file items c' →
      Yields (@primary file b (fun c _ ↦ expression file c) (fun c _ ↦ block file c) c hle) e c') :
    Tight file items e where
  unsigned hspans := hsign _ _ hspans
  suffixed b c c₁ c' e' hle hspans hrest := by
    rw [Parser.suffixed]
    exact (h b c c₁ hle hspans).bind fun h₁ ↦ (hrest _).bind fun h₂ ↦ ⟨_, rfl⟩

theorem Tight.of_token {item : Item}
    (hsign : ∀ t : Token, t.Spells item → unaryOperator? t.kind = none)
    (h : ∀ (b c c' : Cursor) (hle : c.remaining ≤ b.remaining), c.current.Spells item →
      Step file c c' →
      Yields (@primary file b (fun c _ ↦ expression file c) (fun c _ ↦ block file c) c hle) e c') :
    Tight file [item] e := by
  refine .of_primary (fun c c' hspans ↦ ?_) fun b c c' hle hspans ↦ ?_
  · exact hsign c.current hspans.of_singleton.1
  · obtain ⟨hspells, hstep⟩ := hspans.of_singleton
    exact h b c c' hle hspells hstep

theorem yields_numberLiteral {c c' : Cursor} (hkind : c.current.kind = .number) {value : Float}
    (hvalue : numberValue? c.current.text = some value) (hstep : Step file c c') :
    Yields (numberLiteral file c hkind) (.number value) c' := by
  unfold numberLiteral
  split
  · next hnone => exact nomatch hvalue.symm.trans hnone
  · next value' hsome =>
    obtain rfl : value = value' := Option.some.inj (hvalue.symm.trans hsome)
    exact hstep.advance fun h₁ ↦ ⟨_, rfl⟩

theorem tight_number (value : Float) : Tight file [.number value] (.number value) := by
  refine .of_token (fun t ht ↦ ?_) fun b c c' hle ⟨hkind, hvalue⟩ hstep ↦ ?_
  · rw [ht.1]
    rfl
  · rw [primary, dif_pos hkind]
    exact yields_numberLiteral hkind hvalue hstep

theorem yields_stringLiteral {c c' : Cursor} (hkind : c.current.kind = .text)
    (hstep : Step file c c') :
    Yields (stringLiteral file c) (Text.literalText c.current.text) c' := by
  obtain ⟨h₁, heq⟩ := hstep.consume hkind "string"
  rw [stringLiteral, heq]
  exact ⟨_, rfl⟩

theorem tight_text (value : String) : Tight file [.text value] (.text value) := by
  refine .of_token (fun t ht ↦ ?_) fun b c c' hle ⟨hkind, hvalue⟩ hstep ↦ ?_
  · rw [ht.1]
    rfl
  · subst hvalue
    rw [primary, dif_neg (by simp [hkind]), if_pos hkind]
    exact (yields_stringLiteral hkind hstep).bind fun h₁ ↦ ⟨_, rfl⟩

theorem tight_bool (value : Bool) : Tight file (Expr.bool value).items (.bool value) := by
  cases value with
  | true | false =>
    refine .of_token (fun t hkind ↦ ?_) fun b c c' hle hkind hstep ↦ ?_
    · rw [show t.kind = _ from hkind]
      rfl
    · simp only [primary, show c.current.kind = _ from hkind, reduceCtorEq, ↓reduceDIte,
        ↓reduceIte]
      exact hstep.advance fun h₁ ↦ ⟨_, rfl⟩

theorem tight_name (x : String) : Tight file [.name x] (.name x) := by
  refine .of_token (fun t ht ↦ ?_) fun b c c' hle ⟨hkind, hname⟩ hstep ↦ ?_
  · rw [ht.1]
    rfl
  · subst hname
    simp only [primary, hkind, reduceCtorEq, ↓reduceDIte, ↓reduceIte]
    exact (hstep.identifier hkind).bind fun h₁ ↦ ⟨_, rfl⟩

/-- What has a suffix does not begin with a sign if the expression before it does not. -/
theorem Tight.unsigned_append {more : List Item} (h : Tight file items e) {c c' : Cursor}
    (hspans : c.Spans file (items ++ more) c') : unaryOperator? c.current.kind = none := by
  obtain ⟨c₁, hitems, -⟩ := hspans.of_append
  exact h.unsigned hitems

theorem Tight.field (h : Tight file items e) (x : String) :
    Tight file (items ++ [Item.symbol .dot, .name x]) (.member e (.text x) false) where
  unsigned hspans := h.unsigned_append hspans
  suffixed b c c₁ c' e' hle hspans hrest := by
    obtain ⟨c₂, hobject, hspans⟩ := hspans.of_append
    obtain ⟨hdot, c₃, hstep, hspans⟩ := hspans.of_symbol
    obtain ⟨⟨hname, rfl⟩, hstep'⟩ := hspans.of_singleton
    refine h.suffixed b c c₂ c' e' hle hobject fun hle' ↦ ?_
    rw [suffixes, dif_pos hdot]
    refine hstep.advance fun h₃ ↦ (hstep'.identifier hname).bind fun h₄ ↦ ?_
    exact (hrest _).bind fun h₅ ↦ ⟨_, rfl⟩

theorem ReadAt.expression (h : ReadAt file 0 items e) {c c' : Cursor}
    (hspans : c.Spans file items c') (hclose : c'.current.kind ∈ closers) :
    Yields (expression file c) e c' := by
  rw [expression_eq_layer]
  exact h c c c' _ hspans (.of_mem_closers hclose)

theorem Tight.index {inner : List Item} {property : Expr} (h : Tight file items e)
    (hproperty : ReadAt file 0 inner property) :
    Tight file (items ++ Item.symbol .leftBracket :: (inner ++ [Item.symbol .rightBracket]))
      (.member e property true) where
  unsigned hspans := h.unsigned_append hspans
  suffixed b c c₁ c' e' hle hspans hrest := by
    obtain ⟨c₂, hobject, hspans⟩ := hspans.of_append
    obtain ⟨hleft, c₃, hstep, hspans⟩ := hspans.of_symbol
    obtain ⟨c₄, hinner, hclose⟩ := hspans.of_append
    obtain ⟨hright, hstep'⟩ := hclose.of_last_symbol
    refine h.suffixed b c c₂ c' e' hle hobject fun hle' ↦ ?_
    rw [suffixes, dif_neg (by simp [hleft]), dif_pos hleft]
    refine hstep.advance fun h₃ ↦ ?_
    refine (hproperty.expression hinner (by simp [hright, closers])).bind fun h₄ ↦ ?_
    refine (hstep'.consume hright _).bind fun h₅ ↦ ?_
    exact (hrest _).bind fun h₆ ↦ ⟨_, rfl⟩

theorem ReadAt.unary (h : ReadAt file 5 items e) (op : UnaryOp) :
    ReadAt file 5 (.symbol op.symbol op.isProper_symbol :: items) (.unary op e) := by
  intro b c c' hle hspans hfollows
  obtain ⟨hsymbol, c₁, hstep, hspans⟩ := hspans.of_symbol
  have hop : unaryOperator? c.current.kind = some op := by
    rw [hsymbol]
    exact unaryOperator?_symbol op
  show Yields (Parser.unary ..) _ c'
  unfold Parser.unary
  split
  · next op' hop' =>
    obtain rfl : op = op' := Option.some.inj (hop.symm.trans hop')
    refine hstep.advance fun h₁ ↦ ?_
    exact (h b c₁ c' _ hspans hfollows).bind fun h₂ ↦ ⟨_, rfl⟩
  · next hop' => cases hop.symm.trans hop'

/-- A power takes signs and powers in its exponent. -/
theorem Tight.power {base : List Item} {left : Expr} (hleft : Tight file base left)
    (h : ReadAt file 5 items e) :
    ReadAt file 5 (base ++ Item.symbol .caret :: items) (.binary .pow left e) := by
  intro b c c' hle hspans hfollows
  have hunsigned := hleft.unsigned_append hspans
  obtain ⟨c₁, hbase, hspans⟩ := hspans.of_append
  obtain ⟨hcaret, c₂, hstep, hspans⟩ := hspans.of_symbol
  show Yields (Parser.unary ..) _ c'
  unfold Parser.unary
  split
  · next hop => cases hunsigned.symm.trans hop
  · refine (hleft.suffixed b c c₁ c₁ left hle hbase fun hle' ↦ ?_).bind fun h₁ ↦ ?_
    · simp only [suffixes, hcaret, reduceCtorEq, ↓reduceDIte]
      exact ⟨_, rfl⟩
    · refine hstep.takeIf hcaret fun h₂ ↦ ?_
      exact (h b c₂ c' _ hspans hfollows).bind fun h₃ ↦ ⟨_, rfl⟩

/-- An operator goes on from its left operand, and is gone on from with its right one. -/
theorem Chained.binary {level : Level} {op : BinaryOp} {before : List Item} {left : Expr}
    (hleft : Chained file level before left) (h : ReadAt file (level.tightness + 1) items e)
    (hpow : op ≠ .pow) (htight : level.tightness = op.tightness)
    (hop : level.operator? op.symbol = some op) :
    Chained file level (before ++ Item.symbol op.symbol op.isProper_symbol :: items)
      (.binary op left e) := by
  intro b c c₁ c' e' hle hspans hfollows hrest
  obtain ⟨c₂, hbefore, hspans⟩ := hspans.of_append
  obtain ⟨hsymbol, c₃, hstep, hspans⟩ := hspans.of_symbol
  refine hleft b c c₂ c' e' hle hbefore ?_ fun hle' ↦ ?_
  · rw [hsymbol, htight]
    exact .symbol hpow
  · unfold binaryRest
    split
    · next hop' => cases (hsymbol ▸ hop).symm.trans hop'
    · next op' hop' =>
      obtain rfl : op = op' := Option.some.inj ((hsymbol ▸ hop).symm.trans hop')
      refine hstep.advance fun h₃ ↦ ?_
      refine (h b c₃ c₁ _ hspans hfollows).bind fun h₄ ↦ ?_
      exact (hrest _).bind fun h₅ ↦ ⟨_, rfl⟩

/-! ### Lists -/

/-- No expression begins with a closing parenthesis. -/
theorem expression_of_rightParen {c : Cursor} (hkind : c.current.kind = .rightParen) :
    expression file c = .error (c.expected file "expression") := by
  have hprimary : @primary file c (fun c _ ↦ expression file c) (fun c _ ↦ block file c) c
      (Nat.le_refl _) = .error (c.expected file "expression") := by
    simp [primary, hkind]
  have hunary : @unary file c (fun c _ ↦ expression file c) (fun c _ ↦ block file c) c
      (Nat.le_refl _) = .error (c.expected file "expression") := by
    unfold unary
    split
    · next hop =>
      rw [hkind] at hop
      cases hop
    · rw [suffixed, hprimary]
      rfl
  rw [expression]
  simp only [expressionWith, conjunctions, comparisons, sums, products, binary, hunary, bind,
    Except.bind]

theorem yields_moreArguments {b c c' : Cursor} (hless : c.remaining < b.remaining)
    {e : Expr} {es : List Expr} (h : ∀ e' ∈ e :: es, ReadAt file 0 e'.items e')
    (hspans : c.Spans file (Expr.argumentItems (e :: es) ++ [Item.symbol .rightParen]) c') :
    Yields (@moreArguments file b (fun c _ ↦ expression file c) c hless) (e :: es) c' := by
  have he : ReadAt file 0 e.items e := h e List.mem_cons_self
  induction es generalizing e c with
  | nil =>
    obtain ⟨c₁, hitems, hclose⟩ := hspans.of_append
    obtain ⟨hright, hstep⟩ := hclose.of_last_symbol
    rw [moreArguments]
    refine (he.expression hitems (by simp [hright, closers])).bind fun h₁ ↦ ?_
    exact hstep.takeIf hright fun h₂ ↦ ⟨_, rfl⟩
  | cons e' es ih =>
    rw [Expr.argumentItems, List.append_assoc] at hspans
    obtain ⟨c₁, hitems, hspans⟩ := hspans.of_append
    obtain ⟨hcomma, c₂, hstep, hspans⟩ := hspans.of_symbol
    have htail : ∀ e'' ∈ e' :: es, ReadAt file 0 e''.items e'' :=
      fun e'' he'' ↦ h e'' (List.mem_cons_of_mem _ he'')
    rw [moreArguments]
    refine (he.expression hitems (by simp [hcomma, closers])).bind fun h₁ ↦ ?_
    refine Cursor.yields_takeIf_of_ne (by simp [hcomma]) ?_
    refine (hstep.consume hcomma _).bind fun h₂ ↦ ?_
    have hless₂ : c₂.remaining < b.remaining := by omega
    exact (ih hless₂ htail hspans (htail e' List.mem_cons_self)).bind fun h₃ ↦ ⟨_, rfl⟩

theorem yields_arguments {b c c' : Cursor} (hless : c.remaining < b.remaining) {es : List Expr}
    (h : ∀ e ∈ es, ReadAt file 0 e.items e)
    (hspans : c.Spans file (Expr.argumentItems es ++ [Item.symbol .rightParen]) c') :
    Yields (@arguments file b (fun c _ ↦ expression file c) c hless) es c' := by
  rw [arguments]
  rcases es with _ | ⟨e, es⟩
  · obtain ⟨hright, hstep⟩ := Cursor.Spans.of_last_symbol hspans
    exact hstep.takeIf hright fun h₁ ↦ ⟨_, rfl⟩
  · have hmore := yields_moreArguments hless h hspans
    refine Cursor.yields_takeIf_of_ne ?_ hmore
    -- the list is not over before its first argument, which could not be read then
    intro hkind
    obtain ⟨_, heq⟩ := hmore
    rw [moreArguments, expression_of_rightParen hkind] at heq
    cases heq

/-- An argument list belongs to what stands before it. -/
theorem Tight.call {args : List Expr} (h : Tight file items e)
    (hargs : ∀ arg ∈ args, ReadAt file 0 arg.items arg) :
    Tight file
      (items ++ Item.symbol .leftParen :: (Expr.argumentItems args ++ [Item.symbol .rightParen]))
      (.call e args) where
  unsigned hspans := h.unsigned_append hspans
  suffixed b c c₁ c' e' hle hspans hrest := by
    obtain ⟨c₂, hcallee, hspans⟩ := hspans.of_append
    obtain ⟨hleft, c₃, hstep, hspans⟩ := hspans.of_symbol
    refine h.suffixed b c c₂ c' e' hle hcallee fun hle' ↦ ?_
    rw [suffixes, dif_neg (by simp [hleft]), dif_neg (by simp [hleft]), dif_pos hleft]
    refine hstep.advance fun h₃ ↦ ?_
    refine (yields_arguments _ hargs hspans).bind fun h₄ ↦ ?_
    exact (hrest _).bind fun h₅ ↦ ⟨_, rfl⟩

theorem yields_tableKey {key : Expr} (hkey : key.IsKey) {c c' : Cursor}
    (hspans : c.Spans file key.keyItems c') : Yields (tableKey file c) key c' := by
  cases key with
  | number value =>
    obtain ⟨⟨hkind, hvalue⟩, hstep⟩ := Cursor.Spans.of_singleton hspans
    rw [tableKey, dif_pos hkind]
    exact yields_numberLiteral hkind hvalue hstep
  | text value =>
    obtain ⟨⟨hkind, rfl⟩ | ⟨hkind, rfl⟩, hstep⟩ := Cursor.Spans.of_singleton hspans
    · rw [tableKey, dif_neg (by simp [hkind]), if_pos hkind]
      exact (hstep.identifier hkind).bind fun h₁ ↦ ⟨_, rfl⟩
    · rw [tableKey, dif_neg (by simp [hkind]), if_neg (by simp [hkind])]
      exact (yields_stringLiteral hkind hstep).bind fun h₁ ↦ ⟨_, rfl⟩
  | _ => cases hkey

/-- A key is one token, and no closing brace. -/
theorem atKey_of_spans {key : Expr} (hkey : key.IsKey) {c c' : Cursor}
    (hspans : c.Spans file key.keyItems c') (hcolon : c'.current.kind = .colon) :
    c.atKey = true ∧ c.current.kind ≠ .rightBrace := by
  have hpeek (hstep : Step file c c') : c.peek? = some .colon := by
    obtain ⟨current, _ | ⟨t, ts⟩⟩ := c
    · obtain ⟨_, _, heq⟩ := hstep
      cases heq
      cases hcolon
    · obtain ⟨htokens, -⟩ := hstep.next (List.cons_ne_nil _ _)
      rw [Cursor.peek?, htokens]
      exact congrArg some hcolon
  cases key with
  | number value =>
    obtain ⟨⟨hkind, -⟩, hstep⟩ := Cursor.Spans.of_singleton hspans
    simp [Cursor.atKey, hkind, hpeek hstep]
  | text value =>
    obtain ⟨⟨hkind, -⟩ | ⟨hkind, -⟩, hstep⟩ := Cursor.Spans.of_singleton hspans
    · simp [Cursor.atKey, hkind, hpeek hstep]
    · simp [Cursor.atKey, hkind, hpeek hstep]
  | _ => cases hkey

theorem yields_tableEntry {key value : Expr} (hkey : key.IsKey)
    (h : ReadAt file 0 value.items value) (position : Float) {b c c' : Cursor}
    (hless : c.remaining < b.remaining)
    (hspans : c.Spans file (key.keyItems ++ Item.symbol .colon :: value.items) c')
    (hclose : c'.current.kind ∈ closers) : c.current.kind ≠ .rightBrace ∧
      Yields (@tableEntry file b (fun c _ ↦ expression file c) position c hless)
        ((key, value), position) c' := by
  obtain ⟨c₁, hitems, hspans⟩ := hspans.of_append
  obtain ⟨hcolon, c₂, hstep, hspans⟩ := hspans.of_symbol
  obtain ⟨hatKey, hbrace⟩ := atKey_of_spans hkey hitems hcolon
  refine ⟨hbrace, ?_⟩
  rw [tableEntry, if_pos hatKey]
  refine (yields_tableKey hkey hitems).bind fun h₁ ↦ ?_
  refine (hstep.consume hcolon _).bind fun h₂ ↦ ?_
  exact (h.expression hspans hclose).bind fun h₃ ↦ ⟨_, rfl⟩

/-- After an entry stands the closing brace, or a comma and more entries. -/
theorem spans_entryItems {key value : Expr} {entries : List (Expr × Expr)} {c c' : Cursor}
    (hspans : c.Spans file
      (Expr.entryItems ((key, value) :: entries) ++ [Item.symbol .rightBrace]) c') :
    ∃ c₁, c.Spans file (key.keyItems ++ Item.symbol .colon :: value.items) c₁ ∧
      ((c₁.current.kind = .rightBrace ∧
          c₁.Spans file (Expr.entryItems entries ++ [Item.symbol .rightBrace]) c') ∨
        (c₁.current.kind = .comma ∧ ∃ c₂, Step file c₁ c₂ ∧
          c₂.Spans file (Expr.entryItems entries ++ [Item.symbol .rightBrace]) c')) := by
  rcases entries with _ | ⟨next, entries⟩
  · obtain ⟨c₁, hentry, hclose⟩ := hspans.of_append
    exact ⟨c₁, hentry, .inl ⟨hclose.of_last_symbol.1, hclose⟩⟩
  · rw [Expr.entryItems, ← List.cons_append, ← List.append_assoc, List.append_assoc] at hspans
    obtain ⟨c₁, hentry, hspans⟩ := hspans.of_append
    exact ⟨c₁, hentry, .inr hspans.of_symbol⟩

theorem yields_tableEntries {entries : List (Expr × Expr)}
    (h : ∀ p ∈ entries, p.1.IsKey ∧ ReadAt file 0 p.2.items p.2) (position : Float)
    {b c c' : Cursor} (hless : c.remaining < b.remaining)
    (hspans : c.Spans file (Expr.entryItems entries ++ [Item.symbol .rightBrace]) c') :
    Yields (@tableEntries file b (fun c _ ↦ expression file c) position c hless) entries c' := by
  induction entries generalizing c with
  | nil =>
    obtain ⟨hright, hstep⟩ := Cursor.Spans.of_last_symbol hspans
    rw [tableEntries]
    exact hstep.takeIf hright fun h₁ ↦ ⟨_, rfl⟩
  | cons entry entries ih =>
    obtain ⟨key, value⟩ := entry
    obtain ⟨hkey, hvalue⟩ := h (key, value) List.mem_cons_self
    obtain ⟨c₁, hentry, hmore⟩ := spans_entryItems hspans
    have hclose : c₁.current.kind ∈ closers := by
      obtain ⟨hkind, -⟩ | ⟨hkind, -⟩ := hmore <;> simp [hkind, closers]
    obtain ⟨hbrace, hreads⟩ := yields_tableEntry hkey hvalue position hless hentry hclose
    have htail : ∀ p ∈ entries, p.1.IsKey ∧ ReadAt file 0 p.2.items p.2 :=
      fun p hp ↦ h p (List.mem_cons_of_mem _ hp)
    rw [tableEntries]
    refine Cursor.yields_takeIf_of_ne hbrace (hreads.bind fun h₁ ↦ ?_)
    obtain ⟨hkind, hspans⟩ | ⟨hkind, c₂, hstep, hspans⟩ := hmore
    · simp only [hkind, ↓reduceIte]
      exact (ih htail (by omega) hspans).bind fun h₂ ↦ ⟨_, rfl⟩
    · simp only [hkind, reduceCtorEq, ↓reduceIte]
      obtain ⟨h₂, heq⟩ := hstep.consume hkind "',' or '\x7d'"
      rw [heq]
      exact (ih htail (by omega) hspans).bind fun h₃ ↦ ⟨_, rfl⟩

theorem tight_table {entries : List (Expr × Expr)}
    (h : ∀ p ∈ entries, p.1.IsKey ∧ ReadAt file 0 p.2.items p.2) :
    Tight file (.symbol .leftBrace :: (Expr.entryItems entries ++ [Item.symbol .rightBrace]))
      (.table entries) := by
  refine .of_primary (fun c c' hspans ↦ ?_) fun b c c' hle hspans ↦ ?_
  · rw [hspans.of_symbol.1]
    rfl
  · obtain ⟨hkind, c₁, hstep, hspans⟩ := hspans.of_symbol
    simp only [primary, hkind, reduceCtorEq, ↓reduceDIte, ↓reduceIte]
    refine hstep.advance fun h₁ ↦ ?_
    exact (yields_tableEntries h 0 _ hspans).bind fun h₂ ↦ ⟨_, rfl⟩

/-! ### Every expression, at every place -/

variable (file e) in
/-- The expression is read wherever it is written. -/
structure ReadBack : Prop where
  readAt : ∀ n ≤ 5, ReadAt file n (e.itemsFrom n) e
  chained : ∀ level : Level, Chained file level (e.itemsFrom level.tightness) e
  tight : Tight file (e.itemsFrom 7) e

theorem itemsFrom_of_le {n : Nat} (h : n ≤ e.tightness) : e.itemsFrom n = e.items :=
  if_neg (Nat.not_lt.mpr h)

theorem itemsFrom_of_lt {n : Nat} (h : e.tightness < n) :
    e.itemsFrom n = parenthesised e.items :=
  if_pos h

/-- It is enough to read an expression at its own level: tighter places have parentheses. -/
theorem ReadBack.of_readAt (hchained : ∀ level : Level, level.tightness = e.tightness →
      Chained file level e.items e)
    (htight : 7 ≤ e.tightness → Tight file e.items e)
    (h : ReadAt file (min e.tightness 5) e.items e) : ReadBack file e := by
  have hbelow (n : Nat) (hn : n ≤ 5) (hle : n ≤ e.tightness) : ReadAt file n e.items e :=
    h.of_le (Nat.le_min.mpr ⟨hle, hn⟩) (Nat.min_le_right _ _)
  have hparens : Tight file (parenthesised e.items) e :=
    (hbelow 0 (Nat.zero_le _) (Nat.zero_le _)).parenthesised
  have hreadAt (n : Nat) (hn : n ≤ 5) : ReadAt file n (e.itemsFrom n) e := by
    by_cases hle : n ≤ e.tightness
    · rw [itemsFrom_of_le hle]
      exact hbelow n hn hle
    · rw [itemsFrom_of_lt (Nat.lt_of_not_le hle)]
      exact hparens.readAt.of_le hn (Nat.le_refl _)
  refine ⟨hreadAt, fun level ↦ ?_, ?_⟩
  · by_cases heq : level.tightness = e.tightness
    · rw [itemsFrom_of_le (Nat.le_of_eq heq)]
      exact hchained level heq
    · -- the items are the same as at the next level
      have hsame : e.itemsFrom level.tightness = e.itemsFrom (level.tightness + 1) := by
        by_cases hlt : e.tightness < level.tightness
        · rw [itemsFrom_of_lt hlt, itemsFrom_of_lt (by omega)]
        · rw [itemsFrom_of_le (by omega), itemsFrom_of_le (by omega)]
      rw [hsame]
      exact (hreadAt _ level.tightness_lt).chained
  · by_cases hle : 7 ≤ e.tightness
    · rw [itemsFrom_of_le hle]
      exact htight hle
    · rw [itemsFrom_of_lt (by omega)]
      exact hparens

theorem ReadBack.of_tight (htightness : e.tightness = 7) (h : Tight file e.items e) :
    ReadBack file e := by
  refine .of_readAt (fun level heq ↦ ?_) (fun _ ↦ h) ?_
  · have hlt := level.tightness_lt
    omega
  · rw [htightness]
    exact h.readAt

theorem ReadBack.readAt_zero (h : ReadBack file e) : ReadAt file 0 e.items e :=
  h.readAt 0 (Nat.zero_le _)

theorem ReadBack.binary {left right : Expr} (op : BinaryOp) (hleft : ReadBack file left)
    (hright : ReadBack file right) : ReadBack file (.binary op left right) := by
  by_cases hop : op = .pow
  · subst hop
    refine .of_readAt (fun level heq ↦ ?_) nofun (hleft.tight.power (hright.readAt 5 (by decide)))
    have hlt := level.tightness_lt
    have heq : level.tightness = 6 := heq
    omega
  · obtain ⟨level, htight, hsymbol⟩ := BinaryOp.exists_level hop
    have hitems : (Expr.binary op left right).items =
        left.itemsFrom level.tightness ++ Item.symbol op.symbol op.isProper_symbol ::
          right.itemsFrom (level.tightness + 1) := by
      rw [Expr.items, BinaryOp.left, BinaryOp.right, if_neg hop, if_neg hop, htight]
      rfl
    have hchained :
        Chained file level (Expr.binary op left right).items (.binary op left right) := by
      rw [hitems]
      exact (hleft.chained level).binary (hright.readAt _ level.tightness_lt) hop htight hsymbol
    refine .of_readAt (fun level' heq ↦ ?_) (fun hle ↦ ?_) ?_
    · obtain rfl : level' = level := Level.eq_of_tightness_eq (heq.trans htight.symm)
      exact hchained
    · have hlt := level.tightness_lt
      have hle : 7 ≤ op.tightness := hle
      omega
    · have hlt := level.tightness_lt
      have hmin : min (Expr.binary op left right).tightness 5 = level.tightness := by
        rw [Expr.tightness, ← htight]
        omega
      rw [hmin]
      exact hchained.readAt

mutual

/-- Every expression is read back, by induction over its parts. -/
theorem readBack (e : Expr) (h : e.IsWritten) : ReadBack file e := by
  match e, h with
  | .number value, _ => exact .of_tight rfl (tight_number value)
  | .text value, _ => exact .of_tight rfl (tight_text value)
  | .bool value, _ => exact .of_tight rfl (tight_bool value)
  | .name x, _ => exact .of_tight rfl (tight_name x)
  | .binary op left right, h => exact .binary op (readBack left h.1) (readBack right h.2)
  | .unary op e, h =>
    have hreadAt := ((readBack e h).readAt 5 (Nat.le_refl _)).unary op
    refine .of_readAt (fun level heq ↦ ?_) nofun hreadAt
    have hlt := level.tightness_lt
    have heq : level.tightness = 5 := heq
    omega
  | .call callee args, h =>
    refine .of_tight rfl ((readBack callee h.1).tight.call fun arg harg ↦ ?_)
    exact (allReadBack args h.2 arg harg).readAt_zero
  | .member object property true, h =>
    exact .of_tight rfl ((readBack object h.1).tight.index (readBack property h.2).readAt_zero)
  | .member object (.text x) false, h => exact .of_tight rfl ((readBack object h).tight.field x)
  | .table entries, h =>
    refine .of_tight rfl (tight_table fun p hp ↦ ?_)
    exact ⟨(entriesReadBack entries h p hp).1, (entriesReadBack entries h p hp).2.readAt_zero⟩

theorem allReadBack (es : List Expr) (h : Expr.AllWritten es) : ∀ e ∈ es, ReadBack file e := by
  match es, h with
  | [], _ => exact nofun
  | e :: es, h => exact List.forall_mem_cons.mpr ⟨readBack e h.1, allReadBack es h.2⟩

theorem entriesReadBack (entries : List (Expr × Expr)) (h : Expr.EntriesWritten entries) :
    ∀ p ∈ entries, p.1.IsKey ∧ ReadBack file p.2 := by
  match entries, h with
  | [], _ => exact nofun
  | (key, value) :: entries, h =>
    exact List.forall_mem_cons.mpr ⟨⟨h.1, readBack value h.2.1⟩, entriesReadBack entries h.2.2⟩

end

/-! ### Declarations -/

theorem yields_declaration (he : ReadAt file 0 items e) {x : String} {c c' : Cursor}
    (hspans : c.Spans file ([.symbol .kwVar, .name x, .symbol .equal] ++ items) c')
    (hend : c'.current.kind = .eof) : Yields (statement file c) (.var x e) c' := by
  obtain ⟨hvar, c₁, hstep, hspans⟩ := Cursor.Spans.of_symbol hspans
  obtain ⟨⟨hname, rfl⟩, c₂, hstep₁, hspans⟩ := hspans.of_cons
  obtain ⟨hequal, c₃, hstep₂, hspans⟩ := hspans.of_symbol
  have hvalue : Yields (expression file c₃) e c' :=
    he.expression hspans (by simp [hend, closers])
  rw [statement, statementWith, bareStatement, dif_pos hvar]
  refine Yields.bind (a := .var c₁.current.text e) (c := c') ?_ fun h₁ ↦ ?_
  · refine hstep.advance fun h₁ ↦ ?_
    refine Yields.bind (a := .var c₁.current.text e) (c := c') ?_ fun h₂ ↦ ⟨_, rfl⟩
    rw [varStatement]
    refine (hstep₁.identifier hname).bind fun h₂ ↦ hstep₂.takeIf hequal fun h₃ ↦ ?_
    exact hvalue.bind fun h₄ ↦ ⟨_, rfl⟩
  · have hskip := @Cursor.skipSemicolons_of_ne file c' (by simp [hend])
    simp only [hskip, bind, Except.bind]
    exact ⟨_, rfl⟩

theorem program_of_eof {c : Cursor} (hend : c.current.kind = .eof) : program file c = .ok [] := by
  rw [program, Cursor.skipSemicolons_of_ne (by simp [hend])]
  simp only [bind, Except.bind, if_pos hend]
  rfl

end Parser

/-- **The parser realises the levels of its operators.** Write an expression with no more
parentheses than its levels ask for, whatever the texts of its tokens; then the declaration of a
variable with it is read back as just this expression. -/
theorem parse_written {e : Expr} (he : e.IsWritten) {x : String} {tokens : List Token} {eof : Token}
    (hspelled : List.Forall₂ Token.Spells tokens
      ([.symbol .kwVar, .name x, .symbol .equal] ++ e.items))
    (heof : eof.kind = .eof) (file : String) : parse (tokens ++ [eof]) file = .ok [.var x e] := by
  have hsound : ¬eof.IsError := by
    rintro ⟨fault, hfault⟩
    exact nomatch heof.symm.trans hfault
  obtain ⟨c, htokens, hfirst, hspans⟩ :=
    @Cursor.exists_spans file ⟨eof, []⟩ tokens _ hspelled hsound
  obtain ⟨hless, hstatement⟩ :=
    Parser.yields_declaration (Parser.readBack e he).readAt_zero hspans heof
  have hvar : c.current.kind = .kwVar := (Cursor.Spans.of_symbol hspans).1
  have hprogram : Parser.program file c = .ok [.var x e] := by
    rw [Parser.program, Cursor.skipSemicolons_of_ne (by simp [hvar])]
    simp only [bind, Except.bind, hvar, reduceCtorEq, ↓reduceIte, hstatement,
      @Parser.program_of_eof file ⟨eof, []⟩ heof]
    rfl
  have hparse : parse (tokens ++ [eof]) file =
      (Cursor.checkLexical file c.current >>= fun _ ↦ Parser.program file c) := by
    rw [show tokens ++ [eof] = c.tokens from htokens.symm]
    rfl
  rw [hparse, Cursor.checkLexical_eq_ok_iff.mpr hfirst, hprogram]
  rfl

theorem parse_written_nested :
    parseSource "var x = -a ^ -2 * (b - !c) - \x7bk: 'd'\x7d[e.f](g, true)" "main.gem" =
      .ok [.var "x" (.binary .sub
        (.binary .mul
          (.unary .negate (.binary .pow (.name "a") (.unary .negate (.number 2))))
          (.binary .sub (.name "b") (.unary .not (.name "c"))))
        (.call
          (.member (.table [(.text "k", .text "d")]) (.member (.name "e") (.text "f") false) true)
          [.name "g", .bool true]))] := by
  have hscan : scan "var x = -a ^ -2 * (b - !c) - \x7bk: 'd'\x7d[e.f](g, true)" =
      [⟨.kwVar, "var", ⟨1, 1⟩⟩, ⟨.identifier, "x", ⟨1, 5⟩⟩, ⟨.equal, "=", ⟨1, 7⟩⟩,
        ⟨.minus, "-", ⟨1, 9⟩⟩, ⟨.identifier, "a", ⟨1, 10⟩⟩, ⟨.caret, "^", ⟨1, 12⟩⟩,
        ⟨.minus, "-", ⟨1, 14⟩⟩, ⟨.number, "2", ⟨1, 15⟩⟩, ⟨.star, "*", ⟨1, 17⟩⟩,
        ⟨.leftParen, "(", ⟨1, 19⟩⟩, ⟨.identifier, "b", ⟨1, 20⟩⟩, ⟨.minus, "-", ⟨1, 22⟩⟩,
        ⟨.bang, "!", ⟨1, 24⟩⟩, ⟨.identifier, "c", ⟨1, 25⟩⟩, ⟨.rightParen, ")", ⟨1, 26⟩⟩,
        ⟨.minus, "-", ⟨1, 28⟩⟩, ⟨.leftBrace, "\x7b", ⟨1, 30⟩⟩, ⟨.identifier, "k", ⟨1, 31⟩⟩,
        ⟨.colon, ":", ⟨1, 32⟩⟩, ⟨.text, "'d'", ⟨1, 34⟩⟩, ⟨.rightBrace, "\x7d", ⟨1, 37⟩⟩,
        ⟨.leftBracket, "[", ⟨1, 38⟩⟩, ⟨.identifier, "e", ⟨1, 39⟩⟩, ⟨.dot, ".", ⟨1, 40⟩⟩,
        ⟨.identifier, "f", ⟨1, 41⟩⟩, ⟨.rightBracket, "]", ⟨1, 42⟩⟩, ⟨.leftParen, "(", ⟨1, 43⟩⟩,
        ⟨.identifier, "g", ⟨1, 44⟩⟩, ⟨.comma, ",", ⟨1, 45⟩⟩, ⟨.kwTrue, "true", ⟨1, 47⟩⟩,
        ⟨.rightParen, ")", ⟨1, 51⟩⟩] ++ [⟨.eof, "", ⟨1, 52⟩⟩] := by cbv
  have hnumber : numberValue? "2" = some 2 := by rfl
  have htext : Text.literalText "'d'" = "d" := by cbv
  rw [parseSource, hscan]
  refine parse_written ?_ ?_ rfl "main.gem"
  · simp [Expr.IsWritten, Expr.AllWritten, Expr.EntriesWritten, Expr.IsKey]
  · simp [Expr.items, grouped, parenthesised, Expr.tightness, BinaryOp.tightness, BinaryOp.left,
      BinaryOp.right, BinaryOp.symbol, UnaryOp.symbol, Expr.keyItems, Expr.argumentItems,
      Expr.entryItems, Token.Spells, hnumber, htext]

end GemLang
