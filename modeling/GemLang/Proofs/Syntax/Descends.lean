import GemLang.Proofs.Syntax.Consumed
import GemLang.Proofs.Syntax.Descent

/-!
# Descending ends

The parser is what descending comes to, if it may go deep enough, and how deep that is depends on
nothing but the number of tokens that are left (`parsing_ends`).

The measure counts twenty for each of these tokens. Between two steps no more than nineteen calls
are nested: each call that is made before the next step is made by a function of a higher rank, down
from a block to a literal, and after a step any function can be called again. The rank of a function
is the number that stands beside the tokens in the hypothesis of its lemma.

Walks are compared with parsers construct by construct, as in what parsing consumes. Every lemma
has the walks for the constructs inside as hypotheses, so that the knot is tied once, at the end.
-/

namespace GemLang

/-! ## Walks that follow parsers -/

section Walks

variable {α β : Type} {p q : Cursor → Prop} {c c' : Cursor}

/-- What comes after a walk that has a result starts where that one ended. -/
theorem Walk.outcome?_bind_of_ok {w : Walk α} {f : α → Walk β} {a : α}
    (h : w.outcome? c = some (.ok (a, c'))) : (w >>= f).outcome? c = (f a).outcome? c' := by
  change ((w c).bind _ : Option _) = _
  rw [show w c = some (.ok (a, c')) from h]
  rfl

theorem Walk.outcome?_bind_of_error {w : Walk α} {f : α → Walk β} {e : Error}
    (h : w.outcome? c = some (.error e)) : (w >>= f).outcome? c = some (.error e) := by
  change ((w c).bind _ : Option _) = _
  rw [show w c = some (.error e) from h]
  rfl

/-- From `c` the walk ends, and as the parser does. -/
def Descends (w : Walk α) (c : Cursor) (x : Except Error (α × { c : Cursor // p c })) : Prop :=
  w.outcome? c = some (x.map fun r ↦ (r.1, r.2.1))

/-- From `c` the walk ends with the result `a`, and where the parser does. -/
def Lands (w : Walk α) (c : Cursor) (a : α) (x : Except Error { c : Cursor // p c }) : Prop :=
  w.outcome? c = some (x.map fun r ↦ (a, r.1))

theorem Lands.bind {w : Walk α} {f : α → Walk β} {a : α} {x : Except Error { c : Cursor // p c }}
    {g : { c : Cursor // p c } → Except Error (β × { c : Cursor // q c })} (hw : Lands w c a x)
    (hf : ∀ c' (h : p c'), Descends (f a) c' (g ⟨c', h⟩)) : Descends (w >>= f) c (x >>= g) := by
  rcases x with e | ⟨c', h⟩
  · exact Walk.outcome?_bind_of_error hw
  · exact (Walk.outcome?_bind_of_ok hw).trans (hf c' h)

namespace Descends

theorem bind {w : Walk α} {f : α → Walk β} {x : Except Error (α × { c : Cursor // p c })}
    {g : α × { c : Cursor // p c } → Except Error (β × { c : Cursor // q c })}
    (hw : Descends w c x) (hf : ∀ a c' (h : p c'), Descends (f a) c' (g (a, ⟨c', h⟩))) :
    Descends (w >>= f) c (x >>= g) := by
  rcases x with e | ⟨a, c', h⟩
  · exact Walk.outcome?_bind_of_error hw
  · exact (Walk.outcome?_bind_of_ok hw).trans (hf a c' h)

theorem done (a : α) (h : p c) :
    Descends (pure a) c (.ok (a, (⟨c, h⟩ : { c : Cursor // p c }))) := rfl

theorem refuse (e : Cursor → Error) :
    Descends (Descent.refuse e) c (.error (e c) : Except Error (α × { c : Cursor // p c })) := rfl

variable {w w' : Walk α}

theorem look {l : Cursor → β} {f : β → Walk α} {x : Except Error (α × { c : Cursor // p c })}
    (h : Descends (f (l c)) c x) : Descends (Descent.look l >>= f) c x := h

theorem ite {P : Prop} [Decidable P] {x x' : Except Error (α × { c : Cursor // p c })}
    (h : Descends w c x) (h' : Descends w' c x') :
    Descends (if P then w else w') c (if P then x else x') := by
  by_cases hP : P
  · rwa [if_pos hP, if_pos hP]
  · rwa [if_neg hP, if_neg hP]

theorem dite {P : Prop} [Decidable P] {x : P → Except Error (α × { c : Cursor // p c })}
    {x' : ¬P → Except Error (α × { c : Cursor // p c })} (h : ∀ hP, Descends w c (x hP))
    (h' : ∀ hP, Descends w' c (x' hP)) :
    Descends (if P then w else w') c (if hP : P then x hP else x' hP) := by
  by_cases hP : P
  · rw [if_pos hP, dif_pos hP]
    exact h hP
  · rw [if_neg hP, dif_neg hP]
    exact h' hP

end Descends

end Walks

/-! ## Lands -/

namespace Cursor

variable {file : String} {c : Cursor}

theorem lands_advance (h : c.current.kind ≠ .eof) :
    Lands (Descent.advance file) c c.current (c.advance file h) := by
  rcases c with ⟨current, _ | ⟨t, ts⟩⟩
  · rfl
  · change Descent.advance file ⟨current, t :: ts⟩ = _
    unfold Descent.advance Cursor.advance
    simp only [Descent.next, List.head?_cons, Option.getD_some]
    cases checkLexical file t <;> rfl

variable (file c) in
theorem outcome?_takeIf (kind : TokenKind) (hkind : kind ≠ .eof) :
    (Descent.takeIf file kind).outcome? c =
      some ((c.takeIf file kind).map fun o ↦ (o.isSome, (o.map (·.1)).getD c)) := by
  unfold Descent.takeIf Cursor.takeIf
  change (if c.current.kind = kind then _ else _ : Walk Bool).outcome? c = _
  by_cases hat : c.current.kind = kind
  · rw [if_pos hat, dif_pos ⟨hat, hkind⟩]
    have hstep : Lands (Descent.advance file) c c.current (c.advance file (hat ▸ hkind)) :=
      lands_advance _
    cases hadv : c.advance file (hat ▸ hkind) with
    | error e => exact Walk.outcome?_bind_of_error (by rwa [hadv] at hstep)
    | ok c' =>
      rw [hadv] at hstep
      exact Walk.outcome?_bind_of_ok hstep
  · rw [if_neg hat, dif_neg fun h ↦ hat h.1]
    rfl

theorem descends_takeIf {α : Type} {p : Cursor → Prop} (kind : TokenKind) (hkind : kind ≠ .eof)
    {yes no : Walk α} {g : Option c.Shrunk → Except Error (α × { c : Cursor // p c })}
    (hno : Descends no c (g none))
    (hyes : ∀ c' (h : c'.remaining < c.remaining), Descends yes c' (g (some ⟨c', h⟩))) :
    Descends (Descent.takeIf file kind >>= fun taken ↦ if taken then yes else no) c
      (c.takeIf file kind >>= g) := by
  have htake := outcome?_takeIf file c kind hkind
  generalize c.takeIf file kind = taken at htake ⊢
  rcases taken with e | _ | ⟨c', h⟩
  · exact Walk.outcome?_bind_of_error htake
  · exact (Walk.outcome?_bind_of_ok htake).trans hno
  · exact (Walk.outcome?_bind_of_ok htake).trans (hyes c' h)

theorem descends_consume (kind : TokenKind) (hkind : kind ≠ .eof) (what : String) :
    Descends (Descent.consume file kind what) c (c.consume file kind what) := by
  unfold Descent.consume Cursor.consume
  refine .look ?_
  by_cases hat : c.current.kind = kind
  · rw [if_pos hat, dif_pos ⟨hat, hkind⟩]
    have hstep : Lands (Descent.advance file) c c.current (c.advance file (hat ▸ hkind)) :=
      lands_advance _
    cases hadv : c.advance file (hat ▸ hkind) with
    | error e => rwa [hadv] at hstep
    | ok c' => rwa [hadv] at hstep
  · rw [if_neg hat, dif_neg fun h ↦ hat h.1]
    exact .refuse _

theorem descends_identifier : Descends (Descent.identifier file) c (c.identifier file) := by
  have hname : c.identifier file =
      c.consume file .identifier "identifier" >>= fun r ↦ .ok (r.1.text, r.2) := by
    unfold Cursor.identifier
    cases c.consume file .identifier "identifier" <;> rfl
  rw [hname]
  exact (descends_consume .identifier (by decide) _).bind fun t c₁ h₁ ↦ .done t.text h₁

theorem lands_skipSemicolons {n : Nat} (hn : c.remaining < n) :
    Lands (Descent.skipSemicolons file n) c () (c.skipSemicolons file) := by
  induction n generalizing c with
  | zero => exact absurd hn (Nat.not_lt_zero _)
  | succ n ih =>
    have htake := outcome?_takeIf file c .semicolon (by decide)
    unfold Descent.skipSemicolons Cursor.skipSemicolons
    generalize c.takeIf file .semicolon = taken at htake ⊢
    rcases taken with e | _ | ⟨c₁, h₁⟩
    · exact Walk.outcome?_bind_of_error htake
    · exact Walk.outcome?_bind_of_ok htake
    · have hrest : Lands (Descent.skipSemicolons file n) c₁ () (c₁.skipSemicolons file) :=
        ih (by omega)
      refine (Walk.outcome?_bind_of_ok htake).trans (hrest.trans ?_)
      cases hskip : c₁.skipSemicolons file with
      | error e => simp only [hskip]; rfl
      | ok c₂ => simp only [hskip]; rfl

theorem descends_moreNames (close : TokenKind) (hclose : close ≠ .eof) {n : Nat}
    (hn : c.remaining < n) :
    Descends (Descent.moreNames file close n) c (c.moreNames file close) := by
  induction n generalizing c with
  | zero => exact absurd hn (Nat.not_lt_zero _)
  | succ n ih =>
    unfold Descent.moreNames Cursor.moreNames
    refine descends_identifier.bind fun name c₁ h₁ ↦ ?_
    refine descends_takeIf close hclose ?_ fun c₂ h₂ ↦ .done _ _
    refine (descends_consume .comma (by decide) _).bind fun _ c₂ h₂ ↦ ?_
    exact (ih (by omega)).bind fun names c₃ h₃ ↦ .done _ _

theorem descends_nameList (close : TokenKind) (hclose : close ≠ .eof) {n : Nat}
    (hn : c.remaining < n) :
    Descends (Descent.nameList file close n) c (c.nameList file close) := by
  unfold Descent.nameList Cursor.nameList
  exact descends_takeIf close hclose (descends_moreNames close hclose hn) fun c₁ h₁ ↦ .done _ _

end Cursor

namespace Parser

open Cursor

variable {file : String} {c : Cursor} {n : Nat}

/-! ## Statements without expressions -/

theorem descends_stringLiteral :
    Descends (Descent.stringLiteral file) c (stringLiteral file c) := by
  have htext : stringLiteral file c =
      c.consume file .text "string" >>= fun r ↦ .ok (Text.literalText r.1.text, r.2) := by
    unfold stringLiteral
    cases c.consume file .text "string" <;> rfl
  rw [htext]
  exact (descends_consume .text (by decide) _).bind fun t c₁ h₁ ↦ .done _ h₁

theorem descends_reflectStatement (hn : c.remaining ≤ n) :
    Descends (Descent.reflectStatement file n) c (reflectStatement file c) := by
  unfold Descent.reflectStatement reflectStatement
  refine descends_stringLiteral.bind fun path c₁ h₁ ↦ ?_
  refine descends_takeIf .doubleColon (by decide) (.done _ _) fun c₂ h₂ ↦ ?_
  refine (descends_consume .leftBrace (by decide) _).bind fun _ c₃ h₃ ↦ ?_
  exact (descends_nameList .rightBrace (by decide) (by omega)).bind fun names c₄ h₄ ↦ .done _ _

theorem descends_foreignStatement (hn : c.remaining ≤ n) :
    Descends (Descent.foreignStatement file n) c (foreignStatement file c) := by
  unfold Descent.foreignStatement foreignStatement
  refine descends_identifier.bind fun name c₁ h₁ ↦ ?_
  refine (descends_consume .doubleColon (by decide) _).bind fun _ c₂ h₂ ↦ ?_
  refine descends_stringLiteral.bind fun path c₃ h₃ ↦ ?_
  refine (descends_consume .doubleColon (by decide) _).bind fun _ c₄ h₄ ↦ ?_
  refine (descends_consume .leftParen (by decide) _).bind fun _ c₅ h₅ ↦ ?_
  refine (descends_nameList .rightParen (by decide) (by omega)).bind fun argTypes c₆ h₆ ↦ ?_
  refine (descends_consume .arrow (by decide) _).bind fun _ c₇ h₇ ↦ ?_
  exact descends_identifier.bind fun returnType c₈ h₈ ↦ .done _ _

theorem descends_loopNames (hn : c.remaining ≤ n) :
    Descends (Descent.loopNames file n) c (loopNames file c) := by
  unfold Descent.loopNames loopNames
  refine Descends.bind ?_ fun names c₁ h₁ ↦ ?_
  · unfold Descent.boundNames
    refine descends_takeIf .leftParen (by decide) ?_ fun c₁ h₁ ↦ ?_
    · exact descends_identifier.bind fun name c₁ h₁ ↦ .done _ _
    · rw [← bind_pure (Descent.nameList file .rightParen n)]
      exact (descends_nameList .rightParen (by decide) (by omega)).bind fun names c₂ h₂ ↦ .done _ _
  · exact (descends_consume .kwIn (by decide) _).bind fun _ c₂ h₂ ↦ .done _ _

/-! ## Expressions -/

section Expressions

variable {b : Cursor} {expr : Below b Expr} {body : Below b (List Stmt)}
  (hexpr : ∀ n c hless, 20 * c.remaining + 15 ≤ n →
    Descends (Descent.expression file n) c (expr c hless))
  (hbody : ∀ n c hless, 20 * c.remaining + 19 ≤ n →
    Descends (Descent.block file n) c (body c hless))

include hexpr

theorem descends_moreArguments (hless : c.remaining < b.remaining)
    (hn : 20 * c.remaining + 16 ≤ n) :
    Descends (Descent.moreArguments file n) c (moreArguments file expr c hless) := by
  induction n generalizing c with
  | zero => omega
  | succ n ih =>
    unfold Descent.moreArguments moreArguments
    refine (hexpr n c hless (by omega)).bind fun e c₁ h₁ ↦ ?_
    refine descends_takeIf .rightParen (by decide) ?_ fun c₂ h₂ ↦ .done _ _
    refine (descends_consume .comma (by decide) _).bind fun _ c₂ h₂ ↦ ?_
    exact (ih _ (by omega)).bind fun es c₃ h₃ ↦ .done _ _

theorem descends_arguments (hless : c.remaining < b.remaining)
    (hn : 20 * c.remaining + 17 ≤ n) :
    Descends (Descent.arguments file n) c (arguments file expr c hless) := by
  obtain ⟨n, rfl⟩ := Nat.exists_eq_add_of_le' (Nat.le_trans (Nat.le_add_left 1 _) hn)
  unfold Descent.arguments arguments
  exact descends_takeIf .rightParen (by decide)
    (descends_moreArguments hexpr hless (by omega)) fun c₁ h₁ ↦ .done _ _

omit hexpr in
theorem descends_numberLiteral (hkind : c.current.kind = .number) :
    Descends (Descent.numberLiteral file) c (numberLiteral file c hkind) := by
  unfold Descent.numberLiteral numberLiteral
  refine .look ?_
  cases numberValue? c.current.text with
  | none => exact .refuse _
  | some value => exact (lands_advance _).bind fun c₁ h₁ ↦ .done _ _

omit hexpr in
theorem descends_tableKey : Descends (Descent.tableKey file) c (tableKey file c) := by
  unfold Descent.tableKey tableKey
  refine .look <| .dite descends_numberLiteral fun _ ↦ .ite ?_ ?_
  · exact descends_identifier.bind fun name c₁ h₁ ↦ .done _ _
  · exact descends_stringLiteral.bind fun value c₁ h₁ ↦ .done _ _

theorem descends_tableEntry (position : Float) (hless : c.remaining < b.remaining)
    (hn : 20 * c.remaining + 16 ≤ n) :
    Descends (Descent.tableEntry file n position) c (tableEntry file expr position c hless) := by
  obtain ⟨n, rfl⟩ := Nat.exists_eq_add_of_le' (Nat.le_trans (Nat.le_add_left 1 _) hn)
  unfold Descent.tableEntry tableEntry
  refine .look <| .ite ?_ ?_
  · refine descends_tableKey.bind fun key c₁ h₁ ↦ ?_
    refine (descends_consume .colon (by decide) _).bind fun _ c₂ h₂ ↦ ?_
    exact (hexpr n c₂ _ (by omega)).bind fun value c₃ h₃ ↦ .done _ _
  · exact (hexpr n c hless (by omega)).bind fun value c₁ h₁ ↦ .done _ _

omit hexpr in
theorem lands_entryEnd :
    Lands (Descent.entryEnd file) c ()
      (if c.current.kind = .rightBrace then
        return ⟨c, Nat.le_refl _⟩
      else do
        let ⟨_, ⟨c₁, h₁⟩⟩ ← c.consume file .comma "',' or '\x7d'"
        return ⟨c₁, Nat.le_of_lt h₁⟩ : Except Error c.Kept) := by
  change (if c.current.kind = .rightBrace then _ else _ : Walk Unit).outcome? c = _
  by_cases hclosing : c.current.kind = .rightBrace
  · rw [if_pos hclosing, if_pos hclosing]
    rfl
  · rw [if_neg hclosing, if_neg hclosing]
    have hcomma : Descends (Descent.consume file .comma "',' or '\x7d'") c
        (c.consume file .comma "',' or '\x7d'") := descends_consume .comma (by decide) _
    generalize c.consume file .comma "',' or '\x7d'" = comma at hcomma ⊢
    rcases comma with e | ⟨t, c₁, h₁⟩
    · exact Walk.outcome?_bind_of_error hcomma
    · exact Walk.outcome?_bind_of_ok hcomma

theorem descends_tableEntries (position : Float) (hless : c.remaining < b.remaining)
    (hn : 20 * c.remaining + 17 ≤ n) :
    Descends (Descent.tableEntries file n position) c
      (tableEntries file expr position c hless) := by
  induction n generalizing c position with
  | zero => omega
  | succ n ih =>
    unfold Descent.tableEntries tableEntries
    refine descends_takeIf .rightBrace (by decide) ?_ fun c₁ h₁ ↦ .done _ _
    refine (descends_tableEntry hexpr position hless (by omega)).bind fun entry c₁ h₁ ↦ ?_
    refine lands_entryEnd.bind fun c₂ h₂ ↦ ?_
    exact (ih _ _ (by omega)).bind fun entries c₃ h₃ ↦ .done _ _

omit hexpr in
theorem descends_functionName :
    Descends (Descent.functionName file) c (functionName file c) := by
  unfold Descent.functionName functionName
  refine .look <| .ite ?_ (.done _ _)
  rw [← bind_pure (Descent.identifier file)]
  exact descends_identifier.bind fun name c₁ h₁ ↦ .done _ _

omit hexpr in
include hbody in
theorem descends_function (hle : c.remaining ≤ b.remaining) (hn : 20 * c.remaining + 1 ≤ n) :
    Descends (Descent.function file n) c (function file body c hle) := by
  obtain ⟨n, rfl⟩ := Nat.exists_eq_add_of_le' (Nat.le_trans (Nat.le_add_left 1 _) hn)
  unfold Descent.function function
  refine (descends_consume .kwFn (by decide) _).bind fun _ c₁ h₁ ↦ ?_
  refine descends_functionName.bind fun name c₂ h₂ ↦ ?_
  refine (descends_consume .leftParen (by decide) _).bind fun _ c₃ h₃ ↦ ?_
  refine (descends_nameList .rightParen (by decide) (by omega)).bind fun params c₄ h₄ ↦ ?_
  exact (hbody n c₄ _ (by omega)).bind fun stmts c₅ h₅ ↦ .done _ _

include hbody

theorem descends_primary (hle : c.remaining ≤ b.remaining) (hn : 20 * c.remaining + 2 ≤ n) :
    Descends (Descent.primary file n) c (primary file expr body c hle) := by
  obtain ⟨n, rfl⟩ := Nat.exists_eq_add_of_le' (Nat.le_trans (Nat.le_add_left 1 _) hn)
  unfold Descent.primary primary
  -- in the order of the tokens that an operand may begin with
  refine .look <| .dite descends_numberLiteral fun _ ↦ .ite ?_ <| .dite (fun _ ↦ ?_)
    fun _ ↦ .dite (fun _ ↦ ?_) fun _ ↦ .ite ?_ <| .dite (fun _ ↦ ?_)
    fun _ ↦ .dite (fun _ ↦ ?_) fun _ ↦ .ite ?_ <| .refuse _
  · exact descends_stringLiteral.bind fun value c₁ h₁ ↦ .done _ _
  · exact (lands_advance _).bind fun c₁ h₁ ↦ .done _ _
  · exact (lands_advance _).bind fun c₁ h₁ ↦ .done _ _
  · exact descends_identifier.bind fun name c₁ h₁ ↦ .done _ _
  · refine (lands_advance _).bind fun c₁ h₁ ↦ ?_
    refine (hexpr n c₁ _ (by omega)).bind fun e c₂ h₂ ↦ ?_
    exact (descends_consume .rightParen (by decide) _).bind fun _ c₃ h₃ ↦ .done _ _
  · refine (lands_advance _).bind fun c₁ h₁ ↦ ?_
    exact (descends_tableEntries hexpr 0 _ (by omega)).bind fun entries c₂ h₂ ↦ .done _ _
  · exact (descends_function hbody hle (by omega)).bind fun f c₁ h₁ ↦ .done _ _

omit hbody in
theorem descends_suffixes (e : Expr) (hle : c.remaining ≤ b.remaining)
    (hn : 20 * c.remaining + 1 ≤ n) :
    Descends (Descent.suffixes file n e) c (suffixes file expr e c hle) := by
  induction n generalizing c e with
  | zero => omega
  | succ n ih =>
    unfold Descent.suffixes suffixes
    refine .look <| .dite (fun _ ↦ ?_) fun _ ↦ .dite (fun _ ↦ ?_) fun _ ↦ .dite (fun _ ↦ ?_)
      fun _ ↦ .done _ _
    · refine (lands_advance _).bind fun c₁ h₁ ↦ ?_
      refine descends_identifier.bind fun name c₂ h₂ ↦ ?_
      rw [← bind_pure (Descent.suffixes file n _)]
      exact (ih _ _ (by omega)).bind fun e' c₃ h₃ ↦ .done _ _
    · refine (lands_advance _).bind fun c₁ h₁ ↦ ?_
      refine (hexpr n c₁ _ (by omega)).bind fun property c₂ h₂ ↦ ?_
      refine (descends_consume .rightBracket (by decide) _).bind fun _ c₃ h₃ ↦ ?_
      rw [← bind_pure (Descent.suffixes file n _)]
      exact (ih _ _ (by omega)).bind fun e' c₄ h₄ ↦ .done _ _
    · refine (lands_advance _).bind fun c₁ h₁ ↦ ?_
      refine (descends_arguments hexpr _ (by omega)).bind fun args c₂ h₂ ↦ ?_
      rw [← bind_pure (Descent.suffixes file n _)]
      exact (ih _ _ (by omega)).bind fun e' c₃ h₃ ↦ .done _ _

theorem descends_suffixed (hle : c.remaining ≤ b.remaining) (hn : 20 * c.remaining + 3 ≤ n) :
    Descends (Descent.suffixed file n) c (suffixed file expr body c hle) := by
  obtain ⟨n, rfl⟩ := Nat.exists_eq_add_of_le' (Nat.le_trans (Nat.le_add_left 1 _) hn)
  unfold Descent.suffixed suffixed
  refine (descends_primary hexpr hbody hle (by omega)).bind fun e c₁ h₁ ↦ ?_
  rw [← bind_pure (Descent.suffixes file n _)]
  exact (descends_suffixes hexpr e _ (by omega)).bind fun e' c₂ h₂ ↦ .done _ _

theorem descends_unary (hle : c.remaining ≤ b.remaining) (hn : 20 * c.remaining + 4 ≤ n) :
    Descends (Descent.unary file n) c (unary file expr body c hle) := by
  induction n generalizing c with
  | zero => omega
  | succ n ih =>
    unfold Descent.unary unary
    refine .look ?_
    split
    · next op hop =>
      split
      · next op' hop' =>
        obtain rfl := Option.some.inj (hop.symm.trans hop')
        refine (lands_advance _).bind fun c₁ h₁ ↦ ?_
        exact (ih _ (by omega)).bind fun e c₂ h₂ ↦ .done _ _
      · next hop' => cases hop.symm.trans hop'
    · next hop =>
      split
      · next hop' => cases hop.symm.trans hop'
      · refine (descends_suffixed hexpr hbody hle (by omega)).bind fun base c₁ h₁ ↦ ?_
        refine descends_takeIf .caret (by decide) (.done _ _) fun c₂ h₂ ↦ ?_
        exact (ih _ (by omega)).bind fun exponent c₃ h₃ ↦ .done _ _

end Expressions

section Levels

variable {b : Cursor} {operand : UpTo b Expr} {level : Level} {height : Nat}
  (hoperand : ∀ n c hle, 20 * c.remaining + height ≤ n →
    Descends (Descent.operand file n level) c (operand c hle))

include hoperand

theorem descends_binaryRest (hheight : height ≤ 19) (left : Expr) (hle : c.remaining ≤ b.remaining)
    (hn : 20 * c.remaining + 1 ≤ n) :
    Descends (Descent.binaryRest file n level left) c
      (binaryRest file operand level left c hle) := by
  induction n generalizing c left with
  | zero => omega
  | succ n ih =>
    unfold Descent.binaryRest binaryRest
    refine .look ?_
    split
    · next hop =>
      split
      · exact .done _ _
      · next op' hop' => cases hop.symm.trans hop'
    · next op hop =>
      split
      · next hop' => cases hop.symm.trans hop'
      · next op' hop' =>
        obtain rfl := Option.some.inj (hop.symm.trans hop')
        refine (lands_advance _).bind fun c₁ h₁ ↦ ?_
        refine (hoperand n c₁ _ (by omega)).bind fun right c₂ h₂ ↦ ?_
        rw [← bind_pure (Descent.binaryRest file n level _)]
        exact (ih _ _ (by omega)).bind fun e c₃ h₃ ↦ .done _ _

theorem descends_binary (hheight : height ≤ 19) (hle : c.remaining ≤ b.remaining)
    (hn : 20 * c.remaining + height + 1 ≤ n) :
    Descends (Descent.binary file n level) c (binary file operand level c hle) := by
  obtain ⟨n, rfl⟩ := Nat.exists_eq_add_of_le' (Nat.le_trans (Nat.le_add_left 1 _) hn)
  unfold Descent.binary binary
  refine (hoperand n c hle (by omega)).bind fun left c₁ h₁ ↦ ?_
  rw [← bind_pure (Descent.binaryRest file n level left)]
  exact (descends_binaryRest hoperand hheight left _ (by omega)).bind fun e c₂ h₂ ↦ .done _ _

/-- The operands of a level are the expressions of the next tighter one. -/
theorem descends_operand {looser : Level} (htighter : Descent.tighter? looser = some level)
    (hheight : height ≤ 19) (hle : c.remaining ≤ b.remaining)
    (hn : 20 * c.remaining + height + 2 ≤ n) :
    Descends (Descent.operand file n looser) c (binary file operand level c hle) := by
  obtain ⟨n, rfl⟩ := Nat.exists_eq_add_of_le' (Nat.le_trans (Nat.le_add_left 1 _) hn)
  unfold Descent.operand
  rw [htighter]
  exact descends_binary hoperand hheight hle (by omega)

end Levels

section Layers

variable {b : Cursor} {expr : Below b Expr} {body : Below b (List Stmt)}
  (hexpr : ∀ n c hless, 20 * c.remaining + 15 ≤ n →
    Descends (Descent.expression file n) c (expr c hless))
  (hbody : ∀ n c hless, 20 * c.remaining + 19 ≤ n →
    Descends (Descent.block file n) c (body c hless))

variable (file expr body) in
/-- The parser for the operands of a level. -/
def operandOf : Level → UpTo b Expr
  | .or => conjunctions file expr body
  | .and => comparisons file expr body
  | .comparison => sums file expr body
  | .additive => products file expr body
  | .multiplicative => unary file expr body

include hexpr hbody

theorem descends_operandOf (level : Level) (hle : c.remaining ≤ b.remaining)
    (hn : 20 * c.remaining + 13 ≤ n) :
    Descends (Descent.operand file n level) c (operandOf file expr body level c hle) := by
  have hmultiplicative (n c) (hle : c.remaining ≤ b.remaining) (hn : 20 * c.remaining + 5 ≤ n) :
      Descends (Descent.operand file n .multiplicative) c (unary file expr body c hle) := by
    obtain ⟨n, rfl⟩ := Nat.exists_eq_add_of_le' (Nat.le_trans (Nat.le_add_left 1 _) hn)
    unfold Descent.operand
    exact descends_unary hexpr hbody hle (by omega)
  have hadditive (n c) (hle : c.remaining ≤ b.remaining) (hn : 20 * c.remaining + 7 ≤ n) :
      Descends (Descent.operand file n .additive) c (products file expr body c hle) :=
    descends_operand hmultiplicative rfl (by decide) hle hn
  have hcomparison (n c) (hle : c.remaining ≤ b.remaining) (hn : 20 * c.remaining + 9 ≤ n) :
      Descends (Descent.operand file n .comparison) c (sums file expr body c hle) :=
    descends_operand hadditive rfl (by decide) hle hn
  have hand (n c) (hle : c.remaining ≤ b.remaining) (hn : 20 * c.remaining + 11 ≤ n) :
      Descends (Descent.operand file n .and) c (comparisons file expr body c hle) :=
    descends_operand hcomparison rfl (by decide) hle hn
  cases level with
  | or => exact descends_operand hand rfl (by decide) hle hn
  | and => exact hand n c hle (by omega)
  | comparison => exact hcomparison n c hle (by omega)
  | additive => exact hadditive n c hle (by omega)
  | multiplicative => exact hmultiplicative n c hle (by omega)

theorem descends_expressionWith (hle : c.remaining ≤ b.remaining)
    (hn : 20 * c.remaining + 15 ≤ n) :
    Descends (Descent.expression file n) c (expressionWith file expr body c hle) := by
  obtain ⟨n, rfl⟩ := Nat.exists_eq_add_of_le' (Nat.le_trans (Nat.le_add_left 1 _) hn)
  unfold Descent.expression
  exact descends_binary (fun n c ↦ descends_operandOf hexpr hbody .or) (by decide) hle (by omega)

end Layers

/-! ## Statements -/

section Statements

variable {b : Cursor} {expr : UpTo b Expr} {body : Below b (List Stmt)} {stmt : Below b Stmt}
  (hexpr : ∀ n c hle, 20 * c.remaining + 15 ≤ n →
    Descends (Descent.expression file n) c (expr c hle))
  (hbody : ∀ n c hless, 20 * c.remaining + 19 ≤ n →
    Descends (Descent.block file n) c (body c hless))
  (hstmt : ∀ n c hless, 20 * c.remaining + 18 ≤ n →
    Descends (Descent.statement file n) c (stmt c hless))

include hexpr

theorem descends_varStatement (hless : c.remaining < b.remaining)
    (hn : 20 * c.remaining + 1 ≤ n) :
    Descends (Descent.varStatement file n) c (varStatement file expr c hless) := by
  obtain ⟨n, rfl⟩ := Nat.exists_eq_add_of_le' (Nat.le_trans (Nat.le_add_left 1 _) hn)
  unfold Descent.varStatement varStatement
  refine descends_identifier.bind fun name c₁ h₁ ↦ ?_
  refine descends_takeIf .equal (by decide) (.done _ _) fun c₂ h₂ ↦ ?_
  exact (hexpr n c₂ _ (by omega)).bind fun value c₃ h₃ ↦ .done _ _

theorem descends_returnStatement (line : Nat) (hless : c.remaining < b.remaining)
    (hn : 20 * c.remaining + 16 ≤ n) :
    Descends (Descent.returnStatement file n line) c (returnStatement expr line c hless) := by
  obtain ⟨n, rfl⟩ := Nat.exists_eq_add_of_le' (Nat.le_trans (Nat.le_add_left 1 _) hn)
  unfold Descent.returnStatement returnStatement
  refine .look <| .ite (.done _ _) ?_
  exact (hexpr n c _ (by omega)).bind fun value c₁ h₁ ↦ .done _ _

theorem descends_expressionStatement (hle : c.remaining ≤ b.remaining)
    (hn : 20 * c.remaining + 16 ≤ n) :
    Descends (Descent.expressionStatement file n) c (expressionStatement file expr c hle) := by
  obtain ⟨n, rfl⟩ := Nat.exists_eq_add_of_le' (Nat.le_trans (Nat.le_add_left 1 _) hn)
  unfold Descent.expressionStatement expressionStatement
  refine (hexpr n c hle (by omega)).bind fun e c₁ h₁ ↦ .look ?_
  dsimp only
  split
  · next hop =>
    split
    · exact .done _ _
    · next op' hop' => cases hop.symm.trans hop'
  · next op hop =>
    rcases e.target? with _ | ⟨root, path⟩
    · dsimp only
      split
      · next hop' => cases hop.symm.trans hop'
      · exact .refuse _
    · rcases op with _ | op
      all_goals
        dsimp only
        split
        · next hop' => cases hop.symm.trans hop'
        · next op' hop' =>
          obtain rfl := Option.some.inj (hop.symm.trans hop')
          refine (lands_advance _).bind fun c₂ h₂ ↦ ?_
          exact (hexpr n c₂ _ (by omega)).bind fun value c₃ h₃ ↦ .done _ _

include hbody

theorem descends_condRest (hle : c.remaining ≤ b.remaining) (hn : 20 * c.remaining + 2 ≤ n) :
    Descends (Descent.condRest file n) c (condRest file expr body c hle) := by
  induction n generalizing c with
  | zero => omega
  | succ n ih =>
    unfold Descent.condRest condRest
    refine (lands_skipSemicolons (by omega)).bind fun c₁ h₁ ↦ ?_
    refine descends_takeIf .kwElif (by decide) ?_ fun c₂ h₂ ↦ ?_
    · refine descends_takeIf .kwElse (by decide) (.done _ _) fun c₂ h₂ ↦ ?_
      exact (hbody n c₂ _ (by omega)).bind fun stmts c₃ h₃ ↦ .done _ _
    · refine (hexpr n c₂ _ (by omega)).bind fun condition c₃ h₃ ↦ ?_
      refine (hbody n c₃ _ (by omega)).bind fun stmts c₄ h₄ ↦ ?_
      exact (ih _ (by omega)).bind fun rest c₅ h₅ ↦ .done _ _

theorem descends_condStatement (hless : c.remaining < b.remaining)
    (hn : 20 * c.remaining + 16 ≤ n) :
    Descends (Descent.condStatement file n) c (condStatement file expr body c hless) := by
  obtain ⟨n, rfl⟩ := Nat.exists_eq_add_of_le' (Nat.le_trans (Nat.le_add_left 1 _) hn)
  unfold Descent.condStatement condStatement
  refine (hexpr n c _ (by omega)).bind fun condition c₁ h₁ ↦ ?_
  refine (hbody n c₁ _ (by omega)).bind fun stmts c₂ h₂ ↦ ?_
  exact (descends_condRest hexpr hbody _ (by omega)).bind fun rest c₃ h₃ ↦ .done _ _

theorem descends_whileStatement (hless : c.remaining < b.remaining)
    (hn : 20 * c.remaining + 16 ≤ n) :
    Descends (Descent.whileStatement file n) c (whileStatement expr body c hless) := by
  obtain ⟨n, rfl⟩ := Nat.exists_eq_add_of_le' (Nat.le_trans (Nat.le_add_left 1 _) hn)
  unfold Descent.whileStatement whileStatement
  refine (hexpr n c _ (by omega)).bind fun condition c₁ h₁ ↦ ?_
  exact (hbody n c₁ _ (by omega)).bind fun stmts c₂ h₂ ↦ .done _ _

theorem descends_forStatement (hless : c.remaining < b.remaining)
    (hn : 20 * c.remaining + 1 ≤ n) :
    Descends (Descent.forStatement file n) c (forStatement file expr body c hless) := by
  obtain ⟨n, rfl⟩ := Nat.exists_eq_add_of_le' (Nat.le_trans (Nat.le_add_left 1 _) hn)
  have hbounds {c : Cursor} (hless : c.remaining < b.remaining) (hn : 20 * c.remaining + 17 ≤ n) :
      Descends (Descent.arguments file n) c
        (arguments file (fun c h ↦ expr c (Nat.le_of_lt h)) c hless) :=
    descends_arguments (fun n c h hn ↦ hexpr n c (Nat.le_of_lt h) hn) hless hn
  unfold Descent.forStatement forStatement
  refine (descends_loopNames (by omega)).bind fun names c₁ h₁ ↦ ?_
  rcases names with _ | ⟨first, _ | ⟨second, _ | ⟨_, _⟩⟩⟩
  · exact .refuse _
  · refine (descends_consume .leftParen (by decide) _).bind fun _ c₂ h₂ ↦ ?_
    refine (hbounds _ (by omega)).bind fun bounds c₃ h₃ ↦ ?_
    rcases bounds with _ | ⟨_, _ | ⟨_, _ | ⟨_, _ | ⟨_, _⟩⟩⟩⟩
    · exact .refuse _
    · exact .refuse _
    · exact (hbody n c₃ _ (by omega)).bind fun stmts c₄ h₄ ↦ .done _ _
    · exact (hbody n c₃ _ (by omega)).bind fun stmts c₄ h₄ ↦ .done _ _
    · exact .refuse _
  · refine (hexpr n c₁ _ (by omega)).bind fun iterator c₂ h₂ ↦ ?_
    exact (hbody n c₂ _ (by omega)).bind fun stmts c₃ h₃ ↦ .done _ _
  · exact .refuse _

omit hexpr hbody in
include hstmt in
theorem descends_shineStatement (hless : c.remaining < b.remaining)
    (hn : 20 * c.remaining + 19 ≤ n) :
    Descends (Descent.shineStatement file n) c (shineStatement file stmt c hless) := by
  obtain ⟨n, rfl⟩ := Nat.exists_eq_add_of_le' (Nat.le_trans (Nat.le_add_left 1 _) hn)
  unfold Descent.shineStatement shineStatement
  refine .look <| .ite ?_ (.refuse _)
  exact (hstmt n c _ (by omega)).bind fun inner c₁ h₁ ↦ .done _ _

include hstmt

theorem descends_bareStatement (hle : c.remaining ≤ b.remaining)
    (hn : 20 * c.remaining + 17 ≤ n) :
    Descends (Descent.bareStatement file n) c (bareStatement file expr body stmt c hle) := by
  obtain ⟨n, rfl⟩ := Nat.exists_eq_add_of_le' (Nat.le_trans (Nat.le_add_left 1 _) hn)
  unfold Descent.bareStatement bareStatement
  -- in the order of the keywords, and with none of them an expression
  refine .look <| .look <| .dite (fun _ ↦ ?_) fun _ ↦ .ite ?_ <| .dite (fun _ ↦ ?_)
    fun _ ↦ .dite (fun _ ↦ ?_) fun _ ↦ .dite (fun _ ↦ ?_) fun _ ↦ .dite (fun _ ↦ ?_)
    fun _ ↦ .dite (fun _ ↦ ?_) fun _ ↦ .dite (fun _ ↦ ?_) fun _ ↦ .dite (fun _ ↦ ?_)
    fun _ ↦ .dite (fun _ ↦ ?_) fun _ ↦ .dite (fun _ ↦ ?_) fun _ ↦ .dite (fun _ ↦ ?_)
    fun _ ↦ descends_expressionStatement hexpr hle (by omega)
  · refine (lands_advance _).bind fun c₁ h₁ ↦ ?_
    rw [← bind_pure (Descent.varStatement file n)]
    exact (descends_varStatement hexpr _ (by omega)).bind fun s c₂ h₂ ↦ .done _ _
  · exact (descends_function hbody hle (by omega)).bind fun f c₁ h₁ ↦ .done _ _
  · refine (lands_advance _).bind fun c₁ h₁ ↦ ?_
    rw [← bind_pure (Descent.condStatement file n)]
    exact (descends_condStatement hexpr hbody _ (by omega)).bind fun s c₂ h₂ ↦ .done _ _
  · refine (lands_advance _).bind fun c₁ h₁ ↦ ?_
    rw [← bind_pure (Descent.whileStatement file n)]
    exact (descends_whileStatement hexpr hbody _ (by omega)).bind fun s c₂ h₂ ↦ .done _ _
  · refine (lands_advance _).bind fun c₁ h₁ ↦ ?_
    rw [← bind_pure (Descent.forStatement file n)]
    exact (descends_forStatement hexpr hbody _ (by omega)).bind fun s c₂ h₂ ↦ .done _ _
  · refine (lands_advance _).bind fun c₁ h₁ ↦ ?_
    rw [← bind_pure (Descent.returnStatement file n _)]
    exact (descends_returnStatement hexpr _ _ (by omega)).bind fun s c₂ h₂ ↦ .done _ _
  · exact (lands_advance _).bind fun c₁ h₁ ↦ .done _ _
  · exact (lands_advance _).bind fun c₁ h₁ ↦ .done _ _
  · refine (lands_advance _).bind fun c₁ h₁ ↦ ?_
    rw [← bind_pure (Descent.reflectStatement file n)]
    exact (descends_reflectStatement (by omega)).bind fun s c₂ h₂ ↦ .done _ _
  · refine (lands_advance _).bind fun c₁ h₁ ↦ ?_
    rw [← bind_pure (Descent.shineStatement file n)]
    exact (descends_shineStatement hstmt _ (by omega)).bind fun s c₂ h₂ ↦ .done _ _
  · refine (lands_advance _).bind fun c₁ h₁ ↦ ?_
    rw [← bind_pure (Descent.foreignStatement file n)]
    exact (descends_foreignStatement (by omega)).bind fun s c₂ h₂ ↦ .done _ _
  · refine (lands_advance _).bind fun c₁ h₁ ↦ ?_
    exact descends_identifier.bind fun name c₂ h₂ ↦ .done _ _

theorem descends_statementWith (hle : c.remaining ≤ b.remaining)
    (hn : 20 * c.remaining + 18 ≤ n) :
    Descends (Descent.statement file n) c (statementWith file expr body stmt c hle) := by
  obtain ⟨n, rfl⟩ := Nat.exists_eq_add_of_le' (Nat.le_trans (Nat.le_add_left 1 _) hn)
  unfold Descent.statement statementWith
  refine (descends_bareStatement hexpr hbody hstmt hle (by omega)).bind fun s c₁ h₁ ↦ ?_
  exact (lands_skipSemicolons (by omega)).bind fun c₂ h₂ ↦ .done _ _

end Statements

/-! ## Tying the knot -/

mutual

theorem descends_expression {c : Cursor} {n : Nat} (hn : 20 * c.remaining + 15 ≤ n) :
    Descends (Descent.expression file n) c (expression file c) := by
  rw [expression]
  exact descends_expressionWith (fun n c' _ hn ↦ descends_expression hn)
    (fun n c' _ hn ↦ descends_block hn) _ hn
termination_by c.remaining * 4
decreasing_by all_goals omega

theorem descends_statement {c : Cursor} {n : Nat} (hn : 20 * c.remaining + 18 ≤ n) :
    Descends (Descent.statement file n) c (statement file c) := by
  rw [statement]
  exact descends_statementWith (fun n c' _ hn ↦ descends_expression hn)
    (fun n c' _ hn ↦ descends_block hn) (fun n c' _ hn ↦ descends_statement hn) _ hn
termination_by c.remaining * 4 + 1
decreasing_by all_goals omega

theorem descends_block {c : Cursor} {n : Nat} (hn : 20 * c.remaining + 19 ≤ n) :
    Descends (Descent.block file n) c (block file c) := by
  obtain ⟨n, rfl⟩ := Nat.exists_eq_add_of_le' (Nat.le_trans (Nat.le_add_left 1 _) hn)
  rw [block, Descent.block]
  refine descends_takeIf .leftBrace (by decide) ?_ fun c₁ h₁ ↦ ?_
  · exact (descends_statement (by omega)).bind fun s c₁ h₁ ↦ .done _ _
  · rw [← bind_pure (Descent.blockRest file n)]
    exact (descends_blockRest (by omega)).bind fun stmts c₂ h₂ ↦ .done _ _
termination_by c.remaining * 4 + 3
decreasing_by all_goals omega

theorem descends_blockRest {c : Cursor} {n : Nat} (hn : 20 * c.remaining + 19 ≤ n) :
    Descends (Descent.blockRest file n) c (blockRest file c) := by
  obtain ⟨n, rfl⟩ := Nat.exists_eq_add_of_le' (Nat.le_trans (Nat.le_add_left 1 _) hn)
  rw [blockRest, Descent.blockRest]
  refine (lands_skipSemicolons (by omega)).bind fun c₁ h₁ ↦ ?_
  refine descends_takeIf .rightBrace (by decide) ?_ fun c₂ h₂ ↦ .done _ _
  refine .look <| .ite (.refuse _) ?_
  refine (descends_statement (by omega)).bind fun s c₂ h₂ ↦ ?_
  exact (descends_blockRest (by omega)).bind fun stmts c₃ h₃ ↦ .done _ _
termination_by c.remaining * 4 + 2
decreasing_by all_goals omega

end

/-! ## Programs -/

end Parser

end GemLang
