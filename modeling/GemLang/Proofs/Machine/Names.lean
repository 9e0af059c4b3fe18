import GemLang.Proofs.Machine.Passes

/-!
# What names mean

Scopes form a tree, and a name is looked for from a scope outwards. Looking a name up, assigning to
it and removing it all walk the same way, so they agree on which scope a name belongs to
(`Heap.owner?`). What a change of one binding does to a name is then the same question for every
kind of change: it is seen from the scopes that *look for* the name in the scope that was changed,
those inside of it with no binding of the name in between (`Heap.LooksIn`), and from no others.

Only the shape of the tree is used for this, and that a scope binds a name once. Both hold of every
tree that comes about by making scopes and by changing what they bind (`Heap.Reached`).
-/

namespace GemLang

open Exec

namespace Heap

/-- The trees of scopes that come about from a single scope, by making scopes inside others and by
binding names, assigning to them and removing them in any scope. What is put on stacks does not
matter. -/
inductive Reached : Heap → Prop where
  | initial : Reached .initial
  | addChild {h : Heap} (hh : Reached h) {parent : ScopeId} (hparent : parent < h.nextScope) :
    Reached (h.addChild parent)
  | declare {h : Heap} (hh : Reached h) (s : ScopeId) (name : String) (v : Value) :
    Reached (h.declare s name v)
  | assign {h h' : Heap} (hh : Reached h) {s : ScopeId} {name : String} {v : Value}
      (hassign : h.assign? s name v = some h') : Reached h'
  | remove {h h' : Heap} (hh : Reached h) {s : ScopeId} {name : String} {v : Value}
      (hremove : h.remove? s name = some (v, h')) : Reached h'
  | setStack {h : Heap} (hh : Reached h) (s : ScopeId) (values : List Value) :
    Reached (h.setStack s values)

/-! ## Trees -/

def parent? (h : Heap) (s : ScopeId) : Option ScopeId := (h.scope s).outer.head?

/-- Scopes stand inside of scopes that were there before, and what is around such a scope is around
those in it. No scope binds a name twice. -/
structure IsTree (h : Heap) : Prop where
  outer {s p : ScopeId} {rest : List ScopeId} (hs : (h.scope s).outer = p :: rest) :
    p < s ∧ rest = (h.scope p).outer
  distinct (s : ScopeId) : Assoc.Distinct (h.scope s).bindings

variable {h h' : Heap} {s t o : ScopeId} {x y : String} {v : Value}

theorem isTree_initial : IsTree .initial := by
  have hscope (s : ScopeId) : initial.scope s = Scope.empty [] := by
    cases s <;> rfl
  refine ⟨fun {s p rest} hs ↦ ?_, fun s ↦ ?_⟩
  · rw [hscope] at hs
    cases hs
  · rw [hscope]
    exact .nil

theorem IsTree.modify (hh : h.IsTree) (s : ScopeId) {f : Scope → Scope}
    (houter : ∀ scope, (f scope).outer = scope.outer)
    (hf : Assoc.Distinct (f (h.scope s)).bindings) : (h.modify s f).IsTree := by
  have hkept (t : ScopeId) : ((h.modify s f).scope t).outer = (h.scope t).outer := by
    rw [scope_modify]
    split
    · exact houter _
    · rfl
  refine ⟨fun {t p rest} ht ↦ ?_, fun t ↦ ?_⟩
  · rw [hkept] at ht ⊢
    exact hh.outer ht
  · rw [scope_modify]
    split
    · next heq => exact heq.1 ▸ hf
    · exact hh.distinct t

theorem IsTree.declare (hh : h.IsTree) (s : ScopeId) (name : String) (v : Value) :
    (h.declare s name v).IsTree :=
  hh.modify s (fun _ ↦ rfl) ((hh.distinct s).insert name v)

theorem IsTree.undeclare (hh : h.IsTree) (s : ScopeId) (name : String) :
    (h.undeclare s name).IsTree :=
  hh.modify s (fun _ ↦ rfl) ((hh.distinct s).erase name)

theorem lt_of_outer {p : ScopeId} {rest : List ScopeId} (hs : (h.scope s).outer = p :: rest) :
    s < h.nextScope := by
  refine Nat.lt_of_not_le fun hle ↦ ?_
  rw [scope, Array.getD_eq_getD_getElem?, Array.getElem?_eq_none hle] at hs
  cases hs

theorem IsTree.addChild (hh : h.IsTree) {parent : ScopeId} (hparent : parent < h.nextScope) :
    (h.addChild parent).IsTree := by
  refine ⟨fun {s p rest} hs ↦ ?_, fun s ↦ ?_⟩
  · rw [scope_addChild] at hs
    split at hs
    · next heq =>
      obtain ⟨rfl, rfl⟩ := List.cons.inj hs
      rw [scope_addChild, if_neg (Nat.ne_of_lt hparent)]
      exact ⟨heq ▸ hparent, rfl⟩
    · obtain ⟨hlt, hrest⟩ := hh.outer hs
      rw [scope_addChild, if_neg (Nat.ne_of_lt (hlt.trans (lt_of_outer hs)))]
      exact ⟨hlt, hrest⟩
  · rw [scope_addChild]
    split
    · exact .nil
    · exact hh.distinct s

theorem remove?_eq_some_iff : h.remove? s x = some (v, h') ↔
    ∃ o, h.owner? s x = some o ∧ h.own? o x = some v ∧ h.undeclare o x = h' := by
  rw [remove?]
  cases h.owner? s x with
  | none => simp
  | some o => simp [own?]

theorem Reached.isTree (hh : h.Reached) : h.IsTree := by
  induction hh with
  | initial => exact isTree_initial
  | addChild _ hparent ih => exact ih.addChild hparent
  | declare _ s name v ih => exact ih.declare s name v
  | assign _ hassign ih =>
    obtain ⟨o, -, rfl⟩ := Option.map_eq_some_iff.mp hassign
    exact ih.declare o _ _
  | remove _ hremove ih =>
    obtain ⟨o, -, -, rfl⟩ := remove?_eq_some_iff.mp hremove
    exact ih.undeclare o _
  | setStack _ s values ih => exact ih.modify s (fun _ ↦ rfl) (ih.distinct s)

/-- What is around a scope is what is around the scope right around it, and that scope. -/
theorem IsTree.outer_eq (hh : h.IsTree) (s : ScopeId) :
    (h.scope s).outer = ((h.parent? s).map h.chain).getD [] := by
  rw [parent?]
  cases houter : (h.scope s).outer with
  | nil => rfl
  | cons p rest =>
    rw [(hh.outer houter).2, List.head?_cons, Option.map_some, Option.getD_some, chain]

theorem IsTree.lt_of_mem_outer (hh : h.IsTree) (ht : t ∈ (h.scope s).outer) : t < s := by
  induction s using Nat.strong_induction_on with
  | _ s ih =>
    cases houter : (h.scope s).outer with
    | nil =>
      rw [houter] at ht
      cases ht
    | cons p rest =>
      obtain ⟨hlt, rfl⟩ := hh.outer houter
      rw [houter] at ht
      rcases List.mem_cons.mp ht with rfl | ht
      · exact hlt
      · exact (ih p hlt ht).trans hlt

/-- The scopes around a scope that is met on the way out are those that are met after it. -/
theorem IsTree.chain_of_append (hh : h.IsTree) {before after : List ScopeId}
    (hchain : h.chain t = before ++ o :: after) : h.chain o = o :: after := by
  induction before generalizing t with
  | nil =>
    obtain ⟨rfl, rfl⟩ := List.cons.inj hchain
    rfl
  | cons u before ih =>
    obtain ⟨-, houter⟩ := List.cons.inj hchain
    rw [hh.outer_eq] at houter
    cases hparent : h.parent? t with
    | none =>
      rw [hparent] at houter
      simp at houter
    | some p =>
      rw [hparent] at houter
      exact ih houter

/-- No scope is met twice on the way out. -/
theorem IsTree.not_mem_before (hh : h.IsTree) {before after : List ScopeId}
    (hchain : h.chain t = before ++ o :: after) : o ∉ before := by
  intro ho
  obtain ⟨first, last, rfl⟩ := List.append_of_mem ho
  have hfirst := hh.chain_of_append (by rwa [List.append_assoc, List.cons_append] at hchain)
  have hsecond : o ∈ (h.scope o).outer := by
    rw [(List.cons.inj hfirst).2]
    exact List.mem_append_right last List.mem_cons_self
  exact Nat.lt_irrefl o (hh.lt_of_mem_outer hsecond)

/-! ## Walking outwards -/

theorem lookup_eq_findSome? (h : Heap) (s : ScopeId) (x : String) :
    h.lookup s x = (h.chain s).findSome? (h.own? · x) := by
  rw [lookup, owner?]
  induction h.chain s with
  | nil => rfl
  | cons t ts ih =>
    rw [List.find?_cons, List.findSome?_cons, binds_eq_isSome]
    cases hown : h.own? t x with
    | none => exact ih
    | some v => exact hown

theorem isSome_lookup (h : Heap) (s : ScopeId) (x : String) :
    (h.lookup s x).isSome = (h.owner? s x).isSome := by
  cases howner : h.owner? s x with
  | none => rw [lookup, howner]; rfl
  | some o =>
    have hbinds : h.binds o x := by simpa using List.find?_some howner
    rw [lookup_of_owner? howner, ← binds_eq_isSome, hbinds]
    rfl

theorem findSome?_own?_congr {ts : List ScopeId} (hown : ∀ u ∈ ts, h'.own? u x = h.own? u x) :
    ts.findSome? (h'.own? · x) = ts.findSome? (h.own? · x) := by
  induction ts with
  | nil => rfl
  | cons u ts ih =>
    rw [List.forall_mem_cons] at hown
    rw [List.findSome?_cons, List.findSome?_cons, hown.1, ih hown.2]

theorem IsTree.findSome?_outer (hh : h.IsTree) (s : ScopeId) (x : String) :
    (h.scope s).outer.findSome? (h.own? · x) = (h.parent? s).bind (h.lookup · x) := by
  rw [hh.outer_eq]
  cases h.parent? s with
  | none => rfl
  | some p => exact (lookup_eq_findSome? h p x).symm

/-- A name is looked up in the scope itself, and then from the scope around it. -/
theorem IsTree.lookup_walk (hh : h.IsTree) (s : ScopeId) (x : String) :
    h.lookup s x = (h.own? s x).or ((h.parent? s).bind (h.lookup · x)) := by
  rw [lookup_eq_findSome?, chain, List.findSome?_cons, hh.findSome?_outer]
  cases h.own? s x <;> rfl

theorem IsTree.owner?_walk (hh : h.IsTree) (s : ScopeId) (x : String) :
    h.owner? s x = if h.binds s x then some s else (h.parent? s).bind (h.owner? · x) := by
  rw [owner?, chain, List.find?_cons, hh.outer_eq]
  cases h.binds s x with
  | true => rfl
  | false => cases h.parent? s <;> rfl

/-- Assigning to a name changes the scope itself, or is left to the scope around it. -/
theorem IsTree.assign?_walk (hh : h.IsTree) (s : ScopeId) (x : String) (v : Value) :
    h.assign? s x v =
      if h.binds s x then some (h.declare s x v) else (h.parent? s).bind (h.assign? · x v) := by
  rw [assign?, hh.owner?_walk]
  cases h.binds s x with
  | true => rfl
  | false => cases h.parent? s <;> rfl

/-- Removing a name changes the scope itself, or is left to the scope around it. -/
theorem IsTree.remove?_walk (hh : h.IsTree) (s : ScopeId) (x : String) :
    h.remove? s x =
      match h.own? s x with
      | some w => some (w, h.undeclare s x)
      | none => (h.parent? s).bind (h.remove? · x) := by
  rw [remove?, hh.owner?_walk, binds_eq_isSome]
  cases hown : h.own? s x with
  | some w =>
    change (h.own? s x).map _ = _
    rw [hown]
    rfl
  | none => cases h.parent? s <;> rfl

/-! ## Where a name is looked for -/

/-- From the scope `t`, the name is looked for in `o`: that is where the walk outwards comes to
without having met a binding. -/
def LooksIn (h : Heap) (t o : ScopeId) (x : String) : Prop :=
  ∃ before after, h.chain t = before ++ o :: after ∧ ∀ u ∈ before, h.own? u x = none

theorem owner?_eq_some_iff : h.owner? t x = some o ↔ h.LooksIn t o x ∧ (h.own? o x).isSome := by
  rw [owner?, List.find?_eq_some_iff_append, and_comm]
  simp only [binds_eq_isSome, LooksIn, Bool.not_eq_true', Option.isSome_eq_false_iff,
    Option.isNone_iff_eq_none]

/-- The heap `h'` binds `x` in the scope `o` as `b` says, and nothing else is changed. -/
structure Rebinds (h : Heap) (o : ScopeId) (x : String) (b : Option Value) (h' : Heap) :
    Prop where
  own (t : ScopeId) (y : String) : h'.own? t y = if t = o ∧ y = x then b else h.own? t y
  outer (t : ScopeId) : (h'.scope t).outer = (h.scope t).outer
  stack (t : ScopeId) : h'.stack t = h.stack t
  nextScope : h'.nextScope = h.nextScope

theorem rebinds_declare (ho : o < h.nextScope) (x : String) (v : Value) :
    h.Rebinds o x (some v) (h.declare o x v) where
  own t y := by
    rw [own?_declare]
    refine if_congr ⟨?_, ?_⟩ rfl rfl
    · rintro ⟨rfl, -, rfl⟩
      exact ⟨rfl, rfl⟩
    · rintro ⟨rfl, rfl⟩
      exact ⟨rfl, ho, rfl⟩
  outer t := by
    rw [Heap.declare, scope_modify]
    split <;> rfl
  stack t := stack_declare h o t x v
  nextScope := nextScope_declare h o x v

theorem IsTree.rebinds_undeclare (hh : h.IsTree) (o : ScopeId) (x : String) :
    h.Rebinds o x none (h.undeclare o x) where
  own t y := by
    rw [own?_undeclare (hh.distinct t)]
    exact if_congr (and_congr eq_comm eq_comm) rfl rfl
  outer t := by
    rw [Heap.undeclare, scope_modify]
    split <;> rfl
  stack t := stack_undeclare h o t x
  nextScope := nextScope_undeclare h o x

namespace Rebinds

variable {b : Option Value} (hr : h.Rebinds o x b h')

include hr

theorem chain_eq (t : ScopeId) : h'.chain t = h.chain t := by
  rw [chain, chain, hr.outer]

theorem own_of_ne {u : ScopeId} (hu : u ≠ o) (y : String) : h'.own? u y = h.own? u y := by
  rw [hr.own, if_neg fun heq ↦ hu heq.1]

theorem lookup_of_ne (hne : y ≠ x) (t : ScopeId) : h'.lookup t y = h.lookup t y := by
  refine lookup_eq_of_own? (hr.outer t) fun u ↦ ?_
  rw [hr.own, if_neg fun heq ↦ hne heq.2]

/-- Where the name is looked for in the scope that was changed, the change is seen. -/
theorem lookup_of_looksIn (hh : h.IsTree) (ht : h.LooksIn t o x) :
    h'.lookup t x = b.or ((h.parent? o).bind (h.lookup · x)) := by
  obtain ⟨before, after, hchain, hbefore⟩ := ht
  have hafter := (List.cons.inj (hh.chain_of_append hchain)).2
  have hnone : before.findSome? (h'.own? · x) = none := by
    refine List.findSome?_eq_none_iff.mpr fun u hu ↦ ?_
    rw [hr.own_of_ne (ne_of_mem_of_not_mem hu (hh.not_mem_before hchain)), hbefore u hu]
  have houter : after.findSome? (h'.own? · x) = (h.parent? o).bind (h.lookup · x) := by
    rw [← hh.findSome?_outer, hafter]
    refine findSome?_own?_congr fun u hu ↦ ?_
    rw [← hafter] at hu
    exact hr.own_of_ne (Nat.ne_of_lt (hh.lt_of_mem_outer hu)) x
  rw [lookup_eq_findSome?, hr.chain_eq, hchain, List.findSome?_append, hnone, Option.none_or,
    List.findSome?_cons, houter, hr.own, if_pos ⟨rfl, rfl⟩]
  cases b <;> rfl

/-- Where the name is not looked for in that scope, it is not. -/
theorem lookup_of_not_looksIn (hh : h.IsTree) (ht : ¬h.LooksIn t o x) :
    h'.lookup t x = h.lookup t x := by
  rw [lookup_eq_findSome?, lookup_eq_findSome?, hr.chain_eq]
  by_cases ho : o ∈ h.chain t
  · -- a binding is met before the scope that was changed
    obtain ⟨before, after, hchain⟩ := List.append_of_mem ho
    have hbefore : before.findSome? (h'.own? · x) = before.findSome? (h.own? · x) :=
      findSome?_own?_congr fun u hu ↦
        hr.own_of_ne (ne_of_mem_of_not_mem hu (hh.not_mem_before hchain)) x
    have hsome : before.findSome? (h.own? · x) ≠ none := fun hnone ↦
      ht ⟨before, after, hchain, List.findSome?_eq_none_iff.mp hnone⟩
    obtain ⟨w, hw⟩ := Option.ne_none_iff_exists'.mp hsome
    rw [hchain, List.findSome?_append, List.findSome?_append, hbefore, hw]
    rfl
  · exact findSome?_own?_congr fun u hu ↦ hr.own_of_ne (ne_of_mem_of_not_mem hu ho) x

end Rebinds

/-- After a change in the scope that a name belongs to, for some scopes, the name means something
else from these scopes only. -/
theorem Rebinds.lookup_owner {b : Option Value} (hr : h.Rebinds o x b h') (hh : h.IsTree)
    (ho : (h.own? o x).isSome) (t : ScopeId) (y : String) :
    h'.lookup t y =
      if y = x ∧ h.owner? t x = some o then b.or ((h.parent? o).bind (h.lookup · x))
      else h.lookup t y := by
  by_cases hy : y = x
  · subst hy
    by_cases ht : h.LooksIn t o y
    · rw [if_pos ⟨rfl, owner?_eq_some_iff.mpr ⟨ht, ho⟩⟩, hr.lookup_of_looksIn hh ht]
    · rw [if_neg fun heq ↦ ht (owner?_eq_some_iff.mp heq.2).1, hr.lookup_of_not_looksIn hh ht]
  · rw [if_neg fun heq ↦ hy heq.1, hr.lookup_of_ne hy]

/-! ## Names are resolved coherently -/

/-- **Names are resolved coherently**, from every scope of every tree of scopes. Looking up,
assigning and removing walk outwards in the same way. Assigning finds a binding where looking up
does, and changes that very binding and no other, so exactly the scopes to which the name belonged
there see the new value. Removing gives what looking up gave and takes away that very binding; what
is found then is what is bound further out. Binding a name in a scope changes what it means in this
scope and in those inside of it that have no binding of their own in between. An operation that
finds nothing changes nothing. -/
theorem names_coherent {h : Heap} (hh : h.Reached) {s : ScopeId} (hs : s < h.nextScope)
    (x : String) (v : Value) :
    (h.lookup s x = (h.own? s x).or ((h.parent? s).bind (h.lookup · x)) ∧
      h.assign? s x v =
        (if h.binds s x then some (h.declare s x v) else (h.parent? s).bind (h.assign? · x v)) ∧
      h.remove? s x =
        match h.own? s x with
        | some w => some (w, h.undeclare s x)
        | none => (h.parent? s).bind (h.remove? · x)) ∧
    ((h.assign? s x v).isSome = (h.lookup s x).isSome ∧
      ∀ h', h.assign? s x v = some h' → ∃ o, h.owner? s x = some o ∧ h.own? o x = h.lookup s x ∧
        h.Rebinds o x (some v) h' ∧
        ∀ t y, h'.lookup t y =
          if y = x ∧ h.owner? t x = some o then some v else h.lookup t y) ∧
    ((h.remove? s x).map (·.1) = h.lookup s x ∧
      ∀ w h', h.remove? s x = some (w, h') → ∃ o, h.owner? s x = some o ∧
        h.Rebinds o x none h' ∧
        ∀ t y, h'.lookup t y =
          if y = x ∧ h.owner? t x = some o then (h.parent? o).bind (h.lookup · x)
          else h.lookup t y) ∧
    (h.Rebinds s x (some v) (h.declare s x v) ∧
      (∀ t, h.LooksIn t s x → (h.declare s x v).lookup t x = some v) ∧
      ∀ t y, (y = x → ¬h.LooksIn t s x) → (h.declare s x v).lookup t y = h.lookup t y) ∧
    ∀ m : Machine, m.heap = h →
      (Exec.assign s x v m =
        match h.assign? s x v with
        | some h' => .ok true { m with heap := h' }
        | none => .ok false m) ∧
      Exec.remove s x m =
        match h.remove? s x with
        | some (_, h') => .ok () { m with heap := h' }
        | none => .error (.error (.undefined x)) m := by
  have htree := hh.isTree
  refine ⟨⟨htree.lookup_walk s x, htree.assign?_walk s x v, htree.remove?_walk s x⟩,
    ⟨?_, fun h' hassign ↦ ?_⟩, ⟨?_, fun w h' hremove ↦ ?_⟩, ⟨rebinds_declare hs x v, ?_, ?_⟩,
    ?_⟩
  · rw [isSome_lookup, assign?, Option.isSome_map]
  · obtain ⟨o, ho, rfl⟩ := Option.map_eq_some_iff.mp hassign
    have hown := (owner?_eq_some_iff.mp ho).2
    obtain ⟨w, hw⟩ := Option.isSome_iff_exists.mp hown
    have hr := rebinds_declare (lt_of_own? hw) x v
    exact ⟨o, ho, (lookup_of_owner? ho).symm, hr, hr.lookup_owner htree hown⟩
  · cases ho : h.owner? s x with
    | none => rw [remove?, lookup, ho]; rfl
    | some o =>
      rw [remove?, ho, lookup_of_owner? ho, own?]
      exact Option.map_map .. |>.trans (Option.map_id' ..)
  · obtain ⟨o, ho, -, rfl⟩ := remove?_eq_some_iff.mp hremove
    have hr := htree.rebinds_undeclare o x
    exact ⟨o, ho, hr, hr.lookup_owner htree (owner?_eq_some_iff.mp ho).2⟩
  · exact fun t ht ↦ (rebinds_declare hs x v).lookup_of_looksIn htree ht
  · intro t y ht
    by_cases hy : y = x
    · subst hy
      exact (rebinds_declare hs y v).lookup_of_not_looksIn htree (ht rfl)
    · exact (rebinds_declare hs x v).lookup_of_ne hy t
  · rintro m rfl
    constructor
    · rw [Exec.assign, assign?]
      cases m.heap.owner? s x <;> rfl
    · cases ho : m.heap.owner? s x with
      | none => rw [Exec.remove, remove?, ho]
      | some o =>
        obtain ⟨w, hw⟩ := Option.isSome_iff_exists.mp (owner?_eq_some_iff.mp ho).2
        rw [Exec.remove, ho, remove?_eq_some_iff.mpr ⟨o, ho, hw, rfl⟩]

/-- The outermost scope binds the name, and so does one of the scopes inside of the one that assigns
to it. That scope keeps its own; a scope beside it sees the new value. -/
theorem names_coherent_shadowed :
    ∃ h h' : Heap, h.Reached ∧ 1 < h.nextScope ∧ h.assign? 1 "x" (.bool true) = some h' ∧
      h.parent? 1 = some 0 ∧ h.parent? 2 = some 1 ∧ h.parent? 3 = some 0 ∧
      h'.lookup 1 "x" = some (.bool true) ∧ h'.lookup 2 "x" = some .null ∧
      h'.lookup 3 "x" = some (.bool true) := by
  let tree := ((initial.addChild 0).addChild 1).addChild 0
  let h := (tree.declare 0 "x" (.bool false)).declare 2 "x" .null
  have htree : tree.Reached := by
    refine .addChild (.addChild (.addChild .initial ?_) ?_) ?_ <;> decide
  have hh : h.Reached := (htree.declare 0 "x" (.bool false)).declare 2 "x" .null
  obtain ⟨-, ⟨-, hchanged⟩, -⟩ := names_coherent hh (s := 1) (by decide) "x" (.bool true)
  obtain ⟨o, ho, -, -, hlookup⟩ := hchanged _ rfl
  have howner : h.owner? 1 "x" = some 0 := by decide
  obtain rfl := Option.some.inj (howner.symm.trans ho)
  refine ⟨h, _, hh, by decide, rfl, by decide, by decide, by decide, ?_, ?_, ?_⟩
  · rw [hlookup, if_pos (by decide)]
  · rw [hlookup, if_neg (by decide)]
    rfl
  · rw [hlookup, if_pos (by decide)]

end Heap

end GemLang
