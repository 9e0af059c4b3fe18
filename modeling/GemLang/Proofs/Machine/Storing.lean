import GemLang.Proofs.Machine.Passes
import GemLang.Proofs.Table.Path
import GemLang.Proofs.Table.Reported

/-!
# Assigning along a path

The keys of the target of an assignment are computed last one first, above the value, so the first
one is on top when the table is stored in. What the assignment does then is what storing along the
path of keys does to the table (`assign_path`), and the variable is bound to the new table in the
scope that owns it. Nothing is bound before the storing has gone well.

Expressions may be anything without an effect, calls included: as long as the bindings are what they
are now, such an expression comes to its value and leaves all bindings as they are
(`Machine.Means`). They are given room on the stack.
-/

namespace GemLang

open Bytecode
open Behavior (code)
open Exec

/-! ## Machines with the same bindings -/

/-- A machine that may come later in a run, as deep in calls, with the bindings that there were in
all scopes, those in and around the scope `s` among them. -/
structure Machine.Alike (s : ScopeId) (m m' : Machine) : Prop extends Machine.Later m m' where
  own {u : ScopeId} (hu : u ∈ m.heap.chain s ∨ u < m.heap.nextScope) (name : String) :
    m'.heap.own? u name = m.heap.own? u name
  callDepth : m'.callDepth = m.callDepth

namespace Machine.Alike

variable {s : ScopeId} {m m' m'' : Machine}

theorem refl (m : Machine) : m.Alike s m := ⟨.refl m, fun _ _ ↦ rfl, rfl⟩

theorem chain (h : m.Alike s m') (hs : s < m.heap.nextScope) :
    m'.heap.chain s = m.heap.chain s := by
  rw [Heap.chain, Heap.chain, h.outer hs]

theorem trans (h : m.Alike s m') (h' : m'.Alike s m'') (hs : s < m.heap.nextScope) :
    m.Alike s m'' where
  toLater := h.toLater.trans h'.toLater
  own {u} hu name := by
    have hu' : u ∈ m'.heap.chain s ∨ u < m'.heap.nextScope :=
      hu.imp (fun hu ↦ h.chain hs ▸ hu) fun hu ↦ hu.trans_le h.nextScope
    exact (h'.own hu' name).trans (h.own hu name)
  callDepth := h'.callDepth.trans h.callDepth

theorem withStack (m : Machine) (vs : List Value) : m.Alike s (m.withStack s vs) where
  toLater := .setStack m s vs
  own _ _ := Heap.own?_setStack ..
  callDepth := rfl

theorem owner? (h : m.Alike s m') (hs : s < m.heap.nextScope) (name : String) :
    m'.heap.owner? s name = m.heap.owner? s name := by
  rw [Heap.owner?, Heap.owner?, h.chain hs]
  refine List.find?_congr fun u hu ↦ ?_
  rw [Heap.binds_eq_isSome, Heap.binds_eq_isSome, h.own (.inl hu)]

theorem lookup (h : m.Alike s m') (hs : s < m.heap.nextScope) (name : String) :
    m'.heap.lookup s name = m.heap.lookup s name := by
  rw [Heap.lookup, Heap.lookup, h.owner? hs]
  cases ho : m.heap.owner? s name with
  | none => rfl
  | some o => exact h.own (.inl (List.mem_of_find?_eq_some ho)) name

end Machine.Alike

/-- A scope that binds a name, or has one around it that does, is there. -/
theorem Heap.lt_of_owner? {h : Heap} {s o : ScopeId} {name : String}
    (ho : h.owner? s name = some o) : s < h.nextScope := by
  refine Nat.lt_of_not_le fun hle ↦ ?_
  have hscope : h.scope s = Scope.empty [] := by
    rw [scope, Array.getD_eq_getD_getElem?, Array.getElem?_eq_none hle, Option.getD_none]
  have hnone : h.owner? s name = none := by
    rw [owner?, chain, hscope]
    simp [Scope.empty, binds_eq_isSome, own?_eq_none_of_le hle]
  rw [hnone] at ho
  cases ho

/-! ## Expressions without an effect -/

/-- In the scope `s`, and as long as the bindings are those of `m`, the expression `e` has the value
`v` and no effect, if there is so much room on the stack. -/
def Machine.Means (m : Machine) (optimize : Bool) (s : ScopeId) (room : Nat) (e : Expr)
    (v : Value) : Prop :=
  ∀ m', m.Alike s m' → m'.heap.depth s + room ≤ m'.config.maxStack → ∀ n position,
    ∃ m'', code s ⟨position, codeOf (Lower.expr optimize e n).1⟩ m' (.ok none m'') ∧
      m'.Alike s m'' ∧ m''.heap.stack s = v :: m'.heap.stack s

/-- The keys that the expressions of a path stand for. -/
def Machine.MeansKeys (m : Machine) (optimize : Bool) (s : ScopeId) (room : Nat)
    (path : List (Expr × Bool)) (keys : List Key) : Prop :=
  List.Forall₂ (fun e key ↦ ∃ u, m.Means optimize s room e.1 u ∧ u.toKey = .ok key) path keys

theorem Machine.MeansKeys.self {m : Machine} {optimize : Bool} {s : ScopeId} {room : Nat}
    {path : List (Expr × Bool)} {keys : List Key} (h : m.MeansKeys optimize s room path keys) :
    ∀ key ∈ keys, (key == key) = true := by
  induction h with
  | nil => exact nofun
  | cons hkey _ ih =>
    obtain ⟨u, -, hu⟩ := hkey
    have hself := Key.beq_self_iff.mpr (Value.isNormal_of_toKey hu).isProper.isNaN
    exact List.forall_mem_cons.mpr ⟨hself, ih⟩

/-- The expression that reads what is at the end of a path from a variable. -/
def access (x : String) (path : List (Expr × Bool)) : Expr :=
  path.foldl (fun object e ↦ .member object e.1 e.2) (.name x)

section

variable {m m' : Machine} {optimize : Bool} {s : ScopeId} {room room' : Nat} {e : Expr} {v : Value}

theorem Machine.Means.mono (h : m.Means optimize s room e v) (hle : room ≤ room') :
    m.Means optimize s room' e v :=
  fun m' hm' hroom ↦ h m' hm' (by omega)

theorem means_name (hs : s < m.heap.nextScope) {x : String} {o : ScopeId}
    (ho : m.heap.owner? s x = some o) (hv : m.heap.own? o x = some v) :
    m.Means optimize s 1 (.name x) v := by
  intro m' hm' hroom n position
  have hlookup : m'.heap.lookup s x = some v := by
    rw [hm'.lookup hs, Heap.lookup_of_owner? ho, hv]
  have hload : perform s .loadLocal [x] m' = .ok () (m'.withStack s (v :: m'.heap.stack s)) := by
    rw [perform_loadLocal hlookup, push, if_pos (by omega), Heap.push_eq_setStack]
    rfl
  refine ⟨_, code_of_perform .loadLocal [x] rfl rfl hload position, .withStack _ _, ?_⟩
  exact Heap.stack_setStack_self (hs.trans_le hm'.nextScope) _

/-- The expressions whose values can be told from what names mean are without an effect. -/
theorem means_direct (hs : s < m.heap.nextScope) (hbool : m.KnowsBools s)
    (he : Simple.expr false e = true) (hv : Direct.expr (m.heap.lookup s) e = .ok v)
    (hheight : Direct.height e ≤ room) : m.Means false s room e v := by
  intro m' hm' hroom n position
  have hlookup : m'.heap.lookup s = m.heap.lookup s := funext fun name ↦ hm'.lookup hs name
  have hbool' : m'.KnowsBools s := fun value ↦ by rw [hlookup, hbool value]
  have hs' : s < m'.heap.nextScope := hs.trans_le hm'.nextScope
  have hpeak : (m'.heap.stack s).length + Direct.height e ≤ m'.config.maxStack :=
    (Nat.add_le_add_left hheight _).trans hroom
  have hcomputes := computes_expr hs' hbool' e he hpeak n position
  rw [hlookup, hv] at hcomputes
  replace hcomputes : Computes _ s m' _ _ (.ok (v :: m'.heap.stack s)) := hcomputes
  cases hcomputes with
  | passed _ hcode =>
    rw [withStack_stack] at hcode
    exact ⟨_, hcode, .withStack m' _, Heap.stack_setStack_self hs' _⟩
  | overflow hover => exact absurd hover (Nat.lt_irrefl _)

theorem lines_member (object property : Expr) (computed : Bool) (n : Nat) :
    (Lower.expr optimize (.member object property computed) n).1 =
      (Lower.expr optimize object n).1 ++
        ((Lower.expr optimize property (Lower.expr optimize object n).2).1 ++ bare .loadKey) := by
  rw [← List.append_assoc, Lower.expr]
  rfl

theorem Machine.Means.member (hs : s < m.heap.nextScope) {object property : Expr} {t : Table}
    {u : Value} {key : Key} (hobject : m.Means optimize s room object (.table t))
    (hproperty : m.Means optimize s room' property u) (hkey : u.toKey = .ok key)
    (hget : Assoc.get? t key = some v) (computed : Bool) :
    m.Means optimize s (max room (1 + room')) (.member object property computed) v := by
  intro m₀ hm₀ hroom n position
  have hs₀ : s < m₀.heap.nextScope := hs.trans_le hm₀.nextScope
  obtain ⟨m₁, hcode₁, hm₁, hstack₁⟩ := hobject m₀ hm₀ (by omega) n position
  have hs₁ : s < m₁.heap.nextScope := hs₀.trans_le hm₁.nextScope
  have hdepth₁ : m₁.heap.depth s = m₀.heap.depth s + 1 := by
    rw [Heap.depth, hstack₁, List.length_cons, Heap.depth]
  have hroom₁ : m₁.heap.depth s + room' ≤ m₁.config.maxStack := by
    rw [hdepth₁, hm₁.config]
    omega
  obtain ⟨m₂, hcode₂, hm₂, hstack₂⟩ := hproperty m₁ (hm₀.trans hm₁ hs) hroom₁
    (Lower.expr optimize object n).2 (position + (codeOf (Lower.expr optimize object n).1).length)
  have hread : perform s .loadKey [] m₂ = .ok () (m₂.withStack s (v :: m₀.heap.stack s)) := by
    have hroom₂ : (m₀.heap.stack s).length < m₂.config.maxStack := by
      rw [hm₂.config, hm₁.config, ← Heap.depth]
      have hle := hroom
      omega
    have hload := loadKey_withStack (hs₁.trans_le hm₂.nextScope) hroom₂ hkey hget
    rw [← hstack₁, ← hstack₂, withStack_stack] at hload
    exact hload
  have hnested := Structured.nested_expr optimize property (Lower.expr optimize object n).2
  rw [lines_member, Structured.code_lines_append (Structured.nested_expr optimize object n)
    (hnested.append (Structured.nested_bare .loadKey)),
    Structured.code_lines_append hnested (Structured.nested_bare .loadKey)]
  refine ⟨_, .passed hcode₁ (.passed hcode₂ (code_of_perform .loadKey [] rfl rfl hread _)), ?_, ?_⟩
  · exact (hm₁.trans hm₂ hs₀).trans (.withStack m₂ _) hs₀
  · exact Heap.stack_setStack_self (hs₁.trans_le hm₂.nextScope) _

/-- **Reading along a path** gives what the path leads to. -/
theorem means_access (hs : s < m.heap.nextScope) {path : List (Expr × Bool)} {keys : List Key}
    (hpath : m.MeansKeys optimize s room path keys) {object : Expr} {w : Value}
    (hobject : m.Means optimize s (1 + room) object w) (hfollow : w.follow? keys = some v) :
    m.Means optimize s (1 + room)
      (path.foldl (fun object e ↦ .member object e.1 e.2) object) v := by
  -- reading starts at the first key, so it is what is read from that changes
  induction hpath generalizing object w with
  | nil =>
    obtain rfl := Option.some.inj hfollow
    exact hobject
  | @cons e key path keys hkey _ ih =>
    obtain ⟨u, hu, hkey⟩ := hkey
    cases w with
    | table t =>
      rw [Value.follow?_table, Option.bind_eq_some_iff] at hfollow
      obtain ⟨w', hget, hfollow⟩ := hfollow
      have hmember := hobject.member hs hu hkey hget e.2
      rw [max_self] at hmember
      exact ih hmember hfollow
    | _ => cases hfollow

end

/-! ## Storing -/

section

variable {m : Machine} {s : ScopeId} (hs : s < m.heap.nextScope) (vs : List Value)
include hs

theorem popKeys_withStack {us : List Value} {keys : List Key}
    (h : List.Forall₂ (fun (u : Value) key ↦ u.toKey = .ok key) us keys) :
    popKeys s keys.length (m.withStack s (us ++ vs)) = .ok keys (m.withStack s vs) := by
  induction h with
  | nil => rfl
  | @cons u key us keys hkey _ ih =>
    have hpop : popKey s (m.withStack s (u :: (us ++ vs))) =
        .ok key (m.withStack s (us ++ vs)) := by
      rw [popKey, bind_apply, pop_withStack hs]
      change checkType u.toKey _ = _
      rw [hkey]
      rfl
    rw [List.length_cons, List.cons_append, popKeys, bind_apply, hpop]
    change (popKeys s keys.length >>= _) _ = _
    rw [bind_apply, ih]
    rfl

/-- Everything is off the stack when the table is stored in. -/
theorem perform_storePath {us : List Value} {keys : List Key}
    (h : List.Forall₂ (fun (u : Value) key ↦ u.toKey = .ok key) us keys)
    (hcount : keys.length < UInt64.size) (t : Table) (v : Value) :
    perform s .storePath [toString keys.length] (m.withStack s (.table t :: (us ++ v :: vs))) =
      (check (Table.storePath t keys v) >>= fun t' ↦ push s (.table t')) (m.withStack s vs) := by
  have hpop : popTable s (m.withStack s (.table t :: (us ++ v :: vs))) =
      .ok t (m.withStack s (us ++ v :: vs)) := by
    rw [popTable, bind_apply, pop_withStack hs]
    rfl
  change storePath s (toString keys.length) _ = _
  rw [storePath, keyCount?_toString, if_pos hcount]
  change (popTable s >>= _) _ = _
  rw [bind_apply, hpop]
  change (popKeys s keys.length >>= _) _ = _
  rw [bind_apply, popKeys_withStack hs _ h]
  change (pop s >>= _) _ = _
  rw [bind_apply, pop_withStack hs]

end

section

variable {m : Machine} {optimize : Bool} {s : ScopeId} {room : Nat}

theorem nested_path (optimize : Bool) (path : List (Expr × Bool)) (n : Nat) :
    Structured.NestedLines .whole (Lower.path optimize path n).1 :=
  Structured.nested_of_shaped ((Lower.shaped_path optimize (t := false) path (by simp)).run n)

/-- The keys of a path are computed, the first one last. -/
theorem code_path (hs : s < m.heap.nextScope) {path : List (Expr × Bool)} {keys : List Key}
    (hpath : m.MeansKeys optimize s room path keys) {m₀ : Machine} (hm₀ : m.Alike s m₀)
    (hroom : m₀.heap.depth s + path.length + room ≤ m₀.config.maxStack + 1) (n position : Nat) :
    ∃ us m₁, code s ⟨position, codeOf (Lower.path optimize path n).1⟩ m₀ (.ok none m₁) ∧
      m₀.Alike s m₁ ∧ m₁.heap.stack s = us ++ m₀.heap.stack s ∧
      List.Forall₂ (fun (u : Value) key ↦ u.toKey = .ok key) us keys := by
  induction hpath generalizing n position with
  | nil =>
    refine ⟨[], m₀, ?_, .refl m₀, rfl, .nil⟩
    exact Behavior.code_nil s position ▸ rfl
  | @cons e key path keys hkey hpath ih =>
    obtain ⟨u, hu, hkey⟩ := hkey
    rw [List.length_cons] at hroom
    -- the keys behind this one are computed before it
    obtain ⟨us, m₁, hcode₁, hm₁, hstack₁, hus⟩ := ih (by omega) n position
    have hlength : us.length = path.length := hus.length_eq.trans hpath.length_eq.symm
    have hroom₁ : m₁.heap.depth s + room ≤ m₁.config.maxStack := by
      rw [hm₁.config, Heap.depth, hstack₁, List.length_append, hlength, ← Heap.depth]
      omega
    obtain ⟨m₂, hcode₂, hm₂, hstack₂⟩ := hu m₁ (hm₀.trans hm₁ hs) hroom₁
      (Lower.path optimize path n).2 (position + (codeOf (Lower.path optimize path n).1).length)
    have hlines : (Lower.path optimize (e :: path) n).1 = (Lower.path optimize path n).1 ++
        (Lower.expr optimize e.1 (Lower.path optimize path n).2).1 := rfl
    refine ⟨u :: us, m₂, ?_, hm₁.trans hm₂ (hs.trans_le hm₀.nextScope), ?_, .cons hkey hus⟩
    · rw [hlines, Structured.code_lines_append (nested_path optimize path n)
        (Structured.nested_expr optimize e.1 _)]
      exact .passed hcode₁ hcode₂
    · rw [hstack₂, hstack₁, List.cons_append]

/-- What has been computed when an assignment along a path stores its value: the value, the keys
above it, and the table on top. -/
theorem code_target {x : String} {o : ScopeId} {t : Table} {path : List (Expr × Bool)}
    {value : Expr} {keys : List Key} {v : Value} (ho : m.heap.owner? s x = some o)
    (ht : m.heap.own? o x = some (.table t)) (hpath : m.MeansKeys optimize s room path keys)
    (hvalue : m.Means optimize s room value v)
    (hroom : m.heap.depth s + path.length + max room 2 ≤ m.config.maxStack) (n position : Nat) :
    ∃ us m₁, code s ⟨position, codeOf ((Lower.expr optimize value n).1 ++
        ((Lower.path optimize path (Lower.expr optimize value n).2).1 ++ unary .loadLocal x))⟩ m
        (.ok none m₁) ∧ m.Alike s m₁ ∧
      m₁.heap.stack s = .table t :: (us ++ v :: m.heap.stack s) ∧
      List.Forall₂ (fun (u : Value) key ↦ u.toKey = .ok key) us keys := by
  have hs := Heap.lt_of_owner? ho
  obtain ⟨m₁, hcode₁, hm₁, hstack₁⟩ := hvalue m (.refl m) (by omega) n position
  have hdepth₁ : m₁.heap.depth s = m.heap.depth s + 1 := by
    rw [Heap.depth, hstack₁, List.length_cons, Heap.depth]
  have hroom₁ : m₁.heap.depth s + path.length + room ≤ m₁.config.maxStack + 1 := by
    rw [hdepth₁, hm₁.config]
    omega
  obtain ⟨us, m₂, hcode₂, hm₂, hstack₂, hus⟩ := code_path hs hpath hm₁ hroom₁
    (Lower.expr optimize value n).2 (position + (codeOf (Lower.expr optimize value n).1).length)
  have hm := hm₁.trans hm₂ hs
  have hlength : us.length = path.length := hus.length_eq.trans hpath.length_eq.symm
  have hroom₂ : m₂.heap.depth s + 1 ≤ m₂.config.maxStack := by
    rw [hm.config, Heap.depth, hstack₂, List.length_append, hlength, ← Heap.depth, hdepth₁]
    omega
  have hname : m.Means optimize s 1 (.name x) (.table t) := means_name hs ho ht
  obtain ⟨m₃, hcode₃, hm₃, hstack₃⟩ := hname m₂ hm hroom₂ 0
    (position + (codeOf (Lower.expr optimize value n).1).length +
      (codeOf (Lower.path optimize path (Lower.expr optimize value n).2).1).length)
  have hnested := nested_path optimize path (Lower.expr optimize value n).2
  have hload := Structured.nested_unary .loadLocal x
  refine ⟨us, m₃, ?_, hm.trans hm₃ hs, ?_, hus⟩
  · rw [Structured.code_lines_append (Structured.nested_expr optimize value n)
      (hnested.append hload), Structured.code_lines_append hnested hload]
    exact .passed hcode₁ (.passed hcode₂ hcode₃)
  · rw [hstack₃, hstack₂, hstack₁]

end

/-! ## Assignments -/

/-- The scope `o` binds `x` to the table `t` in the machine `m'`, for the scope `s`. What else was
bound in the machine `m` is bound to the same, and the stack of `s` is as it was. -/
structure Machine.Rebound (s : ScopeId) (x : String) (o : ScopeId) (t : Table) (m m' : Machine) :
    Prop where
  owner : m'.heap.owner? s x = some o
  value : m'.heap.own? o x = some (.table t)
  other {u : ScopeId} {name : String} (hu : u ∈ m.heap.chain s ∨ u < m.heap.nextScope)
    (hne : u = o → name ≠ x) : m'.heap.own? u name = m.heap.own? u name
  stack : m'.heap.stack s = m.heap.stack s

/-- How an assignment of the value `v` along the path `keys` ends, where `x` is bound to the table
`t` in the scope `o`. It is refused if the path is blocked, and changes nothing then. Otherwise `x`
is bound to the table that has the value stored in it, and from that table the value is read,
whatever expressions without an effect stand for the keys. -/
inductive Machine.AssignEnds (m : Machine) (s : ScopeId) (x : String) (o : ScopeId) (t : Table)
    (keys : List Key) (v : Value) : Exec.Result (Option Signal) → Prop where
  | refused {fault : TypeFault} {m' : Machine} (hblocked : t.Blocked keys fault)
      (hsame : m.Rebound s x o t m') :
      AssignEnds m s x o t keys v (.error (.error (.type fault)) m')
  | stored {t' : Table} {m' : Machine} (hfree : ∀ fault, ¬t.Blocked keys fault)
      (hbound : m.Rebound s x o t' m') (hstored : t.Stored keys v t')
      (hread : ∀ optimize room path, m'.MeansKeys optimize s room path keys →
        m'.Means optimize s (1 + room) (access x path) v) :
      AssignEnds m s x o t keys v (.ok none m')

section

variable {m m' : Machine} {optimize : Bool} {s o : ScopeId} {x : String}

/-- Assigning to a name again leaves it to the same scope. -/
theorem Heap.owner?_declare {h : Heap} (ho : h.owner? s x = some o) (v : Value) :
    (h.declare o x v).owner? s x = some o := by
  have hchain : (h.declare o x v).chain s = h.chain s := by
    simp only [chain, declare, scope_modify]
    split <;> rfl
  have hbinds : h.binds o x = true := by
    simpa using List.find?_some ho
  rw [owner?, hchain, ← ho, owner?]
  refine List.find?_congr fun u hu ↦ ?_
  rw [binds_eq_isSome, binds_eq_isSome, own?_declare]
  split
  · next heq =>
    obtain ⟨rfl, -, -⟩ := heq
    exact hbinds.symm
  · rfl

theorem Machine.Alike.rebound {t : Table} (h : m.Alike s m') (ho : m.heap.owner? s x = some o)
    (ht : m.heap.own? o x = some (.table t)) (hstack : m'.heap.stack s = m.heap.stack s) :
    m.Rebound s x o t m' where
  owner := (h.owner? (Heap.lt_of_owner? ho) x).trans ho
  value := (h.own (.inl (List.mem_of_find?_eq_some ho)) x).trans ht
  other hu _ := h.own hu _
  stack := hstack

theorem Machine.Rebound.declare {t t' : Table} (h : m.Rebound s x o t m') :
    m.Rebound s x o t' { m' with heap := m'.heap.declare o x (.table t') } where
  owner := Heap.owner?_declare h.owner _
  value := Heap.own?_declare_self (Heap.lt_of_own? h.value) x _
  other {u name} hu hne := by
    change (m'.heap.declare o x (.table t')).own? u name = _
    rw [Heap.own?_declare, if_neg fun heq ↦ hne heq.1.symm heq.2.2.symm]
    exact h.other hu hne
  stack := (Heap.stack_declare ..).trans h.stack

theorem lines_assign {path : List (Expr × Bool)} (hpath : path ≠ []) (value : Expr) (n : Nat) :
    (Lower.stmt optimize (.assign x path value) n).1 =
      ((Lower.expr optimize value n).1 ++
        ((Lower.path optimize path (Lower.expr optimize value n).2).1 ++ unary .loadLocal x)) ++
      (unary .storePath (toString path.length) ++ unary .storeLocal x) := by
  have hdepth : path.length ≠ 0 := fun h ↦ hpath (List.length_eq_zero_iff.mp h)
  have hstore : Lower.storeLines x path.length =
      unary .loadLocal x ++ (unary .storePath (toString path.length) ++ unary .storeLocal x) := by
    rw [Lower.storeLines, if_neg hdepth, List.append_assoc]
  change (Lower.expr optimize value n).1 ++
    (Lower.path optimize path (Lower.expr optimize value n).2).1 ++
      Lower.storeLines x path.length = _
  rw [hstore]
  simp only [List.append_assoc]

theorem code_store (hs : s < m.heap.nextScope) {us vs : List Value} {keys : List Key} {t : Table}
    {v : Value} (hstack : m.heap.stack s = .table t :: (us ++ v :: vs))
    (hus : List.Forall₂ (fun (u : Value) key ↦ u.toKey = .ok key) us keys)
    (hcount : keys.length < UInt64.size) (hroom : vs.length < m.config.maxStack)
    (ho : m.heap.owner? s x = some o) (position : Nat) :
    code s ⟨position, codeOf (unary .storePath (toString keys.length) ++ unary .storeLocal x)⟩ m
      (match Table.storePath t keys v with
      | .error e => .error (.error e) (m.withStack s vs)
      | .ok t' => .ok none
        { m.withStack s vs with heap := (m.withStack s vs).heap.declare o x (.table t') }) := by
  have hperform := perform_storePath hs vs hus hcount t v
  rw [← hstack, withStack_stack] at hperform
  rw [Structured.code_lines_append (Structured.nested_unary .storePath (toString keys.length))
    (Structured.nested_unary .storeLocal x)]
  cases hresult : Table.storePath t keys v with
  | error e =>
    rw [hresult] at hperform
    exact .stopped (code_of_perform_error .storePath _ rfl rfl hperform _)
  | ok t' =>
    rw [hresult] at hperform
    have hpush : perform s .storePath [toString keys.length] m =
        .ok () (m.withStack s (.table t' :: vs)) := by
      refine hperform.trans ?_
      change push s (.table t') _ = _
      rw [push_withStack hs, if_pos hroom]
    have hbind := perform_storeLocal (m := m.withStack s (.table t' :: vs)) (x := x)
      (Heap.stack_setStack_self hs _) ((Heap.owner?_setStack ..).trans ho)
    have hheap : (m.withStack s (.table t' :: vs)).heap.setStack s vs =
        (m.withStack s vs).heap := Heap.setStack_setStack ..
    rw [hheap] at hbind
    exact .passed (code_of_perform .storePath _ rfl rfl hpush _)
      (code_of_perform .storeLocal [x] rfl rfl hbind _)

section

variable {path : List (Expr × Bool)} {value : Expr} {keys : List Key} {t : Table} {v : Value}
  {room : Nat} (ho : m.heap.owner? s x = some o) (ht : m.heap.own? o x = some (.table t))
  (hpath : path ≠ []) (hcount : path.length < UInt64.size)
  (hkeys : m.MeansKeys optimize s room path keys) (hvalue : m.Means optimize s room value v)
  (hroom : m.heap.depth s + path.length + max room 2 ≤ m.config.maxStack) (n position : Nat)
include ho ht hpath hcount hkeys hvalue hroom

/-- An assignment along a path stores along the keys, once everything has been computed. -/
theorem code_assign : ∃ m', m.Rebound s x o t m' ∧
    code s ⟨position, codeOf (Lower.stmt optimize (.assign x path value) n).1⟩ m
      (match Table.storePath t keys v with
      | .error e => .error (.error e) m'
      | .ok t' => .ok none { m' with heap := m'.heap.declare o x (.table t') }) := by
  have hs := Heap.lt_of_owner? ho
  have hlength : path.length = keys.length := hkeys.length_eq
  obtain ⟨us, m₁, hcode₁, hm₁, hstack₁, hus⟩ := code_target ho ht hkeys hvalue hroom n position
  have hs₁ : s < m₁.heap.nextScope := hs.trans_le hm₁.nextScope
  have hfits : (m.heap.stack s).length < m₁.config.maxStack := by
    rw [hm₁.config, ← Heap.depth]
    omega
  have hcode₂ := code_store hs₁ hstack₁ hus (hlength ▸ hcount) hfits ((hm₁.owner? hs x).trans ho)
  have htarget := (Structured.nested_expr optimize value n).append
    ((nested_path optimize path (Lower.expr optimize value n).2).append
      (Structured.nested_unary .loadLocal x))
  have hstore := (Structured.nested_unary .storePath (toString path.length)).append
    (Structured.nested_unary .storeLocal x)
  refine ⟨m₁.withStack s (m.heap.stack s), ?_, ?_⟩
  · exact (hm₁.trans (.withStack m₁ _) hs).rebound ho ht (Heap.stack_setStack_self hs₁ _)
  · rw [lines_assign hpath, Structured.code_lines_append htarget hstore, hlength]
    exact .passed hcode₁ (hcode₂ _)

/-- **Assigning along a path stores the value where reading finds it, and nowhere else.** There is
one way in which the assignment ends. The length of a path is a machine word. -/
theorem assign_path : ∃ r,
    (∀ r', code s ⟨position, codeOf (Lower.stmt optimize (.assign x path value) n).1⟩ m r' ↔
      r' = r) ∧ m.AssignEnds s x o t keys v r := by
  have hne : keys ≠ [] := by
    rintro rfl
    exact hpath (List.length_eq_zero_iff.mp hkeys.length_eq)
  obtain ⟨m', hsame, hcode⟩ := code_assign ho ht hpath hcount hkeys hvalue hroom n position
  refine ⟨_, fun r' ↦ ⟨fun hcode' ↦ Behavior.code_unique hcode' hcode, ?_⟩, ?_⟩
  · rintro rfl
    exact hcode
  · cases hresult : Table.storePath t keys v with
    | error e =>
      obtain ⟨fault, hblocked, rfl⟩ := (Table.storePath_eq_error_iff hne).mp hresult
      exact .refused hblocked hsame
    | ok t' =>
      -- the variable is bound last, so nothing of the storing is seen where it fails
      have hbound : m.Rebound s x o t' { m' with heap := m'.heap.declare o x (.table t') } :=
        hsame.declare
      have hstored := Table.stored_of_storePath hkeys.self hresult
      refine .stored (fun fault hblocked ↦ ?_) hbound hstored fun optimize' room' path' hpath' ↦ ?_
      · have herror : Table.storePath t keys v = .error (.type fault) :=
          (Table.storePath_eq_error_iff hne).mpr ⟨fault, hblocked, rfl⟩
        exact nomatch hresult.symm.trans herror
      · have hs := Heap.lt_of_owner? hbound.owner
        have hname : Machine.Means _ optimize' s 1 (.name x) (.table t') :=
          means_name hs hbound.owner hbound.value
        exact means_access hs hpath' (hname.mono (Nat.le_add_right 1 room')) hstored.found

end

end

/-- Storing `1` in `x['a']['b']`, where `x` is an empty table. -/
theorem assign_path_fresh :
    let m : Machine := { Machine.start (.standard false) .plain with
      heap := ⟨#[⟨[], Assoc.insert globals "x" (.table []), []⟩]⟩ }
    ∃ r, (∀ r', code 0 ⟨0, codeOf (Lower.stmt false
        (.assign "x" [(.text "a", true), (.text "b", true)] (.number 1)) 0).1⟩ m r' ↔ r' = r) ∧
      m.AssignEnds 0 "x" 0 [] [.text "a", .text "b"] (.number 1) r := by
  intro m
  have hs : 0 < m.heap.nextScope := by decide
  have hbool : m.KnowsBools 0 := fun value ↦ by cases value <;> rfl
  have hnumber : m.Means false 0 1 (.number 1) (.number 1) :=
    means_direct hs hbool (by decide +kernel) rfl (by simp [Direct.height])
  have htext (text : String) : m.Means false 0 1 (.text text) (.quoted text) :=
    means_direct hs hbool rfl rfl (by simp [Direct.height])
  have hkey (text : String) : (Value.quoted text).toKey = .ok (.text text) := by
    rw [Value.quoted, Value.toKey, Text.unquote_enquote]
  have hkeys : m.MeansKeys false 0 1 [(.text "a", true), (.text "b", true)]
      [.text "a", .text "b"] :=
    .cons ⟨_, htext "a", hkey "a"⟩ (.cons ⟨_, htext "b", hkey "b"⟩ .nil)
  exact assign_path rfl rfl (List.cons_ne_nil _ _) (by decide) hkeys hnumber (by decide) 0 0

end GemLang
