import GemLang.Proofs.Table.Entries
import GemLang.Proofs.Table.Keys

/-!
# Storing along a path

A path of keys leads from a value into the tables inside of it, or nowhere. Storing a value at the
end of a path changes what paths lead to: the path itself leads to the value then, and a path that
takes another turning at some step leads to what it led to before. All the tables on the way stay as
they are but for one entry each, which keeps its place if there was one and is at the end if there
was none; missing tables are made for this (`Table.stored_of_storePath`).

Nothing can be stored if there is something else than a table on the way, and then it is that which
is at fault (`Table.storePath_eq_error_iff`).
-/

namespace GemLang

/-! ## Entries -/

namespace Assoc

variable {κ α : Type} [BEq κ]

/-- The entries `m'` are `m` with the value `value` under `key`: in the place of the value that was
there, or in a new entry at the end. -/
inductive Puts (key : κ) (value : α) : Assoc κ α → Assoc κ α → Prop where
  | changed {before after : Assoc κ α} {k : κ} {old : α} (hk : k == key)
      (hbefore : ∀ e ∈ before, (e.1 == key) = false) :
      Puts key value (before ++ (k, old) :: after) (before ++ (k, value) :: after)
  | appended {m : Assoc κ α} (hm : ∀ e ∈ m, (e.1 == key) = false) :
      Puts key value m (m ++ [(key, value)])

theorem puts_insert (m : Assoc κ α) (key : κ) (value : α) :
    Puts key value m (insert m key value) := by
  induction m with
  | nil => exact .appended nofun
  | cons e m ih =>
    obtain ⟨k, old⟩ := e
    rw [insert]
    by_cases hk : k == key
    · rw [if_pos hk]
      exact @Puts.changed κ α _ key value [] m k old hk nofun
    · rw [if_neg hk]
      have hne : (k == key) = false := Bool.eq_false_iff.mpr hk
      generalize insert m key value = m' at ih
      cases ih with
      | @changed before after k' old' hk' hbefore =>
        exact @Puts.changed κ α _ key value ((k, old) :: before) after k' old' hk'
          (List.forall_mem_cons.mpr ⟨hne, hbefore⟩)
      | appended hm => exact .appended (List.forall_mem_cons.mpr ⟨hne, hm⟩)

theorem get?_congr [PartialEquivBEq κ] {key key' : κ} (h : key == key') (m : Assoc κ α) :
    get? m key = get? m key' := by
  induction m with
  | nil => rfl
  | cons e m ih => rw [get?, get?, BEq.congr_right h, ih]

end Assoc

/-! ## Following a path -/

/-- Two paths part: at some step they have different keys, and none before that. -/
inductive Diverges : List Key → List Key → Prop where
  | here {key key' : Key} {keys keys' : List Key} (h : (key == key') = false) :
      Diverges (key :: keys) (key' :: keys')
  | later {key key' : Key} {keys keys' : List Key} (h : key == key') (h' : Diverges keys keys') :
      Diverges (key :: keys) (key' :: keys')

theorem Diverges.ne_nil {keys path : List Key} (h : Diverges keys path) : path ≠ [] := by
  cases h <;> exact List.cons_ne_nil _ _

namespace Value

/-- The value that a path of keys leads to. -/
def follow? (v : Value) : List Key → Option Value
  | [] => some v
  | key :: keys =>
    match v with
    | .table t => (Assoc.get? t key).bind (follow? · keys)
    | _ => none

@[simp] theorem follow?_nil (v : Value) : v.follow? [] = some v := rfl

@[simp] theorem follow?_table (t : Table) (key : Key) (keys : List Key) :
    (Value.table t).follow? (key :: keys) = (Assoc.get? t key).bind (follow? · keys) := rfl

theorem follow?_of_ne {v : Value} (hv : ∀ t, v ≠ .table t) (key : Key) (keys : List Key) :
    v.follow? (key :: keys) = none := by
  cases v with
  | table t => exact absurd rfl (hv t)
  | _ => rfl

end Value

/-! ## Storing -/

namespace Table

open Value (follow?)

variable {t t' : Table} {key : Key} {keys : List Key} {value : Value}

/-- What keeps values from being stored: a value on the way, not at its end, that is no table. -/
def Blocked (t : Table) (keys : List Key) (fault : TypeFault) : Prop :=
  ∃ before key after v, keys = before ++ key :: after ∧ after ≠ [] ∧
    (Value.table t).follow? (before ++ [key]) = some v ∧ (∀ u, v ≠ .table u) ∧
      fault = .assignInto v.kind key.display

/-- The table `t'` is `t` with a value at the end of a path. -/
structure Stored (t : Table) (keys : List Key) (value : Value) (t' : Table) : Prop where
  found : (Value.table t').follow? keys = some value
  elsewhere {path : List Key} (h : Diverges keys path) :
    (Value.table t').follow? path = (Value.table t).follow? path
  /-- Before a step there is the table that was there, or an empty one if there was none, with one
  entry put in. -/
  step {before : List Key} {key : Key} {after : List Key} (h : keys = before ++ key :: after) :
    ∃ u u' v, ((Value.table t).follow? before).getD (.table []) = .table u ∧
      (Value.table t').follow? before = some (.table u') ∧
        (Value.table t').follow? (before ++ [key]) = some v ∧ Assoc.Puts key v u u'

/-- Storing below a table that is there, or below an empty one if nothing is there. -/
theorem storePath_inside {u : Table} (hu : (Assoc.get? t key).getD (.table []) = .table u)
    (hkeys : keys ≠ []) : storePath t (key :: keys) value =
      (storePath u keys value).map fun u' ↦ Assoc.insert t key (.table u') := by
  obtain ⟨key', keys, rfl⟩ := List.exists_cons_of_ne_nil hkeys
  rw [storePath, hu]
  · change (storePath u (key' :: keys) value >>= fun u' ↦
      pure (Assoc.insert t key (.table u'))) = _
    cases storePath u (key' :: keys) value <;> rfl
  · nofun

theorem storePath_of_ne {v : Value} (hv : Assoc.get? t key = some v) (hne : ∀ u, v ≠ .table u)
    (hkeys : keys ≠ []) : storePath t (key :: keys) value =
      .error (.type (.assignInto v.kind key.display)) := by
  obtain ⟨key', keys, rfl⟩ := List.exists_cons_of_ne_nil hkeys
  rw [storePath, hv]
  · cases v with
    | table u => exact absurd rfl (hne u)
    | _ => rfl
  · nofun

/-- What is under a key: something else than a table, or else a table to store in. -/
theorem other_or_table (t : Table) (key : Key) :
    (∃ v, Assoc.get? t key = some v ∧ ∀ u, v ≠ .table u) ∨
      ∃ u, (Assoc.get? t key).getD (.table []) = .table u := by
  cases Assoc.get? t key with
  | none => exact .inr ⟨[], rfl⟩
  | some v =>
    cases v with
    | table u => exact .inr ⟨u, rfl⟩
    | _ => exact .inl ⟨_, rfl, nofun⟩

theorem follow?_inside {u : Table} (hu : (Assoc.get? t key).getD (.table []) = .table u)
    (hkeys : keys ≠ []) :
    (Value.table t).follow? (key :: keys) = (Value.table u).follow? keys := by
  rw [Value.follow?_table]
  cases hget : Assoc.get? t key with
  | none =>
    rw [hget] at hu
    obtain rfl := Value.table.inj hu
    obtain ⟨key', keys, rfl⟩ := List.exists_cons_of_ne_nil hkeys
    rfl
  | some v =>
    rw [hget] at hu
    obtain rfl : v = .table u := hu
    rfl

theorem blocked_inside {u : Table} (hu : (Assoc.get? t key).getD (.table []) = .table u)
    {fault : TypeFault} : t.Blocked (key :: keys) fault ↔ u.Blocked keys fault := by
  constructor
  · rintro ⟨before, key', after, v, heq, hafter, hv, hne, rfl⟩
    cases before with
    | nil =>
      -- right below there is a table or nothing, which blocks no path
      obtain ⟨rfl, rfl⟩ := List.cons.inj heq
      rw [List.nil_append, Value.follow?_table] at hv
      cases hget : Assoc.get? t key with
      | none =>
        rw [hget] at hv
        cases hv
      | some w =>
        rw [hget] at hu hv
        obtain rfl : w = v := Option.some.inj hv
        exact absurd hu (hne u)
    | cons key'' before =>
      obtain ⟨rfl, rfl⟩ := List.cons.inj heq
      rw [List.cons_append, follow?_inside hu (by simp)] at hv
      exact ⟨before, key', after, v, rfl, hafter, hv, hne, rfl⟩
  · rintro ⟨before, key', after, v, rfl, hafter, hv, hne, rfl⟩
    refine ⟨key :: before, key', after, v, rfl, hafter, ?_, hne, rfl⟩
    rw [List.cons_append, follow?_inside hu (by simp)]
    exact hv

theorem blocked_of_ne {v : Value} (hv : Assoc.get? t key = some v) (hne : ∀ u, v ≠ .table u)
    (hkeys : keys ≠ []) {fault : TypeFault} :
    t.Blocked (key :: keys) fault ↔ fault = .assignInto v.kind key.display := by
  constructor
  · rintro ⟨before, key', after, w, heq, -, hw, -, rfl⟩
    cases before with
    | nil =>
      obtain ⟨rfl, rfl⟩ := List.cons.inj heq
      rw [List.nil_append, Value.follow?_table, hv] at hw
      obtain rfl : v = w := Option.some.inj hw
      rfl
    | cons key'' before =>
      -- nothing is found below what is no table
      obtain ⟨rfl, rfl⟩ := List.cons.inj heq
      rw [List.cons_append, Value.follow?_table, hv] at hw
      have hrest : before ++ [key'] ≠ [] := by simp
      obtain ⟨key'', keys, hkeys⟩ := List.exists_cons_of_ne_nil hrest
      rw [hkeys, Option.bind_some, Value.follow?_of_ne hne] at hw
      cases hw
  · rintro rfl
    refine ⟨[], key, keys, v, rfl, hkeys, ?_, hne, rfl⟩
    rw [List.nil_append, Value.follow?_table, hv]
    rfl

theorem not_blocked_singleton {fault : TypeFault} : ¬t.Blocked [key] fault := by
  rintro ⟨before, key', after, -, heq, hafter, -⟩
  have hlength := congrArg List.length heq
  have hpos := List.length_pos_of_ne_nil hafter
  simp only [List.length_append, List.length_cons, List.length_nil] at hlength
  omega

/-- **Storing fails on what is no table**, wherever that is on the way. -/
theorem storePath_eq_error_iff (hkeys : keys ≠ []) {e : Error} :
    storePath t keys value = .error e ↔ ∃ fault, t.Blocked keys fault ∧ e = .type fault := by
  induction keys generalizing t with
  | nil => exact absurd rfl hkeys
  | cons key keys ih =>
    by_cases hkeys : keys = []
    · subst hkeys
      exact iff_of_false nofun fun ⟨_, hblocked, _⟩ ↦ not_blocked_singleton hblocked
    · obtain ⟨v, hv, hne⟩ | ⟨u, hu⟩ := other_or_table t key
      · rw [storePath_of_ne hv hne hkeys]
        simp only [blocked_of_ne hv hne hkeys, exists_eq_left, Except.error.injEq, eq_comm]
      · simp only [storePath_inside hu hkeys, blocked_inside hu, ← ih hkeys]
        cases storePath u keys value <;> simp [Except.map]

theorem storePath_eq_ok {u : Table} (hu : (Assoc.get? t key).getD (.table []) = .table u)
    (hkeys : keys ≠ []) (h : storePath t (key :: keys) value = .ok t') :
    ∃ u', storePath u keys value = .ok u' ∧ t' = Assoc.insert t key (.table u') := by
  rw [storePath_inside hu hkeys] at h
  cases hstore : storePath u keys value with
  | error e =>
    rw [hstore] at h
    cases h
  | ok u' =>
    rw [hstore] at h
    exact ⟨u', rfl, (Except.ok.inj h).symm⟩

/-- One step of storing: what comes under the first key is right for the other ones. -/
theorem stored_insert {v : Value} (hkey : key == key) (hfound : v.follow? keys = some value)
    (helsewhere : ∀ path, Diverges keys path →
      v.follow? path = (Value.table t).follow? (key :: path))
    (hstep : ∀ before key' after, keys = before ++ key' :: after → ∃ u u' w,
      ((Value.table t).follow? (key :: before)).getD (.table []) = .table u ∧
        v.follow? before = some (.table u') ∧ v.follow? (before ++ [key']) = some w ∧
          Assoc.Puts key' w u u') :
    t.Stored (key :: keys) value (Assoc.insert t key v) := by
  have hinside (path : List Key) :
      (Value.table (Assoc.insert t key v)).follow? (key :: path) = v.follow? path := by
    rw [Value.follow?_table, Assoc.get?_insert, if_pos hkey]
    rfl
  refine ⟨(hinside keys).trans hfound, fun {path} hpath ↦ ?_, fun {before key' _} heq ↦ ?_⟩
  · cases hpath with
    | here hne => simp [Assoc.get?_insert, hne]
    | @later _ key' _ keys' heq hdiverges =>
      rw [Value.follow?_table, Value.follow?_table, Assoc.get?_insert, if_pos heq,
        ← Assoc.get?_congr heq]
      exact helsewhere keys' hdiverges
  · cases before with
    | nil =>
      obtain ⟨rfl, rfl⟩ := List.cons.inj heq
      exact ⟨t, _, v, rfl, rfl, hinside [], Assoc.puts_insert t key v⟩
    | cons key'' before =>
      obtain ⟨rfl, hkeys⟩ := List.cons.inj heq
      obtain ⟨u, u', w, hold, hnew, hnext, hputs⟩ := hstep before key' _ hkeys
      exact ⟨u, u', w, hold, (hinside before).trans hnew, (hinside _).trans hnext, hputs⟩

/-- **A value is stored where it is found**, and nothing else is changed. -/
theorem stored_of_storePath (hself : ∀ key ∈ keys, (key == key) = true)
    (h : storePath t keys value = .ok t') : t.Stored keys value t' := by
  induction keys generalizing t t' with
  | nil => cases h
  | cons key keys ih =>
    obtain ⟨hkey, hself⟩ := List.forall_mem_cons.mp hself
    by_cases hkeys : keys = []
    · subst hkeys
      obtain rfl := Except.ok.inj h
      exact stored_insert hkey rfl (fun _ hpath ↦ nomatch hpath) fun _ _ _ heq ↦ by simp at heq
    · obtain ⟨v, hv, hne⟩ | ⟨u, hu⟩ := other_or_table t key
      · rw [storePath_of_ne hv hne hkeys] at h
        cases h
      · obtain ⟨u', hstore, rfl⟩ := storePath_eq_ok hu hkeys h
        have hstored := ih hself hstore
        refine stored_insert hkey hstored.found (fun path hpath ↦ ?_)
          fun before key' after heq ↦ ?_
        · rw [hstored.elsewhere hpath, follow?_inside hu hpath.ne_nil]
        · obtain ⟨old, new, w, hold, hnew, hnext, hputs⟩ := hstored.step heq
          refine ⟨old, new, w, ?_, hnew, hnext, hputs⟩
          by_cases hbefore : before = []
          · -- the table at the first step, which is made if nothing is there
            subst hbefore
            obtain rfl : u = old := Value.table.inj hold
            rw [Value.follow?_table]
            cases hget : Assoc.get? t key with
            | none => rwa [hget] at hu
            | some v => rwa [hget] at hu
          · rw [follow?_inside hu hbefore]
            exact hold

end Table

end GemLang
