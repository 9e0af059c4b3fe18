import GemLang.Foreign.Marshal
import GemLang.Proofs.Table.Keys
import GemLang.Proofs.Table.Entries
import GemLang.Proofs.Text.Utf8

/-!
# Tables cross to C and back

A table is copied when it is handed to C. What has no C form is refused wherever in the table it
is: `null`, functions, and text with a zero in it. Everything else crosses, and a table that comes
back unchanged is the one that was handed over (`table_crosses`).

For that the table must be one that values index as they are. Keys are read back as the keys that
their numbers index with, entries are inserted one by one, and text is quoted. So keys must be
normal and distinct and texts quoted, in the table and in all the tables in it. An integer key that
takes more than 32 bits travels as a number, and is the same integer key on return because it is
normal.
-/

namespace GemLang

/-! ## Tables in tables -/

/-- A table and the tables in it, at any depth. -/
inductive Table.Nests (t : Table) : Table → Prop where
  | self : Table.Nests t t
  | inner {u w : Table} {key : Key} (h : Table.Nests t u) (he : (key, .table w) ∈ u) :
    Table.Nests t w

theorem Table.Nests.trans {t u w : Table} (h : Nests t u) (h' : Nests u w) : Nests t w := by
  induction h' with
  | self => exact h
  | inner _ he ih => exact ih.inner he

theorem Table.nests_iff {t w : Table} :
    Nests t w ↔ w = t ∨ ∃ (key : Key) (u : Table), (key, .table u) ∈ t ∧ Nests u w := by
  constructor
  · intro h
    induction h with
    | self => exact .inl rfl
    | @inner u w key _ he ih =>
      rcases ih with rfl | ⟨key', x, hx, hnests⟩
      · exact .inr ⟨key, w, he, .self⟩
      · exact .inr ⟨key', x, hx, hnests.inner he⟩
  · rintro (rfl | ⟨key, u, he, h⟩)
    · exact .self
    · exact .trans (.inner .self he) h

theorem Table.sizeOf_lt_of_mem {t u : Table} {key : Key} (h : (key, .table u) ∈ t) :
    sizeOf u < sizeOf t := by
  have hentry := List.sizeOf_lt_of_mem h
  simp only [Prod.mk.sizeOf_spec, Value.table.sizeOf_spec] at hentry
  omega

/-- A table as values make it: keys are normal, no two are equal, and texts are quoted. -/
structure Table.IsRegular (t : Table) : Prop where
  normal : ∀ e ∈ t, e.1.IsNormal
  distinct : Assoc.Distinct t
  quoted : ∀ e ∈ t, ∀ payload, e.2 = .text payload → ∃ s, e.2 = .quoted s

namespace Foreign

/-! ## What is refused -/

/-- An entry that has no C form by itself: its value is `null`, a function or text with a zero, or
its key is such text. -/
inductive IsRefused : Key × Value → Prop where
  | null (key : Key) : IsRefused (key, .null)
  | script (key : Key) (f : ScriptFunction) : IsRefused (key, .script f)
  | native (key : Key) (f : Native) : IsRefused (key, .native f)
  | foreign (key : Key) (f : ForeignFunction) : IsRefused (key, .foreign f)
  | text (key : Key) {payload : String} (h : '\x00' ∈ payload.toList) :
    IsRefused (key, .text payload)
  | key {s : String} (h : '\x00' ∈ s.toList) (v : Value) : IsRefused (.text s, v)

/-- The operation has no result. -/
def Fails {ε α : Type} (r : Except ε α) : Prop := ∃ fault, r = .error fault

theorem not_fails_ok {ε α : Type} (a : α) : ¬Fails (.ok a : Except ε α) := nofun

theorem fails_error {ε α : Type} (fault : ε) : Fails (.error fault : Except ε α) := ⟨fault, rfl⟩

theorem exists_ok_of_not_fails {ε α : Type} {r : Except ε α} (h : ¬Fails r) : ∃ a, r = .ok a := by
  cases r with
  | error fault => exact absurd (fails_error fault) h
  | ok a => exact ⟨a, rfl⟩

theorem fails_bind {ε α β : Type} {r : Except ε α} {f : α → Except ε β} :
    Fails (r >>= f) ↔ Fails r ∨ ∃ a, r = .ok a ∧ Fails (f a) := by
  cases r with
  | error fault => exact iff_of_true (fails_error _) (.inl (fails_error _))
  | ok a =>
    change Fails (f a) ↔ _
    simp [not_fails_ok]

theorem fails_bind_pure {ε α β : Type} {r : Except ε α} (f : α → β) :
    Fails (r >>= fun a ↦ pure (f a)) ↔ Fails r := by
  rw [fails_bind, or_iff_left]
  rintro ⟨a, -, h⟩
  exact not_fails_ok _ h

theorem bind_eq_ok {ε α β : Type} {r : Except ε α} {f : α → Except ε β} {b : β} :
    r >>= f = .ok b ↔ ∃ a, r = .ok a ∧ f a = .ok b := by
  cases r with
  | error fault => exact iff_of_false nofun nofun
  | ok a =>
    change f a = .ok b ↔ _
    simp only [Except.ok.injEq, exists_eq_left']

theorem fails_toCKey {key : Key} : Fails (toCKey key) ↔ ∃ s, key = .text s ∧ '\x00' ∈ s.toList := by
  match key with
  | .int i =>
    rw [toCKey]
    split <;> simp [not_fails_ok]
  | .double x => simp [toCKey, not_fails_ok]
  | .text s =>
    by_cases h : '\x00' ∈ s.toList
    · simp [toCKey, cText?, h, fails_error]
    · simp [toCKey, cText?, h, not_fails_ok]

/-- Quotes are no zeros, so dropping them drops no zero. -/
theorem nul_mem_unquote {payload : String} :
    '\x00' ∈ (Text.unquote payload).toList ↔ '\x00' ∈ payload.toList := by
  rw [Text.unquote]
  split
  · next cs hpayload =>
    split
    · next hlast =>
      obtain ⟨inner, rfl⟩ := List.getLast?_eq_some_iff.mp hlast
      simp [hpayload]
    · rfl
  · rfl

/-- An entry has no C form because it is refused or because it holds a table that has none. -/
theorem fails_entry {key : Key} {v : Value} :
    Fails (toCKey key) ∨ Fails (toCValue v) ↔
      IsRefused (key, v) ∨ ∃ u, v = .table u ∧ Fails (toCNodes u) := by
  have hkey (hnot : ¬IsRefused (key, v)) : ¬Fails (toCKey key) := by
    rw [fails_toCKey]
    rintro ⟨s, rfl, hs⟩
    exact hnot (.key hs v)
  constructor
  · intro h
    by_cases hnot : IsRefused (key, v)
    · exact .inl hnot
    · refine .inr ?_
      have hvalue := h.resolve_left (hkey hnot)
      match v with
      | .number _ | .bool _ => exact absurd hvalue (not_fails_ok _)
      | .script f => exact absurd (.script key f) hnot
      | .native f => exact absurd (.native key f) hnot
      | .foreign f => exact absurd (.foreign key f) hnot
      | .table u =>
        rw [toCValue, fails_bind_pure] at hvalue
        exact ⟨u, rfl, hvalue⟩
      | .text payload =>
        have hnull : payload ≠ "null" := fun h ↦ hnot (h ▸ .null key)
        have hnul : '\x00' ∉ (Text.unquote payload).toList := fun h ↦
          hnot (.text key (nul_mem_unquote.mp h))
        rw [toCValue, if_neg hnull, cText?, if_neg (by simpa using hnul)] at hvalue
        exact absurd hvalue (not_fails_ok _)
  · rintro (h | ⟨u, rfl, h⟩)
    · cases h with
      | null => exact .inr (fails_error _)
      | script => exact .inr (fails_error _)
      | native => exact .inr (fails_error _)
      | foreign => exact .inr (fails_error _)
      | @text _ payload h =>
        refine .inr ?_
        rw [toCValue]
        split
        · exact fails_error _
        · rw [cText?, if_pos (by simpa using nul_mem_unquote.mpr h)]
          exact fails_error _
      | key h => exact .inl (fails_toCKey.mpr ⟨_, rfl, h⟩)
    · rw [toCValue, fails_bind_pure]
      exact .inr h

theorem fails_toCNodes {es : List (Key × Value)} :
    Fails (toCNodes es) ↔ ∃ e ∈ es, Fails (toCKey e.1) ∨ Fails (toCValue e.2) := by
  induction es with
  | nil => simp [toCNodes, not_fails_ok]
  | cons e es ih =>
    obtain ⟨key, value⟩ := e
    rw [toCNodes, List.exists_mem_cons_iff, ← ih]
    cases toCKey key with
    | error fault => exact iff_of_true (fails_error fault) (.inl (.inl (fails_error fault)))
    | ok k =>
      cases toCValue value with
      | error fault => exact iff_of_true (fails_error fault) (.inl (.inr (fails_error fault)))
      | ok v =>
        change Fails (toCNodes es >>= fun nodes ↦ pure ((k, v) :: nodes)) ↔ _
        simp only [fails_bind_pure, not_fails_ok, or_self, false_or]

/-- A table that has no C form holds a refused entry, itself or in a table in it. -/
theorem exists_isRefused_of_fails (t : Table) (h : Fails (toCNodes t)) :
    ∃ u, Table.Nests t u ∧ ∃ e ∈ u, IsRefused e := by
  obtain ⟨⟨key, v⟩, he, hfails⟩ := fails_toCNodes.mp h
  rcases fails_entry.mp hfails with hrefused | ⟨u, rfl, hu⟩
  · exact ⟨t, .self, (key, v), he, hrefused⟩
  · have : sizeOf u < sizeOf t := Table.sizeOf_lt_of_mem he
    obtain ⟨w, hw, e, he', hrefused⟩ := exists_isRefused_of_fails u hu
    exact ⟨w, Table.nests_iff.mpr (.inr ⟨key, u, he, hw⟩), e, he', hrefused⟩
termination_by sizeOf t

theorem fails_toCNodes_of_nests {t u : Table} (h : Table.Nests t u) (hu : Fails (toCNodes u)) :
    Fails (toCNodes t) := by
  induction h with
  | self => exact hu
  | inner _ he ih =>
    exact ih (fails_toCNodes.mpr ⟨_, he, fails_entry.mpr (.inr ⟨_, rfl, hu⟩)⟩)

/-- A table is refused for the entries in it and in its tables, and for nothing else. -/
theorem fails_toCTable {t : Table} :
    Fails (toCTable t) ↔ ∃ u, Table.Nests t u ∧ ∃ e ∈ u, IsRefused e := by
  rw [toCTable, fails_bind_pure]
  refine ⟨exists_isRefused_of_fails t, ?_⟩
  rintro ⟨u, hu, ⟨key, v⟩, he, hrefused⟩
  exact fails_toCNodes_of_nests hu
    (fails_toCNodes.mpr ⟨_, he, fails_entry.mpr (.inl hrefused)⟩)

/-! ## The bytes that cross -/

theorem toCNodes_cons_eq_ok {key : Key} {v : Value} {es : List (Key × Value)}
    {nodes : List (CKey × CValue)} (h : toCNodes ((key, v) :: es) = .ok nodes) :
    ∃ k c rest, toCKey key = .ok k ∧ toCValue v = .ok c ∧ toCNodes es = .ok rest ∧
      nodes = (k, c) :: rest := by
  rw [toCNodes] at h
  obtain ⟨k, hk, h⟩ := bind_eq_ok.mp h
  obtain ⟨c, hc, h⟩ := bind_eq_ok.mp h
  obtain ⟨rest, hrest, h⟩ := bind_eq_ok.mp h
  exact ⟨k, c, rest, hk, hc, hrest, (Except.ok.inj h).symm⟩


def CKey.texts : CKey → List CText
  | .text (some bytes) => [bytes]
  | _ => []

mutual

def CValue.texts : CValue → List CText
  | .text (some bytes) => [bytes]
  | .table (some nodes) => nodeTexts nodes
  | _ => []

/-- The texts that C nodes have in them, as keys and in values. -/
def nodeTexts : List (CKey × CValue) → List CText
  | [] => []
  | (key, v) :: nodes => key.texts ++ v.texts ++ nodeTexts nodes

end

theorem cText?_eq_some {s : String} {bytes : CText} (h : cText? s = some bytes) :
    '\x00' ∉ s.toList ∧ bytes = Text.utf8 s := by
  rw [cText?] at h
  split at h
  · cases h
  · next hnul => exact ⟨by simpa using hnul, (Option.some.inj h).symm⟩

theorem zero_not_mem_texts_of_toCKey {key : Key} {c : CKey} (h : toCKey key = .ok c) :
    ∀ bytes ∈ c.texts, 0 ∉ bytes := by
  match key with
  | .int i =>
    rw [toCKey] at h
    split at h
    · obtain rfl := Except.ok.inj h
      exact List.forall_mem_nil _
    · obtain rfl := Except.ok.inj h
      exact List.forall_mem_nil _
  | .double x =>
    obtain rfl := Except.ok.inj h
    exact List.forall_mem_nil _
  | .text s =>
    rw [toCKey] at h
    split at h
    · next bytes hbytes =>
      obtain rfl := Except.ok.inj h
      obtain ⟨hnul, rfl⟩ := cText?_eq_some hbytes
      exact List.forall_mem_singleton.mpr (Text.zero_not_mem_utf8 hnul)
    · cases h

mutual

theorem zero_not_mem_texts_of_toCValue {v : Value} {c : CValue} (h : toCValue v = .ok c) :
    ∀ bytes ∈ c.texts, 0 ∉ bytes := by
  match v with
  | .number _ | .bool _ =>
    obtain rfl := Except.ok.inj h
    exact List.forall_mem_nil _
  | .text payload =>
    rw [toCValue] at h
    split at h
    · cases h
    split at h
    · next bytes hbytes =>
      obtain ⟨hnul, rfl⟩ := cText?_eq_some hbytes
      obtain rfl := Except.ok.inj h
      exact List.forall_mem_singleton.mpr (Text.zero_not_mem_utf8 hnul)
    · cases h
  | .table u =>
    rw [toCValue] at h
    obtain ⟨nodes, hnodes, h⟩ := bind_eq_ok.mp h
    obtain rfl := Except.ok.inj h
    exact zero_not_mem_nodeTexts_of_toCNodes hnodes
  | .script _ | .native _ | .foreign _ => cases h

theorem zero_not_mem_nodeTexts_of_toCNodes {es : List (Key × Value)} {nodes : List (CKey × CValue)}
    (h : toCNodes es = .ok nodes) : ∀ bytes ∈ nodeTexts nodes, 0 ∉ bytes := by
  match es with
  | [] =>
    obtain rfl := Except.ok.inj h
    exact List.forall_mem_nil _
  | (key, v) :: es =>
    obtain ⟨k, c, rest, hk, hc, hrest, rfl⟩ := toCNodes_cons_eq_ok h
    rw [nodeTexts]
    intro bytes hbytes
    rcases List.mem_append.mp hbytes with hbytes | hbytes
    · rcases List.mem_append.mp hbytes with hbytes | hbytes
      · exact zero_not_mem_texts_of_toCKey hk bytes hbytes
      · exact zero_not_mem_texts_of_toCValue hc bytes hbytes
    · exact zero_not_mem_nodeTexts_of_toCNodes hrest bytes hbytes

end

/-! ## There and back -/

theorem ofInt_toInt_of_fitsInt32 {i : Int64} (h : fitsInt32 i.toInt = true) :
    Int64.ofInt (Int32.ofInt i.toInt).toInt = i := by
  have hmin : Int32.minValue.toInt = -2 ^ 31 := rfl
  have hmax : Int32.maxValue.toInt = 2 ^ 31 - 1 := rfl
  rw [fitsInt32, Bool.and_eq_true, decide_eq_true_eq, decide_eq_true_eq] at h
  rw [Int32.toInt_ofInt_of_le (by omega) (by omega), Int64.ofInt_toInt]

/-- An integer key that takes more than 32 bits crosses as a number, and that indexes with it. -/
theorem ofCKey_toCKey {key : Key} {c : CKey} (hkey : key.IsNormal) (h : toCKey key = .ok c) :
    ofCKey c = .ok key := by
  have hnumber {x : Float} (hx : (Value.number x).toKey = .ok key) :
      ofCKey (.double x) = .ok key := by
    rw [ofCKey, hx]
  have hread := Value.toKey_ofKey_iff.mpr hkey
  match key with
  | .int i =>
    rw [toCKey] at h
    split at h
    · next hfits =>
      obtain rfl := Except.ok.inj h
      rw [ofCKey, ofInt_toInt_of_fitsInt32 hfits]
    · obtain rfl := Except.ok.inj h
      exact hnumber hread
  | .double x =>
    obtain rfl := Except.ok.inj h
    exact hnumber hread
  | .text s =>
    rw [toCKey] at h
    split at h
    · next bytes hbytes =>
      obtain ⟨-, rfl⟩ := cText?_eq_some hbytes
      obtain rfl := Except.ok.inj h
      rw [ofCKey, Text.lossyText_utf8]
    · cases h

/-- A value crosses and comes back if the table in it does and text in it is quoted. -/
theorem ofCValue_toCValue {v : Value} {c : CValue}
    (hquoted : ∀ payload, v = .text payload → ∃ s, v = .quoted s)
    (htable : ∀ u nodes, v = .table u → toCNodes u = .ok nodes → ofCNodes [] nodes = .ok u)
    (h : toCValue v = .ok c) : ofCValue c = .ok v := by
  match v with
  | .number x =>
    obtain rfl := Except.ok.inj h
    rfl
  | .bool b =>
    obtain rfl := Except.ok.inj h
    rfl
  | .text payload =>
    obtain ⟨s, hs⟩ := hquoted payload rfl
    obtain rfl : payload = Text.enquote s := Value.text.inj hs
    rw [toCValue, Text.unquote_enquote] at h
    split at h
    · cases h
    split at h
    · next bytes hbytes =>
      obtain ⟨-, rfl⟩ := cText?_eq_some hbytes
      obtain rfl := Except.ok.inj h
      rw [ofCValue, Text.lossyText_utf8]
      rfl
    · cases h
  | .table u =>
    rw [toCValue] at h
    obtain ⟨nodes, hnodes, h⟩ := bind_eq_ok.mp h
    obtain rfl := Except.ok.inj h
    rw [ofCValue, htable u nodes rfl hnodes]
    rfl
  | .script _ | .native _ | .foreign _ => cases h

/-- Entries that cross one by one come back in their order, behind those that are there already. -/
theorem ofCNodes_toCNodes_append {t es : Table} {nodes : List (CKey × CValue)}
    (hdistinct : Assoc.Distinct (t ++ es)) (hkeys : ∀ e ∈ es, e.1.IsNormal)
    (hvalues : ∀ e ∈ es, ∀ c, toCValue e.2 = .ok c → ofCValue c = .ok e.2)
    (h : toCNodes es = .ok nodes) : ofCNodes t nodes = .ok (t ++ es) := by
  induction es generalizing t nodes with
  | nil =>
    obtain rfl := Except.ok.inj h
    rw [ofCNodes, List.append_nil]
  | cons e es ih =>
    obtain ⟨key, v⟩ := e
    obtain ⟨k, c, rest, hk, hc, hrest, rfl⟩ := toCNodes_cons_eq_ok h
    rw [List.forall_mem_cons] at hkeys hvalues
    have hnew : Assoc.get? t key = none := by
      rw [Assoc.get?_eq_none_iff]
      intro f hf
      exact (List.pairwise_append.mp hdistinct).2.2 f hf (key, v) List.mem_cons_self
    rw [List.append_cons] at hdistinct ⊢
    rw [ofCNodes, ofCKey_toCKey hkeys.1 hk, hvalues.1 c hc, ← ih hdistinct hkeys.2 hvalues.2 hrest,
      ← Assoc.insert_of_get?_eq_none hnew]
    rfl

theorem ofCNodes_toCNodes (t : Table) {nodes : List (CKey × CValue)}
    (hregular : ∀ u, Table.Nests t u → u.IsRegular) (h : toCNodes t = .ok nodes) :
    ofCNodes [] nodes = .ok t := by
  have ht := hregular t .self
  refine ofCNodes_toCNodes_append ht.distinct ht.normal (fun e he c hc ↦ ?_) h
  refine ofCValue_toCValue (ht.quoted e he) (fun u inner hu hinner ↦ ?_) hc
  have hmem : (e.1, Value.table u) ∈ t := hu ▸ he
  have : sizeOf u < sizeOf t := Table.sizeOf_lt_of_mem hmem
  exact ofCNodes_toCNodes u (fun w hw ↦ hregular w (Table.nests_iff.mpr (.inr ⟨e.1, u, hmem, hw⟩)))
    hinner
termination_by sizeOf t

/-- **Tables survive the crossing.** A table is refused exactly if it or a table in it holds an
entry that has no C form. What crosses has no zero in its texts. And a table that is not refused
comes back as it was if it and the tables in it are regular. -/
theorem table_crosses (t : Table) :
    ((∃ fault, toCTable t = .error fault) ↔ ∃ u, Table.Nests t u ∧ ∃ e ∈ u, IsRefused e) ∧
      (∀ nodes, toCTable t = .ok (some nodes) → ∀ bytes ∈ nodeTexts nodes, 0 ∉ bytes) ∧
      ((∀ u, Table.Nests t u → u.IsRegular) →
        (¬∃ u, Table.Nests t u ∧ ∃ e ∈ u, IsRefused e) →
        ∃ c, toCTable t = .ok c ∧ ofCTable c = .ok t) := by
  refine ⟨fails_toCTable, fun nodes h ↦ ?_, fun hregular hnone ↦ ?_⟩
  · obtain ⟨nodes', hnodes, h⟩ := bind_eq_ok.mp h
    obtain rfl := Option.some.inj (Except.ok.inj h)
    exact zero_not_mem_nodeTexts_of_toCNodes hnodes
  · obtain ⟨c, hc⟩ := exists_ok_of_not_fails (mt fails_toCTable.mp hnone)
    refine ⟨c, hc, ?_⟩
    obtain ⟨nodes, hnodes, h⟩ := bind_eq_ok.mp hc
    obtain rfl := Except.ok.inj h
    exact ofCNodes_toCNodes t hregular hnodes

/-- A table with a large key and a key that is text, with a table in it and a text with a quote. -/
def nestedTable : Table :=
  [(.int 1099511627776, .table [(.double 1.5, .bool true)]), (.text "é", .quoted "a\"b")]

theorem eq_of_nests_nestedTable {u : Table} (h : Table.Nests nestedTable u) :
    u = nestedTable ∨ u = [(.double 1.5, .bool true)] := by
  rcases Table.nests_iff.mp h with rfl | ⟨key, w, hw, h⟩
  · exact .inl rfl
  · obtain ⟨-, rfl⟩ : key = .int 1099511627776 ∧ w = [(.double 1.5, .bool true)] := by
      simpa [nestedTable, Value.quoted] using hw
    rcases Table.nests_iff.mp h with rfl | ⟨key, x, hx, h⟩
    · exact .inr rfl
    · simp at hx

theorem table_crosses_nested :
    (∀ u, Table.Nests nestedTable u → u.IsRegular) ∧
      (¬∃ u, Table.Nests nestedTable u ∧ ∃ e ∈ u, IsRefused e) ∧
      ∃ c, toCTable nestedTable = .ok c ∧ ofCTable c = .ok nestedTable := by
  have hregular : ∀ u, Table.Nests nestedTable u → u.IsRegular := by
    intro u hu
    rcases eq_of_nests_nestedTable hu with rfl | rfl
    · refine ⟨by decide +kernel, by unfold Assoc.Distinct; decide, ?_⟩
      rintro e he payload hpayload
      rcases List.mem_cons.mp he with rfl | he
      · cases hpayload
      · obtain rfl := List.mem_singleton.mp he
        exact ⟨"a\"b", rfl⟩
    · refine ⟨by decide +kernel, List.pairwise_singleton _ _, ?_⟩
      rintro e he payload hpayload
      obtain rfl := List.mem_singleton.mp he
      cases hpayload
  have hnone : ¬∃ u, Table.Nests nestedTable u ∧ ∃ e ∈ u, IsRefused e := by
    intro hrefused
    obtain ⟨fault, hfault⟩ := (table_crosses nestedTable).1.mpr hrefused
    have hok : (toCTable nestedTable).isOk = true := by decide +kernel
    rw [hfault] at hok
    cases hok
  exact ⟨hregular, hnone, (table_crosses _).2.2 hregular hnone⟩

end Foreign

end GemLang
