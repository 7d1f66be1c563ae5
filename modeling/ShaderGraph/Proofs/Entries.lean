import ShaderGraph.Snapshot
import Mathlib.Data.List.Basic
import Mathlib.Data.List.Induction

/-
What a map that keeps the order of first insertion holds.

A new key goes to the end (`insertEntry_of_not_mem`). A key that is written again
keeps its place and takes the new value (`insertEntry_of_mem`), so the map of a list
of pairs holds each key once, at the place of its first pair and with the value of its
last one (`keys_ofList`, `get?_ofList`); where no key is repeated it holds just the pairs
(`entries_ofList`). The nodes of a snapshot are settled by this rule (`values_network`).
A map whose values name their own keys (`KeyedBy`) keeps this property under every
operation, and what its values name is then distinct.
-/
namespace ShaderGraph

theorem of_getElem?_concat {α : Type} {entries : List α} {last entry : α} {k : Nat}
    (h : (entries ++ [last])[k]? = some entry) :
    entries[k]? = some entry ∨ k = entries.length ∧ entry = last := by
  have hlt := (List.getElem?_eq_some_iff.mp h).1
  rw [List.length_append, List.length_singleton] at hlt
  rcases Nat.lt_or_eq_of_le (Nat.le_of_lt_succ hlt) with hk | rfl
  · rw [List.getElem?_append_left hk] at h
    exact .inl h
  · rw [List.getElem?_concat_length] at h
    exact .inr ⟨rfl, (Option.some.inj h).symm⟩

theorem eraseDups_of_nodup {α : Type} [BEq α] [LawfulBEq α] {entries : List α}
    (h : entries.Nodup) : entries.eraseDups = entries := by
  induction entries with
  | nil => rfl
  | cons entry rest ih =>
    rw [List.nodup_cons] at h
    rw [List.eraseDups_cons, List.filter_eq_self.mpr, ih h.2]
    intro other hother
    have hne : other ≠ entry := by rintro rfl; exact h.1 hother
    simpa using hne

namespace OrderedMap

variable {κ α : Type} [DecidableEq κ]

theorem lookup_cons_eq (entry : κ × α) (rest : List (κ × α)) (k : κ) :
    (entry :: rest).lookup k = if k = entry.1 then some entry.2 else rest.lookup k := by
  obtain ⟨key, value⟩ := entry
  rw [List.lookup_cons]
  by_cases h : k = key
  · rw [if_pos h, beq_iff_eq.mpr h]
  · rw [if_neg h, beq_eq_false_iff_ne.mpr h]

theorem lookup_insertEntry (key k : κ) (value : α) (entries : List (κ × α)) :
    (insertEntry key value entries).lookup k =
      if k = key then some value else entries.lookup k := by
  induction entries with
  | nil => rw [insertEntry, lookup_cons_eq]
  | cons entry rest ih =>
    rw [insertEntry, lookup_cons_eq]
    by_cases he : entry.1 = key
    · rw [if_pos he, lookup_cons_eq, he]
      split <;> rfl
    · rw [if_neg he, lookup_cons_eq, ih]
      by_cases h : k = key
      · rw [if_pos h, if_neg (h.trans_ne (Ne.symm he)), if_pos h]
      · rw [if_neg h, if_neg h]

theorem get?_insert (m : OrderedMap κ α) (key k : κ) (value : α) :
    (m.insert key value).get? k = if k = key then some value else m.get? k :=
  lookup_insertEntry key k value m.entries

theorem keys_insertEntry (key : κ) (value : α) (entries : List (κ × α)) :
    (insertEntry key value entries).map Prod.fst =
      if key ∈ entries.map Prod.fst then entries.map Prod.fst
      else entries.map Prod.fst ++ [key] := by
  induction entries with
  | nil => simp [insertEntry]
  | cons entry rest ih =>
    by_cases he : entry.1 = key
    · simp [insertEntry, he]
    · simp only [insertEntry, he, if_false, List.map_cons, ih, List.mem_cons, Ne.symm he, false_or]
      split <;> simp

theorem keys_insert (m : OrderedMap κ α) (key : κ) (value : α) :
    (m.insert key value).keys = if key ∈ m.keys then m.keys else m.keys ++ [key] :=
  keys_insertEntry key value m.entries

theorem ofList_concat (pairs : List (κ × α)) (pair : κ × α) :
    ofList (pairs ++ [pair]) = (ofList pairs).insert pair.1 pair.2 := by
  simp [ofList, List.foldl_append]

theorem get?_ofList (pairs : List (κ × α)) (key : κ) :
    (ofList pairs).get? key = pairs.reverse.lookup key := by
  induction pairs using List.reverseRecOn with
  | nil => rfl
  | append_singleton pairs pair ih =>
    rw [ofList_concat, get?_insert, ih, List.reverse_append, List.reverse_singleton,
      List.singleton_append, lookup_cons_eq]

/-- Each key stands once, at the place of its first pair. -/
theorem keys_ofList (pairs : List (κ × α)) :
    (ofList pairs).keys = (pairs.map Prod.fst).eraseDups := by
  -- From the end of the list, where the last pair is inserted.
  induction pairs using List.reverseRecOn with
  | nil => rfl
  | append_singleton pairs pair ih =>
    rw [ofList_concat, keys_insert, ih, List.map_append, List.eraseDups_append]
    simp only [List.map_cons, List.map_nil, List.mem_eraseDups, List.removeAll]
    by_cases h : pair.1 ∈ pairs.map Prod.fst
    · simp [h]
    · simp [h, List.eraseDups_cons]

theorem lookup_map_key (f : α → κ) (values : List α) (key : κ) :
    (values.map fun value => (f value, value)).lookup key =
      values.find? fun value => key == f value := by
  induction values with
  | nil => rfl
  | cons value rest ih =>
    simp only [List.map_cons, List.lookup_cons, List.find?_cons, ih]

theorem filterMap_lookup (entries : List (κ × α)) (distinct : (entries.map Prod.fst).Nodup) :
    (entries.map Prod.fst).filterMap (fun key => entries.lookup key) = entries.map Prod.snd := by
  induction entries with
  | nil => rfl
  | cons entry rest ih =>
    rw [List.map_cons, List.nodup_cons] at distinct
    -- The first key stands nowhere else, so the others are looked up in the rest.
    have hrest : (rest.map Prod.fst).filterMap (fun key => (entry :: rest).lookup key) =
        (rest.map Prod.fst).filterMap fun key => rest.lookup key := by
      refine List.filterMap_congr fun key hkey => ?_
      rw [lookup_cons_eq, if_neg]
      rintro rfl
      exact distinct.1 hkey
    rw [List.map_cons, List.filterMap_cons, lookup_cons_eq, if_pos rfl, hrest, ih distinct.2,
      List.map_cons]

theorem values_eq (m : OrderedMap κ α) : m.values = m.keys.filterMap m.get? :=
  (filterMap_lookup m.entries m.distinct).symm

theorem mem_keys_of_get? {m : OrderedMap κ α} {key : κ} {value : α}
    (h : m.get? key = some value) : key ∈ m.keys := by
  obtain ⟨before, after, hentries, -⟩ := List.lookup_eq_some_iff.mp h
  simp [keys, hentries]

theorem mem_values_iff {m : OrderedMap κ α} {value : α} :
    value ∈ m.values ↔ ∃ key, m.get? key = some value := by
  rw [values_eq, List.mem_filterMap]
  exact ⟨fun ⟨key, _, h⟩ => ⟨key, h⟩, fun ⟨key, h⟩ => ⟨key, mem_keys_of_get? h, h⟩⟩

theorem mem_values_insert {m : OrderedMap κ α} {key : κ} {value v : α}
    (h : v ∈ (m.insert key value).values) : v = value ∨ v ∈ m.values := by
  obtain ⟨k, hk⟩ := mem_values_iff.mp h
  rw [get?_insert] at hk
  split at hk
  · exact .inl (Option.some.inj hk).symm
  · exact .inr (mem_values_iff.mpr ⟨k, hk⟩)

theorem contains_iff {m : OrderedMap κ α} {key : κ} : m.contains key = true ↔ key ∈ m.keys := by
  simp [contains, keys]

/-! ## Entries -/

theorem insertEntry_of_not_mem {key : κ} {entries : List (κ × α)}
    (h : key ∉ entries.map Prod.fst) (value : α) :
    insertEntry key value entries = entries ++ [(key, value)] := by
  induction entries with
  | nil => rfl
  | cons entry rest ih =>
    rw [List.map_cons, List.mem_cons, not_or] at h
    rw [insertEntry, if_neg (Ne.symm h.1), ih h.2, List.cons_append]

theorem insertEntry_of_mem {key : κ} {entries : List (κ × α)} (h : key ∈ entries.map Prod.fst)
    (distinct : (entries.map Prod.fst).Nodup) (value : α) :
    insertEntry key value entries =
      entries.map fun entry => if entry.1 = key then (key, value) else entry := by
  induction entries with
  | nil => cases h
  | cons entry rest ih =>
    rw [List.map_cons, List.nodup_cons] at distinct
    rw [insertEntry, List.map_cons]
    by_cases hkey : entry.1 = key
    · -- The key stands nowhere else, so the other entries stay.
      have hrest : (rest.map fun entry => if entry.1 = key then (key, value) else entry) = rest := by
        refine (List.map_congr_left fun other hother => if_neg ?_).trans (List.map_id rest)
        intro hother'
        apply distinct.1
        rw [hkey, ← hother']
        exact List.mem_map_of_mem hother
      rw [if_pos hkey, if_pos hkey, hrest]
    · rw [List.map_cons, List.mem_cons] at h
      rw [if_neg hkey, if_neg hkey, ih (h.resolve_left (Ne.symm hkey)) distinct.2]

theorem entries_ofList {pairs : List (κ × α)} (h : (pairs.map Prod.fst).Nodup) :
    (ofList pairs).entries = pairs := by
  induction pairs using List.reverseRecOn with
  | nil => rfl
  | append_singleton pairs pair ih =>
    rw [List.map_append, List.nodup_append] at h
    obtain ⟨hdistinct, -, hnew⟩ := h
    have hnot : pair.1 ∉ pairs.map Prod.fst := by
      intro hmem
      exact hnew _ hmem _ (List.mem_singleton_self _) rfl
    rw [ofList_concat]
    show insertEntry pair.1 pair.2 (ofList pairs).entries = pairs ++ [pair]
    rw [ih hdistinct, insertEntry_of_not_mem hnot]

omit [DecidableEq κ] in
theorem ext {m m' : OrderedMap κ α} (h : m.entries = m'.entries) : m = m' := by
  cases m
  cases m'
  cases h
  rfl

theorem ofList_entries (m : OrderedMap κ α) : ofList m.entries = m :=
  ext (entries_ofList m.distinct)

theorem mem_insertEntry {key : κ} {value : α} {entries : List (κ × α)} {entry : κ × α}
    (h : entry ∈ insertEntry key value entries) : entry = (key, value) ∨ entry ∈ entries := by
  induction entries with
  | nil => exact .inl (List.mem_singleton.mp h)
  | cons first rest ih =>
    by_cases hkey : first.1 = key
    · rw [insertEntry, if_pos hkey, List.mem_cons] at h
      exact h.imp_right (List.mem_cons_of_mem first)
    · rw [insertEntry, if_neg hkey, List.mem_cons] at h
      rcases h with rfl | h
      · exact .inr List.mem_cons_self
      · exact (ih h).imp_right (List.mem_cons_of_mem first)

/-- Values that differ from each other in some respect still do after the insertion of one
that differs from all of them. -/
theorem nodup_map_insertEntry {β : Type} {f : α → β} {key : κ} {value : α}
    {entries : List (κ × α)} (h : (entries.map fun entry => f entry.2).Nodup)
    (hnew : f value ∉ entries.map fun entry => f entry.2) :
    ((insertEntry key value entries).map fun entry => f entry.2).Nodup := by
  induction entries with
  | nil => simp [insertEntry]
  | cons entry rest ih =>
    rw [List.map_cons, List.nodup_cons] at h
    rw [List.map_cons, List.mem_cons, not_or] at hnew
    by_cases hkey : entry.1 = key
    · rw [insertEntry, if_pos hkey, List.map_cons, List.nodup_cons]
      exact ⟨hnew.2, h.2⟩
    · rw [insertEntry, if_neg hkey, List.map_cons, List.nodup_cons]
      refine ⟨fun hentry => ?_, ih h.2 hnew.2⟩
      obtain ⟨other, hother, heq⟩ := List.mem_map.mp hentry
      rcases mem_insertEntry hother with rfl | hold
      · exact hnew.1 heq
      · exact h.1 (heq ▸ List.mem_map_of_mem hold)

theorem lookup_filter_ne (key k : κ) (entries : List (κ × α)) :
    (entries.filter fun entry => entry.1 ≠ key).lookup k =
      if k = key then none else entries.lookup k := by
  induction entries with
  | nil => simp
  | cons entry rest ih =>
    rw [List.filter_cons, lookup_cons_eq]
    by_cases hkey : entry.1 = key
    · simp only [ne_eq, hkey, not_true_eq_false, decide_false, Bool.false_eq_true, if_false]
      rw [ih]
      split <;> rfl
    · simp only [ne_eq, hkey, not_false_eq_true, decide_true, if_true]
      rw [lookup_cons_eq, ih]
      by_cases hk : k = entry.1
      · rw [if_pos hk, if_pos hk, if_neg fun h => hkey (hk.symm.trans h)]
      · rw [if_neg hk, if_neg hk]

theorem not_mem_keys_of_get? {m : OrderedMap κ α} {key : κ} (h : m.get? key = none) :
    key ∉ m.keys := by
  intro hkey
  obtain ⟨entry, hentry, rfl⟩ := List.mem_map.mp hkey
  have hne := List.lookup_eq_none_iff.mp h entry hentry
  simp at hne

/-- What was inserted under a new key is erased without a trace. -/
theorem erase_insert {m : OrderedMap κ α} {key : κ} (h : key ∉ m.keys) (value : α) :
    (m.insert key value).erase key = m := by
  have hinsert : (m.insert key value).entries = m.entries ++ [(key, value)] :=
    insertEntry_of_not_mem h value
  have hold : m.entries.filter (fun entry => decide (entry.1 ≠ key)) = m.entries := by
    refine List.filter_eq_self.mpr fun entry hentry => decide_eq_true ?_
    rintro rfl
    exact h (List.mem_map_of_mem hentry)
  apply ext
  show (m.insert key value).entries.filter (fun entry => decide (entry.1 ≠ key)) = m.entries
  rw [hinsert, List.filter_append, hold]
  simp

theorem get?_erase (m : OrderedMap κ α) (key k : κ) :
    (m.erase key).get? k = if k = key then none else m.get? k :=
  lookup_filter_ne key k m.entries

theorem get?_modify (m : OrderedMap κ α) (key k : κ) (change : α → α) :
    (m.modify key change).get? k = if k = key then (m.get? key).map change else m.get? k := by
  unfold modify
  cases hvalue : m.get? key with
  | some value => exact get?_insert m key k (change value)
  | none =>
    by_cases hk : k = key
    · rw [if_pos hk, hk, hvalue]
      rfl
    · rw [if_neg hk]

theorem mem_entries_of_get? {m : OrderedMap κ α} {key : κ} {value : α}
    (h : m.get? key = some value) : (key, value) ∈ m.entries := by
  obtain ⟨before, after, hentries, -⟩ := List.lookup_eq_some_iff.mp h
  simp [hentries]

theorem nodup_map_values_insert {β : Type} {f : α → β} {m : OrderedMap κ α} {value : α}
    (h : (m.values.map f).Nodup) (hnew : f value ∉ m.values.map f) (key : κ) :
    ((m.insert key value).values.map f).Nodup := by
  rw [values, List.map_map] at *
  exact nodup_map_insertEntry h hnew

/-- Every value is stored under the key that `f` reads off it. -/
def KeyedBy (f : α → κ) (m : OrderedMap κ α) : Prop := ∀ entry ∈ m.entries, f entry.2 = entry.1

namespace KeyedBy

variable {f : α → κ} {m : OrderedMap κ α}

omit [DecidableEq κ] in
theorem empty (f : α → κ) : KeyedBy f (OrderedMap.empty : OrderedMap κ α) := List.forall_mem_nil _

theorem insert (h : KeyedBy f m) {key : κ} {value : α} (hvalue : f value = key) :
    KeyedBy f (m.insert key value) := by
  intro entry hentry
  rcases mem_insertEntry hentry with rfl | hold
  · exact hvalue
  · exact h entry hold

omit [DecidableEq κ] in
theorem filter (h : KeyedBy f m) (p : κ × α → Bool) : KeyedBy f (m.filter p) :=
  fun entry hentry => h entry (List.mem_of_mem_filter hentry)

theorem ofList (f : α → κ) (values : List α) :
    KeyedBy f (OrderedMap.ofList (values.map fun value => (f value, value))) := by
  induction values using List.reverseRecOn with
  | nil => exact empty f
  | append_singleton values value ih =>
    rw [List.map_append, List.map_singleton, ofList_concat]
    exact ih.insert rfl

theorem of_get? (h : KeyedBy f m) {key : κ} {value : α} (hvalue : m.get? key = some value) :
    f value = key :=
  h _ (mem_entries_of_get? hvalue)

theorem modify (h : KeyedBy f m) {change : α → α} (hchange : ∀ value, f (change value) = f value)
    (key : κ) : KeyedBy f (m.modify key change) := by
  unfold OrderedMap.modify
  split
  · next value hvalue => exact h.insert ((hchange value).trans (h.of_get? hvalue))
  · exact h

omit [DecidableEq κ] in
theorem map_values (h : KeyedBy f m) : m.values.map f = m.keys := by
  rw [values, keys, List.map_map]
  exact List.map_congr_left h

omit [DecidableEq κ] in
theorem nodup (h : KeyedBy f m) : (m.values.map f).Nodup := by
  rw [h.map_values]
  exact m.distinct

end KeyedBy

end OrderedMap

namespace Snapshot

/-- The nodes with repeated ids settled: each id at the place of its first node,
with its last node. -/
def settledNodes (snapshot : Snapshot) : List Node :=
  (snapshot.nodes.map Node.id).eraseDups.filterMap fun id =>
    snapshot.nodes.reverse.find? fun node => id == node.id

theorem node?_network (snapshot : Snapshot) (id : NodeId) :
    snapshot.network.node? id = snapshot.nodes.reverse.find? fun node => id == node.id := by
  rw [Network.node?, network, OrderedMap.get?_ofList, ← List.map_reverse,
    OrderedMap.lookup_map_key]

theorem values_network (snapshot : Snapshot) :
    snapshot.network.nodes.values = snapshot.settledNodes := by
  rw [OrderedMap.values_eq, network, OrderedMap.keys_ofList, List.map_map]
  refine List.filterMap_congr fun id _ => ?_
  exact node?_network snapshot id

/-- Nodes with distinct ids are settled as they are. -/
theorem settledNodes_of_nodup {snapshot : Snapshot} (h : (snapshot.nodes.map Node.id).Nodup) :
    snapshot.settledNodes = snapshot.nodes := by
  have hkeys : ((snapshot.nodes.map fun node => (node.id, node)).map Prod.fst).Nodup := by
    rw [List.map_map]
    exact h
  rw [← values_network, network, OrderedMap.values, OrderedMap.entries_ofList hkeys, List.map_map]
  exact List.map_id snapshot.nodes

theorem id_of_node? {snapshot : Snapshot} {id : NodeId} {node : Node}
    (h : snapshot.network.node? id = some node) : node.id = id := by
  rw [node?_network] at h
  have := List.find?_some h
  simpa using (beq_iff_eq.mp this).symm

theorem mem_nodes_of_node? {snapshot : Snapshot} {id : NodeId} {node : Node}
    (h : snapshot.network.node? id = some node) : node ∈ snapshot.nodes := by
  rw [node?_network] at h
  exact List.mem_reverse.mp (List.mem_of_find?_eq_some h)

theorem node?_of_mem_settledNodes {snapshot : Snapshot} {node : Node}
    (h : node ∈ snapshot.settledNodes) : snapshot.network.node? node.id = some node := by
  obtain ⟨id, -, hfind⟩ := List.mem_filterMap.mp h
  rw [← node?_network] at hfind
  rw [id_of_node? hfind, hfind]

end Snapshot

end ShaderGraph
