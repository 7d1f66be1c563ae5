import ShaderGraph.Proofs.Wgsl.Inline

/-
Emission with names simulates writing everything out.

What an expression is written out as does not change once its functions are
declared (`Writes.again`). So when an expression is bound, its code with the
bindings unfolded is what writing it out yields, then and ever after; this is the
invariant (`Faithful`). Every trace of the emission keeps it, and yields what
writing out yields from the same declared functions, with the same functions
declared at the end (`Emits.writes`).
-/
namespace ShaderGraph.Wgsl

/-! ## Declared functions -/

/-- Every declared function is declared later under the same name. -/
def Extends (declared later : Declared) : Prop :=
  ∀ (f : FunctionId) (name : String), declared.lookup f = some name → later.lookup f = some name

theorem Extends.refl (declared : Declared) : Extends declared declared := fun _ _ h => h

theorem Extends.trans {declared later latest : Declared} (h : Extends declared later)
    (h' : Extends later latest) : Extends declared latest :=
  fun f name hf => h' f name (h f name hf)

theorem extends_declare (table : Expressions) (declared : Declared) (f : FunctionId) :
    Extends declared (declare table declared f).2 := by
  unfold declare
  cases declared.lookup f with
  | some name => exact .refl declared
  | none =>
    intro g name hg
    rw [List.lookup_append, hg, Option.some_or]

theorem lookup_declare (table : Expressions) (declared : Declared) (f : FunctionId) :
    (declare table declared f).2.lookup f = some (declare table declared f).1 := by
  unfold declare
  cases hf : declared.lookup f with
  | some name => exact hf
  | none => simp [List.lookup_append, hf]

theorem declare_again {table : Expressions} {declared later : Declared} {f : FunctionId}
    (h : Extends (declare table declared f).2 later) :
    declare table later f = ((declare table declared f).1, later) := by
  have hname := h f _ (lookup_declare table declared f)
  conv_lhs => rw [declare, hname]

namespace Source

variable {source : Source} {declared later : Declared}

theorem extends_declare (source : Source) (declared : Declared) (id : ExprId) :
    Extends declared (source.declare declared id).2 := by
  unfold Source.declare
  split
  · exact Wgsl.extends_declare _ _ _
  · exact .refl declared

theorem declare_again {id : ExprId} (h : Extends (source.declare declared id).2 later) :
    source.declare later id = ((source.declare declared id).1, later) := by
  unfold Source.declare at h ⊢
  split
  · next hcall => rw [hcall] at h; exact Wgsl.declare_again h
  · rfl

end Source

namespace Writes

variable {source : Source} {declared later latest : Declared} {ids : List ExprId}
  {codes : List Code}

theorem grows (h : Writes source declared ids codes later) : Extends declared later := by
  induction h with
  | done declared => exact .refl declared
  | next hoperands hrest ih ih' => exact (source.extends_declare _ _).trans (ih.trans ih')

/-- What was written out once is written out in the same way ever after, and
declares nothing more. -/
theorem again (h : Writes source declared ids codes later) (he : Extends later latest) :
    Writes source latest ids codes latest := by
  induction h with
  | done declared => exact .done latest
  | next hoperands hrest ih ih' =>
    -- All that was declared on the way is declared in `latest` under the same names.
    have hinner := hrest.grows.trans he
    have hdeclare := Source.declare_again (hoperands.grows.trans hinner)
    have hagain := Writes.next (by rw [hdeclare]; exact ih hinner) (ih' he)
    rw [hdeclare] at hagain
    exact hagain

end Writes

/-! ## The simulation -/

def unfold (bindings : List Code) (c : Code) : Code := c.substitute (boundCode (unfoldAll bindings))

theorem unfold_append {bindings : List Code} {c : Code} (hc : c.Below bindings.length)
    (more : List Code) : unfold (bindings ++ more) c = unfold bindings c :=
  substitute_unfoldAll_append hc more

theorem unfold_last (bindings : List Code) (code : Code) :
    unfold (bindings ++ [code]) (.bound bindings.length) = unfold bindings code := by
  simp [unfold, Code.substitute, unfoldAll_concat, boundCode, length_unfoldAll]

/-- Bindings mention earlier ones, and a named expression is bound to code that
unfolds to what writing the expression out yields. -/
structure Faithful (source : Source) (state : Emission) : Prop where
  ordered : Ordered state.bindings
  named : ∀ id k, state.names.lookup id = some k → k < state.bindings.length ∧
    Writes source state.functions [id] [unfold state.bindings (.bound k)] state.functions

theorem faithful_start (source : Source) : Faithful source ⟨[], [], []⟩ :=
  ⟨fun _ _ h => (nomatch h), fun _ _ h => (nomatch h)⟩

namespace Faithful

variable {source : Source} {state : Emission}

theorem declaring (h : Faithful source state) (id : ExprId) :
    Faithful source (state.declaring source id) := by
  refine ⟨h.ordered, fun x k hx => ?_⟩
  obtain ⟨hk, hwrites⟩ := h.named x k hx
  exact ⟨hk, hwrites.again (source.extends_declare _ _)⟩

theorem binding (h : Faithful source state) {id : ExprId} {code : Code}
    (hbelow : code.Below state.bindings.length)
    (hcode : Writes source state.functions [id] [unfold state.bindings code] state.functions) :
    Faithful source (state.binding id code) := by
  refine ⟨h.ordered.concat hbelow, fun x k hx => ?_⟩
  obtain ⟨rfl, rfl⟩ | hx := lookup_binding hx
  · refine ⟨by simp [Emission.binding], ?_⟩
    simp only [Emission.binding, unfold_last]
    exact hcode
  · obtain ⟨hk, hwrites⟩ := h.named x k hx
    refine ⟨by simp only [Emission.binding, List.length_append]; omega, ?_⟩
    simp only [Emission.binding]
    have hbound : (Code.bound k).Below state.bindings.length := hk
    rw [unfold_append hbound]
    exact hwrites

end Faithful

/-- An expression written out after its operands unfolds to what writing it out
yields, if the operands do. -/
theorem Writes.inline {source : Source} {declared later : Declared} {id : ExprId}
    {operands bindings : List Code}
    (h : Writes source (source.declare declared id).2 (source.table.operands id)
      (operands.map (unfold bindings)) later) :
    Writes source declared [id]
      [unfold bindings (source.inlineCode (source.declare declared id).1 id operands)] later := by
  rw [unfold, substitute_inlineCode]
  exact .next h (.done later)

/-- **Emission with names yields what writing everything out yields**: the codes
unfold to the codes written out, and the same functions are declared. -/
theorem Emits.writes {source : Source} {state later : Emission} {ids log : List ExprId}
    {codes : List Code} (h : Emits source state ids codes later log)
    (hs : Faithful source state) :
    Faithful source later ∧ (∃ more, later.bindings = state.bindings ++ more) ∧
      (∀ c ∈ codes, c.Below later.bindings.length) ∧
      Writes source state.functions ids (codes.map (unfold later.bindings)) later.functions := by
  induction h with
  | done state => exact ⟨hs, ⟨[], by simp⟩, by simp, .done _⟩
  | @named state later id k ids log codes hname hrest ih =>
    obtain ⟨hlater, ⟨more, hmore⟩, hbelow, hwrites⟩ := ih hs
    -- Writing the expression out again yields the unfolded binding and declares nothing.
    obtain ⟨hk, hnamed⟩ := hs.named _ _ hname
    have hhead : (Code.bound k).Below state.bindings.length := hk
    refine ⟨hlater, ⟨more, hmore⟩, ?_, ?_⟩
    · intro c hc
      rcases List.mem_cons.mp hc with rfl | hc
      · rw [hmore, List.length_append]
        exact hhead.mono (Nat.le_add_right _ _)
      · exact hbelow c hc
    · rw [List.map_cons, hmore, unfold_append hhead, ← hmore]
      exact hnamed.cons hwrites
  | @written state inner later id ids below log operands codes hname hshared hoperands hrest ih ih' =>
    obtain ⟨hinner, ⟨more, hmore⟩, hbelow, hwrites⟩ := ih (hs.declaring _)
    obtain ⟨hlater, ⟨more', hmore'⟩, hbelow', hwrites'⟩ := ih' hinner
    have hhead : (source.inlineCode (source.declare state.functions id).1 id operands).Below
        inner.bindings.length := all_inlineCode source id trivial hbelow
    refine ⟨hlater, ⟨more ++ more', ?_⟩, ?_, ?_⟩
    · rw [hmore', hmore, List.append_assoc]
      rfl
    · intro c hc
      rcases List.mem_cons.mp hc with rfl | hc
      · rw [hmore', List.length_append]
        exact hhead.mono (Nat.le_add_right _ _)
      · exact hbelow' c hc
    · rw [List.map_cons, hmore', unfold_append hhead, ← hmore']
      exact (Writes.inline hwrites).cons hwrites'
  | @bound state inner later id ids below log operands codes hname hshared hoperands hrest ih ih' =>
    obtain ⟨hinner, ⟨more, hmore⟩, hbelow, hwrites⟩ := ih (hs.declaring _)
    have hcode : (source.inlineCode (source.declare state.functions id).1 id operands).Below
        inner.bindings.length := all_inlineCode source id trivial hbelow
    have hinline := Writes.inline hwrites
    -- The new name unfolds to the code bound to it, which is what writing out yields.
    generalize source.inlineCode (source.declare state.functions id).1 id operands = code
      at ih' hcode hinline
    obtain ⟨hlater, ⟨more', hmore'⟩, hbelow', hwrites'⟩ :=
      ih' (hinner.binding hcode (hinline.again (.refl _)))
    simp only [Emission.binding] at hmore' hwrites'
    have hhead : (Code.bound inner.bindings.length).Below (inner.bindings ++ [code]).length := by
      simp [Code.Below, Code.All]
    refine ⟨hlater, ⟨more ++ [code] ++ more', ?_⟩, ?_, ?_⟩
    · rw [hmore', hmore]
      simp [Emission.declaring]
    · intro c hc
      rcases List.mem_cons.mp hc with rfl | hc
      · rw [hmore', List.length_append]
        exact hhead.mono (Nat.le_add_right _ _)
      · exact hbelow' c hc
    · rw [List.map_cons, hmore', unfold_append hhead, unfold_last, ← hmore']
      exact hinline.cons hwrites'

end ShaderGraph.Wgsl
