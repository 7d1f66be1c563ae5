import ShaderGraph.Wgsl.Emission

/-
Emission step by step.

`Emits` tells what an emission of several expressions, one after another, does: it
takes the name of an expression that has one, writes an expression out after its
operands, and binds what is written out where the expression is shared. It keeps a
log of the expressions that were written out, in the order in which this began.
`Writes` tells the same of an emission that writes everything out; there only the
declared functions change. The two emitters do what these relations say, in every
table whose entries stand after their operands (`emits_emit`, `writes_writeOut`).
-/
namespace ShaderGraph.Wgsl

abbrev Declared := List (FunctionId × String)

/-! ## One expression -/

namespace Source

/-- The name that an expression calls, and what is declared once it is called. -/
def declare (source : Source) (declared : Declared) (id : ExprId) : String × Declared :=
  match source.table.exprs[id]? with
  | some (.call function _ _ _) => Wgsl.declare source.table declared function
  | _ => ("", declared)

/-- The code of an expression, written out, from the codes of its operands. -/
def inlineCode (source : Source) (name : String) (id : ExprId) (codes : List Code) : Code :=
  let operands := List.zipWith Operand.mk codes ((source.table.operands id).map source.typeOf)
  match source.table.exprs[id]? with
  | none => default
  | some (.literal value) => .literal value
  | some (.builtin value) => .builtin value
  | some (.apply application) =>
    match Application.ofList? application.op operands with
    | some application => applicationCode (source.typeOf id) application
    | none => default
  | some (.call ..) =>
    match operands with
    | [primary, secondary, uv] => callCode name primary secondary uv
    | _ => default

end Source

def emitAll (emit : ExprId → Emit Code) : List ExprId → Emission → List Code × Emission
  | [], state => ([], state)
  | id :: ids, state =>
    let (code, state) := emit id state
    let (codes, state) := emitAll emit ids state
    (code :: codes, state)

/-- What an expression declares, in the state of an emission. -/
def Emission.declaring (state : Emission) (source : Source) (id : ExprId) : Emission :=
  { state with functions := (source.declare state.functions id).2 }

/-- An expression is written out after its operands. -/
theorem emitInline_run (source : Source) (emit : ExprId → Emit Code) (id : ExprId)
    (state : Emission) :
    emitInline source emit id state =
      let (codes, later) := emitAll emit (source.table.operands id) (state.declaring source id)
      (source.inlineCode (source.declare state.functions id).1 id codes, later) := by
  unfold emitInline Emission.declaring Source.declare Source.inlineCode Expressions.operands
  -- Only a call declares anything, and it does so before its operands are emitted.
  cases source.table.exprs[id]? with
  | none => rfl
  | some e =>
    cases e with
    | literal value => rfl
    | builtin value => rfl
    | apply application => cases application <;> rfl
    | call function primary secondary uv => rfl

/-- The code of an expression with nothing bound: it is written out at each use. -/
def writeOut (source : Source) : Nat → ExprId → Emit Code
  | 0, _ => pure default
  | depth + 1, id => emitInline source (writeOut source depth) id

/-- The module of a material in which every expression is written out at each use. -/
def Module.plain (material : NodeMaterial) : Module := Module.emittedBy writeOut material

/-! ## Traces -/

/-- The name of an expression, once its code is bound to the next number. -/
def Emission.binding (state : Emission) (id : ExprId) (code : Code) : Emission where
  names := (id, state.bindings.length) :: state.names
  bindings := state.bindings ++ [code]
  functions := state.functions

theorem lookup_binding {state : Emission} {id x : ExprId} {code : Code} {k : Nat}
    (h : (state.binding id code).names.lookup x = some k) :
    (x = id ∧ k = state.bindings.length) ∨ state.names.lookup x = some k := by
  simp only [Emission.binding, List.lookup_cons] at h
  by_cases hid : x = id
  · subst hid
    exact .inl ⟨rfl, by simpa using h.symm⟩
  · rw [beq_eq_false_iff_ne.mpr hid] at h
    exact .inr h

/-- `Emits source state ids codes later log`: the emission of `ids`, one after
another, yields `codes` and leads from `state` to `later`, and `log` lists what is
written out, each expression before what is written out for its operands. -/
inductive Emits (source : Source) :
    Emission → List ExprId → List Code → Emission → List ExprId → Prop
  | done (state : Emission) : Emits source state [] [] state []
  | named {state later : Emission} {id : ExprId} {k : Nat} {ids log : List ExprId}
      {codes : List Code} (hname : state.names.lookup id = some k)
      (hrest : Emits source state ids codes later log) :
      Emits source state (id :: ids) (.bound k :: codes) later log
  | written {state inner later : Emission} {id : ExprId} {ids below log : List ExprId}
      {operands codes : List Code} (hname : state.names.lookup id = none)
      (hshared : source.isShared id = false)
      (hoperands : Emits source (state.declaring source id) (source.table.operands id)
        operands inner below)
      (hrest : Emits source inner ids codes later log) :
      Emits source state (id :: ids)
        (source.inlineCode (source.declare state.functions id).1 id operands :: codes) later
        (id :: below ++ log)
  | bound {state inner later : Emission} {id : ExprId} {ids below log : List ExprId}
      {operands codes : List Code} (hname : state.names.lookup id = none)
      (hshared : source.isShared id = true)
      (hoperands : Emits source (state.declaring source id) (source.table.operands id)
        operands inner below)
      (hrest : Emits source (inner.binding id
        (source.inlineCode (source.declare state.functions id).1 id operands)) ids codes later log) :
      Emits source state (id :: ids) (.bound inner.bindings.length :: codes) later
        (id :: below ++ log)

/-- `Writes source declared ids codes declared'`: written out one after another,
`ids` yield `codes`, and the declared functions become `declared'`. -/
inductive Writes (source : Source) :
    Declared → List ExprId → List Code → Declared → Prop
  | done (declared : Declared) : Writes source declared [] [] declared
  | next {declared inner later : Declared} {id : ExprId} {ids : List ExprId}
      {operands codes : List Code}
      (hoperands : Writes source (source.declare declared id).2 (source.table.operands id)
        operands inner)
      (hrest : Writes source inner ids codes later) :
      Writes source declared (id :: ids)
        (source.inlineCode (source.declare declared id).1 id operands :: codes) later

section Runs

variable {source : Source}

theorem Emits.cons {state inner later : Emission} {id : ExprId} {code : Code}
    {ids first log : List ExprId} {codes : List Code}
    (h : Emits source state [id] [code] inner first)
    (hrest : Emits source inner ids codes later log) :
    Emits source state (id :: ids) (code :: codes) later (first ++ log) := by
  cases h with
  | named hname hdone => cases hdone; exact .named hname hrest
  | written hname hshared hoperands hdone =>
    cases hdone
    rw [List.append_nil]
    exact .written hname hshared hoperands hrest
  | bound hname hshared hoperands hdone =>
    cases hdone
    rw [List.append_nil]
    exact .bound hname hshared hoperands hrest

theorem Writes.cons {declared inner later : Declared} {id : ExprId} {code : Code}
    {ids : List ExprId} {codes : List Code} (h : Writes source declared [id] [code] inner)
    (hrest : Writes source inner ids codes later) :
    Writes source declared (id :: ids) (code :: codes) later := by
  cases h with
  | next hoperands hdone => cases hdone; exact .next hoperands hrest

theorem emits_emitAll {emit : ExprId → Emit Code} {ids : List ExprId}
    (h : ∀ id ∈ ids, ∀ state, ∃ log, Emits source state [id] [(emit id state).1]
      (emit id state).2 log) (state : Emission) :
    ∃ log, Emits source state ids (emitAll emit ids state).1 (emitAll emit ids state).2 log := by
  induction ids generalizing state with
  | nil => exact ⟨[], .done state⟩
  | cons id ids ih =>
    obtain ⟨first, hfirst⟩ := h id List.mem_cons_self state
    obtain ⟨log, hlog⟩ := ih (fun x hx => h x (List.mem_cons_of_mem _ hx)) (emit id state).2
    exact ⟨first ++ log, hfirst.cons hlog⟩

theorem writes_emitAll {emit : ExprId → Emit Code} {ids : List ExprId}
    (h : ∀ id ∈ ids, ∀ state, Writes source state.functions [id] [(emit id state).1]
        (emit id state).2.functions ∧
      (emit id state).2.names = state.names ∧ (emit id state).2.bindings = state.bindings)
    (state : Emission) :
    Writes source state.functions ids (emitAll emit ids state).1
        (emitAll emit ids state).2.functions ∧
      (emitAll emit ids state).2.names = state.names ∧
      (emitAll emit ids state).2.bindings = state.bindings := by
  induction ids generalizing state with
  | nil => exact ⟨.done _, rfl, rfl⟩
  | cons id ids ih =>
    obtain ⟨hfirst, hnames, hbindings⟩ := h id List.mem_cons_self state
    obtain ⟨hrest, hnames', hbindings'⟩ :=
      ih (fun x hx => h x (List.mem_cons_of_mem _ hx)) (emit id state).2
    exact ⟨hfirst.cons hrest, hnames'.trans hnames, hbindings'.trans hbindings⟩

theorem operand_lt (ho : source.table.Ordered) {id x : ExprId} {depth : Nat}
    (hd : id < depth + 1) (hx : x ∈ source.table.operands id) : x < depth :=
  Nat.lt_of_lt_of_le (ho id x hx) (Nat.le_of_lt_succ hd)

theorem emit_run (depth : Nat) (id : ExprId) (state : Emission) :
    emit source (depth + 1) id state =
      match state.names.lookup id with
      | some k => (.bound k, state)
      | none =>
        let (code, inner) := emitInline source (emit source depth) id state
        if source.isShared id then (.bound inner.bindings.length, inner.binding id code)
        else (code, inner) := by
  show (match state.names.lookup id with
    | some k => (pure (Code.bound k) : Emit Code)
    | none => emitInline source (emit source depth) id >>= fun code =>
      if source.isShared id then bindName id code else pure code) state = _
  cases state.names.lookup id with
  | some k => rfl
  | none =>
    show (if source.isShared id then bindName id _ else pure _ : Emit Code) _ = _
    by_cases hshared : source.isShared id = true
    · rw [if_pos hshared]
      simp only [hshared, if_true]
      rfl
    · rw [if_neg hshared]
      simp only [hshared, Bool.false_eq_true, if_false]
      rfl

/-- **The emitter does what its traces say.** -/
theorem emits_emit (ho : source.table.Ordered) (depth : Nat) (id : ExprId) (hd : id < depth)
    (state : Emission) :
    ∃ log, Emits source state [id] [(emit source depth id state).1]
      (emit source depth id state).2 log := by
  -- The depth suffices for the operands, since they stand before the expression.
  induction depth generalizing id state with
  | zero => exact absurd hd (Nat.not_lt_zero id)
  | succ depth ih =>
    cases hname : state.names.lookup id with
    | some k =>
      rw [emit_run, hname]
      exact ⟨[], .named hname (.done state)⟩
    | none =>
      obtain ⟨below, hoperands⟩ :=
        emits_emitAll (fun x hx => ih x (operand_lt ho hd hx)) (state.declaring source id)
      simp only [emit_run, hname, emitInline_run]
      by_cases hshared : source.isShared id = true
      · rw [if_pos hshared]
        exact ⟨_, .bound hname hshared hoperands (.done _)⟩
      · rw [if_neg hshared]
        exact ⟨_, .written hname (by simpa using hshared) hoperands (.done _)⟩

/-- Writing everything out does what its traces say, and binds nothing. -/
theorem writes_writeOut (ho : source.table.Ordered) (depth : Nat) (id : ExprId) (hd : id < depth)
    (state : Emission) :
    Writes source state.functions [id] [(writeOut source depth id state).1]
        (writeOut source depth id state).2.functions ∧
      (writeOut source depth id state).2.names = state.names ∧
      (writeOut source depth id state).2.bindings = state.bindings := by
  induction depth generalizing id state with
  | zero => exact absurd hd (Nat.not_lt_zero id)
  | succ depth ih =>
    obtain ⟨hoperands, hnames, hbindings⟩ :=
      writes_emitAll (fun x hx => ih x (operand_lt ho hd hx)) (state.declaring source id)
    rw [writeOut, emitInline_run]
    exact ⟨.next hoperands (.done _), hnames, hbindings⟩

end Runs

end ShaderGraph.Wgsl
