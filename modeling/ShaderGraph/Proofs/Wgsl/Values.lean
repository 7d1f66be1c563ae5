import ShaderGraph.Proofs.SocketValues
import ShaderGraph.Proofs.Wgsl.Typing

/-
Values of emitted code.

`Code.value` evaluates code of the shading language under values of the bound names,
and `Module.value` evaluates a channel of a module after its bindings, one after
another. Code has the value that it has with its bindings unfolded
(`value_unfold`), and code that is written out has the value of the tree that the
expression stands for (`Writes.value`): each coercion of code is one of values
(`value_coerce`). So the channels of the module of a compilation have the values that
the sockets of the graph declare (`value_eq_socketValue`).
-/
namespace ShaderGraph.Wgsl

variable {κ : Type}

/-! ## Evaluation -/

def Arithmetic.op : Arithmetic → BinaryOp
  | add => .add
  | sub => .sub
  | mul => .mul

def Function3.op : Function3 → TernaryOp
  | mix => .mix
  | clamp => .clamp
  | smoothstep => .smoothstep

/-- The value of a function of one operand. -/
def Function1.value (I : Interpretation κ) : Function1 → Value κ → Option (Value κ)
  | sin, x => I.apply (.unary .sin x)
  | abs, x => I.apply (.unary .abs x)
  | normalize, x => I.apply (.unary .normalize x)
  | sign, x => some (x.map I.sign)

/-- The value of code under the values of the bound names. Code that the language does
not type has none, nor has a call of user code. -/
def Code.value (I : Interpretation κ) (names : Nat → Option (Value κ)) : Code → Option (Value κ)
  | literal value => some (I.literal value)
  | builtin value => some (I.builtin value)
  | bound k => names k
  | arithmetic op x y => do I.apply (.binary op.op (← x.value I names) (← y.value I names))
  | pow x y => do I.apply (.binary .pow (← x.value I names) (← y.value I names))
  | apply1 f x => do f.value I (← x.value I names)
  | apply3 f x y z => do
    I.apply (.ternary f.op (← x.value I names) (← y.value I names) (← z.value I names))
  | call .. => none
  | splat type x => do
    match ← x.value I names with
    | .float s => some (.splat type s)
    | _ => none
  | pad x => do
    match ← x.value I names with
    | .vec2 s t => some (.vec3 s t I.zero)
    | _ => none
  | firstOf x => do
    match ← x.value I names with
    | .float _ => none
    | .vec2 s _ => some (.float s)
    | .vec3 s _ _ => some (.float s)
  | firstTwoOf x => do
    match ← x.value I names with
    | .float _ => none
    | .vec2 s t => some (.vec2 s t)
    | .vec3 s t _ => some (.vec2 s t)

def bindingValues (I : Interpretation κ) (bindings : List Code) : List (Option (Value κ)) :=
  bindings.foldl (fun values code => values ++ [code.value I fun k => values.getD k none]) []

def Module.value (I : Interpretation κ) (m : Module) (channel : Channel) : Option (Value κ) :=
  (m.channels.get channel).value I fun k => (bindingValues I m.bindings).getD k none

/-! ## Bindings -/

section Bindings

variable (I : Interpretation κ)

theorem value_substitute (names : Nat → Option (Value κ)) (f : Nat → Code) (c : Code) :
    (c.substitute f).value I names = c.value I fun k => (f k).value I names := by
  induction c <;> simp_all [Code.substitute, Code.value]

theorem bindingValues_concat (bindings : List Code) (code : Code) :
    bindingValues I (bindings ++ [code]) = bindingValues I bindings ++
      [code.value I fun k => (bindingValues I bindings).getD k none] := by
  simp [bindingValues]

theorem length_bindingValues (bindings : List Code) :
    (bindingValues I bindings).length = bindings.length := by
  induction bindings using List.reverseRecOn with
  | nil => rfl
  | append_singleton bindings code ih => simp [bindingValues_concat, ih]

theorem getD_bindingValues (bindings : List Code) (k : Nat) :
    (bindingValues I bindings).getD k none =
      (boundCode (unfoldAll bindings) k).value I fun _ => none := by
  induction bindings using List.reverseRecOn generalizing k with
  | nil => rfl
  | append_singleton bindings code ih =>
    have hlength := length_bindingValues I bindings
    rw [bindingValues_concat, unfoldAll_concat]
    rcases Nat.lt_trichotomy k bindings.length with hk | rfl | hk
    · rw [boundCode_append (by rwa [length_unfoldAll]), List.getD_eq_getElem?_getD,
        List.getElem?_append_left (by omega), ← List.getD_eq_getElem?_getD]
      exact ih k
    · -- The last binding sees the values of the earlier ones.
      have hlast : (bindingValues I bindings ++
          [code.value I fun k => (bindingValues I bindings).getD k none]).getD bindings.length none =
          code.value I fun k => (bindingValues I bindings).getD k none := by
        rw [List.getD_eq_getElem?_getD, ← hlength, List.getElem?_concat_length]
        rfl
      have hunfolded : boundCode (unfoldAll bindings ++
          [code.substitute (boundCode (unfoldAll bindings))]) bindings.length =
          code.substitute (boundCode (unfoldAll bindings)) := by
        simp [boundCode, length_unfoldAll]
      rw [hlast, hunfolded, value_substitute]
      congr 1
      funext k
      exact ih k
    · rw [boundCode_of_le (by simp [length_unfoldAll]; omega),
        List.getD_eq_getElem?_getD, List.getElem?_eq_none (by simp [hlength]; omega)]
      rfl

theorem value_unfold (bindings : List Code) (c : Code) :
    c.value I (fun k => (bindingValues I bindings).getD k none) =
      (unfold bindings c).value I fun _ => none := by
  rw [unfold, value_substitute]
  congr 1
  funext k
  exact getD_bindingValues I bindings k

end Bindings

/-! ## Coercions -/

section Code

variable {I : Interpretation κ} {names : Nat → Option (Value κ)}

theorem value_coerce {c : Code} {v : Value κ} (h : c.value I names = some v)
    (target : ValueType) : (c.coerce v.shape target).value I names = some (v.as I.zero target) := by
  cases v <;> cases target <;> simp [Code.coerce, Value.shape, Code.value, h, Value.as, Value.splat]

def Operand.HasValue (I : Interpretation κ) (names : Nat → Option (Value κ)) (operand : Operand)
    (v : Value κ) : Prop :=
  operand.code.value I names = some v ∧ v.shape = operand.type

theorem Operand.HasValue.as {operand : Operand} {v : Value κ} (h : operand.HasValue I names v)
    (target : ValueType) : (operand.as target).value I names = some (v.as I.zero target) := by
  rw [Operand.as, ← h.2]
  exact value_coerce h.1 target

/-- The code of an operator widens the values of its operands. -/
theorem value_applicationCode {α : Type} {application : Application α} {operand : α → Operand}
    {values : α → Value κ}
    (h : ∀ x ∈ application.operands, (operand x).HasValue I names (values x)) :
    (applicationCode ((application.map operand).map Operand.type).valueType
      (application.map operand)).value I names = I.widened (application.map values) := by
  have htypes : (application.map operand).map Operand.type =
      (application.map values).map Value.shape := by
    rw [Application.map_map, Application.map_map]
    exact Application.map_congr fun x hx => (h x hx).2.symm
  rw [htypes]
  have has := fun x hx => (h x hx).as ((application.map values).map Value.shape).valueType
  cases application with
  | unary op x =>
    have hx := h x (by simp [Application.operands])
    have hx' := has x (by simp [Application.operands])
    cases op with
    | sin => simp only [Application.map, applicationCode, Code.value] at hx' ⊢; rw [hx']; rfl
    | abs => simp only [Application.map, applicationCode, Code.value] at hx' ⊢; rw [hx']; rfl
    | normalize =>
      -- A scalar is normalized to its sign, which is taken of the code as it is.
      cases hvalue : values x with
      | float s =>
        rw [hvalue] at hx
        simp only [Application.map, hvalue, Value.shape, Application.valueType, applicationCode,
          Code.value, hx.1]
        rfl
      | vec2 s t =>
        simp only [Application.map, hvalue, Value.shape, Application.valueType] at hx' ⊢
        simp only [applicationCode, Code.value, hx']
        rfl
      | vec3 s t u =>
        simp only [Application.map, hvalue, Value.shape, Application.valueType] at hx' ⊢
        simp only [applicationCode, Code.value, hx']
        rfl
  | binary op x y =>
    have hx := has x (by simp [Application.operands])
    have hy := has y (by simp [Application.operands])
    simp only [Application.map] at hx hy ⊢
    cases op <;> simp only [applicationCode, Code.value, hx, hy] <;> rfl
  | ternary op x y z =>
    have hx := has x (by simp [Application.operands])
    have hy := has y (by simp [Application.operands])
    have hz := h z (by simp [Application.operands])
    have hz' := has z (by simp [Application.operands])
    simp only [Application.map] at hx hy hz' ⊢
    cases op with
    | mix =>
      have hfactor := hz.as (if (values z).shape = .float then .float
        else (((Application.ternary .mix x y z).map values).map Value.shape).valueType)
      simp only [Application.map] at hfactor
      simp only [applicationCode, Code.value, ← hz.2, hx, hy, hfactor]
      rfl
    | clamp => simp only [applicationCode, Code.value, hx, hy, hz']; rfl
    | smoothstep => simp only [applicationCode, Code.value, hx, hy, hz']; rfl

end Code

/-! ## Code that is written out -/

section Trees

variable {I : Interpretation κ} {names : Nat → Option (Value κ)} {source : Source}

/-- The code of an expression has the value of the tree that the expression stands for. -/
def Denotes (I : Interpretation κ) (names : Nat → Option (Value κ)) (source : Source) (c : Code)
    (id : ExprId) : Prop :=
  ∀ t v, source.table.tree? id = some t → t.value I = some v → c.value I names = some v

theorem denotes_inlineCode (hsource : source.types = source.table.valueTypes)
    (ho : source.table.Ordered) (name : String) {id : ExprId} {codes : List Code}
    (h : List.Forall₂ (Denotes I names source) codes (source.table.operands id)) :
    Denotes I names source (source.inlineCode name id codes) id := by
  intro t v ht hv
  obtain ⟨e, he, hread⟩ := Expressions.exists_of_tree? ht
  simp only [Expressions.operands, he] at h
  cases e with
  | literal value =>
    obtain rfl := Option.some.inj hread
    simp only [Source.inlineCode, he]
    exact hv
  | builtin value =>
    obtain rfl := Option.some.inj hread
    simp only [Source.inlineCode, he]
    exact hv
  | call f primary secondary uv =>
    simp only [Expr.tree?, bind, Option.bind_eq_some_iff] at hread
    obtain ⟨_, -, _, -, _, -, _, -, htree⟩ := hread
    obtain rfl := Option.some.inj htree
    cases hv
  | apply application =>
    obtain ⟨operands, rfl, hoperands, hcode⟩ := exists_operands hsource ho name he ht h
    have : Nonempty (Value κ) := ⟨I.builtin .time⟩
    choose! value hvalue using Tree.value_of_apply hv
    have hvalue' : ∀ operand ∈ operands.operands,
        operand.2.value I = some (value operand.2) := fun operand hoperand =>
      hvalue operand.2 (Application.mem_operands_map Prod.snd hoperand)
    have hvalues : ∀ operand ∈ operands.operands,
        (⟨operand.1, operand.2.valueType⟩ : Operand).HasValue I names (value operand.2) := by
      intro operand hoperand
      obtain ⟨x, hdenotes, htree⟩ := hoperands operand hoperand
      exact ⟨hdenotes _ _ htree (hvalue' operand hoperand),
        Tree.shape_value (hvalue' operand hoperand)⟩
    have hresult := value_applicationCode hvalues
    rw [Application.map_map] at hcode hresult
    rw [hcode, hresult, ← Tree.value_apply hvalue', hv]

end Trees

theorem Writes.value {source : Source} (hsource : source.types = source.table.valueTypes)
    (ho : source.table.Ordered) (I : Interpretation κ) {declared later : Declared}
    {ids : List ExprId} {codes : List Code} (h : Writes source declared ids codes later) :
    List.Forall₂ (Denotes I (fun _ => none) source) codes ids := by
  induction h with
  | done declared => exact .nil
  | next hoperands hrest ih ih' => exact .cons (denotes_inlineCode hsource ho _ ih) ih'

end ShaderGraph.Wgsl

namespace ShaderGraph

open Wgsl

/-- **Late widening agrees with the declared sockets.** In a graph without code nodes
whose edges all join pins that suit each other, each channel of the module of a
compilation has a value, and it is the value of the channel that the sockets declare,
whatever the operators do with scalars. -/
theorem Snapshot.value_eq_socketValue {snapshot : Snapshot}
    (hcode : ∀ node ∈ snapshot.nodes, node.category ≠ .code)
    (hwell : snapshot.network.WellConnected) {defaults : MaterialDefaults} {material : NodeMaterial}
    (h : (snapshot.compile defaults).material = .node material) {κ : Type} (I : Interpretation κ)
    (channel : Channel) :
    ∃ v, (Module.ofMaterial material).value I channel = some v ∧
      snapshot.value I defaults channel = some v := by
  have hwellFormed := wellFormed_of_compile h
  obtain ⟨result, hresult, htree⟩ := (read_of_compile h).2 channel
  obtain ⟨v, hv, hsocket⟩ := value_of_channelValue hwell hcode I hresult
  obtain ⟨codes, declared, hwrites, -, -, hget⟩ := exists_plain hwellFormed
  have ho : (materialSource material).table.Ordered := hwellFormed.ordered
  have hcodes := hwrites.value rfl ho I
  have hcode := PerChannel.get_of_forall₂ hcodes channel _ v htree hv
  have hshape : (materialSource material).typeOf (material.channels.get channel) = v.shape :=
    (Expressions.typeOf_of_tree? hwellFormed.ordered htree).trans (Tree.shape_value hv).symm
  refine ⟨_, ?_, hsocket⟩
  rw [Module.value, value_unfold, ((unfold_channels hwellFormed).2 channel).2, hget, hshape]
  exact value_coerce hcode _

/-- Integers for scalars: the time is 2, every literal 1, and the sine adds 1. -/
def integers : Interpretation Int where
  scalar _ := 1
  builtin b :=
    match b with
    | .time => .float 2
    | .uv => .vec2 0 1
    | .normalWorld | .positionWorld | .cameraPosition => .vec3 0 0 1
  shape_builtin b := by cases b <;> rfl
  sin x := x + 1
  abs x := x.natAbs
  sign := Int.sign
  binary op x y :=
    match op with
    | .add => x + y
    | .sub => x - y
    | .mul => x * y
    | .pow => x ^ y.natAbs
  ternary op x y z :=
    match op with
    | .mix => x * (1 - z) + y * z
    | .clamp => min (max x y) z
    | .smoothstep => max 0 (min 1 (z - x))
  normalize v := v

theorem pulse_value :
    (∀ node ∈ pulse.nodes, node.category ≠ .code) ∧ pulse.network.WellConnected ∧
    ∃ material, (pulse.compile .standard).material = .node material ∧
      (Module.ofMaterial material).value integers .emissive = some (.vec3 3 3 3) ∧
      pulse.value integers .standard .emissive = some (.vec3 3 3 3) := by
  have hcode : ∀ node ∈ pulse.nodes, node.category ≠ .code := by decide
  have hwell : pulse.network.WellConnected := by
    simp only [Network.WellConnected, Snapshot.network, pulse, List.forall_mem_cons,
      List.not_mem_nil, false_imp_iff, implies_true, and_true]
    exact ⟨⟨_, _, _, _, rfl, rfl, rfl, rfl, rfl⟩, ⟨_, _, _, _, rfl, rfl, rfl, rfl, rfl⟩⟩
  obtain ⟨material, hmaterial⟩ :
      ∃ material, (pulse.compile .standard).material = .node material := ⟨_, rfl⟩
  obtain ⟨v, hmodule, hsockets⟩ :=
    Snapshot.value_eq_socketValue hcode hwell hmaterial integers .emissive
  have hvalue : ((pulse.compile .standard).material.node?.bind fun material =>
      (Module.ofMaterial material).value integers .emissive) = some (.vec3 3 3 3) := by
    decide +kernel
  rw [hmaterial, Material.node?, Option.bind_some, hmodule] at hvalue
  exact ⟨hcode, hwell, material, hmaterial, hmodule.trans hvalue, hsockets.trans hvalue⟩

end ShaderGraph
