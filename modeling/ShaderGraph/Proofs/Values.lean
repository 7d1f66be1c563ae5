import ShaderGraph.Proofs.Shapes
import ShaderGraph.Node.Pins

/-
Values of shader expressions.

Scalars may be anything: an `Interpretation` says what literals and the values of the
renderer are, what each operator does with scalars, and what it is to normalize a
vector of three components. Every other operator goes component by component
(`Interpretation.apply`), over operands of one shape; a scalar factor of a mix counts
for every component. Operands of several shapes are first brought to the shape of the
result (`Interpretation.widened`), which is what a tree does at each operator
(`Tree.value`). Where operands are scalars in place of the vectors they stand for
(`Value.Widens`), so is the result of a math node (`widens_math`).
-/
namespace ShaderGraph

/-- A scalar or a vector. -/
inductive Value (κ : Type) where
  | float (x : κ)
  | vec2 (x y : κ)
  | vec3 (x y z : κ)
  deriving DecidableEq, Repr

namespace Value

variable {κ : Type}

def shape : Value κ → ValueType
  | float _ => .float
  | vec2 _ _ => .vec2
  | vec3 _ _ _ => .vec3

def splat : ValueType → κ → Value κ
  | .float, x => float x
  | .vec2, x => vec2 x x
  | .vec3, x => vec3 x x x

/-- A value in a wider shape: a scalar fills it, a vector has it already or has no
value in it. -/
def widen? (target : ValueType) (v : Value κ) : Option (Value κ) :=
  match v with
  | float x => some (splat target x)
  | v => if v.shape = target then some v else none

/-- A value in any shape: a scalar fills a vector, a vector loses its last components
or gains a `zero`. -/
def as (zero : κ) (target : ValueType) : Value κ → Value κ
  | float x => splat target x
  | vec2 x y =>
    match target with
    | .float => float x
    | .vec2 => vec2 x y
    | .vec3 => vec3 x y zero
  | vec3 x y z =>
    match target with
    | .float => float x
    | .vec2 => vec2 x y
    | .vec3 => vec3 x y z

def map (f : κ → κ) : Value κ → Value κ
  | float x => float (f x)
  | vec2 x y => vec2 (f x) (f y)
  | vec3 x y z => vec3 (f x) (f y) (f z)

/-- A function on the components of two values of one shape. -/
def zip? (f : κ → κ → κ) : Value κ → Value κ → Option (Value κ)
  | float a, float b => some (float (f a b))
  | vec2 a₁ a₂, vec2 b₁ b₂ => some (vec2 (f a₁ b₁) (f a₂ b₂))
  | vec3 a₁ a₂ a₃, vec3 b₁ b₂ b₃ => some (vec3 (f a₁ b₁) (f a₂ b₂) (f a₃ b₃))
  | _, _ => none

/-- A function on the components of three values of one shape. -/
def zip3? (f : κ → κ → κ → κ) : Value κ → Value κ → Value κ → Option (Value κ)
  | float a, float b, float c => some (float (f a b c))
  | vec2 a₁ a₂, vec2 b₁ b₂, vec2 c₁ c₂ => some (vec2 (f a₁ b₁ c₁) (f a₂ b₂ c₂))
  | vec3 a₁ a₂ a₃, vec3 b₁ b₂ b₃, vec3 c₁ c₂ c₃ =>
    some (vec3 (f a₁ b₁ c₁) (f a₂ b₂ c₂) (f a₃ b₃ c₃))
  | _, _, _ => none

variable {zero : κ} {target : ValueType} {v w x y z : Value κ}

theorem shape_splat (target : ValueType) (x : κ) : (splat target x).shape = target := by
  cases target <;> rfl

theorem shape_as : (v.as zero target).shape = target := by
  cases v <;> cases target <;> rfl

theorem as_shape : v.as zero v.shape = v := by
  cases v <;> rfl

theorem shape_map (f : κ → κ) : (v.map f).shape = v.shape := by
  cases v <;> rfl

theorem shape_zip? {f : κ → κ → κ} (h : zip? f x y = some v) : v.shape = x.shape := by
  cases x <;> cases y <;> simp only [zip?, Option.some.injEq, reduceCtorEq] at h <;> subst h <;> rfl

theorem shape_zip3? {f : κ → κ → κ → κ} (h : zip3? f x y z = some v) : v.shape = x.shape := by
  cases x <;> cases y <;> cases z <;>
    simp only [zip3?, Option.some.injEq, reduceCtorEq] at h <;> subst h <;> rfl

/-! ## Scalars in place of vectors -/

/-- The second value is the first one, or fills a shape with it. -/
inductive Widens : Value κ → Value κ → Prop
  | refl (v : Value κ) : Widens v v
  | splat (target : ValueType) (x : κ) : Widens (float x) (splat target x)

namespace Widens

theorem widen? (h : Widens v w) : v.widen? w.shape = some w := by
  cases h with
  | refl => cases v <;> simp [Value.widen?, shape, Value.splat]
  | splat target x => rw [Value.widen?, shape_splat]

theorem eq_of_shape (h : Widens v w) (hshape : v.shape = w.shape) : v = w := by
  cases h with
  | refl => rfl
  | splat target x =>
    rw [shape_splat] at hshape
    subst hshape
    rfl

/-- A value that fills another one does so in every shape between them. -/
theorem as (h : Widens v w) (hw : target = v.shape ∨ target = w.shape) :
    Widens (v.as zero target) w := by
  cases h with
  | refl => obtain rfl | rfl := hw <;> (rw [as_shape]; exact .refl v)
  | splat wide x =>
    rw [shape_splat] at hw
    obtain rfl | rfl := hw
    · exact .splat wide x
    · exact .refl _

theorem shape_eq (h : Widens v w) : v.shape = w.shape ∨ v.shape = .float := by
  cases h with
  | refl => exact .inl rfl
  | splat target x => exact .inr rfl

theorem eq_splat (h : Widens v w) (hv : v.shape = .float) :
    ∃ x, v = float x ∧ w = Value.splat w.shape x := by
  cases h with
  | refl =>
    cases v with
    | float x => exact ⟨x, rfl, rfl⟩
    | vec2 x y => cases hv
    | vec3 x y z => cases hv
  | splat target x => exact ⟨x, rfl, by rw [shape_splat]⟩

theorem scalars (h : Widens v w) (hw : w.shape = .float) : ∃ x, v = float x ∧ w = float x := by
  have hv : v.shape = .float := by
    rcases h.shape_eq with hv | hv
    · exact hv.trans hw
    · exact hv
  obtain ⟨x, hx, hw'⟩ := h.eq_splat hv
  exact ⟨x, hx, by rw [hw', hw]; rfl⟩

/-- Of two values that fill values of one shape, either both are scalars, or the wider
shape is the one that they fill. -/
theorem widest_eq (hx : Widens x v) (hy : Widens y w) (hshape : v.shape = w.shape) :
    (x.shape = .float ∧ y.shape = .float) ∨ x.shape.widest y.shape = v.shape := by
  rcases hx.shape_eq with hx | hx <;> rcases hy.shape_eq with hy | hy
  · exact .inr (by rw [hx, hy, ← hshape]; cases v.shape <;> rfl)
  · exact .inr (by rw [hx, hy]; cases v.shape <;> rfl)
  · exact .inr (by rw [hx, hy, ← hshape]; cases v.shape <;> rfl)
  · exact .inl ⟨hx, hy⟩

theorem as_eq (h : Widens v w) (htarget : target = w.shape) : v.as zero target = w :=
  (h.as (.inr htarget)).eq_of_shape (shape_as.trans htarget)

/-- Brought to their wider shape, two values that fill values of one shape are joined
to what fills the joined values. -/
theorem zip? (zero : κ) (f : κ → κ → κ) (hx : Widens x v) (hy : Widens y w) (hshape : v.shape = w.shape) :
    ∃ late full, Value.zip? f (x.as zero (x.shape.widest y.shape))
        (y.as zero (x.shape.widest y.shape)) = some late ∧
      Value.zip? f v w = some full ∧ Widens late full ∧ full.shape = v.shape := by
  rcases widest_eq hx hy hshape with ⟨hfloat, hfloat'⟩ | hwidest
  · -- Two scalars are joined as such, and the vectors hold them in every component.
    obtain ⟨a, rfl, hv⟩ := hx.eq_splat hfloat
    obtain ⟨b, rfl, hw⟩ := hy.eq_splat hfloat'
    rw [hv, hw, ← hshape]
    refine ⟨float (f a b), Value.splat v.shape (f a b), rfl, ?_, .splat _ _, ?_⟩
    · cases v.shape <;> rfl
    · rw [shape_splat, shape_splat]
  · -- In the wider shape the values are those that they fill.
    rw [hx.as_eq hwidest, hy.as_eq (hwidest.trans hshape)]
    obtain ⟨full, hfull⟩ : ∃ full, Value.zip? f v w = some full := by
      cases v <;> cases w <;> simp only [shape, reduceCtorEq] at hshape <;> exact ⟨_, rfl⟩
    exact ⟨full, full, hfull, hfull, .refl full, shape_zip? hfull⟩

end Widens

end Value

/-! ## Operators -/

def Application.first {α : Type} : Application α → α
  | unary _ x => x
  | binary _ x _ => x
  | ternary _ x _ _ => x

theorem Application.first_map {α β : Type} (f : α → β) (a : Application α) :
    (a.map f).first = f a.first := by
  cases a <;> rfl

/-- What literals, the values of the renderer and the operators mean over scalars of
the type `κ`. The sign is what a normalized scalar is. -/
structure Interpretation (κ : Type) where
  scalar : Binary32 → κ
  builtin : Builtin → Value κ
  shape_builtin : ∀ b, (builtin b).shape = b.valueType
  sin : κ → κ
  abs : κ → κ
  sign : κ → κ
  binary : BinaryOp → κ → κ → κ
  ternary : TernaryOp → κ → κ → κ → κ
  normalize : κ × κ × κ → κ × κ × κ

namespace Interpretation

variable {κ : Type} (I : Interpretation κ)

def zero : κ := I.scalar (.ofDecimal false 0 0)

def literal : Literal → Value κ
  | .float v => .float (I.scalar v)
  | .vec2 v => .vec2 (I.scalar v.x) (I.scalar v.y)
  | .vec3 v => .vec3 (I.scalar v.x) (I.scalar v.y) (I.scalar v.z)

/-- An operator on values of one shape, component by component. A scalar factor of a
mix counts for every component, and only vectors of three components have a
direction. -/
def apply : Application (Value κ) → Option (Value κ)
  | .unary .sin x => some (x.map I.sin)
  | .unary .abs x => some (x.map I.abs)
  | .unary .normalize (.vec3 x y z) =>
    let (x, y, z) := I.normalize (x, y, z)
    some (.vec3 x y z)
  | .unary .normalize _ => none
  | .binary op x y => x.zip? (I.binary op) y
  | .ternary .mix x y (.float t) => x.zip? (I.ternary .mix · · t) y
  | .ternary op x y z => x.zip3? (I.ternary op) y z

/-- An operator on values of any shapes: they are brought to the shape of the result,
but for a scalar factor of a mix, and a normalized scalar is its sign. -/
def widened (application : Application (Value κ)) : Option (Value κ) :=
  let result := (application.map Value.shape).valueType
  match application with
  | .unary .normalize (.float x) => some (.float (I.sign x))
  | .ternary .mix x y z =>
    let factor := if z.shape = .float then .float else result
    I.apply (.ternary .mix (x.as I.zero result) (y.as I.zero result) (z.as I.zero factor))
  | application => I.apply (application.map (·.as I.zero result))

theorem shape_literal (l : Literal) : (I.literal l).shape = l.valueType := by
  cases l <;> rfl

theorem shape_apply {application : Application (Value κ)} {v : Value κ}
    (h : I.apply application = some v) : v.shape = application.first.shape := by
  cases application with
  | unary op x =>
    cases op with
    | sin => obtain rfl := Option.some.inj h; exact Value.shape_map _
    | abs => obtain rfl := Option.some.inj h; exact Value.shape_map _
    | normalize =>
      cases x with
      | float x => cases h
      | vec2 x y => cases h
      | vec3 x y z => obtain rfl := Option.some.inj h; rfl
  | binary op x y => exact Value.shape_zip? h
  | ternary op x y z =>
    cases op with
    | mix =>
      cases z with
      | float t => exact Value.shape_zip? h
      | vec2 _ _ => exact Value.shape_zip3? h
      | vec3 _ _ _ => exact Value.shape_zip3? h
    | clamp => exact Value.shape_zip3? h
    | smoothstep => exact Value.shape_zip3? h

/-- The shape of what an operator yields is the widest of its operands. -/
theorem shape_widened {application : Application (Value κ)} {v : Value κ}
    (h : I.widened application = some v) :
    v.shape = (application.map Value.shape).valueType := by
  unfold widened at h
  split at h
  · obtain rfl := Option.some.inj h
    rfl
  · rw [I.shape_apply h]
    exact Value.shape_as
  · next application =>
    rw [I.shape_apply h, Application.first_map, Value.shape_as]

/-! ## Math nodes -/

theorem exists_scalar {application : Application (Value κ)}
    (h : ∀ x ∈ application.operands, x.shape = .float)
    (hnormalize : ∀ x, application ≠ .unary .normalize x) :
    ∃ s, I.widened application = some (.float s) ∧ I.apply application = some (.float s) := by
  have hfloat : ∀ x ∈ application.operands, ∃ s, x = .float s := fun x hx => by
    obtain ⟨s, hs, -⟩ := (Value.Widens.refl x).scalars (h x hx)
    exact ⟨s, hs⟩
  cases application with
  | unary op x =>
    obtain ⟨a, rfl⟩ := hfloat x (by simp [Application.operands])
    cases op with
    | sin => exact ⟨I.sin a, rfl, rfl⟩
    | abs => exact ⟨I.abs a, rfl, rfl⟩
    | normalize => exact absurd rfl (hnormalize _)
  | binary op x y =>
    obtain ⟨a, rfl⟩ := hfloat x (by simp [Application.operands])
    obtain ⟨b, rfl⟩ := hfloat y (by simp [Application.operands])
    exact ⟨I.binary op a b, rfl, rfl⟩
  | ternary op x y z =>
    obtain ⟨a, rfl⟩ := hfloat x (by simp [Application.operands])
    obtain ⟨b, rfl⟩ := hfloat y (by simp [Application.operands])
    obtain ⟨c, rfl⟩ := hfloat z (by simp [Application.operands])
    cases op <;> exact ⟨I.ternary _ a b c, rfl, rfl⟩

/-- The operands fill what the sockets of a node take. -/
def Fed (application : Application Pin) (late full : Pin → Value κ) : Prop :=
  ∀ pin ∈ application.operands,
    Value.Widens (late pin) (full pin) ∧ (full pin).shape = .ofSocket pin.socket

theorem widens_scalars {application : Application Pin} {late full : Pin → Value κ}
    (h : Fed application late full) (hscalar : ∀ pin ∈ application.operands, pin.socket = .float)
    (hnormalize : ∀ pin, application ≠ .unary .normalize pin) :
    ∃ s, I.widened (application.map late) = some (.float s) ∧
      I.apply (application.map full) = some (.float s) := by
  have hfloat : ∀ pin ∈ application.operands, (full pin).shape = .float := fun pin hpin => by
    rw [(h pin hpin).2, hscalar pin hpin]
    rfl
  have heq : application.map late = application.map full :=
    Application.map_congr fun pin hpin => by
      obtain ⟨x, hlate, hfull⟩ := (h pin hpin).1.scalars (hfloat pin hpin)
      rw [hlate, hfull]
  rw [heq]
  refine I.exists_scalar (Application.forall_operands_map.mpr hfloat) fun x hx => ?_
  cases application with
  | unary op pin =>
    simp only [Application.map, Application.unary.injEq] at hx
    exact hnormalize pin (by rw [hx.1])
  | binary op a b => cases hx
  | ternary op a b c => cases hx

/-- **A math node widens late.** Where its operands fill what its sockets take, what it
yields fills what its output promises. -/
theorem widens_math (type : MathType) {late full : Pin → Value κ}
    (h : Fed type.application late full) :
    ∃ v w, I.widened (type.application.map late) = some v ∧
      I.apply (type.application.map full) = some w ∧ Value.Widens v w ∧
      w.shape = .ofSocket type.output.socket := by
  cases type with
  | add =>
    obtain ⟨hx, hxshape⟩ := h ⟨.primary, "A", .vec3⟩ (by decide)
    obtain ⟨hy, hyshape⟩ := h ⟨.secondary, "B", .vec3⟩ (by decide)
    obtain ⟨v, w, hv, hw, hwidens, hshape⟩ :=
      hx.zip? I.zero (I.binary .add) hy (hxshape.trans hyshape.symm)
    exact ⟨v, w, hv, hw, hwidens, hshape.trans hxshape⟩
  | lerp =>
    obtain ⟨hx, hxshape⟩ := h ⟨.primary, "A", .vec3⟩ (by decide)
    obtain ⟨hy, hyshape⟩ := h ⟨.secondary, "B", .vec3⟩ (by decide)
    obtain ⟨hz, hzshape⟩ := h ⟨.factor, "T", .float⟩ (by decide)
    -- The factor is a scalar, which each component of both blends takes.
    obtain ⟨t, hlate, hfull⟩ := hz.scalars hzshape
    obtain ⟨v, w, hv, hw, hwidens, hshape⟩ :=
      hx.zip? I.zero (I.ternary .mix · · t) hy (hxshape.trans hyshape.symm)
    refine ⟨v, w, ?_, ?_, hwidens, hshape.trans hxshape⟩
    · simp only [MathType.application, Application.map, hlate]
      exact hv
    · simp only [MathType.application, Application.map, hfull]
      exact hw
  | _ =>
    obtain ⟨s, hlate, hfull⟩ := I.widens_scalars h (by decide)
      (fun pin => by simp [MathType.application])
    exact ⟨_, _, hlate, hfull, .refl _, rfl⟩

end Interpretation

/-- The value of a tree, where each operator widens its operands. What user code
computes has no value here. -/
def Tree.value {κ : Type} (I : Interpretation κ) : Tree → Option (Value κ)
  | literal value => some (I.literal value)
  | builtin value => some (I.builtin value)
  | unary op x => do I.widened (.unary op (← x.value I))
  | binary op x y => do I.widened (.binary op (← x.value I) (← y.value I))
  | ternary op x y z => do I.widened (.ternary op (← x.value I) (← y.value I) (← z.value I))
  | call .. => none

section Trees

variable {κ : Type} {I : Interpretation κ}

theorem Tree.value_apply {α : Type} {application : Application α} {trees : α → Tree}
    {values : α → Value κ} (h : ∀ x ∈ application.operands, (trees x).value I = some (values x)) :
    (Tree.apply (application.map trees)).value I = I.widened (application.map values) := by
  cases application <;>
    simp_all [Tree.apply, Tree.value, Application.map, Application.operands]

theorem Tree.value_of_apply {application : Application Tree} {v : Value κ}
    (h : (Tree.apply application).value I = some v) :
    ∀ t ∈ application.operands, ∃ w, t.value I = some w := by
  cases application with
  | unary op x =>
    simp only [Tree.apply, Tree.value, bind, Option.bind_eq_some_iff] at h
    obtain ⟨vx, hx, -⟩ := h
    simp [Application.operands, hx]
  | binary op x y =>
    simp only [Tree.apply, Tree.value, bind, Option.bind_eq_some_iff] at h
    obtain ⟨vx, hx, vy, hy, -⟩ := h
    simp [Application.operands, hx, hy]
  | ternary op x y z =>
    simp only [Tree.apply, Tree.value, bind, Option.bind_eq_some_iff] at h
    obtain ⟨vx, hx, vy, hy, vz, hz, -⟩ := h
    simp [Application.operands, hx, hy, hz]

theorem Tree.shape_value {t : Tree} {v : Value κ} (h : t.value I = some v) :
    v.shape = t.valueType := by
  induction t generalizing v with
  | literal value => obtain rfl := Option.some.inj h; exact I.shape_literal value
  | builtin value => obtain rfl := Option.some.inj h; exact I.shape_builtin value
  | unary op x ih =>
    simp only [Tree.value, bind, Option.bind_eq_some_iff] at h
    obtain ⟨vx, hx, h⟩ := h
    rw [I.shape_widened h, Tree.valueType, ← ih hx]
    rfl
  | binary op x y ih ih' =>
    simp only [Tree.value, bind, Option.bind_eq_some_iff] at h
    obtain ⟨vx, hx, vy, hy, h⟩ := h
    rw [I.shape_widened h, Tree.valueType, ← ih hx, ← ih' hy]
    rfl
  | ternary op x y z ih ih' ih'' =>
    simp only [Tree.value, bind, Option.bind_eq_some_iff] at h
    obtain ⟨vx, hx, vy, hy, vz, hz, h⟩ := h
    rw [I.shape_widened h, Tree.valueType, ← ih hx, ← ih' hy, ← ih'' hz]
    rfl
  | call f p s u => cases h

end Trees

end ShaderGraph
