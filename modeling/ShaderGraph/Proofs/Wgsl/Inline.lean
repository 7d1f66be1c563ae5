import ShaderGraph.Proofs.Wgsl.Trace
import ShaderGraph.Proofs.Wgsl.Unfolding

/-
Code that is written out, seen from the codes of its operands.

Whatever is put in place of the bound names, it is put there in the operands
(`substitute_inlineCode`), and the names that occur are those in the operands and
the function that is called (`all_inlineCode`).
-/
namespace ShaderGraph.Wgsl

/-! ## Putting code in place of names -/

def Operand.substitute (f : Nat → Code) (operand : Operand) : Operand :=
  ⟨operand.code.substitute f, operand.type⟩

theorem substitute_coerce (f : Nat → Code) (c : Code) (type target : ValueType) :
    (c.coerce type target).substitute f = (c.substitute f).coerce type target := by
  cases type <;> cases target <;> rfl

theorem substitute_as (f : Nat → Code) (operand : Operand) (target : ValueType) :
    (operand.as target).substitute f = (operand.substitute f).as target :=
  substitute_coerce f operand.code operand.type target

theorem ofList?_map {α β : Type} (f : α → β) (op : Op) (operands : List α) :
    Application.ofList? op (operands.map f) = (Application.ofList? op operands).map (·.map f) := by
  cases op <;> rcases operands with _ | ⟨x, _ | ⟨y, _ | ⟨z, _ | ⟨_, _⟩⟩⟩⟩ <;> rfl

theorem substitute_applicationCode (f : Nat → Code) (result : ValueType)
    (application : Application Operand) :
    (applicationCode result application).substitute f =
      applicationCode result (application.map (·.substitute f)) := by
  cases application with
  | unary op x =>
    cases op <;> cases result <;> simp [applicationCode, Code.substitute, substitute_as,
      Application.map, Operand.substitute]
  | binary op x y =>
    cases op <;> simp [applicationCode, Code.substitute, substitute_as, Application.map]
  | ternary op x y z =>
    cases op <;> simp [applicationCode, Code.substitute, substitute_as, Application.map,
      Operand.substitute]

/-- The names in the code of an expression are those in the codes of its operands. -/
theorem substitute_inlineCode (source : Source) (f : Nat → Code) (name : String) (id : ExprId)
    (codes : List Code) :
    (source.inlineCode name id codes).substitute f =
      source.inlineCode name id (codes.map (·.substitute f)) := by
  have hoperands : ∀ types : List ValueType,
      List.zipWith Operand.mk (codes.map (·.substitute f)) types =
        (List.zipWith Operand.mk codes types).map (·.substitute f) := by
    intro types
    rw [List.zipWith_map_left, List.map_zipWith]
    rfl
  unfold Source.inlineCode
  rw [hoperands]
  -- From here on the operands may be any, with whatever types they have.
  generalize List.zipWith Operand.mk codes _ = operands
  cases source.table.exprs[id]? with
  | none => rfl
  | some e =>
    cases e with
    | literal value => rfl
    | builtin value => rfl
    | apply application =>
      simp only [ofList?_map]
      cases Application.ofList? application.op operands with
      | none => rfl
      | some application => exact substitute_applicationCode f _ application
    | call function primary secondary uv =>
      rcases operands with _ | ⟨p, _ | ⟨s, _ | ⟨u, _ | ⟨_, _⟩⟩⟩⟩ <;>
        simp [callCode, Code.substitute, substitute_as] <;> rfl

/-! ## Names that occur -/

section Names

variable {p : Nat → Prop} {q : String → Prop}

theorem all_coerce {c : Code} (h : c.All p q) (type target : ValueType) :
    (c.coerce type target).All p q := by
  cases type <;> cases target <;> exact h

theorem all_applicationCode {result : ValueType} {application : Application Operand}
    (h : ∀ x ∈ application.operands, x.code.All p q) :
    (applicationCode result application).All p q := by
  have has : ∀ x ∈ application.operands, ∀ target, (x.as target).All p q :=
    fun x hx target => all_coerce (h x hx) x.type target
  cases application with
  | unary op x =>
    simp only [Application.operands, List.mem_singleton, forall_eq] at h has
    cases op <;> cases result <;> simp [applicationCode, Code.All, h, has]
  | binary op x y =>
    simp only [Application.operands, List.mem_cons, List.not_mem_nil, or_false, forall_eq_or_imp,
      forall_eq] at has
    cases op <;> simp [applicationCode, Code.All, has]
  | ternary op x y z =>
    simp only [Application.operands, List.mem_cons, List.not_mem_nil, or_false, forall_eq_or_imp,
      forall_eq] at has
    cases op <;> simp [applicationCode, Code.All, has]

theorem operands_of_ofList? {α : Type} {op : Op} {operands : List α} {application : Application α}
    (h : Application.ofList? op operands = some application) : application.operands = operands := by
  cases op <;> rcases operands with _ | ⟨x, _ | ⟨y, _ | ⟨z, _ | ⟨_, _⟩⟩⟩⟩ <;>
    simp only [Application.ofList?, Option.some.injEq, reduceCtorEq] at h <;> subst h <;> rfl

theorem exists_ofList? {α β : Type} (application : Application α) {operands : List β}
    (h : operands.length = application.operands.length) :
    ∃ made, Application.ofList? application.op operands = some made := by
  cases application with
  | unary op x =>
    obtain ⟨a, rfl⟩ := List.length_eq_one_iff.mp h
    exact ⟨_, rfl⟩
  | binary op x y =>
    obtain ⟨a, b, rfl⟩ := List.length_eq_two.mp h
    exact ⟨_, rfl⟩
  | ternary op x y z =>
    obtain ⟨a, b, c, rfl⟩ := List.length_eq_three.mp h
    exact ⟨_, rfl⟩

theorem all_inlineCode (source : Source) {name : String} (id : ExprId) {codes : List Code}
    (hname : q name) (h : ∀ c ∈ codes, c.All p q) : (source.inlineCode name id codes).All p q := by
  have hoperands : ∀ x ∈ List.zipWith Operand.mk codes
      ((source.table.operands id).map source.typeOf), x.code.All p q := by
    intro x hx
    obtain ⟨i, hi, rfl⟩ := List.mem_iff_getElem.mp hx
    rw [List.getElem_zipWith]
    exact h _ (List.getElem_mem _)
  unfold Source.inlineCode
  generalize List.zipWith Operand.mk codes _ = operands at hoperands
  cases source.table.exprs[id]? with
  | none => trivial
  | some e =>
    cases e with
    | literal value => trivial
    | builtin value => trivial
    | apply application =>
      cases happlication : Application.ofList? application.op operands with
      | none => simp only [happlication]; trivial
      | some application =>
        simp only [happlication]
        refine all_applicationCode fun x hx => hoperands x ?_
        rwa [operands_of_ofList? happlication] at hx
    | call function primary secondary uv =>
      -- Only three operands make a call; any other number makes a literal.
      rcases operands with _ | ⟨p, _ | ⟨s, _ | ⟨u, _ | ⟨_, _⟩⟩⟩⟩ <;> try trivial
      simp only [List.mem_cons, List.not_mem_nil, or_false, forall_eq_or_imp, forall_eq]
        at hoperands
      exact ⟨hname, all_coerce hoperands.1 _ _, all_coerce hoperands.2.1 _ _,
        all_coerce hoperands.2.2 _ _⟩

end Names

end ShaderGraph.Wgsl
