import ShaderGraph.Proofs.Wgsl.Counting
import ShaderGraph.Proofs.Wgsl.Sharing

/-
How often a name is mentioned.

The code of an expression mentions what the codes of its operands mention, each of them once
(`mentions_inlineCode`). So an emission mentions the name of an expression once for each place
that it visits and that holds the expression, whether that place had the name, gave it or is
an operand somewhere below (`Emits.mentions`). From the roots that makes as many mentions as
there are references. Together with the counts of the walk over the roots this says that uses
are counted exactly (`NodeMaterial.uses_exact`).
-/
namespace ShaderGraph.Wgsl

/-! ## Code -/

/-- How often the name of a number occurs. -/
def Code.mentions (k : Nat) : Code → Nat
  | literal _ => 0
  | builtin _ => 0
  | bound index => if index = k then 1 else 0
  | arithmetic _ x y => x.mentions k + y.mentions k
  | pow x y => x.mentions k + y.mentions k
  | apply1 _ x => x.mentions k
  | apply3 _ x y z => x.mentions k + y.mentions k + z.mentions k
  | call _ primary secondary uv => primary.mentions k + secondary.mentions k + uv.mentions k
  | splat _ x => x.mentions k
  | pad x => x.mentions k
  | firstOf x => x.mentions k
  | firstTwoOf x => x.mentions k

def mentionsIn (k : Nat) (codes : List Code) : Nat := (codes.map (Code.mentions k)).sum

variable (k : Nat)

@[simp] theorem mentionsIn_nil : mentionsIn k [] = 0 := rfl

@[simp] theorem mentionsIn_cons (code : Code) (codes : List Code) :
    mentionsIn k (code :: codes) = code.mentions k + mentionsIn k codes := by
  simp [mentionsIn]

@[simp] theorem mentionsIn_append (codes more : List Code) :
    mentionsIn k (codes ++ more) = mentionsIn k codes + mentionsIn k more := by
  simp [mentionsIn]

theorem mentions_coerce (code : Code) (type target : ValueType) :
    (code.coerce type target).mentions k = code.mentions k := by
  cases type <;> cases target <;> rfl

theorem mentions_as (operand : Operand) (target : ValueType) :
    (operand.as target).mentions k = operand.code.mentions k :=
  mentions_coerce k operand.code operand.type target

theorem mentions_applicationCode (result : ValueType) (application : Application Operand) :
    (applicationCode result application).mentions k =
      mentionsIn k (application.operands.map Operand.code) := by
  cases application with
  | unary op x =>
    cases op <;> cases result <;>
      simp [applicationCode, Code.mentions, mentions_as, Application.operands]
  | binary op x y =>
    cases op <;> simp [applicationCode, Code.mentions, mentions_as, Application.operands]
  | ternary op x y z =>
    cases op <;>
      simp [applicationCode, Code.mentions, mentions_as, Application.operands, Nat.add_assoc]

/-- **The code of an expression** mentions what the codes of its operands mention. -/
theorem mentions_inlineCode (source : Source) (name : String) (id : ExprId) {codes : List Code}
    (h : codes.length = (source.table.operands id).length) :
    (source.inlineCode name id codes).mentions k = mentionsIn k codes := by
  have hcodes : (List.zipWith Operand.mk codes
      ((source.table.operands id).map source.typeOf)).map Operand.code = codes := by
    refine List.ext_getElem (by simp [h]) fun i hi hi' => ?_
    simp
  unfold Source.inlineCode
  generalize List.zipWith Operand.mk codes _ = operands at hcodes
  subst hcodes
  rw [List.length_map] at h
  unfold Expressions.operands at h
  cases he : source.table.exprs[id]? with
  | none =>
    rw [he] at h
    obtain rfl := List.length_eq_zero_iff.mp h
    rfl
  | some e =>
    rw [he] at h
    cases e with
    | literal value =>
      obtain rfl := List.length_eq_zero_iff.mp h
      rfl
    | builtin value =>
      obtain rfl := List.length_eq_zero_iff.mp h
      rfl
    | apply application =>
      obtain ⟨made, hmade⟩ := exists_ofList? application h
      simp only [hmade]
      rw [mentions_applicationCode, operands_of_ofList? hmade]
    | call function primary secondary uv =>
      obtain ⟨p, s, u, rfl⟩ := List.length_eq_three.mp h
      simp [callCode, Code.mentions, mentions_as, Nat.add_assoc]

/-! ## Emissions -/

namespace Emits

variable {k} {source : Source} {state later : Emission} {ids log : List ExprId} {codes : List Code}

theorem length_codes (h : Emits source state ids codes later log) : codes.length = ids.length := by
  induction h with
  | done state => rfl
  | named hname hrest ih => exact congrArg Nat.succ ih
  | written hname hshared hoperands hrest ih ih' | bound hname hshared hoperands hrest ih ih' =>
    exact congrArg Nat.succ ih'

/-- **An emission mentions a name as often as it visits** the expression that has the name in
the end. -/
theorem mentions (ho : source.table.Ordered) {e : ExprId} (he : source.isShared e = true)
    (h : Emits source state ids codes later log)
    (hnames : ∀ x j, later.names.lookup x = some j → (j = k ↔ x = e)) :
    mentionsIn k codes + mentionsIn k later.bindings =
      mentionsIn k state.bindings + (ids ++ log.flatMap source.table.operands).count e := by
  induction h with
  | done state => simp
  | @named state later id j ids log codes hname hrest ih =>
    have hhead := hnames id j (hrest.names_kept ho hname)
    have hrest := ih hnames
    simp only [mentionsIn_cons, Code.mentions, hhead, List.cons_append, List.count_cons, beq_iff_eq]
    omega
  | @written state inner later id ids below log operands codes hname hshared hoperands hrest
      ih ih' =>
    -- The expression itself is not shared, so it is another one.
    have hne : id ≠ e := by
      rintro rfl
      rw [he] at hshared
      cases hshared
    have hbelow := ih fun x j hx => hnames x j (hrest.names_kept ho hx)
    have hlog := ih' hnames
    simp only [mentionsIn_cons, mentions_inlineCode k source _ id hoperands.length_codes,
      List.cons_append, List.flatMap_cons, List.flatMap_append, List.count_cons_of_ne hne,
      List.count_append, Emission.declaring] at hbelow hlog ⊢
    omega
  | @bound state inner later id ids below log operands codes hname hshared hoperands hrest
      ih ih' =>
    have hkept : ∀ x j, inner.names.lookup x = some j → later.names.lookup x = some j :=
      fun x j hx => hrest.names_kept ho
        (lookup_binding_of_lookup (hoperands.not_named ho hname) _ hx)
    have hgiven := hnames id inner.bindings.length
      (hrest.names_kept ho (by simp [Emission.binding]))
    have hbelow := ih fun x j hx => hnames x j (hkept x j hx)
    have hlog := ih' hnames
    simp only [mentionsIn_cons, mentionsIn_append, mentionsIn_nil, Emission.binding, Code.mentions,
      mentions_inlineCode k source _ id hoperands.length_codes, hgiven, List.cons_append,
      List.flatMap_cons, List.flatMap_append, List.count_cons, List.count_append, beq_iff_eq,
      Emission.declaring] at hbelow hlog ⊢
    omega

end Emits

/-! ## Modules -/

/-- How often the bindings and the channels mention the name of a number. -/
def Module.mentions (m : Module) (k : Nat) : Nat :=
  mentionsIn k m.bindings + mentionsIn k m.channels.toList

variable {material : NodeMaterial}

theorem exists_mentions (h : material.WellFormed) {e : ExprId}
    (he : material.expressions.operands e ≠ [])
    (htwo : 2 ≤ material.expressions.references material.channels.toList e) :
    ∃ k, (finalEmission material).names.lookup e = some k ∧
      (Module.ofMaterial material).mentions k =
        material.expressions.references material.channels.toList e := by
  obtain ⟨codes, log, htrace, hget⟩ := exists_trace h
  have hnamed := (htrace.named_iff h.ordered (root_lt h) e).mpr ⟨he, htwo⟩
  obtain ⟨k, hk⟩ := Option.isSome_iff_exists.mp hnamed
  have hshared := (isShared_ofRoots h.ordered e).mpr ⟨he, htwo⟩
  have hnumbered := htrace.numbered h.ordered numbered_start
  have hmentions := htrace.mentions (k := k) h.ordered hshared fun x j hx => by
    constructor
    · rintro rfl
      exact hnumbered.eq_of_lookup hx hk
    · rintro rfl
      exact Option.some.inj (hx.symm.trans hk)
  have hchannels : mentionsIn k (Module.ofMaterial material).channels.toList =
      mentionsIn k codes.toList := by
    simp only [mentionsIn, PerChannel.toList, List.map_map]
    refine congrArg List.sum (List.map_congr_left fun channel _ => ?_)
    exact (congrArg (Code.mentions k) (hget channel)).trans (mentions_coerce k _ _ _)
  refine ⟨k, hk, ?_⟩
  rw [Module.mentions, hchannels, Nat.add_comm]
  refine hmentions.trans ?_
  rw [mentionsIn_nil, Nat.zero_add]
  exact htrace.count_visits h.ordered (root_lt h) (Expressions.lt_size_of_operands he)

end ShaderGraph.Wgsl

namespace ShaderGraph

open Wgsl

/-- **Uses are counted exactly.** Counted on a walk over the channels in their order, an
expression that can be reached has a count, which is the number of places that hold it: among
the channels, and among the operands of the expressions that can be reached, each of these
taken once; no other expression has a count, and the emission has the same counts. It visits
an expression with operands as often as it is counted and writes it out once; if that is twice
or more, the expression has a name, and the module mentions the name so often. -/
theorem NodeMaterial.uses_exact (material : NodeMaterial) (h : material.WellFormed) :
    let table := material.expressions
    let roots := material.channels.toList
    let counts := table.countUses roots
    let source := materialSource material
    let final := finalEmission material
    let m := Module.ofMaterial material
    (∀ e, table.Reachable roots e → counts.get? e = some (table.references roots e)) ∧
    (∀ e, ¬ table.Reachable roots e → counts.get? e = none) ∧
    (∀ e, source.uses.getD e 0 = counts.of e) ∧
    (∃ (codes : PerChannel Code) (log : List ExprId),
      Emits source ⟨[], [], []⟩ roots codes.toList final log ∧
      (∀ channel, m.channels.get channel = (codes.get channel).coerce
        (source.typeOf (material.channels.get channel)) (channelType channel)) ∧
      ∀ e, table.operands e ≠ [] →
        (roots ++ log.flatMap table.operands).count e = counts.of e ∧
        log.count e = if counts.of e = 0 then 0 else 1) ∧
    ∀ e, table.operands e ≠ [] → 2 ≤ counts.of e →
      ∃ k, final.names.lookup e = some k ∧ m.mentions k = counts.of e := by
  intro table roots counts source final m
  have hwalk := Expressions.get?_countUses h.ordered (root_lt h)
  have hpass := Expressions.of_countUses h.ordered (root_lt h)
  have hcounts : ∀ e, table.operands e ≠ [] → counts.of e = table.references roots e :=
    fun e he => (hpass e).trans
      (useCounts_eq_references h.ordered (Expressions.lt_size_of_operands he))
  obtain ⟨codes, log, htrace, hget⟩ := exists_trace h
  refine ⟨fun e => (hwalk e).1, fun e => (hwalk e).2, fun e => (hpass e).symm,
    ⟨codes, log, htrace, hget, fun e he => ?_⟩, fun e he htwo => ?_⟩
  · have hvisits := htrace.count_visits h.ordered (root_lt h) (Expressions.lt_size_of_operands he)
    rw [hcounts e he]
    exact ⟨hvisits, htrace.count_of_visits h.ordered he hvisits⟩
  · rw [hcounts e he] at htwo ⊢
    exact exists_mentions h he htwo

/-- A sine that two channels take, and a product of it with itself that no channel leads to. -/
def unusedProduct : NodeMaterial where
  expressions :=
    { exprs := #[.builtin .time, .apply (.unary .sin 0), .apply (.binary .mul 1 1)]
      functions := #[] }
  channels :=
    { baseColor := 1, emissive := 1, roughness := 0, metalness := 0, normal := 0, opacity := 0 }
  side := .double
  transparent := true

theorem uses_of_unusedProduct :
    unusedProduct.WellFormed ∧
      unusedProduct.expressions.Reachable unusedProduct.channels.toList 1 ∧
      unusedProduct.expressions.references unusedProduct.channels.toList 1 = 2 ∧
      ¬ unusedProduct.expressions.Reachable unusedProduct.channels.toList 2 ∧
      ∃ k, (finalEmission unusedProduct).names.lookup 1 = some k ∧
        (Module.ofMaterial unusedProduct).mentions k = 2 := by
  have hwell : unusedProduct.WellFormed := ⟨by decide, fun channel => by cases channel <;> decide⟩
  obtain ⟨hreached, -, -, -, hmentions⟩ := NodeMaterial.uses_exact unusedProduct hwell
  have hreach : unusedProduct.expressions.Reachable unusedProduct.channels.toList 1 :=
    ⟨1, by decide, .refl⟩
  refine ⟨hwell, hreach, ?_, fun hproduct => ?_, hmentions 1 (by decide) (by decide)⟩
  · exact (Option.some.inj (hreached 1 hreach)).symm
  · cases hreached 2 hproduct

end ShaderGraph
