import ShaderGraph.Proofs.Memory
import ShaderGraph.Proofs.Entries
import Mathlib.Logic.Relation

/-
Why a resolution fails.

An output pin depends on the pins that feed the declared inputs of its node
(`Network.DependsOn`). `Network.Reason` lists what can go wrong among the pins that
an output pin leads to: one that depends on itself, an input node whose value is
not finite, a code node whose body is refused. The walk fails only for such a
reason (`walk_error`), since the pins on its path all lead to the present one, and
where it does not fail there is none (`walk_ok`), since it has then walked to the
end from every pin it leads to. That carries over to the resolution with memory.
-/
namespace ShaderGraph

open Relation

/-! ## Relations -/

namespace Network

/-- The pin `out` of a math or code node depends on what the first edge into one of
the node's inputs starts at, if that node is there. -/
inductive DependsOn (net : Network) : Endpoint → Endpoint → Prop
  | feed {id : NodeId} {node source : Node} {input : Pin} {edge : Edge}
      (hnode : net.node? id = some node)
      (hcategory : node.category = .math ∨ node.category = .code)
      (hinput : input ∈ node.kind.inputs)
      (hedge : net.feeding? ⟨id, input.key⟩ = some edge)
      (hsource : net.node? edge.source.node = some source) :
      DependsOn net ⟨id, .out⟩ edge.source

/-- One pin depends on the other directly, through others, or is the other. -/
abbrev Reaches (net : Network) : Endpoint → Endpoint → Prop := ReflTransGen net.DependsOn

/-- What makes the node of an `out` pin fail by itself. -/
inductive Fault (net : Network) : Endpoint → ResolveError → Prop
  | value {id : NodeId} {node : Node} {type : InputType} {literal : Literal}
      {color : Option String} (hnode : net.node? id = some node)
      (hkind : node.kind = .input type (some literal) color)
      (hvalue : literal.isFinite = false) : Fault net ⟨id, .out⟩ (.nonFiniteValue id)
  | code {id : NodeId} {node : Node} {source : String} {socket : Socket} {error : CodeError}
      (hnode : net.node? id = some node) (hkind : node.kind = .code source socket)
      (hcode : CodeFunction.make (CodeFunction.nameOfNode id) source = .error error) :
      Fault net ⟨id, .out⟩ (.code error)

/-- What can go wrong among the pins that a pin leads to. -/
inductive Reason (net : Network) (pin : Endpoint) : ResolveError → Prop
  | cycle {id : NodeId} (hreach : net.Reaches pin ⟨id, .out⟩)
      (hcycle : TransGen net.DependsOn ⟨id, .out⟩ ⟨id, .out⟩) : Reason net pin (.cycle ⟨id, .out⟩)
  | fault {q : Endpoint} {error : ResolveError} (hreach : net.Reaches pin q)
      (hfault : net.Fault q error) : Reason net pin error

/-- Nodes are found by their own ids. -/
def Keyed (net : Network) : Prop := ∀ id node, net.node? id = some node → node.id = id

end Network

/-! ## Nodes -/

section Except

variable {ε α β : Type}

theorem except_bind_ok {x : Except ε α} {f : α → Except ε β} {b : β} (h : x >>= f = .ok b) :
    ∃ a, x = .ok a ∧ f a = .ok b := by
  cases x with
  | error e => cases h
  | ok a => exact ⟨a, rfl, h⟩

theorem except_bind_error {x : Except ε α} {f : α → Except ε β} {e : ε}
    (h : x >>= f = .error e) : x = .error e ∨ ∃ a, x = .ok a ∧ f a = .error e := by
  cases x with
  | error e' => exact .inl (congrArg Except.error (Except.error.inj h))
  | ok a => exact .inr ⟨a, rfl, h⟩

theorem Application.mapM_error {f : α → Except ε β} {a : Application α} {e : ε}
    (h : a.mapM f = .error e) : ∃ x ∈ a.operands, f x = .error e := by
  cases a with
  | unary op x =>
    rcases except_bind_error h with h | ⟨_, _, h⟩
    · exact ⟨x, by simp [operands], h⟩
    · cases h
  | binary op x y =>
    rcases except_bind_error h with h | ⟨_, _, h⟩
    · exact ⟨x, by simp [operands], h⟩
    rcases except_bind_error h with h | ⟨_, _, h⟩
    · exact ⟨y, by simp [operands], h⟩
    · cases h
  | ternary op x y z =>
    rcases except_bind_error h with h | ⟨_, _, h⟩
    · exact ⟨x, by simp [operands], h⟩
    rcases except_bind_error h with h | ⟨_, _, h⟩
    · exact ⟨y, by simp [operands], h⟩
    rcases except_bind_error h with h | ⟨_, _, h⟩
    · exact ⟨z, by simp [operands], h⟩
    · cases h

theorem Application.mapM_ok {f : α → Except ε β} {a : Application α} {b : Application β}
    (h : a.mapM f = .ok b) : ∀ x ∈ a.operands, ∃ y, f x = .ok y := by
  cases a with
  | unary op x =>
    obtain ⟨x', hx, _⟩ := except_bind_ok h
    simpa [operands] using ⟨x', hx⟩
  | binary op x y =>
    obtain ⟨x', hx, h⟩ := except_bind_ok h
    obtain ⟨y', hy, _⟩ := except_bind_ok h
    simp [operands, hx, hy]
  | ternary op x y z =>
    obtain ⟨x', hx, h⟩ := except_bind_ok h
    obtain ⟨y', hy, h⟩ := except_bind_ok h
    obtain ⟨z', hz, _⟩ := except_bind_ok h
    simp [operands, hx, hy, hz]

end Except

theorem Application.mapM_eq_pure {m : Type → Type} [Monad m] [LawfulMonad m] {α β : Type}
    {f : α → m β} {g : α → β} {a : Application α} (h : ∀ x ∈ a.operands, f x = pure (g x)) :
    a.mapM f = pure (a.map g) := by
  cases a <;> simp_all [mapM, map, operands]

namespace Node

variable {node : Node} {feed : PinKey → Except ResolveError (Option Tree)}

theorem tree_error {error : ResolveError} (h : node.tree feed = .error error) :
    (∃ type literal color, node.kind = .input type (some literal) color ∧
      literal.isFinite = false ∧ error = .nonFiniteValue node.id) ∨
    (∃ source socket e, node.kind = .code source socket ∧
      CodeFunction.make (CodeFunction.nameOfNode node.id) source = .error e ∧ error = .code e) ∨
    ((node.category = .math ∨ node.category = .code) ∧
      ∃ input ∈ node.kind.inputs, feed input.key = .error error) := by
  simp only [tree, category] at h ⊢
  cases hkind : node.kind with
  | input type value color =>
    rw [hkind] at h
    cases value with
    | none => cases h
    | some literal =>
      by_cases hf : literal.isFinite = true
      · simp [hf] at h
      · simp only [hf, Bool.false_eq_true, if_false, Except.error.injEq] at h
        exact .inl ⟨type, literal, color, rfl, by simpa using hf, h.symm⟩
  | math type =>
    rw [hkind] at h
    refine .inr (.inr ⟨.inl rfl, ?_⟩)
    rcases except_bind_error h with h | ⟨_, _, h⟩
    · obtain ⟨input, hinput, h⟩ := Application.mapM_error h
      rcases except_bind_error h with h | ⟨_, _, h⟩
      · exact ⟨input, hinput, h⟩
      · cases h
    · cases h
  | output channel => rw [hkind] at h; cases h
  | code source socket =>
    rw [hkind] at h
    rcases except_bind_error h with h | ⟨_, _, h⟩
    · exact .inr (.inr ⟨.inr rfl, ⟨.primary, "Primary", .vec3⟩,
        by simp [NodeKind.inputs, codeInputs], h⟩)
    rcases except_bind_error h with h | ⟨_, _, h⟩
    · exact .inr (.inr ⟨.inr rfl, ⟨.secondary, "Secondary", .vec3⟩,
        by simp [NodeKind.inputs, codeInputs], h⟩)
    cases hmake : CodeFunction.make (CodeFunction.nameOfNode node.id) source with
    | error e =>
      rw [hmake] at h
      exact .inr (.inl ⟨source, socket, e, rfl, hmake, (Except.error.inj h).symm⟩)
    | ok f => rw [hmake] at h; cases h

theorem tree_ok {tree : Option Tree} (h : node.tree feed = .ok tree) :
    (∀ type literal color, node.kind = .input type (some literal) color →
      literal.isFinite = true) ∧
    (∀ source socket, node.kind = .code source socket →
      ∃ f, CodeFunction.make (CodeFunction.nameOfNode node.id) source = .ok f) ∧
    ((node.category = .math ∨ node.category = .code) →
      ∀ input ∈ node.kind.inputs, ∃ t, feed input.key = .ok t) := by
  simp only [Node.tree, category] at h ⊢
  cases hkind : node.kind with
  | input type value color =>
    rw [hkind] at h
    refine ⟨?_, by simp, by simp⟩
    rintro type' literal color' ⟨⟩
    by_contra hf
    simp [hf] at h
  | math type =>
    rw [hkind] at h
    refine ⟨by simp, by simp, fun _ input hinput => ?_⟩
    obtain ⟨trees, htrees, _⟩ := except_bind_ok h
    obtain ⟨t, ht⟩ := Application.mapM_ok htrees input hinput
    obtain ⟨t', ht', _⟩ := except_bind_ok ht
    exact ⟨t', ht'⟩
  | output channel => simp
  | code source socket =>
    rw [hkind] at h
    obtain ⟨p, hp, h⟩ := except_bind_ok h
    obtain ⟨s, hs, h⟩ := except_bind_ok h
    refine ⟨by simp, ?_, fun _ input hinput => ?_⟩
    · rintro source' socket' ⟨⟩
      cases hmake : CodeFunction.make (CodeFunction.nameOfNode node.id) source with
      | error e => rw [hmake] at h; cases h
      | ok f => exact ⟨f, rfl⟩
    · simp only [NodeKind.inputs, codeInputs, List.mem_cons, List.not_mem_nil, or_false] at hinput
      rcases hinput with rfl | rfl
      · exact ⟨p, hp⟩
      · exact ⟨s, hs⟩

end Node

/-! ## Walks -/

/-- What no infinite chain starts from does not lead to itself. -/
theorem not_transGen_self {α : Type} {r : α → α → Prop} {a : α}
    (h : Acc (Function.swap r) a) : ¬ TransGen r a a := by
  have hacc : Acc (TransGen (Function.swap r)) a := h.transGen
  rw [← transGen_swap]
  induction hacc with
  | intro a _ ih => exact fun ha => ih a ha (h.inv_of_transGen ha) ha

namespace Network

variable {net : Network} {path : List Endpoint} {pin source : Endpoint} {error : ResolveError}

theorem DependsOn.pin_eq (h : net.DependsOn pin source) : pin = ⟨pin.node, .out⟩ := by
  cases h; rfl

theorem pin_eq_of_transGen (h : TransGen net.DependsOn pin source) : pin = ⟨pin.node, .out⟩ := by
  obtain ⟨_, h, _⟩ := TransGen.head'_iff.mp h
  exact h.pin_eq

theorem Reason.head (h : net.DependsOn pin source) (hr : net.Reason source error) :
    net.Reason pin error := by
  cases hr with
  | cycle hreach hcycle => exact .cycle (.head h hreach) hcycle
  | fault hreach hfault => exact .fault (.head h hreach) hfault

theorem walkInput_error (h : net.walkInput path pin = .error error) :
    ∃ edge source, net.feeding? pin = some edge ∧ net.node? edge.source.node = some source ∧
      net.walk path edge.source = .error error := by
  simp only [walkInput] at h
  cases hedge : net.feeding? pin with
  | none => rw [hedge] at h; cases h
  | some edge =>
    rw [hedge] at h
    change net.walk path edge.source = .error error at h
    cases hnode : net.node? edge.source.node with
    | none => rw [walk_of_missing hnode] at h; cases h
    | some source => exact ⟨edge, source, rfl, hnode, h⟩

/-- **A walk fails for a reason**, if the pins on its path lead to where it is. -/
theorem walk_error (hkeyed : net.Keyed) (hpath : ∀ q ∈ path, TransGen net.DependsOn q pin)
    (h : net.walk path pin = .error error) : net.Reason pin error := by
  induction hn : (net.unvisited path).length using Nat.strongRecOn generalizing path pin with
  | ind n ih =>
    subst hn
    obtain ⟨id, key⟩ := pin
    cases hnode : net.node? id with
    | none => rw [walk_of_missing hnode] at h; cases h
    | some node =>
      by_cases hp : ⟨id, key⟩ ∈ path
      · -- The pin lies on its own path, so it leads to itself.
        rw [walk_of_mem hnode hp] at h
        obtain rfl := Except.error.inj h
        have hcycle := hpath _ hp
        obtain rfl : key = .out := congrArg Endpoint.pin (pin_eq_of_transGen hcycle)
        exact .cycle .refl hcycle
      · by_cases hout : key = .out
        · subst hout
          rw [walk_of_out hnode hp rfl] at h
          rcases Node.tree_error h with ⟨type, literal, color, hkind, hvalue, rfl⟩ |
            ⟨source, socket, e, hkind, hcode, rfl⟩ | ⟨hcategory, input, hinput, hfeed⟩
          · rw [hkeyed id node hnode]
            exact .fault .refl (.value hnode hkind hvalue)
          · rw [hkeyed id node hnode] at hcode
            exact .fault .refl (.code hnode hkind hcode)
          · -- What feeds an input fails, with the pin on the path to it.
            obtain ⟨edge, source, hedge, hsource, hwalk⟩ := walkInput_error hfeed
            have hstep : net.DependsOn ⟨id, .out⟩ edge.source :=
              .feed hnode hcategory hinput hedge hsource
            have hpath' : ∀ q ∈ ⟨id, .out⟩ :: path, TransGen net.DependsOn q edge.source := by
              intro q hq
              rcases List.mem_cons.mp hq with rfl | hq
              · exact .single hstep
              · exact (hpath q hq).tail hstep
            exact .head hstep (ih _ (unvisited_cons_lt hnode hp rfl) hpath' hwalk rfl)
        · rw [walk_of_not_out hp hout] at h; cases h

/-- Where a walk does not fail, no chain of pins goes on for ever, and no pin it
leads to fails by itself. -/
theorem walk_ok (hkeyed : net.Keyed) {tree : Option Tree} (h : net.walk path pin = .ok tree) :
    Acc (Function.swap net.DependsOn) pin ∧
      ∀ q, net.Reaches pin q → ∀ e, ¬ net.Fault q e := by
  induction hn : (net.unvisited path).length using Nat.strongRecOn
    generalizing path pin tree with
  | ind n ih =>
    subst hn
    -- The claim for what the pin depends on, and for the pin alone, is enough.
    suffices hsuff : (∀ source, net.DependsOn pin source →
        Acc (Function.swap net.DependsOn) source ∧
          ∀ q, net.Reaches source q → ∀ e, ¬ net.Fault q e) ∧ ∀ e, ¬ net.Fault pin e by
      refine ⟨.intro pin fun source hs => (hsuff.1 source hs).1, fun q hq => ?_⟩
      rcases hq.cases_head with rfl | ⟨source, hs, hq⟩
      · exact hsuff.2
      · exact (hsuff.1 source hs).2 q hq
    have hwalk : ∀ {id node}, pin = ⟨id, .out⟩ → net.node? id = some node → pin ∉ path ∧
        node.tree (fun key => net.walkInput (⟨id, .out⟩ :: path) ⟨id, key⟩) = .ok tree := by
      rintro id node rfl hnode
      have hp : ⟨id, .out⟩ ∉ path := by
        intro hp
        rw [walk_of_mem hnode hp] at h
        cases h
      exact ⟨hp, by rw [← walk_of_out hnode hp rfl]; exact h⟩
    refine ⟨fun source hs => ?_, fun e he => ?_⟩
    · cases hs with
      | feed hnode hcategory hinput hedge hsource =>
        obtain ⟨hp, htree⟩ := hwalk rfl hnode
        obtain ⟨t, ht⟩ := (Node.tree_ok htree).2.2 hcategory _ hinput
        simp only [walkInput, hedge] at ht
        exact ih _ (unvisited_cons_lt hnode hp rfl) ht rfl
    · cases he with
      | value hnode hkind hvalue =>
        obtain ⟨-, htree⟩ := hwalk rfl hnode
        have := (Node.tree_ok htree).1 _ _ _ hkind
        simp [hvalue] at this
      | code hnode hkind hcode =>
        obtain ⟨-, htree⟩ := hwalk rfl hnode
        obtain ⟨f, hf⟩ := (Node.tree_ok htree).2.1 _ _ hkind
        rw [hkeyed _ _ hnode, hcode] at hf
        cases hf

/-- **A walk that does not fail had no reason to.** -/
theorem no_reason_of_walk_ok (hkeyed : net.Keyed) {tree : Option Tree}
    (h : net.walk path pin = .ok tree) : ¬ net.Reason pin error := by
  obtain ⟨hacc, hfault⟩ := walk_ok hkeyed h
  intro hr
  cases hr with
  | cycle hreach hcycle =>
    refine not_transGen_self ?_ hcycle
    rcases reflTransGen_iff_eq_or_transGen.mp hreach with rfl | hreach
    · exact hacc
    · exact hacc.inv_of_transGen (transGen_swap.mpr hreach)
  | fault hreach hq => exact hfault _ hreach _ hq

end Network

/-! ## Resolutions -/

namespace Snapshot

theorem keyed_network (snapshot : Snapshot) : snapshot.network.Keyed :=
  fun _ _ h => id_of_node? h

/-- **A resolution fails exactly for a reason in the graph**: it fails if and only
if a pin that the asked one leads to depends on itself, or is that of an input node
whose value is not finite or of a code node whose body is refused; and the failure
it tells is one of these. -/
theorem resolveOutput_fails_iff (snapshot : Snapshot) (pin : Endpoint) :
    ((∃ halt, (snapshot.network.resolveOutput pin .start).1 = .error halt) ↔
      ∃ error, snapshot.network.Reason pin error) ∧
    ∀ halt, (snapshot.network.resolveOutput pin .start).1 = .error halt →
      ∃ error, halt = .failed error ∧ snapshot.network.Reason pin error := by
  have hkeyed := snapshot.keyed_network
  have hmirrors := Network.mirrors_resolveOutput (Network.sound_start snapshot.network) pin
  have htold : ∀ halt, (snapshot.network.resolveOutput pin .start).1 = .error halt →
      ∃ error, halt = .failed error ∧ snapshot.network.Reason pin error := by
    intro halt hhalt
    cases halt with
    | depthExceeded => exact absurd hhalt hmirrors.bounded
    | failed error =>
      have hwalk : snapshot.network.walk [] pin = .error error := hmirrors.fails error hhalt
      exact ⟨error, rfl, Network.walk_error hkeyed (List.forall_mem_nil _) hwalk⟩
  refine ⟨⟨fun ⟨halt, hhalt⟩ => ?_, fun ⟨error, hreason⟩ => ?_⟩, htold⟩
  · obtain ⟨error, -, hreason⟩ := htold halt hhalt
    exact ⟨error, hreason⟩
  · cases hrun : (snapshot.network.resolveOutput pin .start).1 with
    | error halt => exact ⟨halt, rfl⟩
    | ok answer =>
      obtain ⟨tree, -, hwalk⟩ := hmirrors.answers answer hrun
      exact absurd hreason
        (Network.no_reason_of_walk_ok hkeyed (hwalk [] (List.forall_mem_nil _)))

end Snapshot

end ShaderGraph
