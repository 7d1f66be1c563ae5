import ShaderGraph.Proofs.Operands
import ShaderGraph.Proofs.Steps
import ShaderGraph.Proofs.Wgsl.Uses

/-
Which code node a call belongs to.

The functions of a table are made one for one by code nodes, in their order. Beside a
resolution stands the list of these nodes, each with the place of its call (`Owned`): the
`f`-th of them made the `f`-th function, its call is the only one of that function, and its
answer is the blend that stands behind the call. Every call has an owner, and every code
node that has an answer is one. Nobody but its blend holds a call (`Held`), so a call is
among what the channels reach just if the expression of its owner is.

The list is no part of the resolution. Each step keeps it or adds the node that it answers
(`Step.owned`), since a pin is answered once only (`Marked`).
-/
namespace ShaderGraph

namespace Resolution

/-- The pins under way are pairwise distinct and have no answer. -/
structure Marked (state : Resolution) : Prop where
  clear : state.Clear state.inProgress
  nodup : state.inProgress.Nodup

/-- An operand is no call, or it stands right before the expression that holds it. -/
def Held (state : Resolution) : Prop :=
  ∀ (id : ExprId) e, state.expressions.exprs[id]? = some e →
    ∀ x ∈ e.operands, state.Offers x ∨ id = x + 1

end Resolution

namespace Network

/-- What the `f`-th code node made: the function and the call of it, which stands at `place`,
and the blend, which is its answer. -/
structure Made (net : Network) (state : Resolution) (f : FunctionId) (id : NodeId)
    (place : ExprId) : Prop where
  function : ∃ function, net.function? id = some function ∧
    state.expressions.functions[f]? = some function
  entries : ∃ primary secondary uv,
    state.expressions.exprs[place]? = some (.call f primary secondary uv) ∧
    state.expressions.exprs[place + 1]? = some (.apply (.ternary .mix primary secondary place))
  kept : state.cached? ⟨id, .out⟩ = some (some (place + 1))

/-- The owners of the functions, in the order of the functions, with their calls. -/
structure Owned (net : Network) (state : Resolution) (owners : List (NodeId × ExprId)) :
    Prop where
  length : owners.length = state.expressions.functions.size
  made : ∀ (f : Nat) id place, owners[f]? = some (id, place) → net.Made state f id place
  call : ∀ (place : ExprId) f primary secondary uv,
    state.expressions.exprs[place]? = some (.call f primary secondary uv) →
      ∃ id, owners[f]? = some (id, place)
  kept : ∀ id function answer, net.function? id = some function →
    state.cached? ⟨id, .out⟩ = some answer → ∃ place, (id, place) ∈ owners

def owner (owners : List (NodeId × ExprId)) (f : FunctionId) : NodeId := (owners.getD f default).1

variable {net : Network} {state later : Resolution} {owners : List (NodeId × ExprId)}

theorem owner_of_get {f : Nat} {id : NodeId} {place : ExprId} (h : owners[f]? = some (id, place)) :
    owner owners f = id := by
  rw [owner, List.getD_eq_getElem?_getD, h, Option.getD_some]

/-! ## Marks and operands -/

theorem marked_start : Resolution.Marked .start :=
  ⟨fun _ h => (nomatch h), List.nodup_nil⟩

theorem marked_remembering (hs : state.Marked) {pin : Endpoint} {rest : List Endpoint}
    (hmarks : state.inProgress = pin :: rest) (answer : Option ExprId) :
    (state.remembering pin answer).Marked := by
  obtain ⟨hclear, hnodup⟩ := hs
  rw [hmarks] at hclear hnodup
  obtain ⟨hpin, hrest⟩ := List.nodup_cons.mp hnodup
  have hafter : (state.remembering pin answer).inProgress = rest := by
    show state.inProgress.erase pin = rest
    rw [hmarks, List.erase_cons_head]
  refine ⟨?_, by rwa [hafter]⟩
  rw [hafter]
  exact Resolution.Clear.remembering (List.forall_mem_cons.mp hclear).2 hpin answer

theorem Step.marked (h : net.Step state later) (hs : state.Marked) : later.Marked := by
  cases h with
  | literal | builtin | apply | report => exact ⟨hs.clear, hs.nodup⟩
  | mark hnew hpin => exact ⟨hs.clear.marking hnew, List.nodup_cons.mpr ⟨hpin, hs.nodup⟩⟩
  | answer hmarks => exact marked_remembering hs hmarks _
  | @code _ _ f primary secondary hmarks =>
    have hblended : (state.blending f primary secondary).Marked := ⟨hs.clear, hs.nodup⟩
    exact marked_remembering hblended hmarks _

theorem held_start : Resolution.Held .start := by
  intro id e he
  simp [Resolution.start, Expressions.empty] at he

theorem held_adding (hs : state.Held) {e : Expr}
    (hstep : ∀ {x}, state.Offers x → (state.adding e).Offers x)
    (he : ∀ x ∈ e.operands, state.Offers x) : (state.adding e).Held := by
  intro id e' hget x hx
  rcases Resolution.get_adding.mp hget with hbefore | ⟨-, rfl⟩
  · exact (hs id e' hbefore x hx).imp_left hstep
  · exact .inl (hstep (he x hx))

theorem Step.held (h : net.Step state later) (hs : state.Held) : later.Held := by
  have hoffers : ∀ {x}, state.Offers x → later.Offers x := h.offers
  cases h with
  | literal | builtin => exact held_adding hs hoffers fun x hx => by cases hx
  | apply hoperands => exact held_adding hs hoffers hoperands
  | report | mark | answer => exact hs
  | code hmarks hkind hprimary hsecondary =>
    intro id e hget x hx
    rcases Resolution.get_blending.mp hget with hbefore | ⟨-, rfl⟩ | ⟨-, rfl⟩ | ⟨rfl, rfl⟩
    · exact (hs id e hbefore x hx).imp_left hoffers
    · cases hx
    · -- The call takes the operands and the coordinates.
      simp only [Expr.operands, List.mem_cons, List.not_mem_nil, or_false] at hx
      rcases hx with rfl | rfl | rfl
      · exact .inl (hoffers hprimary)
      · exact .inl (hoffers hsecondary)
      · exact .inl ⟨_, Resolution.get_blending.mpr (.inr (.inl ⟨rfl, rfl⟩)), rfl⟩
    · -- The blend takes the operands and the call right before it.
      simp only [Expr.operands, Application.operands, List.mem_cons, List.not_mem_nil,
        or_false] at hx
      rcases hx with rfl | rfl | rfl
      · exact .inl (hoffers hprimary)
      · exact .inl (hoffers hsecondary)
      · exact .inr rfl

/-! ## Owners -/

theorem owned_start (net : Network) : net.Owned .start [] where
  length := rfl
  made f id place h := by cases h
  call place f primary secondary uv h := by simp [Resolution.start, Expressions.empty] at h
  kept id function answer _ h := by cases h

theorem Made.mono {f : FunctionId} {id : NodeId} {place : ExprId} (h : net.Made state f id place)
    (hstep : net.Step state later) (hkept : later.cached? ⟨id, .out⟩ = state.cached? ⟨id, .out⟩)
    (hfunctions : ∀ function, state.expressions.functions[f]? = some function →
      later.expressions.functions[f]? = some function) : net.Made later f id place := by
  obtain ⟨function, hnode, hfunction⟩ := h.function
  obtain ⟨primary, secondary, uv, hcall, hblend⟩ := h.entries
  exact ⟨⟨function, hnode, hfunctions function hfunction⟩,
    ⟨primary, secondary, uv, hstep.exprs hcall, hstep.exprs hblend⟩, hkept.trans h.kept⟩

theorem Owned.adding (hs : net.Owned state owners) {e : Expr} (he : e.isCall = false)
    (hstep : net.Step state (state.adding e)) : net.Owned (state.adding e) owners where
  length := hs.length
  made f id place hf := (hs.made f id place hf).mono hstep rfl fun _ h => h
  call place f primary secondary uv hget := by
    rcases Resolution.get_adding.mp hget with hbefore | ⟨-, rfl⟩
    · exact hs.call place f primary secondary uv hbefore
    · cases he
  kept := hs.kept

/-- The answer of a pin that was under way changes no other, so that the owners stay. -/
theorem Owned.made_remembering (hs : net.Owned state owners) (hmarked : state.Marked)
    {pin : Endpoint} {rest : List Endpoint} (hmarks : state.inProgress = pin :: rest)
    (expressions : Expressions) {answer : Option ExprId}
    (hstep : net.Step state ({ state with expressions }.remembering pin answer))
    (hfunctions : ∀ (f : Nat) function, state.expressions.functions[f]? = some function →
      expressions.functions[f]? = some function) {f : Nat} {id : NodeId} {place : ExprId}
    (hf : owners[f]? = some (id, place)) :
    net.Made ({ state with expressions }.remembering pin answer) f id place := by
  have hmade := hs.made f id place hf
  refine hmade.mono hstep ?_ (hfunctions f)
  rw [Resolution.cached?_remembering, if_neg]
  · rfl
  · rintro rfl
    have hnew := hmarked.clear ⟨id, .out⟩ (hmarks ▸ List.mem_cons_self)
    rw [hmade.kept] at hnew
    cases hnew

/-- **Each step keeps the owners, or adds the code node that it answers.** -/
theorem Step.owned (h : net.Step state later) (hs : net.Owned state owners)
    (hmarked : state.Marked) : ∃ more, net.Owned later (owners ++ more) := by
  have hstep := h
  cases h with
  | literal | builtin | apply => exact ⟨[], by simpa using hs.adding rfl hstep⟩
  | report | mark =>
    have hmade : ∀ (f : Nat) id place, owners[f]? = some (id, place) → net.Made _ f id place :=
      fun f id place hf => (hs.made f id place hf).mono hstep rfl fun _ h => h
    refine ⟨[], ?_⟩
    rw [List.append_nil]
    exact ⟨hs.length, hmade, hs.call, hs.kept⟩
  | @answer pin rest answer hmarks hkind =>
    refine ⟨[], ?_⟩
    rw [List.append_nil]
    refine ⟨hs.length, fun f id place hf => ?_, hs.call, fun id function answer' hnode hkept => ?_⟩
    · exact hs.made_remembering hmarked hmarks state.expressions hstep (fun _ _ h => h) hf
    · rw [Resolution.cached?_remembering] at hkept
      split at hkept
      · next hid =>
        subst hid
        rw [hkind rfl] at hnode
        cases hnode
      · exact hs.kept id function answer' hnode hkept
  | @code id rest f primary secondary hmarks hkind =>
    -- The new owner stands at the end, as the function of the node does.
    have hlast : (owners ++ [(id, state.next + 1)])[state.expressions.functions.size]? =
        some (id, state.next + 1) := by
      rw [← hs.length, List.getElem?_concat_length]
    refine ⟨[(id, state.next + 1)], ?_, fun g id' place hg => ?_,
      fun place g p q uv hget => ?_, fun id' function answer hnode hkept => ?_⟩
    · rw [List.length_append, hs.length]
      exact (Array.size_push _).symm
    · rcases of_getElem?_concat hg with hg | ⟨rfl, hnew⟩
      · refine hs.made_remembering hmarked hmarks (state.blending f primary secondary).expressions
          hstep (fun g function hfunction => ?_) hg
        exact (Expressions.grows_addFunction _ f).functions g function hfunction
      · obtain ⟨rfl, rfl⟩ := Prod.mk.inj hnew
        rw [hs.length]
        refine ⟨⟨f, hkind, Expressions.addFunction_get _ f⟩,
          ⟨primary, secondary, state.next, ?_, ?_⟩, ?_⟩
        · exact Resolution.get_blending.mpr (.inr (.inr (.inl ⟨rfl, rfl⟩)))
        · exact Resolution.get_blending.mpr (.inr (.inr (.inr ⟨rfl, rfl⟩)))
        · rw [Resolution.cached?_remembering, if_pos rfl]
    · rcases Resolution.get_blending.mp hget with hbefore | ⟨-, h⟩ | ⟨rfl, h⟩ | ⟨-, h⟩
      · obtain ⟨id', hid'⟩ := hs.call place g p q uv hbefore
        have hlt := (List.getElem?_eq_some_iff.mp hid').1
        exact ⟨id', by rw [List.getElem?_append_left hlt, hid']⟩
      · cases h
      · obtain ⟨rfl, -⟩ := Expr.call.inj h
        exact ⟨id, hlast⟩
      · cases h
    · rw [Resolution.cached?_remembering] at hkept
      split at hkept
      · next hid =>
        obtain rfl : id' = id := congrArg Endpoint.node hid
        exact ⟨state.next + 1, by simp⟩
      · obtain ⟨place, hplace⟩ := hs.kept id' function answer hnode hkept
        exact ⟨place, List.mem_append_left _ hplace⟩

theorem Owned.unique (hs : net.Owned state owners) {f g : Nat} {id : NodeId}
    {place place' : ExprId} (hf : owners[f]? = some (id, place))
    (hg : owners[g]? = some (id, place')) : f = g := by
  have hmade := hs.made f id place hf
  have hmade' := hs.made g id place' hg
  -- Its answer says where its call is, and the call says what its function is.
  have hplace : place + 1 = place' + 1 :=
    Option.some.inj (Option.some.inj (hmade.kept.symm.trans hmade'.kept))
  obtain rfl : place = place' := Nat.add_right_cancel hplace
  obtain ⟨_, _, _, hcall, -⟩ := hmade.entries
  obtain ⟨_, _, _, hcall', -⟩ := hmade'.entries
  exact (Expr.call.inj (Option.some.inj (hcall.symm.trans hcall'))).1

/-- A call is held by the blend right behind it and by nothing else. -/
theorem eq_of_holds_call (hheld : state.Held) {place : ExprId} {e : Expr}
    (hplace : state.expressions.exprs[place]? = some e) (hcall : e.isCall = true) {id : ExprId}
    (hmem : place ∈ state.expressions.operands id) : id = place + 1 := by
  unfold Expressions.operands at hmem
  cases hid : state.expressions.exprs[id]? with
  | none => rw [hid] at hmem; cases hmem
  | some holder =>
    rw [hid] at hmem
    refine (hheld id holder hid place hmem).resolve_left ?_
    rintro ⟨e', he', hnot⟩
    obtain rfl := Option.some.inj (hplace.symm.trans he')
    rw [hcall] at hnot
    cases hnot

/-- **A call is reached from expressions that are offered just if its owner's blend is.** -/
theorem Made.reachable_iff {f : FunctionId} {id : NodeId} {place : ExprId}
    (h : net.Made state f id place) (hheld : state.Held) {roots : List ExprId}
    (hroots : ∀ root ∈ roots, state.Offers root) :
    state.expressions.Reachable roots place ↔ state.expressions.Reachable roots (place + 1) := by
  obtain ⟨primary, secondary, uv, hcall, hblend⟩ := h.entries
  constructor
  · rintro ⟨root, hroot, hpath⟩
    cases hpath with
    | refl =>
      obtain ⟨e, he, hnot⟩ := hroots place hroot
      obtain rfl := Option.some.inj (hcall.symm.trans he)
      cases hnot
    | tail hpath hholds =>
      rw [← eq_of_holds_call hheld hcall rfl hholds]
      exact ⟨root, hroot, hpath⟩
  · rintro ⟨root, hroot, hpath⟩
    refine ⟨root, hroot, hpath.tail ?_⟩
    rw [Expressions.operands, hblend]
    simp [Expr.operands, Application.operands]

end Network

/-! ## Compilations -/

namespace Snapshot

variable {snapshot : Snapshot} {defaults : MaterialDefaults} {material : NodeMaterial}

theorem steps_of_compile (h : (snapshot.compile defaults).material = .node material) :
    snapshot.network.Steps .start (snapshot.resolution defaults) ∧
      material.expressions = (snapshot.resolution defaults).expressions ∧
      ∀ channel, (snapshot.resolution defaults).Offers (material.channels.get channel) := by
  obtain ⟨channels, later, hrun, rfl, -⟩ := run_of_compile h
  have hlater : snapshot.resolution defaults = later := by rw [resolution, hrun]
  rw [hlater]
  obtain ⟨hsteps, -, hchannels⟩ := Network.walks_resolveChannels snapshot.network
    Resolution.offering_start defaults channels later hrun
  exact ⟨hsteps, rfl, hchannels⟩

/-- The calls of a compilation have owners, nothing but blends holds them, and no channel is
one of them. -/
theorem owned_of_compile (h : (snapshot.compile defaults).material = .node material) :
    (∃ owners, snapshot.network.Owned (snapshot.resolution defaults) owners) ∧
      (snapshot.resolution defaults).Held ∧
      ∀ channel, (snapshot.resolution defaults).Offers (material.channels.get channel) := by
  obtain ⟨hsteps, -, hchannels⟩ := steps_of_compile h
  have howned : (snapshot.resolution defaults).Marked ∧
      ∃ owners, snapshot.network.Owned (snapshot.resolution defaults) owners := by
    refine hsteps.keep (P := fun state => state.Marked ∧ ∃ owners,
      snapshot.network.Owned state owners) (fun hstep hs => ?_)
      ⟨Network.marked_start, [], Network.owned_start snapshot.network⟩
    obtain ⟨hmarked, owners, howned⟩ := hs
    obtain ⟨more, hmore⟩ := hstep.owned howned hmarked
    exact ⟨hstep.marked hmarked, owners ++ more, hmore⟩
  exact ⟨howned.2, hsteps.keep (fun hstep => hstep.held) Network.held_start, hchannels⟩

end Snapshot

end ShaderGraph
