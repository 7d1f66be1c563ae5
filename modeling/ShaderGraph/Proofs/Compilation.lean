import ShaderGraph.Material
import ShaderGraph.Proofs.Dependence
import ShaderGraph.Proofs.Frame
import ShaderGraph.Proofs.Queries

/-
What a compilation comes to.

`Snapshot.channelValue` tells for each channel alone what it comes to: a failure, or
a tree and at most one message. The channels are compiled on one resolution, in the
order of `compileOrder`; the first that fails decides the outcome, and where none
fails the outcome holds all their trees and messages (`compile_outcome`). What one
channel adds to this is said once (`follows_resolveChannelWith`), and `Follows` chains
the channels.
-/
namespace ShaderGraph

/-- The order in which a compilation resolves the channels. -/
def compileOrder : List Channel :=
  [.baseColor, .emissive, .roughness, .metalness, .opacity, .normal]

/-- What a channel that does not fail comes to. -/
structure ChannelValue where
  tree : Tree
  message : Option String
  deriving DecidableEq, Repr

/-- The message for a channel whose output node nothing feeds. -/
def missingInput (channel : Channel) (node : Node) : String :=
  "Missing input for " ++ if Text.isAllBlank node.title then channel.displayName else node.title

namespace Snapshot

/-- The node that ends a channel: the first of its kind among the settled nodes. -/
def output? (snapshot : Snapshot) (channel : Channel) : Option Node :=
  snapshot.settledNodes.find? (·.channel? == some channel)

/-- What a channel comes to, by the walk that keeps nothing. -/
def channelValue (snapshot : Snapshot) (defaults : MaterialDefaults) (channel : Channel) :
    Except ResolveError ChannelValue :=
  let fallback := Tree.literal ((defaults.channel channel).shapedFor channel.socket)
  if (defaults.channel channel).isFinite then
    match snapshot.output? channel with
    | none => .ok ⟨fallback, none⟩
    | some node =>
      match snapshot.network.walkInput [] ⟨node.id, .input⟩ with
      | .error error => .error error
      | .ok (some tree) => .ok ⟨tree, none⟩
      | .ok none => .ok ⟨fallback, some (missingInput channel node)⟩
  else .error (.nonFiniteDefault channel)

/-- The failure of the first channel that fails. -/
def failure? (snapshot : Snapshot) (defaults : MaterialDefaults) (channels : List Channel) :
    Option ResolveError :=
  channels.findSome? fun channel =>
    match snapshot.channelValue defaults channel with
    | .error error => some error
    | .ok _ => none

def messages (snapshot : Snapshot) (defaults : MaterialDefaults) (channels : List Channel) :
    List String :=
  channels.filterMap fun channel =>
    match snapshot.channelValue defaults channel with
    | .error _ => none
    | .ok value => value.message

theorem output?_network (snapshot : Snapshot) (channel : Channel) :
    snapshot.network.output? channel = snapshot.output? channel := by
  rw [Network.output?, values_network, output?]

end Snapshot

/-! ## Channels one after another -/

/-- Run in `state`, the step `x` does what the channels come to: it fails as the
first of them that fails, or it tells all their messages and `Q` holds of what it
answers. -/
def Follows {α : Type} (snapshot : Snapshot) (defaults : MaterialDefaults)
    (channels : List Channel) (state : Resolution) (x : Resolve α)
    (Q : α → Expressions → Prop) : Prop :=
  match snapshot.failure? defaults channels with
  | some error => (x state).1 = .error (.failed error)
  | none => ∃ a later, x state = (.ok a, later) ∧ state.Later later ∧
    snapshot.network.Sound later ∧
    later.diagnostics = state.diagnostics ++ snapshot.messages defaults channels ∧
    Q a later.expressions

def Snapshot.Holds (snapshot : Snapshot) (defaults : MaterialDefaults) (channel : Channel)
    (id : ExprId) (table : Expressions) : Prop :=
  ∃ value, snapshot.channelValue defaults channel = .ok value ∧ table.tree? id = some value.tree

section Runs

variable {α β : Type} {snapshot : Snapshot} {defaults : MaterialDefaults} {state : Resolution}

theorem Snapshot.Holds.later {later : Resolution} (hl : state.Later later) {channel : Channel}
    {id : ExprId} (h : snapshot.Holds defaults channel id state.expressions) :
    snapshot.Holds defaults channel id later.expressions := by
  obtain ⟨value, hvalue, htree⟩ := h
  exact ⟨value, hvalue, hl.expressions.tree?_eq_some htree⟩

theorem Follows.pure {a : α} {Q : α → Expressions → Prop} (hs : snapshot.network.Sound state)
    (h : Q a state.expressions) : Follows snapshot defaults [] state (Resolve.pure a) Q :=
  ⟨a, state, rfl, .refl state, hs, by simp [Snapshot.messages], h⟩

theorem Follows.bind {channels rest : List Channel} {x : Resolve α} {f : α → Resolve β}
    {Q : α → Expressions → Prop} {P : β → Expressions → Prop}
    (hx : Follows snapshot defaults channels state x Q)
    (hf : ∀ a later, state.Later later → snapshot.network.Sound later → Q a later.expressions →
      Follows snapshot defaults rest later (f a) P) :
    Follows snapshot defaults (channels ++ rest) state (Resolve.bind x f) P := by
  have hfailure : snapshot.failure? defaults (channels ++ rest) =
      (snapshot.failure? defaults channels).or (snapshot.failure? defaults rest) := by
    simp only [Snapshot.failure?, List.findSome?_append]
  have hmessages : snapshot.messages defaults (channels ++ rest) =
      snapshot.messages defaults channels ++ snapshot.messages defaults rest := by
    simp only [Snapshot.messages, List.filterMap_append]
  unfold Follows at hx ⊢
  rw [hfailure]
  -- A failure among the first channels ends both steps; else the rest decides.
  cases hfirst : snapshot.failure? defaults channels with
  | some error =>
    rw [hfirst] at hx
    simp only [Option.some_or]
    simp only [Resolve.bind]
    rcases hrun : x state with ⟨result, later⟩
    rw [hrun] at hx
    obtain rfl : result = .error (.failed error) := hx
    rfl
  | none =>
    rw [hfirst] at hx
    obtain ⟨a, later, hrun, hl, hs, hd, hQ⟩ := hx
    have hnext := hf a later hl hs hQ
    have hbind : Resolve.bind x f state = f a later := by simp only [Resolve.bind, hrun]
    unfold Follows at hnext
    rw [Option.none_or, hbind]
    cases hsecond : snapshot.failure? defaults rest with
    | some error => rw [hsecond] at hnext; exact hnext
    | none =>
      rw [hsecond] at hnext
      obtain ⟨b, latest, hrun', hl', hs', hd', hP⟩ := hnext
      refine ⟨b, latest, hrun', hl.trans hl', hs', ?_, hP⟩
      rw [hd', hd, hmessages, List.append_assoc]

theorem Follows.of_error {channel : Channel} {x : Resolve α} {Q : α → Expressions → Prop}
    {error : ResolveError} (hvalue : snapshot.channelValue defaults channel = .error error)
    (hrun : (x state).1 = .error (.failed error)) :
    Follows snapshot defaults [channel] state x Q := by
  have hfailure : snapshot.failure? defaults [channel] = some error := by
    simp [Snapshot.failure?, hvalue]
  unfold Follows
  rw [hfailure]
  exact hrun

theorem Follows.of_value {channel : Channel} {x : Resolve α} {Q : α → Expressions → Prop}
    {value : ChannelValue} (hvalue : snapshot.channelValue defaults channel = .ok value) {a : α}
    {later : Resolution} (hrun : x state = (.ok a, later)) (hl : state.Later later)
    (hs : snapshot.network.Sound later)
    (hd : later.diagnostics = state.diagnostics ++ value.message.toList)
    (hQ : Q a later.expressions) : Follows snapshot defaults [channel] state x Q := by
  have hfailure : snapshot.failure? defaults [channel] = none := by
    simp [Snapshot.failure?, hvalue]
  have hmessages : snapshot.messages defaults [channel] = value.message.toList := by
    cases hm : value.message <;> simp [Snapshot.messages, hvalue, hm]
  unfold Follows
  rw [hfailure, hmessages]
  exact ⟨a, later, hrun, hl, hs, hd, hQ⟩

theorem run_resolveChannel {net : Network} {channel : Channel} {node : Node}
    (hnode : net.output? channel = some node) (fallback : Literal) (state : Resolution) :
    net.resolveChannel channel channel.socket fallback state =
      match net.resolveInput ⟨node.id, .input⟩ state with
      | (.ok (some id), later) => (.ok id, later)
      | (.ok none, later) =>
        Resolve.make (.literal (fallback.shapedFor channel.socket))
          { later with diagnostics := later.diagnostics ++ [missingInput channel node] }
      | (.error halt, later) => (.error halt, later) := by
  simp only [Network.resolveChannel, hnode]
  show Resolve.bind _ _ state = _
  simp only [Resolve.bind]
  rcases net.resolveInput ⟨node.id, .input⟩ state with ⟨_ | _ | _, later⟩ <;> rfl

theorem Follows.of_literal {channel : Channel} {x : Resolve ExprId} {literal : Literal}
    {value : ChannelValue} (hvalue : snapshot.channelValue defaults channel = .ok value)
    (htree : value.tree = .literal literal) {later : Resolution}
    (hrun : x state = Resolve.make (.literal literal) later) (hl : state.Later later)
    (hs : snapshot.network.Sound later)
    (hd : later.diagnostics = state.diagnostics ++ value.message.toList) :
    Follows snapshot defaults [channel] state x (snapshot.Holds defaults channel) := by
  have hgrows : later.Later (Resolve.make (.literal literal) later).2 :=
    ⟨Expressions.grows_add (t := .literal literal) rfl, fun _ _ h => h, rfl⟩
  refine Follows.of_value hvalue hrun (hl.trans hgrows) (hs.of_later hgrows rfl) hd ?_
  refine ⟨value, hvalue, ?_⟩
  rw [htree]
  exact Expressions.tree?_add rfl

theorem follows_resolveChannel (hs : snapshot.network.Sound state) (hidle : state.inProgress = [])
    {channel : Channel} {node : Node} (hnode : snapshot.output? channel = some node)
    (hfinite : (defaults.channel channel).isFinite = true) :
    Follows snapshot defaults [channel] state
      (snapshot.network.resolveChannel channel channel.socket (defaults.channel channel))
      (snapshot.Holds defaults channel) := by
  have hrun := run_resolveChannel (snapshot.output?_network channel ▸ hnode)
    (defaults.channel channel) state
  have hsilent := snapshot.network.diagnostics_resolveInput ⟨node.id, .input⟩ state
  obtain ⟨hl, hs', ha, he, hb⟩ := Network.mirrors_resolveInput hs ⟨node.id, .input⟩
  rcases hinput : snapshot.network.resolveInput ⟨node.id, .input⟩ state with ⟨result, later⟩
  rw [hinput] at hl hs' ha he hb hsilent hrun
  -- The walk to the input says whether the channel fails, is found or is missing.
  cases result with
  | error halt =>
    cases halt with
    | depthExceeded => exact absurd rfl hb
    | failed error =>
      have hwalk := he error rfl
      rw [hidle] at hwalk
      have hvalue : snapshot.channelValue defaults channel = .error error := by
        simp only [Snapshot.channelValue, hfinite, if_true, hnode, hwalk]
      refine .of_error hvalue ?_
      rw [hrun]
  | ok answer =>
    obtain ⟨tree, hreads, hy⟩ := ha answer rfl
    have hwalk := hy [] (List.forall_mem_nil _)
    cases answer with
    | none =>
      obtain rfl : tree = none := by
        cases tree with
        | none => rfl
        | some t => cases hreads
      have hvalue : snapshot.channelValue defaults channel =
          .ok ⟨.literal ((defaults.channel channel).shapedFor channel.socket),
            some (missingInput channel node)⟩ := by
        simp only [Snapshot.channelValue, hfinite, if_true, hnode, hwalk]
      refine .of_literal hvalue rfl hrun ?_ ?_ ?_
      · exact ⟨hl.expressions, hl.resolved, hl.inProgress⟩
      · exact ⟨hs'.settled, hs'.clear⟩
      · rw [Option.toList_some, ← hsilent]
    | some id =>
      obtain ⟨t, rfl⟩ : ∃ t, tree = some t := by
        cases tree with
        | none => cases hreads
        | some t => exact ⟨t, rfl⟩
      have hvalue : snapshot.channelValue defaults channel = .ok ⟨t, none⟩ := by
        simp only [Snapshot.channelValue, hfinite, if_true, hnode, hwalk]
      refine .of_value hvalue hrun hl hs' ?_ ⟨_, hvalue, ?_⟩
      · rw [hsilent, Option.toList_none, List.append_nil]
      · exact Expressions.reads_some.mp hreads

theorem follows_resolveChannelWith (defaults : MaterialDefaults)
    (hs : snapshot.network.Sound state) (hidle : state.inProgress = []) (channel : Channel) :
    Follows snapshot defaults [channel] state
      (snapshot.network.resolveChannelWith defaults channel)
      (snapshot.Holds defaults channel) := by
  by_cases hfinite : (defaults.channel channel).isFinite = true
  · have hstep : snapshot.network.resolveChannelWith defaults channel =
        snapshot.network.resolveChannel channel channel.socket (defaults.channel channel) := by
      simp only [Network.resolveChannelWith, hfinite, if_true]
    rw [hstep]
    cases hnode : snapshot.output? channel with
    | none =>
      have hvalue : snapshot.channelValue defaults channel =
          .ok ⟨.literal ((defaults.channel channel).shapedFor channel.socket), none⟩ := by
        simp only [Snapshot.channelValue, hfinite, if_true, hnode]
      refine .of_literal hvalue rfl ?_ (.refl state) hs (by simp)
      rw [Network.resolveChannel, snapshot.output?_network, hnode]
    | some node => exact follows_resolveChannel hs hidle hnode hfinite
  · have hvalue : snapshot.channelValue defaults channel = .error (.nonFiniteDefault channel) := by
      simp only [Snapshot.channelValue, hfinite, Bool.false_eq_true, if_false]
    refine .of_error hvalue ?_
    simp only [Network.resolveChannelWith, hfinite, Bool.false_eq_true, if_false]
    rfl

/-- A compilation fails as the first channel that fails, or its channels read as
the trees of all. -/
theorem follows_resolveChannels (hs : snapshot.network.Sound state)
    (hidle : state.inProgress = []) :
    Follows snapshot defaults compileOrder state
      (snapshot.network.resolveChannels defaults) fun channels table =>
        ∀ channel, snapshot.Holds defaults channel (channels.get channel) table := by
  have hstep := fun {later : Resolution} (hl : state.Later later)
      (hs : snapshot.network.Sound later) (channel : Channel) =>
    follows_resolveChannelWith defaults hs (hl.inProgress.trans hidle) channel
  refine (hstep (.refl state) hs .baseColor).bind fun baseColor s₁ h₁ hs hbase => ?_
  refine (hstep h₁ hs .emissive).bind fun emissive s₂ h₂ hs hemissive => ?_
  have k₂ := h₁.trans h₂
  refine (hstep k₂ hs .roughness).bind fun roughness s₃ h₃ hs hroughness => ?_
  have k₃ := k₂.trans h₃
  refine (hstep k₃ hs .metalness).bind fun metalness s₄ h₄ hs hmetalness => ?_
  have k₄ := k₃.trans h₄
  refine (hstep k₄ hs .opacity).bind fun opacity s₅ h₅ hs hopacity => ?_
  refine (hstep (k₄.trans h₅) hs .normal).bind fun normal s₆ h₆ hs hnormal => .pure hs ?_
  -- What was resolved early is still read in the last table.
  have l₅ := h₅.trans h₆
  have l₄ := h₄.trans l₅
  have l₃ := h₃.trans l₄
  intro channel
  cases channel with
  | baseColor => exact hbase.later (h₂.trans l₃)
  | emissive => exact hemissive.later l₃
  | roughness => exact hroughness.later l₄
  | metalness => exact hmetalness.later l₅
  | normal => exact hnormal
  | opacity => exact hopacity.later h₆

end Runs

/-! ## The outcome -/

/-- A node material is what a run of all channels leaves behind. -/
theorem Snapshot.run_of_compile {snapshot : Snapshot} {defaults : MaterialDefaults}
    {material : NodeMaterial} (h : (snapshot.compile defaults).material = .node material) :
    ∃ channels later, snapshot.network.resolveChannels defaults .start = (.ok channels, later) ∧
      material = ⟨later.expressions, channels, .double, true⟩ ∧
      (snapshot.compile defaults).diagnostics = later.diagnostics := by
  unfold compile Network.compile at h ⊢
  rcases hrun : snapshot.network.resolveChannels defaults .start with ⟨result, later⟩
  rw [hrun] at h
  cases result with
  | ok channels => exact ⟨channels, later, rfl, (Material.node.inj h).symm, rfl⟩
  | error reason => cases reason <;> cases h

/-- Where a compilation yields a node material, no channel fails, the messages are those of
the channels, every entry of the table can be read, and every channel reads as the
channel's tree. -/
theorem Snapshot.of_compile {snapshot : Snapshot} {defaults : MaterialDefaults}
    {material : NodeMaterial} (h : (snapshot.compile defaults).material = .node material) :
    snapshot.failure? defaults compileOrder = none ∧
      (snapshot.compile defaults).diagnostics = snapshot.messages defaults compileOrder ∧
      material.expressions.Readable ∧
      ∀ channel, snapshot.Holds defaults channel (material.channels.get channel)
        material.expressions := by
  obtain ⟨channels, later, hrun, rfl, hdiagnostics⟩ := run_of_compile h
  have hfollows : Follows snapshot defaults compileOrder .start
      (snapshot.network.resolveChannels defaults) _ :=
    follows_resolveChannels (Network.sound_start _) rfl
  unfold Follows at hfollows
  rw [hrun] at hfollows
  cases hfailure : snapshot.failure? defaults compileOrder with
  | some error => rw [hfailure] at hfollows; cases hfollows
  | none =>
    rw [hfailure] at hfollows
    obtain ⟨_, _, ⟨rfl, rfl⟩, hlater, -, hd, hholds⟩ := hfollows
    refine ⟨rfl, hdiagnostics.trans hd, fun id hid => ?_, hholds⟩
    exact hlater.expressions.readable id (Nat.zero_le id) hid

theorem Snapshot.read_of_compile {snapshot : Snapshot} {defaults : MaterialDefaults}
    {material : NodeMaterial} (h : (snapshot.compile defaults).material = .node material) :
    material.expressions.Readable ∧
      ∀ channel, snapshot.Holds defaults channel (material.channels.get channel)
        material.expressions :=
  (of_compile h).2.2

/-- **What a compilation comes to.** If a channel fails, the material is the fallback
and the only message tells the failure of the first channel that fails. If none
fails, the material is double-sided and transparent, every channel is an expression
that reads as the channel's tree, and the messages are those of the channels. -/
theorem Snapshot.compile_outcome (snapshot : Snapshot) (defaults : MaterialDefaults) :
    match snapshot.failure? defaults compileOrder with
    | some error =>
      snapshot.compile defaults = ⟨.fallback defaults.fallback,
        ["Failed to compile material graph: " ++ error.message]⟩
    | none =>
      ∃ material : NodeMaterial,
        snapshot.compile defaults =
          ⟨.node material, snapshot.messages defaults compileOrder⟩ ∧
        material.side = .double ∧ material.transparent = true ∧
        ∀ channel, ∃ value, snapshot.channelValue defaults channel = .ok value ∧
          material.expressions.tree? (material.channels.get channel) = some value.tree := by
  have hfollows : Follows snapshot defaults compileOrder .start
      (snapshot.network.resolveChannels defaults) _ :=
    follows_resolveChannels (Network.sound_start _) rfl
  unfold Follows at hfollows
  cases hfailure : snapshot.failure? defaults compileOrder with
  | some error =>
    rw [hfailure] at hfollows
    rcases hrun : snapshot.network.resolveChannels defaults .start with ⟨result, later⟩
    rw [hrun] at hfollows
    obtain rfl : result = .error (.failed error) := hfollows
    have htext : Compilation.failureText ++ ": " = "Failed to compile material graph: " := by
      decide
    simp only [compile, Network.compile, hrun, Compilation.failed, htext]
  | none =>
    rw [hfailure] at hfollows
    obtain ⟨channels, later, hrun, -, -, hd, hholds⟩ := hfollows
    refine ⟨⟨later.expressions, channels, .double, true⟩, ?_, rfl, rfl, hholds⟩
    simp only [compile, Network.compile, hrun, hd]
    rfl

end ShaderGraph
