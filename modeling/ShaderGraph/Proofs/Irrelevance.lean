import ShaderGraph.Proofs.Agreement
import ShaderGraph.Wgsl
import Mathlib.Logic.Relation

/-
Parts of a snapshot that no channel sees.

Nodes under ids that a snapshot does not mention, edges that end at no input pin of its
nodes, edge ids, places and labels of nodes, titles of nodes that end no channel, and the
socket that a code node declares: a snapshot that differs from another in these only is
`Varied` from it. Both lists may have the new entries anywhere (`Widened`), so neither the
first edge into a pin nor the first node of a channel stands at its old place.

What a compilation reads is found by a search that passes over the new entries
(`Widened.find?`, `OrderedMap.widened_lookup`), so the networks of the two agree
(`Varied.agrees`), and they compile to the same (`Snapshot.compile_of_varied`). What is put
in may itself be cyclic, hold infinite values or have code that is refused.
-/
namespace ShaderGraph

/-! ## Lists with more entries -/

/-- The second list is the first with each entry changed as `same` has it, and with `extra`
entries put in anywhere. -/
inductive Widened {α β : Type} (same : α → β → Prop) (extra : β → Prop) :
    List α → List β → Prop
  | nil : Widened same extra [] []
  | change {a : α} {b : β} {as : List α} {bs : List β} (hsame : same a b)
      (hrest : Widened same extra as bs) : Widened same extra (a :: as) (b :: bs)
  | insert {b : β} {as : List α} {bs : List β} (hextra : extra b)
      (hrest : Widened same extra as bs) : Widened same extra as (b :: bs)

namespace Widened

variable {α β : Type} {same : α → β → Prop} {extra : β → Prop} {as : List α} {bs : List β}

theorem length_le (h : Widened same extra as bs) : as.length ≤ bs.length := by
  induction h with
  | nil => exact Nat.le_refl 0
  | change _ _ ih => exact Nat.succ_le_succ ih
  | insert _ _ ih => exact Nat.le_succ_of_le ih

theorem map {γ δ : Type} {same' : γ → δ → Prop} {extra' : δ → Prop} {f : α → γ} {g : β → δ}
    (h : Widened same extra as bs) (hsame : ∀ a ∈ as, ∀ b, same a b → same' (f a) (g b))
    (hextra : ∀ b, extra b → extra' (g b)) : Widened same' extra' (as.map f) (bs.map g) := by
  induction h with
  | nil => exact .nil
  | change hab _ ih =>
    obtain ⟨hfirst, hrest⟩ := List.forall_mem_cons.mp hsame
    exact .change (hfirst _ hab) (ih hrest)
  | insert hb _ ih => exact .insert (hextra _ hb) (ih hsame)

theorem find? {p : α → Bool} {q : β → Bool} (h : Widened same extra as bs)
    (hsame : ∀ a b, same a b → q b = p a) (hextra : ∀ b, extra b → q b = false) :
    Option.Rel same (as.find? p) (bs.find? q) := by
  induction h with
  | nil => exact .none
  | @change a b as bs hab _ ih =>
    rw [List.find?_cons, List.find?_cons, hsame a b hab]
    cases p a with
    | true => exact .some hab
    | false => exact ih
  | @insert b as bs hb _ ih =>
    rw [List.find?_cons, hextra b hb]
    exact ih

end Widened

namespace OrderedMap

variable {κ α : Type} [DecidableEq κ] {Known : κ → Prop} {alike : α → α → Prop}
  {extra : α → Prop}

/-- The entries have one key, which is known, and values that are alike. -/
def SameEntry (Known : κ → Prop) (alike : α → α → Prop) (entry entry' : κ × α) : Prop :=
  entry'.1 = entry.1 ∧ Known entry.1 ∧ alike entry.2 entry'.2

/-- The key of the entry is not known, and its value is extra. -/
def ExtraEntry (Known : κ → Prop) (extra : α → Prop) (entry : κ × α) : Prop :=
  ¬ Known entry.1 ∧ extra entry.2

abbrev WidenedEntries (Known : κ → Prop) (alike : α → α → Prop) (extra : α → Prop) :
    List (κ × α) → List (κ × α) → Prop :=
  Widened (SameEntry Known alike) (ExtraEntry Known extra)

theorem widened_insertEntry {entries entries' : List (κ × α)}
    (h : WidenedEntries Known alike extra entries entries') {key : κ} {value value' : α}
    (hknown : Known key) (halike : alike value value') :
    WidenedEntries Known alike extra (insertEntry key value entries)
      (insertEntry key value' entries') := by
  have hnew : SameEntry Known alike (key, value) (key, value') := ⟨rfl, hknown, halike⟩
  induction h with
  | nil => exact .change hnew .nil
  | @change entry entry' rest rest' hsame hrest ih =>
    rw [insertEntry, insertEntry, hsame.1]
    by_cases hkey : entry.1 = key
    · rw [if_pos hkey, if_pos hkey]
      exact .change hnew hrest
    · rw [if_neg hkey, if_neg hkey]
      exact .change hsame ih
  | @insert entry' rest rest' hextra hrest ih =>
    have hkey : entry'.1 ≠ key := by
      rintro rfl
      exact hextra.1 hknown
    rw [insertEntry, if_neg hkey]
    exact .insert hextra ih

theorem widened_insertEntry_extra {entries entries' : List (κ × α)}
    (h : WidenedEntries Known alike extra entries entries') {key : κ} {value : α}
    (hnew : ExtraEntry Known extra (key, value)) :
    WidenedEntries Known alike extra entries (insertEntry key value entries') := by
  induction h with
  | nil => exact .insert hnew .nil
  | @change entry entry' rest rest' hsame hrest ih =>
    have hkey : entry'.1 ≠ key := by
      rintro rfl
      exact hnew.1 (hsame.1 ▸ hsame.2.1)
    rw [insertEntry, if_neg hkey]
    exact .change hsame ih
  | @insert entry' rest rest' hextra hrest ih =>
    rw [insertEntry]
    split
    · exact .insert hnew hrest
    · exact .insert hextra ih

/-- Pairs written one after another. -/
theorem widened_ofList {pairs pairs' : List (κ × α)}
    (h : WidenedEntries Known alike extra pairs pairs') :
    WidenedEntries Known alike extra (ofList pairs).entries (ofList pairs').entries := by
  suffices hfrom : ∀ m m' : OrderedMap κ α, WidenedEntries Known alike extra m.entries m'.entries →
      WidenedEntries Known alike extra
        (pairs.foldl (fun m pair => m.insert pair.1 pair.2) m).entries
        (pairs'.foldl (fun m pair => m.insert pair.1 pair.2) m').entries from
    hfrom empty empty .nil
  induction h with
  | nil => exact fun _ _ hm => hm
  | @change pair pair' rest rest' hsame _ ih =>
    intro m m' hm
    refine ih _ _ ?_
    show WidenedEntries Known alike extra (insertEntry pair.1 pair.2 m.entries)
      (insertEntry pair'.1 pair'.2 m'.entries)
    rw [hsame.1]
    exact widened_insertEntry hm hsame.2.1 hsame.2.2
  | insert hextra _ ih =>
    intro m m' hm
    exact ih _ _ (widened_insertEntry_extra hm hextra)

theorem widened_lookup {entries entries' : List (κ × α)}
    (h : WidenedEntries Known alike extra entries entries') {key : κ} (hkey : Known key) :
    Option.Rel alike (entries.lookup key) (entries'.lookup key) := by
  induction h with
  | nil => exact .none
  | change hsame _ ih =>
    rw [lookup_cons_eq, lookup_cons_eq, hsame.1]
    split
    · exact .some hsame.2.2
    · exact ih
  | @insert entry' rest rest' hextra _ ih =>
    have hother : key ≠ entry'.1 := by
      rintro rfl
      exact hextra.1 hkey
    rw [lookup_cons_eq, if_neg hother]
    exact ih

end OrderedMap

/-! ## Snapshots -/

/-- The edges run between the same pins. -/
structure Edge.Alike (edge edge' : Edge) : Prop where
  source : edge'.source = edge.source
  target : edge'.target = edge.target

namespace Snapshot

variable (snapshot : Snapshot)

/-- The id is one of a node, or an edge starts there. -/
def Mentions (id : NodeId) : Prop :=
  (∃ node ∈ snapshot.nodes, node.id = id) ∨ ∃ edge ∈ snapshot.edges, edge.source.node = id

instance (id : NodeId) : Decidable (snapshot.Mentions id) :=
  inferInstanceAs (Decidable (_ ∨ _))

/-- The input pin that is declared where an edge ends. -/
def input? (pin : Endpoint) : Option Pin :=
  (snapshot.network.node? pin.node).bind fun node => node.kind.input? pin.pin

/-- The node has an id that the snapshot does not mention, and ends no channel. -/
def Stray (node : Node) : Prop := ¬ snapshot.Mentions node.id ∧ node.channel? = none

instance (node : Node) : Decidable (snapshot.Stray node) := inferInstanceAs (Decidable (_ ∧ _))

/-- The edge ends at no input pin of a node of the snapshot: there is no node, or the node has
no such pin. -/
def Idle (edge : Edge) : Prop := snapshot.input? edge.target = none

instance (edge : Edge) : Decidable (snapshot.Idle edge) := inferInstanceAs (Decidable (_ = _))

/-- The second snapshot is the first with nodes and edges put in that no channel sees, and with
the others changed as no channel sees it. -/
structure Varied (snapshot snapshot' : Snapshot) : Prop where
  nodes : Widened Node.Alike snapshot.Stray snapshot.nodes snapshot'.nodes
  edges : Widened Edge.Alike snapshot.Idle snapshot.edges snapshot'.edges

variable {snapshot} {snapshot' : Snapshot}

/-- The nodes are stored in the order in which they stood, new ones between them. -/
theorem Varied.widened_network (h : snapshot.Varied snapshot') :
    OrderedMap.WidenedEntries snapshot.Mentions Node.Alike (fun node => node.channel? = none)
      snapshot.network.nodes.entries snapshot'.network.nodes.entries := by
  refine OrderedMap.widened_ofList (h.nodes.map (fun node hnode node' halike => ?_) ?_)
  · exact ⟨halike.id, .inl ⟨node, hnode, rfl⟩, halike⟩
  · exact fun _ hstray => hstray

theorem not_feeds_of_idle {edge : Edge} (hidle : snapshot.Idle edge) {id : NodeId} {node : Node}
    (hnode : snapshot.network.node? id = some node) {input : Pin}
    (hinput : input ∈ node.kind.inputs) : edge.feeds ⟨id, input.key⟩ = false := by
  apply beq_eq_false_iff_ne.mpr
  intro htarget
  rw [Idle, input?, htarget, hnode, Option.bind_some, NodeKind.input?_of_mem hinput] at hidle
  cases hidle

/-- **What a compilation reads is the same**, as far as ids go that the snapshot mentions. -/
theorem Varied.agrees (h : snapshot.Varied snapshot') :
    snapshot.network.Agrees snapshot'.network snapshot.Mentions := by
  have hentries := h.widened_network
  refine ⟨hentries.length_le, ?_, fun id hid => ?_, ?_, fun channel => ?_⟩
  · intro pin edge hedge
    exact .inr ⟨edge, (Network.of_feeding? hedge).1, rfl⟩
  · exact OrderedMap.widened_lookup hentries hid
  · intro id node hnode input hinput
    have hfeeding : Option.Rel Edge.Alike (snapshot.network.feeding? ⟨id, input.key⟩)
        (snapshot'.network.feeding? ⟨id, input.key⟩) := by
      refine h.edges.find? (fun edge edge' halike => ?_) fun edge hidle => ?_
      · rw [Edge.feeds, Edge.feeds, halike.target]
      · exact not_feeds_of_idle hidle hnode hinput
    generalize snapshot.network.feeding? ⟨id, input.key⟩ = fed at hfeeding ⊢
    generalize snapshot'.network.feeding? ⟨id, input.key⟩ = fed' at hfeeding ⊢
    cases hfeeding with
    | none => rfl
    | some halike => exact congrArg some halike.source
  · have hvalues : Widened Node.Alike (fun node => node.channel? = none)
        snapshot.network.nodes.values snapshot'.network.nodes.values :=
      hentries.map (fun _ _ _ hsame => hsame.2.2) fun _ hextra => hextra.2
    refine hvalues.find? (fun node node' halike => ?_) fun node hnone => ?_
    · rw [halike.channel?_eq]
    · rw [hnone]
      rfl

/-- **What no channel sees changes no compilation.** Let a snapshot come from another by any
number of changes, each of which may put nodes in under ids not mentioned before, none of them
the end of a channel, put edges in that end at no input pin of the nodes there were, and change
edge ids, labels and places of nodes, titles of nodes that end no channel and sockets of code
nodes. Then the two compile to the same messages and to the same material, in which the
same expressions are shared; so it is written as the same text. -/
theorem compile_of_varied (h : Relation.ReflTransGen Varied snapshot snapshot')
    (defaults : MaterialDefaults) :
    (snapshot'.compile defaults).diagnostics = (snapshot.compile defaults).diagnostics ∧
    (snapshot'.compile defaults).material = (snapshot.compile defaults).material ∧
    (snapshot'.compile defaults).material.node?.map NodeMaterial.wgsl =
      (snapshot.compile defaults).material.node?.map NodeMaterial.wgsl := by
  have hcompile : snapshot'.compile defaults = snapshot.compile defaults := by
    induction h with
    | refl => rfl
    | tail _ hlast ih => exact (compile_eq hlast.agrees defaults).trans ih
  rw [hcompile]
  exact ⟨rfl, rfl, rfl⟩

/-- A code node over the time, as the emission. -/
def tinted : Snapshot where
  nodes := [.input "time" "Time" .time, .code "tint" "Tint" "return primary;" .color,
    .output "glow" "Glow" .emissive]
  edges := [⟨"edge-1", ⟨"time", .out⟩, ⟨"tint", .primary⟩⟩,
    ⟨"edge-2", ⟨"tint", .out⟩, ⟨"glow", .input⟩⟩]

/-- The same with a node that feeds itself, an infinite number at a pin that is not there, and
other titles, ids and sockets. -/
def overgrown : Snapshot where
  nodes := [.math "loop" "Loop" .abs, .input "time" "Clock" .time,
    (Node.code "tint" "Shade" "return primary;" .vec3).withLabel "Shade",
    .ofKind "lost" "Float" (.input .float (some (.float (.infinite true))) none),
    .output "glow" "Glow" .emissive]
  edges := [⟨"edge-1", ⟨"loop", .out⟩, ⟨"loop", .input⟩⟩,
    ⟨"edge-2", ⟨"lost", .out⟩, ⟨"tint", .factor⟩⟩,
    ⟨"edge-3", ⟨"time", .out⟩, ⟨"tint", .primary⟩⟩,
    ⟨"edge-4", ⟨"tint", .out⟩, ⟨"glow", .input⟩⟩]

theorem compile_overgrown :
    Relation.ReflTransGen Varied tinted overgrown ∧
    (overgrown.compile .standard).diagnostics = (tinted.compile .standard).diagnostics ∧
    (overgrown.compile .standard).material = (tinted.compile .standard).material ∧
    (overgrown.compile .standard).material.node?.map NodeMaterial.wgsl =
      (tinted.compile .standard).material.node?.map NodeMaterial.wgsl := by
  have htime : Node.Alike (.input "time" "Time" .time) (.input "time" "Clock" .time) :=
    ⟨rfl, .refl _, fun _ h => nomatch h⟩
  have htint : Node.Alike (.code "tint" "Tint" "return primary;" .color)
      ((Node.code "tint" "Shade" "return primary;" .vec3).withLabel "Shade") :=
    ⟨rfl, .code _ _ _, fun _ h => nomatch h⟩
  have hvaried : Varied tinted overgrown := by
    constructor
    · exact .insert (by decide) (.change htime (.change htint
        (.insert (by decide) (.change (.refl _) .nil))))
    · exact .insert (by decide) (.insert (by decide)
        (.change ⟨rfl, rfl⟩ (.change ⟨rfl, rfl⟩ .nil)))
  exact ⟨.single hvaried, compile_of_varied (.single hvaried) .standard⟩

end Snapshot

end ShaderGraph
