import ShaderGraph.Files.Graph
import ShaderGraph.Proofs.Ron.Composites

/-
Snapshots and graphs read back from their texts.

Every value that files hold is read from what is written of it, its parts by the same:
numbers whichever they are, strings of any characters, options that are left out where
they are empty, and maps in the order of their entries. The nesting is bounded by the
types, and is far below what a document may have (`ofText_text`).
-/
namespace ShaderGraph

open Ron Ron.Reader

/-! ## Vectors and literals -/

theorem Vec2.reads (v : Vec2) (level : Nat) : Reads 2 (Vec2.read false) (v.write level) v := by
  obtain ⟨hbegins, hread⟩ := Reads.tuple (reads_positional [v.x, v.y]) (List.cons_ne_nil _ _)
    (parenthesized_tuple v.x [v.y] level)
  refine ⟨hbegins, fun scope rest hscope hdepth hrest => ?_⟩
  have htuple : Reader.tuple 2 Reader.float false scope (v.write level ++ rest) =
      .ok ([v.x, v.y], rest) := hread scope rest hscope hdepth hrest
  rw [Vec2.read, bind_apply, htuple]
  rfl

/-- The text is a vector: its three components stand between parentheses. -/
def Vec3.Spelled (text : List Char) (v : Vec3) : Prop :=
  ∃ parts, List.Forall₂ (Reads 0 Reader.float) parts [v.x, v.y, v.z] ∧ Parenthesized parts text

theorem Vec3.Spelled.reads {text : List Char} {v : Vec3} (h : Spelled text v) :
    Reads 2 (Vec3.read false) text v := by
  obtain ⟨parts, hparts, htext⟩ := h
  obtain ⟨hbegins, hread⟩ := Reads.tuple hparts (List.cons_ne_nil _ _) htext
  refine ⟨hbegins, fun scope rest hscope hdepth hrest => ?_⟩
  have htuple : Reader.tuple 3 Reader.float false scope (text ++ rest) =
      .ok ([v.x, v.y, v.z], rest) := hread scope rest hscope hdepth hrest
  rw [Vec3.read, bind_apply, htuple]
  rfl

theorem Vec3.spelled_write (v : Vec3) (level : Nat) : Spelled (v.write level) v :=
  ⟨_, reads_positional [v.x, v.y, v.z], parenthesized_tuple v.x [v.y, v.z] level⟩

theorem Vec3.reads (v : Vec3) (level : Nat) : Reads 2 (Vec3.read false) (v.write level) v :=
  (v.spelled_write level).reads

theorem Literal.reads (a : Literal) (level : Nat) : Reads 4 Literal.read (a.write level) a := by
  have htext (name : String) (text : List Char) :
      name.toList ++ '(' :: text ++ [')'] = name.toList ++ ('(' :: text ++ [')']) :=
    List.append_assoc ..
  cases a with
  | float v =>
    have hpayload : Reads 3 (Literal.float <$> Reader.payload Reader.float)
        ('(' :: Writer.float v level ++ [')']) (.float v) :=
      ((Reads.float v).payload.map Literal.float).mono (by decide)
    rw [write, Writer.wrapped, htext]
    exact .variant (by decide) (by decide) (by decide) (fun _ _ _ => rfl) hpayload rfl
  | vec2 v =>
    have hpayload := (v.reads level).payload.map Literal.vec2
    rw [write, Writer.wrapped, htext]
    refine .variant (by decide) (by decide) (by decide) (fun scope text hscope => ?_) hpayload rfl
    simp only [bind_apply, extensions, hscope]
    rfl
  | vec3 v =>
    have hpayload := (v.reads level).payload.map Literal.vec3
    rw [write, Writer.wrapped, htext]
    refine .variant (by decide) (by decide) (by decide) (fun scope text hscope => ?_) hpayload rfl
    simp only [bind_apply, extensions, hscope]
    rfl

/-! ## Words -/

theorem Socket.spelled : Spelled Socket := by intro a; cases a <;> decide

theorem PinKey.spelled : Spelled PinKey := by intro a; cases a <;> decide

theorem InputType.spelled : Spelled InputType := by intro a; cases a <;> decide

theorem MathType.spelled : Spelled MathType := by intro a; cases a <;> decide

theorem Channel.spelled : Spelled Channel := by intro a; cases a <;> decide

/-! ## Nodes -/

theorem reads_writeWord {α : Type} [Enumerated α] (h : Spelled α) (name : String) (a : α)
    (level : Nat) : Reads 2 (Reader.word name α) (writeWord a level) a :=
  .word h name a

namespace NodeKind

/-- Value and color of an input node may be left out, and default to none. -/
theorem steps_input (type : InputType) (value : Option Literal) (color : Option String)
    (level : Nat) :
    Steps 6 (fieldStep "Input" inputFields) ⟨none, none, none⟩
      (fieldTexts level ([("input_type", writeWord type)]
        ++ Writer.ifSome "value" value Literal.write ++ Writer.ifSome "color" color Writer.string))
      ⟨some type, value.map some, color.map some⟩ := by
  have htype : Steps 6 (fieldStep "Input" inputFields) ⟨none, none, none⟩
      (fieldTexts level [("input_type", writeWord type)]) ⟨some type, none, none⟩ :=
    .field (by decide) rfl rfl
      (((reads_writeWord InputType.spelled _ type _).map _).mono (by decide))
  have hvalue : Steps 6 (fieldStep "Input" inputFields) ⟨some type, none, none⟩
      (fieldTexts level (Writer.ifSome "value" value Literal.write))
      ⟨some type, value.map some, none⟩ :=
    .ifSome (by decide) rfl rfl (by rintro rfl; rfl)
      (by rintro a rfl; exact (Literal.reads a _).ofSome.map _)
  have hcolor : Steps 6 (fieldStep "Input" inputFields) ⟨some type, value.map some, none⟩
      (fieldTexts level (Writer.ifSome "color" color Writer.string))
      ⟨some type, value.map some, color.map some⟩ :=
    .ifSome (by decide) rfl rfl (by rintro rfl; rfl)
      (by rintro a rfl; exact ((Reads.string a).ofSome.map _).mono (by decide))
  rw [fieldTexts_append, fieldTexts_append]
  exact (htype.append hvalue).append hcolor

theorem steps_code (source : String) (socket : Socket) (level : Nat) :
    Steps 6 (fieldStep "Code" codeFields) (none, none)
      (fieldTexts level [("source", Writer.string source), ("output_type", writeWord socket)])
      (some source, some socket) := by
  have hsource : Steps 6 (fieldStep "Code" codeFields) (none, none)
      (fieldTexts level [("source", Writer.string source)]) (some source, none) :=
    .field (by decide) rfl rfl (((Reads.string source).map _).mono (by decide))
  have hsocket : Steps 6 (fieldStep "Code" codeFields) (some source, none)
      (fieldTexts level [("output_type", writeWord socket)]) (some source, some socket) :=
    .field (by decide) rfl rfl
      (((reads_writeWord Socket.spelled _ socket _).map _).mono (by decide))
  exact hsource.append hsocket

theorem reads (kind : NodeKind) (level : Nat) : Reads 8 read (kind.write level) kind := by
  cases kind with
  | input type value color =>
    refine .variant (by decide) (by decide) (by decide) (fun _ _ _ => rfl)
      (.variantRecord (steps_input type value color level) fun scope rest => ?_) (head?_block ..)
    cases value <;> cases color <;> rfl
  | math type =>
    have htype : Steps 6 (fieldStep "Math" mathFields) none
        (fieldTexts level [("math_type", writeWord type)]) (some type) :=
      .field (by decide) rfl rfl
        (((reads_writeWord MathType.spelled _ type _).map _).mono (by decide))
    exact .variant (by decide) (by decide) (by decide) (fun _ _ _ => rfl)
      (.variantRecord htype fun scope rest => rfl) (head?_block ..)
  | output channel =>
    have hchannel : Steps 6 (fieldStep "Output" outputFields) none
        (fieldTexts level [("output_type", writeWord channel)]) (some channel) :=
      .field (by decide) rfl rfl
        (((reads_writeWord Channel.spelled _ channel _).map _).mono (by decide))
    exact .variant (by decide) (by decide) (by decide) (fun _ _ _ => rfl)
      (.variantRecord hchannel fun scope rest => rfl) (head?_block ..)
  | code source socket =>
    exact .variant (by decide) (by decide) (by decide) (fun _ _ _ => rfl)
      (.variantRecord (steps_code source socket level) fun scope rest => rfl) (head?_block ..)

end NodeKind

namespace Node

/-- The label of a node may be left out, and defaults to none; the others are written. -/
theorem steps (node : Node) (level : Nat) :
    Steps 9 (fieldStep "MaterialNode" fields) ⟨none, none, none, none, none⟩
      (fieldTexts level ([("id", Writer.string node.id), ("title", Writer.string node.title)]
        ++ Writer.ifSome "label" node.label Writer.string
        ++ [("position", node.position.write), ("kind", node.kind.write)]))
      ⟨some node.id, some node.title, node.label.map some, some node.position, some node.kind⟩ := by
  have hid : Steps 9 (fieldStep "MaterialNode" fields) ⟨none, none, none, none, none⟩
      (fieldTexts level [("id", Writer.string node.id)]) ⟨some node.id, none, none, none, none⟩ :=
    .field (by decide) rfl rfl (((Reads.string _).map _).mono (by decide))
  have htitle : Steps 9 (fieldStep "MaterialNode" fields) ⟨some node.id, none, none, none, none⟩
      (fieldTexts level [("title", Writer.string node.title)])
      ⟨some node.id, some node.title, none, none, none⟩ :=
    .field (by decide) rfl rfl (((Reads.string _).map _).mono (by decide))
  have hlabel : Steps 9 (fieldStep "MaterialNode" fields)
      ⟨some node.id, some node.title, none, none, none⟩
      (fieldTexts level (Writer.ifSome "label" node.label Writer.string))
      ⟨some node.id, some node.title, node.label.map some, none, none⟩ :=
    .ifSome (by decide) rfl rfl (fun hnone => by rw [hnone]; rfl)
      (fun a ha => by rw [ha]; exact ((Reads.string a).ofSome.map _).mono (by decide))
  have hposition : Steps 9 (fieldStep "MaterialNode" fields)
      ⟨some node.id, some node.title, node.label.map some, none, none⟩
      (fieldTexts level [("position", node.position.write)])
      ⟨some node.id, some node.title, node.label.map some, some node.position, none⟩ :=
    .field (by decide) rfl rfl (((node.position.reads _).map _).mono (by decide))
  have hkind : Steps 9 (fieldStep "MaterialNode" fields)
      ⟨some node.id, some node.title, node.label.map some, some node.position, none⟩
      (fieldTexts level [("kind", node.kind.write)])
      ⟨some node.id, some node.title, node.label.map some, some node.position, some node.kind⟩ :=
    .field (by decide) rfl rfl ((node.kind.reads _).map _)
  rw [fieldTexts_append, fieldTexts_append]
  exact ((hid.append htitle).append hlabel).append (hposition.append hkind)

theorem reads (node : Node) (level : Nat) : Reads 10 read (node.write level) node := by
  refine .record (by decide) (node.steps level) fun scope rest => ?_
  obtain ⟨id, title, label, position, kind⟩ := node
  cases label <;> rfl

end Node

/-! ## Edges -/

namespace Edge

theorem steps (edge : Edge) (level : Nat) :
    Steps 3 (fieldStep "Edge" fields) ⟨none, none, none, none, none⟩
      (fieldTexts level [
        ("id", Writer.string edge.id),
        ("source", Writer.string edge.source.node),
        ("source_handle", writeWord edge.source.pin),
        ("target", Writer.string edge.target.node),
        ("target_handle", writeWord edge.target.pin)])
      ⟨some edge.id, some edge.source.node, some edge.source.pin, some edge.target.node,
        some edge.target.pin⟩ := by
  have hid : Steps 3 (fieldStep "Edge" fields) ⟨none, none, none, none, none⟩
      (fieldTexts level [("id", Writer.string edge.id)]) ⟨some edge.id, none, none, none, none⟩ :=
    .field (by decide) rfl rfl (((Reads.string _).map _).mono (by decide))
  have hsource : Steps 3 (fieldStep "Edge" fields) ⟨some edge.id, none, none, none, none⟩
      (fieldTexts level [("source", Writer.string edge.source.node)])
      ⟨some edge.id, some edge.source.node, none, none, none⟩ :=
    .field (by decide) rfl rfl (((Reads.string _).map _).mono (by decide))
  have hsourcePin : Steps 3 (fieldStep "Edge" fields)
      ⟨some edge.id, some edge.source.node, none, none, none⟩
      (fieldTexts level [("source_handle", writeWord edge.source.pin)])
      ⟨some edge.id, some edge.source.node, some edge.source.pin, none, none⟩ :=
    .field (by decide) rfl rfl ((reads_writeWord PinKey.spelled _ _ _).map _)
  have htarget : Steps 3 (fieldStep "Edge" fields)
      ⟨some edge.id, some edge.source.node, some edge.source.pin, none, none⟩
      (fieldTexts level [("target", Writer.string edge.target.node)])
      ⟨some edge.id, some edge.source.node, some edge.source.pin, some edge.target.node, none⟩ :=
    .field (by decide) rfl rfl (((Reads.string _).map _).mono (by decide))
  have htargetPin : Steps 3 (fieldStep "Edge" fields)
      ⟨some edge.id, some edge.source.node, some edge.source.pin, some edge.target.node, none⟩
      (fieldTexts level [("target_handle", writeWord edge.target.pin)])
      ⟨some edge.id, some edge.source.node, some edge.source.pin, some edge.target.node,
        some edge.target.pin⟩ :=
    .field (by decide) rfl rfl ((reads_writeWord PinKey.spelled _ _ _).map _)
  exact hid.append (hsource.append (hsourcePin.append (htarget.append htargetPin)))

theorem reads (edge : Edge) (level : Nat) : Reads 4 read (edge.write level) edge :=
  .record (by decide) (edge.steps level) fun _ _ => rfl

end Edge

/-! ## Snapshots and graphs -/

namespace Snapshot

theorem steps (snapshot : Snapshot) (level : Nat) :
    Steps 13 (fieldStep "GraphSnapshot" fields) (none, none)
      (fieldTexts level [
        ("nodes", Writer.list (snapshot.nodes.map Node.write)),
        ("edges", Writer.list (snapshot.edges.map Edge.write))])
      (some snapshot.nodes, some snapshot.edges) := by
  have hnodes : Steps 13 (fieldStep "GraphSnapshot" fields) (none, none)
      (fieldTexts level [("nodes", Writer.list (snapshot.nodes.map Node.write))])
      (some snapshot.nodes, none) :=
    .field (by decide) rfl rfl ((Reads.list fun node _ => node.reads _).map _)
  have hedges : Steps 13 (fieldStep "GraphSnapshot" fields) (some snapshot.nodes, none)
      (fieldTexts level [("edges", Writer.list (snapshot.edges.map Edge.write))])
      (some snapshot.nodes, some snapshot.edges) :=
    .field (by decide) rfl rfl (((Reads.list fun edge _ => edge.reads _).map _).mono (by decide))
  exact hnodes.append hedges

theorem reads (snapshot : Snapshot) (level : Nat) :
    Reads 14 read (snapshot.write level) snapshot :=
  .record (by decide) (snapshot.steps level) fun _ _ => rfl

end Snapshot

namespace Graph

theorem steps (g : Graph) (level : Nat) :
    Steps 13 (fieldStep "Graph" fields) ⟨none, none, none⟩
      (fieldTexts level [
        ("name", Writer.string g.name),
        ("nodes", Writer.map Node.write g.nodes),
        ("edges", Writer.map Edge.write g.edges)])
      ⟨some g.name, some g.nodes, some g.edges⟩ := by
  have hname : Steps 13 (fieldStep "Graph" fields) ⟨none, none, none⟩
      (fieldTexts level [("name", Writer.string g.name)]) ⟨some g.name, none, none⟩ :=
    .field (by decide) rfl rfl (((Reads.string _).map _).mono (by decide))
  have hnodes : Steps 13 (fieldStep "Graph" fields) ⟨some g.name, none, none⟩
      (fieldTexts level [("nodes", Writer.map Node.write g.nodes)])
      ⟨some g.name, some g.nodes, none⟩ :=
    .field (by decide) rfl rfl ((Reads.orderedMap fun entry _ => entry.2.reads _).map _)
  have hedges : Steps 13 (fieldStep "Graph" fields) ⟨some g.name, some g.nodes, none⟩
      (fieldTexts level [("edges", Writer.map Edge.write g.edges)])
      ⟨some g.name, some g.nodes, some g.edges⟩ :=
    .field (by decide) rfl rfl
      (((Reads.orderedMap fun entry _ => entry.2.reads _).map _).mono (by decide))
  exact hname.append (hnodes.append hedges)

theorem reads (g : Graph) (level : Nat) : Reads 14 read (g.write level) g :=
  .record (by decide) (g.steps level) fun _ _ => rfl

end Graph

/-- Blanks and comments after a snapshot do not matter. -/
theorem Snapshot.ofText_append (snapshot : Snapshot) {after : String}
    (hafter : skipTrivia .between after.toList = .ok []) :
    ofText (snapshot.text ++ after) = .ok snapshot := by
  refine document_of_written (snapshot.reads 0) (by decide) ?_ hafter
  rw [write, Writer.record, head?_block]
  decide

theorem Snapshot.ofText_of_text (snapshot : Snapshot) : ofText snapshot.text = .ok snapshot := by
  have hempty : skipTrivia .between "".toList = .ok [] := rfl
  have htext := snapshot.ofText_append hempty
  rwa [String.append_empty] at htext

theorem Graph.ofText_of_text (g : Graph) : ofText g.text = .ok g := by
  have hfirst : (g.write 0).head? ≠ some '#' := by
    rw [write, Writer.record, head?_block]
    decide
  have hempty : skipTrivia .between "".toList = .ok [] := rfl
  have htext := document_of_written (g.reads 0) (by decide) hfirst hempty
  rwa [String.append_empty] at htext

/-- Snapshots and graphs read back from their texts as they were: every field, all nodes
and edges in their order, and those of a graph under the keys that they are stored under,
whatever ids they have themselves. Numbers that are not finite keep their signs too. -/
theorem ofText_text (snapshot : Snapshot) (g : Graph) :
    Snapshot.ofText snapshot.text = .ok snapshot ∧ Graph.ofText g.text = .ok g :=
  ⟨snapshot.ofText_of_text, g.ofText_of_text⟩

end ShaderGraph
