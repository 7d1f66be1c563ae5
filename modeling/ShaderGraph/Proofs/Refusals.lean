import ShaderGraph.Proofs.Editing

/-
Connections that are refused.

There are seven objections to an edge (`Objection`), in the order in which they are
raised, and `Objection.Holds` says of each, on its own, when it holds. The first that
holds is the reason that a connection is refused for (`connectionError?_eq_first?`).

That a refused connection changes nothing is said of the connection as a run of actions
on the editor (`Editor.connect`), where what was done before an error stays done. The run
raises every objection before it draws an id, and answers and leaves the editor as
`Graph.connectWith` says (`Editor.run_connect`), so it does all or nothing
(`Editor.connect_all_or_nothing`).
-/
namespace ShaderGraph

/-- What may stand against an edge from one pin to another. -/
inductive Objection where
  | noSource
  | noTarget
  | noOutput
  | noInput
  | unsuited
  | loop
  | fed
  deriving DecidableEq, Repr

namespace Objection

def inOrder : List Objection := [noSource, noTarget, noOutput, noInput, unsuited, loop, fed]

/-- The objection holds for an edge of the graph: a node is missing, or its pin is; the
sockets do not suit each other; the nodes are one; an edge ends at the target already. -/
def Holds (g : Graph) (source target : Endpoint) : Objection → Prop
  | noSource => g.node? source.node = none
  | noTarget => g.node? target.node = none
  | noOutput => ∃ node ∈ g.node? source.node, ∀ pin ∈ node.kind.outputs, pin.key ≠ source.pin
  | noInput => ∃ node ∈ g.node? target.node, ∀ pin ∈ node.kind.inputs, pin.key ≠ target.pin
  | unsuited => ∃ sourceNode ∈ g.node? source.node, ∃ targetNode ∈ g.node? target.node,
    ∃ output ∈ sourceNode.kind.outputs, ∃ input ∈ targetNode.kind.inputs,
      output.key = source.pin ∧ input.key = target.pin ∧ output.socket.feeds input.socket = false
  | loop => source.node = target.node
  | fed => ∃ edge ∈ g.edges.values, edge.target = target

instance (g : Graph) (source target : Endpoint) : DecidablePred (Holds g source target)
  | noSource | noTarget => inferInstanceAs (Decidable (g.node? _ = none))
  | noOutput | noInput => inferInstanceAs (Decidable (∃ node ∈ g.node? _, _))
  | unsuited => inferInstanceAs (Decidable (∃ sourceNode ∈ g.node? _, _))
  | loop => inferInstanceAs (Decidable (source.node = target.node))
  | fed => inferInstanceAs (Decidable (∃ edge ∈ g.edges.values, _))

def error (source target : Endpoint) : Objection → ConnectionError
  | noSource => .nodeNotFound source.node
  | noTarget => .nodeNotFound target.node
  | noOutput => .pinNotFound source.node source.pin
  | noInput => .pinNotFound target.node target.pin
  | unsuited => .incompatibleSockets
  | loop => .selfLoop
  | fed => .alreadyConnected target

/-- The first objection that holds. -/
def first? (g : Graph) (source target : Endpoint) : Option Objection :=
  inOrder.find? fun objection => objection.Holds g source target

variable {g : Graph} {source target : Endpoint} {objection : Objection} {rest : List Objection}

theorem find?_of_holds (h : objection.Holds g source target) :
    ((objection :: rest).find? fun objection => objection.Holds g source target) =
      some objection :=
  List.find?_cons_of_pos (decide_eq_true h)

theorem find?_of_not_holds (h : ¬ objection.Holds g source target) :
    ((objection :: rest).find? fun objection => objection.Holds g source target) =
      rest.find? fun objection => objection.Holds g source target :=
  List.find?_cons_of_neg (by simpa using h)

theorem isSome_first?_iff :
    (first? g source target).isSome ↔ ∃ objection, Holds g source target objection := by
  have hall : ∀ objection, objection ∈ inOrder := fun objection => by cases objection <;> decide
  rw [first?, List.find?_isSome]
  constructor
  · rintro ⟨objection, -, h⟩
    exact ⟨objection, of_decide_eq_true h⟩
  · rintro ⟨objection, h⟩
    exact ⟨objection, hall objection, decide_eq_true h⟩

end Objection

/-! ## The first objection -/

namespace Graph

variable {g : Graph} {source target : Endpoint}

theorem noOutput_iff {node : Node} (h : g.node? source.node = some node) :
    Objection.Holds g source target .noOutput ↔ node.kind.output? source.pin = none := by
  simp [Objection.Holds, h, NodeKind.output?]

theorem noInput_iff {node : Node} (h : g.node? target.node = some node) :
    Objection.Holds g source target .noInput ↔ node.kind.input? target.pin = none := by
  simp [Objection.Holds, h, NodeKind.input?]

/-- Where both pins are there, the objection is about these two. -/
theorem unsuited_iff {sourceNode targetNode : Node} {output input : Pin}
    (hsource : g.node? source.node = some sourceNode)
    (htarget : g.node? target.node = some targetNode)
    (houtput : sourceNode.kind.output? source.pin = some output)
    (hinput : targetNode.kind.input? target.pin = some input) :
    Objection.Holds g source target .unsuited ↔ output.socket.feeds input.socket = false := by
  unfold Objection.Holds
  rw [hsource, htarget]
  constructor
  · rintro ⟨_, ⟨⟩, _, ⟨⟩, output', houtput', input', hinput', hkey, hkey', hfeeds⟩
    have hout := NodeKind.output?_of_mem houtput'
    have hin := NodeKind.input?_of_mem hinput'
    rw [hkey, houtput] at hout
    rw [hkey', hinput] at hin
    obtain rfl := Option.some.inj hout
    obtain rfl := Option.some.inj hin
    exact hfeeds
  · intro hfeeds
    obtain ⟨hout, hkey⟩ := NodeKind.of_output? houtput
    obtain ⟨hin, hkey'⟩ := NodeKind.of_input? hinput
    exact ⟨_, rfl, _, rfl, output, hout, input, hin, hkey, hkey', hfeeds⟩

theorem fed_iff : Objection.Holds g source target .fed ↔ g.isFed target = true := by
  simp [Objection.Holds, isFed, Edge.feeds]

/-- **An edge is refused for the first objection that holds.** -/
theorem connectionError?_eq_first? (g : Graph) (source target : Endpoint) :
    g.connectionError? source target =
      (Objection.first? g source target).map (Objection.error source target) := by
  -- Check after check, with the objections that do not hold put aside.
  unfold connectionError? Objection.first? Objection.inOrder
  cases hsource : g.node? source.node with
  | none =>
    have hholds : Objection.Holds g source target .noSource := hsource
    rw [Objection.find?_of_holds hholds]
    rfl
  | some sourceNode =>
    rw [Objection.find?_of_not_holds (by simp [Objection.Holds, hsource])]
    cases htarget : g.node? target.node with
    | none =>
      have hholds : Objection.Holds g source target .noTarget := htarget
      rw [Objection.find?_of_holds hholds]
      rfl
    | some targetNode =>
      rw [Objection.find?_of_not_holds (by simp [Objection.Holds, htarget])]
      dsimp only
      cases houtput : sourceNode.kind.output? source.pin with
      | none =>
        rw [Objection.find?_of_holds ((noOutput_iff hsource).mpr houtput)]
        rfl
      | some output =>
        rw [Objection.find?_of_not_holds (by simp [noOutput_iff hsource, houtput])]
        cases hinput : targetNode.kind.input? target.pin with
        | none =>
          rw [Objection.find?_of_holds ((noInput_iff htarget).mpr hinput)]
          rfl
        | some input =>
          rw [Objection.find?_of_not_holds (by simp [noInput_iff htarget, hinput])]
          dsimp only
          have hunsuited := unsuited_iff hsource htarget houtput hinput
          cases hfeeds : output.socket.feeds input.socket with
          | false =>
            rw [Objection.find?_of_holds (hunsuited.mpr hfeeds)]
            rfl
          | true =>
            rw [Objection.find?_of_not_holds (by simp [hunsuited, hfeeds])]
            by_cases hloop : source.node = target.node
            · have hholds : Objection.Holds g source target .loop := hloop
              rw [Objection.find?_of_holds hholds]
              simp [hloop, Objection.error]
            · have hnot : ¬ Objection.Holds g source target .loop := hloop
              rw [Objection.find?_of_not_holds hnot]
              by_cases hfed : g.isFed target = true
              · rw [Objection.find?_of_holds (fed_iff.mpr hfed)]
                simp [hloop, hfed, Objection.error]
              · rw [Objection.find?_of_not_holds (by rwa [fed_iff])]
                simp [hloop, hfed]

theorem connectWith_eq_first? {σ : Type} (draw : σ → EdgeId × σ) (g : Graph) (ids : σ)
    (source target : Endpoint) : g.connectWith draw ids source target =
      match Objection.first? g source target with
      | some objection => .error (objection.error source target)
      | none => .ok ⟨g.addEdge ⟨(draw ids).1, source, target⟩, (draw ids).1, (draw ids).2⟩ := by
  rw [connectWith, connectionError?_eq_first?]
  cases Objection.first? g source target <;> rfl

end Graph

/-! ## Connecting as a run -/

namespace Editor

variable {σ : Type} (draw : σ → EdgeId × σ)

/-- What is done to an editor and may end with an error. What was done before the error
stays done. -/
abbrev Action (σ α : Type) := ExceptT ConnectionError (StateM (Editor σ)) α

/-- What should be there, or the error if it is missing. -/
def require {α : Type} (found : Option α) (error : ConnectionError) : Action σ α :=
  match found with
  | some a => pure a
  | none => throw error

/-- Ends with an error on a condition. -/
def refuseIf (condition : Bool) (error : ConnectionError) : Action σ Unit :=
  if condition then throw error else pure ()

def drawId : Action σ EdgeId := do
  let editor ← get
  set { editor with ids := (draw editor.ids).2 }
  return (draw editor.ids).1

/-- Connects two pins, `out` and `input` where none is named: raises the objections one after
the other, then draws an id, then stores the edge. -/
def connect (source : NodeId) (sourcePin : Option PinKey) (target : NodeId)
    (targetPin : Option PinKey) : Action σ EdgeId := do
  let source : Endpoint := ⟨source, sourcePin.getD .out⟩
  let target : Endpoint := ⟨target, targetPin.getD .input⟩
  let graph := (← get).graph
  let sourceNode ← require (graph.node? source.node) (.nodeNotFound source.node)
  let targetNode ← require (graph.node? target.node) (.nodeNotFound target.node)
  let output ← require (sourceNode.kind.output? source.pin) (.pinNotFound source.node source.pin)
  let input ← require (targetNode.kind.input? target.pin) (.pinNotFound target.node target.pin)
  refuseIf (!output.socket.feeds input.socket) .incompatibleSockets
  refuseIf (source.node == target.node) .selfLoop
  refuseIf (graph.isFed target) (.alreadyConnected target)
  let id ← drawId draw
  modify fun editor => { editor with graph := editor.graph.addEdge ⟨id, source, target⟩ }
  return id

section Runs

variable {draw} {α β : Type} {editor : Editor σ}

theorem run_get_bind (next : Editor σ → Action σ β) :
    (get >>= next).run editor = (next editor).run editor := by
  cases editor
  rfl

theorem run_require_bind (found : Option α) (error : ConnectionError) (next : α → Action σ β) :
    (require found error >>= next).run editor =
      match found with
      | some a => (next a).run editor
      | none => (.error error, editor) := by
  cases found <;> rfl

theorem run_refuseIf_bind (condition : Bool) (error : ConnectionError) (next : Unit → Action σ β) :
    (refuseIf condition error >>= next).run editor =
      if condition then (.error error, editor) else (next ()).run editor := by
  cases condition <;> rfl

theorem run_drawId_bind (next : EdgeId → Action σ β) :
    (drawId draw >>= next).run editor =
      (next (draw editor.ids).1).run { editor with ids := (draw editor.ids).2 } := by
  cases editor
  rfl

end Runs

/-- **A connection that is refused was refused before anything was done.** The run answers as
the connection does, and leaves the editor as it was, or with the new edge and the rest of
the ids. -/
theorem run_connect (editor : Editor σ) (source : NodeId) (sourcePin : Option PinKey)
    (target : NodeId) (targetPin : Option PinKey) :
    (connect draw source sourcePin target targetPin).run editor =
      match editor.graph.connectWith draw editor.ids ⟨source, sourcePin.getD .out⟩
        ⟨target, targetPin.getD .input⟩ with
      | .error error => (.error error, editor)
      | .ok connected => (.ok connected.edge, ⟨connected.graph, connected.ids⟩) := by
  unfold connect Graph.connectWith Graph.connectionError?
  simp only [run_get_bind, run_require_bind, run_refuseIf_bind, run_drawId_bind]
  cases editor.graph.node? source with
  | none => rfl
  | some sourceNode =>
    cases editor.graph.node? target with
    | none => rfl
    | some targetNode =>
      dsimp only
      cases sourceNode.kind.output? (sourcePin.getD .out) with
      | none => rfl
      | some output =>
        cases targetNode.kind.input? (targetPin.getD .input) with
        | none => rfl
        | some input =>
          dsimp only
          cases output.socket.feeds input.socket with
          | false => rfl
          | true =>
            by_cases hloop : source = target
            · simp only [hloop, beq_self_eq_true, if_true, Bool.not_true, Bool.false_eq_true,
                if_false]
            · simp only [hloop, beq_eq_false_iff_ne.mpr hloop, Bool.not_true, Bool.false_eq_true,
                if_false]
              cases editor.graph.isFed ⟨target, targetPin.getD .input⟩ <;> rfl

/-- **Connecting does all or nothing**, whatever the graph and the supply of ids. It fails just
if an objection holds, with the error of the first that does, and then the editor is as it
was. Else one id is drawn, the nodes stay, and the edge that was asked for is stored under
the id, while the other edges stay. -/
theorem connect_all_or_nothing {σ : Type} (draw : σ → EdgeId × σ) (editor : Editor σ)
    (source : NodeId) (sourcePin : Option PinKey) (target : NodeId) (targetPin : Option PinKey) :
    let g := editor.graph
    let s : Endpoint := ⟨source, sourcePin.getD .out⟩
    let t : Endpoint := ⟨target, targetPin.getD .input⟩
    let answer := ((connect draw source sourcePin target targetPin).run editor).1
    let after := ((connect draw source sourcePin target targetPin).run editor).2
    answer = (g.connectWith draw editor.ids s t).map Graph.Connected.edge ∧
    after = editor.step draw (.connect source sourcePin target targetPin) ∧
    ((∃ error, answer = .error error) ↔ ∃ objection, Objection.Holds g s t objection) ∧
    (∀ error, answer = .error error ↔ ∃ objection,
      Objection.first? g s t = some objection ∧ objection.error s t = error) ∧
    match answer with
    | .error _ => after = editor
    | .ok id => id = (draw editor.ids).1 ∧ after.ids = (draw editor.ids).2 ∧
        after.graph.name = g.name ∧ after.graph.nodes = g.nodes ∧
        ∀ key, after.graph.edges.get? key =
          if key = id then some ⟨id, s, t⟩ else g.edges.get? key := by
  intro g s t answer after
  have hrun := run_connect draw editor source sourcePin target targetPin
  have hholds := @Objection.isSome_first?_iff g s t
  have hstep : editor.step draw (.connect source sourcePin target targetPin) =
      match g.connectWith draw editor.ids s t with
      | .error _ => editor
      | .ok connected => ⟨connected.graph, connected.ids⟩ := rfl
  have hconnect := Graph.connectWith_eq_first? draw g editor.ids s t
  cases hfirst : Objection.first? g s t with
  | some objection =>
    rw [hfirst] at hconnect hholds
    rw [hconnect] at hrun hstep ⊢
    have hanswer : answer = .error (objection.error s t) := congrArg Prod.fst hrun
    have hafter : after = editor := congrArg Prod.snd hrun
    rw [hanswer]
    refine ⟨rfl, hafter.trans hstep.symm, iff_of_true ⟨_, rfl⟩ (hholds.mp rfl), fun error => ?_,
      hafter⟩
    simp
  | none =>
    rw [hfirst] at hconnect hholds
    rw [hconnect] at hrun hstep ⊢
    have hanswer : answer = .ok (draw editor.ids).1 := congrArg Prod.fst hrun
    have hafter : after = ⟨g.addEdge ⟨(draw editor.ids).1, s, t⟩, (draw editor.ids).2⟩ :=
      congrArg Prod.snd hrun
    rw [hanswer, hafter]
    refine ⟨rfl, hstep.symm, iff_of_false ?_ ?_, fun error => ?_, rfl, rfl, rfl, rfl, fun key => ?_⟩
    · rintro ⟨error, h⟩
      cases h
    · intro h
      cases hholds.mpr h
    · simp
    · exact OrderedMap.get?_insert g.edges (draw editor.ids).1 key _

end Editor

end ShaderGraph
