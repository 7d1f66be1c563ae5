import ShaderGraph.Session

/-
Release of materials over whole runs.

A slot is given handles one after another (`MaterialSlot.installAll`), and a session is
edited and compiled in any order (`Session.run`). Both runs tell, step by step, what was
released.

What is proved of them:
  1. `MaterialSlot.installAll_released`: an install into a slot that was empty at first
     releases by the handle installed before it, and by nothing else.
  2. `Session.run_installs`: a run of a session is a run of its slot, over new handles with
     what the graph compiled to whenever it was compiled (`Session.compiled`).
  3. `Session.released_handles`: over new handles all materials but the last are released,
     each once and in order.

What a session ought to have is read off its steps alone: `Session.compiled` follows the graph
through the edits and knows of no slot.
-/
namespace ShaderGraph

/-! ## Slots -/

namespace MaterialSlot

/-- What is released where one handle takes the place of another. -/
def replaced (old next : Handle) : Option Material :=
  if old.id = next.id then none else some old.material

/-- Puts materials in one after another. What each of them releases is told in order. -/
def installAll (slot : MaterialSlot) : List Handle → List (Option Material) × MaterialSlot
  | [] => ([], slot)
  | next :: rest =>
    let (released, slot) := slot.install next
    let (later, slot) := installAll slot rest
    (released :: later, slot)

/-- The slot holds what came in last. -/
theorem installAll_current (slot : MaterialSlot) (handles : List Handle) :
    (slot.installAll handles).2.current = handles.getLast?.or slot.current := by
  induction handles generalizing slot with
  | nil => rfl
  | cons next rest ih =>
    show ((slot.install next).2.installAll rest).2.current = _
    rw [ih, List.getLast?_cons]
    cases rest.getLast? <;> rfl

theorem installAll_some (old : Handle) (handles : List Handle) :
    (installAll ⟨some old⟩ handles).1 = List.zipWith replaced (old :: handles) handles := by
  induction handles generalizing old with
  | nil => rfl
  | cons next rest ih =>
    show replaced old next :: (installAll ⟨some next⟩ rest).1 = _
    rw [ih, List.zipWith_cons_cons]

/-- The first handle releases nothing, and every other one what it replaces. -/
theorem installAll_released (handles : List Handle) :
    (empty.installAll handles).1 =
      handles.head?.toList.map (fun _ => none) ++ List.zipWith replaced handles handles.tail := by
  cases handles with
  | nil => rfl
  | cons first rest =>
    show none :: (installAll ⟨some first⟩ rest).1 = _
    rw [installAll_some]
    rfl

theorem disposed_installAll (handles : List Handle) :
    (empty.installAll handles).1.filterMap id =
      (List.zipWith replaced handles handles.tail).filterMap id := by
  rw [installAll_released]
  cases handles <;> rfl

theorem installAll_released_zero (handles : List Handle) :
    (empty.installAll handles).1[0]? = handles[0]?.map fun _ => none := by
  rw [installAll_released]
  cases handles <;> rfl

theorem installAll_released_succ (handles : List Handle) (i : Nat) :
    (empty.installAll handles).1[i + 1]? =
      handles[i]?.bind fun old => handles[i + 1]?.map (replaced old) := by
  rw [installAll_released]
  cases handles with
  | nil => rfl
  | cons first rest =>
    show (List.zipWith replaced (first :: rest) rest)[i]? = _
    rw [List.getElem?_zipWith, List.getElem?_cons_succ]
    cases (first :: rest)[i]? <;> cases rest[i]? <;> rfl

end MaterialSlot

/-! ## Sessions -/

namespace Session

/-- What is done to a session. An edit may do anything to the graph. -/
inductive Step where
  | edit (change : Graph → Graph)
  | recompile

/-- The session after a step, and what the step released. -/
def step (s : Session) : Step → Option Material × Session
  | .edit change => (none, { s with graph := change s.graph })
  | .recompile => s.recompile

def run (s : Session) : List Step → List (Option Material) × Session
  | [] => ([], s)
  | next :: rest =>
    let (released, s) := s.step next
    let (later, s) := run s rest
    (released :: later, s)

/-- What the graph is compiled to, each time that it is compiled. -/
def compiled (defaults : MaterialDefaults) : Graph → List Step → List Compilation
  | _, [] => []
  | graph, .edit change :: rest => compiled defaults (change graph) rest
  | graph, .recompile :: rest => graph.snapshot.compile defaults :: compiled defaults graph rest

/-- The materials under new handles, numbered from `first`. -/
def handles (first : Nat) : List Compilation → List Handle
  | [] => []
  | compilation :: rest => ⟨first, compilation.material⟩ :: handles (first + 1) rest

theorem run_append (s : Session) (steps more : List Step) :
    s.run (steps ++ more) =
      ((s.run steps).1 ++ ((s.run steps).2.run more).1, ((s.run steps).2.run more).2) := by
  induction steps generalizing s with
  | nil => rfl
  | cons next rest ih =>
    show ((s.step next).1 :: ((s.step next).2.run (rest ++ more)).1,
      ((s.step next).2.run (rest ++ more)).2) = _
    rw [ih]
    rfl

/-- **A run of a session is a run of its slot**, over what the graph is compiled to. -/
theorem run_installs (s : Session) (steps : List Step) :
    let installed := s.slot.installAll (handles s.compilations (compiled s.defaults s.graph steps))
    (s.run steps).1.filterMap id = installed.1.filterMap id ∧
      (s.run steps).2.slot = installed.2 := by
  induction steps generalizing s with
  | nil => exact ⟨rfl, rfl⟩
  | cons next rest ih =>
    obtain ⟨hreleased, hslot⟩ := ih (s.step next).2
    refine ⟨?_, hslot.trans ?_⟩
    · show ((s.step next).1 :: ((s.step next).2.run rest).1).filterMap id = _
      cases next with
      | edit change => exact hreleased
      | recompile =>
        rw [List.filterMap_cons, hreleased]
        exact (List.filterMap_cons ..).symm
    · cases next <;> rfl

theorem run_diagnostics (s : Session) (steps : List Step) :
    (s.run steps).2.diagnostics =
      ((compiled s.defaults s.graph steps).getLast?.map Compilation.diagnostics).getD
        s.diagnostics := by
  induction steps generalizing s with
  | nil => rfl
  | cons next rest ih =>
    refine (ih (s.step next).2).trans ?_
    cases next with
    | edit change => rfl
    | recompile =>
      show ((compiled s.defaults s.graph rest).getLast?.map Compilation.diagnostics).getD
        (s.graph.snapshot.compile s.defaults).diagnostics = _
      rw [compiled, List.getLast?_cons]
      cases (compiled s.defaults s.graph rest).getLast? <;> rfl

theorem run_edits (s : Session) (changes : List (Graph → Graph)) :
    (s.run (changes.map .edit)).1 = List.replicate changes.length none ∧
      (s.run (changes.map .edit)).2.slot = s.slot ∧
      (s.run (changes.map .edit)).2.diagnostics = s.diagnostics := by
  induction changes generalizing s with
  | nil => exact ⟨rfl, rfl, rfl⟩
  | cons change rest ih =>
    obtain ⟨hreleased, hslot, hdiagnostics⟩ := ih { s with graph := change s.graph }
    exact ⟨congrArg (none :: ·) hreleased, hslot, hdiagnostics⟩

theorem getLast?_handles (first : Nat) (compilations : List Compilation) :
    (handles first compilations).getLast?.map Handle.material =
      compilations.getLast?.map Compilation.material := by
  induction compilations generalizing first with
  | nil => rfl
  | cons compilation rest ih =>
    specialize ih (first + 1)
    rw [handles, List.getLast?_cons, List.getLast?_cons]
    cases hlast : rest.getLast? with
    | none =>
      rw [hlast, Option.map_none, Option.map_eq_none_iff] at ih
      rw [ih]
      rfl
    | some last =>
      rw [hlast, Option.map_some, Option.map_eq_some_iff] at ih
      obtain ⟨handle, hhandle, hmaterial⟩ := ih
      rw [hhandle]
      exact congrArg some hmaterial

/-- New handles all differ, so every material but the last is released. -/
theorem released_handles (first : Nat) (compilations : List Compilation) :
    (List.zipWith MaterialSlot.replaced (handles first compilations)
      (handles first compilations).tail).filterMap id =
      (compilations.map Compilation.material).dropLast := by
  induction compilations generalizing first with
  | nil => rfl
  | cons compilation rest ih =>
    cases rest with
    | nil => rfl
    | cons next rest =>
      have hreplaced : MaterialSlot.replaced ⟨first, compilation.material⟩
          ⟨first + 1, next.material⟩ = some compilation.material :=
        if_neg (Nat.ne_of_lt (Nat.lt_succ_self first))
      show (MaterialSlot.replaced ⟨first, compilation.material⟩ ⟨first + 1, next.material⟩ ::
        List.zipWith MaterialSlot.replaced (handles (first + 1) (next :: rest))
          (handles (first + 1) (next :: rest)).tail).filterMap id = _
      rw [hreplaced]
      exact congrArg (compilation.material :: ·) (ih (first + 1))

/-- **Materials are released when they are replaced, and only then.**

Of handles put one after another into an empty slot the last one stays. The first install
releases nothing; every other one releases the material of the handle before it, unless the
two are one handle. The materials released are these, in order.

So in a session, however it is edited and compiled, the materials released are the outcomes
of all compilations but the last, each once and in order; the material and the messages are
those of the last compilation, of the graph as it was then and with the session's defaults;
and edits that follow release nothing and change neither. -/
theorem disposal_of_runs :
    (∀ installs : List Handle,
      let (released, slot) := MaterialSlot.empty.installAll installs
      slot.current = installs.getLast? ∧
      released[0]? = installs[0]?.map (fun _ => none) ∧
      (∀ i, released[i + 1]? = installs[i]?.bind fun old => installs[i + 1]?.map fun next =>
        if old.id = next.id then none else some old.material) ∧
      released.filterMap id = (List.zipWith (fun old next : Handle =>
        if old.id = next.id then none else some old.material)
        installs installs.tail).filterMap id) ∧
    ∀ (graph : Graph) (defaults : MaterialDefaults) (steps : List Step),
      let compilations := compiled defaults graph steps
      let (released, session) := (start graph defaults).run steps
      released.filterMap id = (compilations.map Compilation.material).dropLast ∧
      session.material? = compilations.getLast?.map Compilation.material ∧
      session.diagnostics = (compilations.getLast?.map Compilation.diagnostics).getD [] ∧
      ∀ changes : List (Graph → Graph),
        let (after, edited) := (start graph defaults).run (steps ++ changes.map .edit)
        after = released ++ List.replicate changes.length none ∧
        edited.material? = session.material? ∧ edited.diagnostics = session.diagnostics := by
  refine ⟨fun installs => ?_, fun graph defaults steps => ?_⟩
  · have hcurrent := MaterialSlot.empty.installAll_current installs
    refine ⟨hcurrent.trans (Option.or_none ..), MaterialSlot.installAll_released_zero installs,
      MaterialSlot.installAll_released_succ installs, MaterialSlot.disposed_installAll installs⟩
  · intro compilations
    obtain ⟨hreleased, hslot⟩ := run_installs (start graph defaults) steps
    refine ⟨?_, ?_, run_diagnostics _ steps, fun changes => ?_⟩
    · exact hreleased.trans
        ((MaterialSlot.disposed_installAll _).trans (released_handles 0 compilations))
    · show (((start graph defaults).run steps).2.slot.current).map Handle.material = _
      rw [hslot, MaterialSlot.installAll_current]
      show ((handles 0 compilations).getLast?.or none).map Handle.material = _
      rw [Option.or_none, getLast?_handles]
    · obtain ⟨hnone, hkept, hdiagnostics⟩ :=
        run_edits ((start graph defaults).run steps).2 changes
      rw [run_append]
      refine ⟨congrArg _ hnone, ?_, hdiagnostics⟩
      exact congrArg (fun slot : MaterialSlot => slot.current.map Handle.material) hkept

end Session

end ShaderGraph
