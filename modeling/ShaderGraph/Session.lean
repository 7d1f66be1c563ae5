import ShaderGraph.Graph
import ShaderGraph.Material

/-
Ownership of the compiled material.

A slot holds the material that the renderer shows. A material is known by its
handle: two handles with equal contents are two materials. Installing a material
releases the one before it, unless that is the same one. A session joins a graph
being edited with the slot for what it was last compiled to.
-/
namespace ShaderGraph

/-- A material with its identity. -/
structure Handle where
  id : Nat
  material : Material
  deriving Repr

/-- The place of the current material. -/
structure MaterialSlot where
  current : Option Handle
  deriving Repr

namespace MaterialSlot

def empty : MaterialSlot := ⟨none⟩

/-- Puts a material in. The material before it is returned to be released, unless
it is the same one. -/
def install (slot : MaterialSlot) (next : Handle) : Option Material × MaterialSlot :=
  (match slot.current with
    | some old => if old.id = next.id then none else some old.material
    | none => none,
    ⟨some next⟩)

end MaterialSlot

/-- A graph with its latest compiled material. `compilations` counts the handles
given out. -/
structure Session where
  graph : Graph
  defaults : MaterialDefaults
  slot : MaterialSlot
  diagnostics : List String
  compilations : Nat

namespace Session

def start (graph : Graph) (defaults : MaterialDefaults) : Session :=
  ⟨graph, defaults, .empty, [], 0⟩

/-- Compiles the graph as it is and installs the outcome under a new handle. The
material that this releases is returned. -/
def recompile (s : Session) : Option Material × Session :=
  let compilation := s.graph.snapshot.compile s.defaults
  let (released, slot) := s.slot.install ⟨s.compilations, compilation.material⟩
  (released, { s with
    slot, diagnostics := compilation.diagnostics, compilations := s.compilations + 1 })

def material? (s : Session) : Option Material := s.slot.current.map (·.material)

end Session

end ShaderGraph
