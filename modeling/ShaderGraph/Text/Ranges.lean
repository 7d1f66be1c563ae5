/-
Sets of characters given by sorted, disjoint ranges of code points.
-/
namespace ShaderGraph.Text

/-- Membership in sorted ranges; the search stops at the first range that lies
wholly above the code point. -/
def inRanges (code : Nat) : List (Nat × Nat) → Bool
  | [] => false
  | (low, high) :: rest => if code < low then false else code ≤ high || inRanges code rest

end ShaderGraph.Text
