/-
Finite vocabularies: types whose few values are written as words.
-/
namespace ShaderGraph

/-- All values of a type, in order, each with the word it is written as. -/
class Enumerated (α : Type) where
  all : List α
  word : α → String

namespace Enumerated

def words (α : Type) [Enumerated α] : List String := (all : List α).map word

def ofWord? (α : Type) [Enumerated α] (w : String) : Option α :=
  (all : List α).find? (fun a => word a == w)

end Enumerated

end ShaderGraph
