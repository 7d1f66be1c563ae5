import ShaderGraph.Proofs.Splicing
import ShaderGraph.Proofs.Wgsl.Naming
import ShaderGraph.Proofs.Wgsl.Simulation
import Mathlib.Data.List.Perm.Subperm

/-
The functions that an emission declares.

What is declared in the end is what the expressions of the log declare, one after another
(`Emits.functions_eq`), so that everything about declared functions is said of one
declaration and of a list of them (`Source.declareAll`). Just the called functions are
declared, each once (`mem_declareAll`, `distinct_declareAll`). There is one candidate
more for a name than there are names taken, so a name that is given is a new one
(`freeName_not_mem`); and a name that is made of the id of a code node keeps its form
when a number is put after it (`FunctionName.freeName`).
-/
namespace ShaderGraph.Wgsl

/-! ## Free names -/

theorem numbered_injective (name : String) :
    Function.Injective fun i : Nat => name ++ "_" ++ toString (i + 2) := by
  intro i j h
  have hdigits : Nat.toDigits 10 (i + 2) = Nat.toDigits 10 (j + 2) := by
    simpa using congrArg String.toList h
  exact Nat.add_right_cancel (Text.toDigits_injective hdigits)

theorem ne_numbered (name : String) (i : Nat) : name ≠ name ++ "_" ++ toString (i + 2) := by
  intro h
  have hlength := congrArg (fun text => text.toList.length) h
  simp at hlength

/-- **A free name is not taken.** -/
theorem freeName_not_mem (taken : List String) (name : String) : freeName taken name ∉ taken := by
  simp only [freeName]
  generalize hcandidates : name :: (List.range taken.length).map
    (fun i => name ++ "_" ++ toString (i + 2)) = candidates
  cases hfind : candidates.find? (· ∉ taken) with
  | some found =>
    have hfound := List.find?_some hfind
    simpa using hfound
  | none =>
    -- Then all candidates are taken, which are more than there are names taken.
    have hsubset : candidates ⊆ taken := by
      intro candidate hmem
      simpa using List.find?_eq_none.mp hfind candidate hmem
    have hnodup : candidates.Nodup := by
      rw [← hcandidates, List.nodup_cons]
      refine ⟨?_, List.Nodup.map (numbered_injective name) List.nodup_range⟩
      intro hmem
      obtain ⟨i, -, hi⟩ := List.mem_map.mp hmem
      exact ne_numbered name i hi.symm
    have hlength := (hnodup.subperm hsubset).length_le
    rw [← hcandidates, List.length_cons, List.length_map, List.length_range] at hlength
    exact absurd hlength (Nat.not_succ_le_self _)

/-- A name that is made of the id of a code node, with or without numbers after it. -/
def FunctionName (name : String) : Prop :=
  ∃ rest : List Char, name.toList = "shade_node_".toList ++ rest ∧
    ∀ c ∈ rest, c.isLower = true ∨ c.isDigit = true ∨ c = '_'

namespace FunctionName

theorem nameOfNode (id : NodeId) : FunctionName (CodeFunction.nameOfNode id) := by
  refine ⟨id.toList.map CodeFunction.nameChar, by simp [CodeFunction.nameOfNode], ?_⟩
  intro c hc
  obtain ⟨d, -, rfl⟩ := List.mem_map.mp hc
  exact CodeFunction.nameChar_cases d

theorem numbered {name : String} (h : FunctionName name) (k : Nat) :
    FunctionName (name ++ "_" ++ toString k) := by
  obtain ⟨rest, hname, hrest⟩ := h
  refine ⟨rest ++ '_' :: Nat.toDigits 10 k, by simp [hname], ?_⟩
  intro c hc
  rcases List.mem_append.mp hc with hc | hc
  · exact hrest c hc
  · rcases List.mem_cons.mp hc with rfl | hc
    · exact .inr (.inr rfl)
    · exact .inr (.inl (isDigit_of_mem_boundName hc))

theorem freeName {name : String} (h : FunctionName name) (taken : List String) :
    FunctionName (freeName taken name) := by
  rcases freeName_eq taken name with heq | ⟨k, heq⟩ <;> rw [heq]
  · exact h
  · exact h.numbered k

end FunctionName

/-! ## One declaration -/

section Declare

variable {table : Expressions} {declared : Declared} {f g : FunctionId}

theorem lookup_eq_none_iff {declared : Declared} :
    declared.lookup f = none ↔ f ∉ declared.map Prod.fst := by
  rw [List.lookup_eq_none_iff]
  constructor
  · rintro h hmem
    obtain ⟨entry, hentry, rfl⟩ := List.mem_map.mp hmem
    simpa using h entry hentry
  · intro h entry hentry
    simpa using fun heq => h (List.mem_map.mpr ⟨entry, hentry, Eq.symm heq⟩)

/-- A function is declared at its first use, and is there from then on. -/
theorem mem_ids_declare : g ∈ (declare table declared f).2.map Prod.fst ↔
    g ∈ declared.map Prod.fst ∨ g = f := by
  unfold declare
  cases hf : declared.lookup f with
  | some name =>
    have hmem : f ∈ declared.map Prod.fst := by
      by_contra hnot
      rw [lookup_eq_none_iff.mpr hnot] at hf
      cases hf
    exact ⟨.inl, fun h => h.elim id fun h => h ▸ hmem⟩
  | none => simp

/-- Functions and names are in one to one correspondence. -/
structure Distinct (declared : Declared) : Prop where
  ids : (declared.map Prod.fst).Nodup
  names : (declared.map Prod.snd).Nodup

theorem Distinct.declare (h : Distinct declared) : Distinct (declare table declared f).2 := by
  unfold Wgsl.declare
  cases hf : declared.lookup f with
  | some name => exact h
  | none =>
    -- A function that is declared anew has a name that none of the others has.
    constructor
    · rw [List.map_append, List.nodup_append]
      refine ⟨h.ids, List.nodup_singleton f, ?_⟩
      rintro g hg _ hf' rfl
      obtain rfl := List.mem_singleton.mp hf'
      exact lookup_eq_none_iff.mp hf hg
    · rw [List.map_append, List.nodup_append]
      refine ⟨h.names, List.nodup_singleton _, ?_⟩
      rintro name hname _ hfree rfl
      obtain rfl := List.mem_singleton.mp hfree
      exact freeName_not_mem _ _ hname

theorem forall_names_declare (h : ∀ entry ∈ declared, FunctionName entry.2)
    (hf : FunctionName (table.functions.getD f default).name) :
    ∀ entry ∈ (declare table declared f).2, FunctionName entry.2 := by
  unfold declare
  cases declared.lookup f with
  | some name => exact h
  | none =>
    refine List.forall_mem_append.mpr ⟨h, ?_⟩
    simpa using hf.freeName _

end Declare

/-! ## All declarations -/

namespace Source

variable {source : Source}

/-- What is declared after several expressions have been written out, one after another. -/
def declareAll (source : Source) (declared : Declared) (log : List ExprId) : Declared :=
  log.foldl (fun declared id => (source.declare declared id).2) declared

theorem declareAll_append (source : Source) (declared : Declared) (log more : List ExprId) :
    source.declareAll declared (log ++ more) =
      source.declareAll (source.declareAll declared log) more :=
  List.foldl_append

def Calls (source : Source) (id : ExprId) (f : FunctionId) : Prop :=
  ∃ primary secondary uv, source.table.exprs[id]? = some (.call f primary secondary uv)

theorem declare_of_calls {id : ExprId} {f : FunctionId} (h : source.Calls id f)
    (declared : Declared) : source.declare declared id = Wgsl.declare source.table declared f := by
  obtain ⟨primary, secondary, uv, he⟩ := h
  rw [Source.declare, he]

theorem declare_of_not_calls {id : ExprId} (h : ∀ f, ¬ source.Calls id f) (declared : Declared) :
    (source.declare declared id).2 = declared := by
  unfold Source.declare
  split
  · next f primary secondary uv he => exact absurd ⟨primary, secondary, uv, he⟩ (h f)
  · rfl

theorem mem_ids_declare {declared : Declared} {id : ExprId} {f : FunctionId} :
    f ∈ (source.declare declared id).2.map Prod.fst ↔
      f ∈ declared.map Prod.fst ∨ source.Calls id f := by
  by_cases hcall : ∃ g, source.Calls id g
  · obtain ⟨g, hg⟩ := hcall
    have hsame : source.Calls id f ↔ f = g := by
      constructor
      · rintro ⟨_, _, _, hf⟩
        obtain ⟨_, _, _, hg⟩ := hg
        rw [hg] at hf
        exact (Expr.call.inj (Option.some.inj hf)).1.symm
      · rintro rfl
        exact hg
    rw [declare_of_calls hg, Wgsl.mem_ids_declare, hsame]
  · have hnot : ∀ g, ¬ source.Calls id g := fun g hg => hcall ⟨g, hg⟩
    rw [declare_of_not_calls hnot, or_iff_left (hnot f)]

/-- **Just the functions that are called are declared.** -/
theorem mem_declareAll {declared : Declared} {log : List ExprId} {f : FunctionId} :
    f ∈ (source.declareAll declared log).map Prod.fst ↔
      f ∈ declared.map Prod.fst ∨ ∃ id ∈ log, source.Calls id f := by
  induction log generalizing declared with
  | nil => simp [declareAll]
  | cons id log ih =>
    have hcons : source.declareAll declared (id :: log) =
        source.declareAll (source.declare declared id).2 log := rfl
    rw [hcons, ih, mem_ids_declare]
    simp only [List.mem_cons, exists_eq_or_imp, or_assoc]

theorem declareAll_induction {P : Declared → Prop} {declared : Declared} {log : List ExprId}
    (hd : P declared)
    (hstep : ∀ declared, P declared → ∀ id ∈ log, ∀ f, source.Calls id f →
      P (Wgsl.declare source.table declared f).2) : P (source.declareAll declared log) := by
  induction log generalizing declared with
  | nil => exact hd
  | cons id log ih =>
    refine ih ?_ fun declared hd x hx => hstep declared hd x (List.mem_cons_of_mem _ hx)
    show P (source.declare declared id).2
    by_cases hcall : ∃ f, source.Calls id f
    · obtain ⟨f, hf⟩ := hcall
      rw [declare_of_calls hf]
      exact hstep declared hd id List.mem_cons_self f hf
    · rw [declare_of_not_calls fun f hf => hcall ⟨f, hf⟩]
      exact hd

theorem forall_names_declareAll {log : List ExprId}
    (hlog : ∀ id ∈ log, ∀ f, source.Calls id f →
      FunctionName (source.table.functions.getD f default).name) :
    ∀ entry ∈ source.declareAll [] log, FunctionName entry.2 :=
  declareAll_induction (P := fun declared => ∀ entry ∈ declared, FunctionName entry.2)
    (List.forall_mem_nil _) fun _ hd id hid f hf => forall_names_declare hd (hlog id hid f hf)

end Source

/-! ## Emissions -/

namespace Emits

variable {source : Source} {state later : Emission} {ids log : List ExprId} {codes : List Code}

/-- **An emission declares what its log declares, in the order of the log.** -/
theorem functions_eq (h : Emits source state ids codes later log) :
    later.functions = source.declareAll state.functions log := by
  induction h with
  | done state => rfl
  | named hname hrest ih => exact ih
  | written hname hshared hoperands hrest ih ih' | bound hname hshared hoperands hrest ih ih' =>
    -- The expression declares its function before its operands are emitted.
    rw [ih', Source.declareAll_append]
    exact congrArg (source.declareAll · _) ih

theorem reachable_of_mem (h : Emits source state ids codes later log) {e : ExprId}
    (he : e ∈ log) : source.table.Reachable ids e := by
  have hcons : ∀ {id ids}, source.table.Reachable ids e → source.table.Reachable (id :: ids) e := by
    rintro id ids ⟨root, hroot, hpath⟩
    exact ⟨root, List.mem_cons_of_mem _ hroot, hpath⟩
  induction h with
  | done state => cases he
  | named hname hrest ih => exact hcons (ih he)
  | @written state inner later id ids below log operands codes hname hshared hoperands hrest ih ih'
  | @bound state inner later id ids below log operands codes hname hshared hoperands hrest
      ih ih' =>
    simp only [List.mem_append, List.mem_cons] at he
    rcases he with (rfl | he) | he
    · exact ⟨e, List.mem_cons_self, .refl⟩
    · obtain ⟨root, hroot, hpath⟩ := ih he
      exact ⟨id, List.mem_cons_self, .head hroot hpath⟩
    · exact hcons (ih' he)

end Emits

end ShaderGraph.Wgsl
