import ShaderGraph.Text.Blank
import ShaderGraph.Proofs.Words
import Mathlib.Data.List.TakeWhile

/-
Trimmed texts.

A text is its trimmed text between blanks (`exists_trim`), and blanks around it do not
change that (`trim_append`).
-/
namespace ShaderGraph.Text

def Blank (text : List Char) : Prop := ∀ c ∈ text, isBlank c = true

instance (text : List Char) : Decidable (Blank text) :=
  decidableForallMem text fun c => isBlank c = true

theorem exists_trimRight (text : List Char) :
    ∃ trail, text = trimRight text ++ trail ∧ Blank trail := by
  refine ⟨(text.reverse.takeWhile isBlank).reverse, ?_, fun c hc => ?_⟩
  · rw [trimRight, ← List.reverse_append, List.takeWhile_append_dropWhile, List.reverse_reverse]
  · exact List.all_eq_true.mp List.all_takeWhile c (List.mem_reverse.mp hc)

/-- A text is its trimmed text between blanks. -/
theorem exists_trim (text : List Char) :
    ∃ lead trail, text = lead ++ (trim text ++ trail) ∧ Blank lead ∧ Blank trail := by
  obtain ⟨trail, htrail, hblank⟩ := exists_trimRight (text.dropWhile isBlank)
  refine ⟨text.takeWhile isBlank, trail, ?_, List.all_eq_true.mp List.all_takeWhile, hblank⟩
  rw [trim, ← htrail, List.takeWhile_append_dropWhile]

theorem trimRight_append {trail : List Char} (h : Blank trail) (text : List Char) :
    trimRight (text ++ trail) = trimRight text := by
  rw [trimRight, List.reverse_append, List.dropWhile_append_of_pos, trimRight]
  exact fun c hc => h c (List.mem_reverse.mp hc)

theorem trim_append {lead trail : List Char} (hlead : Blank lead) (htrail : Blank trail)
    (text : List Char) : trim (lead ++ (text ++ trail)) = trim text := by
  rw [trim, trim, List.dropWhile_append_of_pos hlead, List.dropWhile_append]
  split
  · next hempty =>
    rw [List.isEmpty_iff.mp hempty, List.dropWhile_eq_nil_iff.mpr htrail]
  · exact trimRight_append htrail _

theorem dropWhile_isBlank {text : List Char} (h : ∀ c ∈ text.head?, isBlank c = false) :
    text.dropWhile isBlank = text := by
  cases text with
  | nil => rfl
  | cons c text =>
    have hc : ¬isBlank c = true := Bool.eq_false_iff.mp (h c rfl)
    exact List.dropWhile_cons_of_neg hc

theorem trim_eq_self {text : List Char} (hhead : ∀ c ∈ text.head?, isBlank c = false)
    (hlast : ∀ c ∈ text.getLast?, isBlank c = false) : trim text = text := by
  have hreverse : ∀ c ∈ text.reverse.head?, isBlank c = false := by rwa [List.head?_reverse]
  rw [trim, dropWhile_isBlank hhead, trimRight, dropWhile_isBlank hreverse, List.reverse_reverse]

/-- Where blanks are kept apart, changing characters and trimming can be exchanged. -/
theorem trim_map {f : Char → Char} (hf : ∀ c, isBlank (f c) = isBlank c) (text : List Char) :
    trim (text.map f) = (trim text).map f := by
  have hcomp : isBlank ∘ f = isBlank := funext hf
  rw [trim, trim, trimRight, trimRight, List.dropWhile_map, hcomp, ← List.map_reverse,
    List.dropWhile_map, hcomp, List.map_reverse]

end ShaderGraph.Text
