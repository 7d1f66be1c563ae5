import ShaderGraph.Files.Defaults
import ShaderGraph.Proofs.RoundTrip
import Mathlib.Data.List.Induction
import Mathlib.Data.List.Nodup

/-
Defaults of which only some are written.

A document of defaults is a record of entries (`MaterialDefaults.Entry`), each with a value
for one field; the entry of the fallback material is again a record of entries. Which texts
are such documents is said of the texts alone (`MaterialDefaults.Document`): entries in any
order and number, with commas between them, and blanks and comments wherever these may stand.

The outer record keeps the standard value of a field that is not written, the inner one
must have all its fields, and neither may have one twice. So a document is read as the
standard defaults with the entries put in, or refused for the first entry that offends
(`MaterialDefaults.ofText_document`). The argument is the same for both records: entries with
names of their own are read one after another into a draft (`Scheme.steps`), and one that
comes again meets a field that is set (`Scheme.refuses`).
-/
namespace ShaderGraph

namespace Ron.Reader

/-! ## Entries of records -/

section Entries

variable {α ε δ : Type} {fields : List (Field δ)} {name : ε → String} {add : δ → ε → δ}
  {owner : String} {levels : Nat} {draft : δ} {entries : List ε} {parts : List (List Char)}

/-- Entries that add to a draft of a record: each sets the field of its name, and no other. -/
structure Scheme (fields : List (Field δ)) (name : ε → String) (add : δ → ε → δ) : Prop where
  plain : ∀ field ∈ fields, isPlainIdentifier field.name.toList = true
  found : ∀ entry, ∃ field, fields.find? (·.name == name entry) = some field
  isSet_add : ∀ field ∈ fields, ∀ draft entry,
    field.isSet (add draft entry) = (field.name == name entry || field.isSet draft)

/-- The text is that of the entry, and its value is read into every draft. -/
def ReadsEntry (levels : Nat) (fields : List (Field δ)) (name : ε → String) (add : δ → ε → δ)
    (entry : ε) (part : List Char) : Prop :=
  ∃ value, Named (name entry) value part ∧
    ∀ field, fields.find? (·.name == name entry) = some field →
      ∀ draft, Reads levels (field.read draft) value (add draft entry)

/-- Where names come more than once, one is the first to come again. -/
theorem exists_again (entries : List ε) :
    (entries.map name).Nodup ∨ ∃ before entry after, entries = before ++ entry :: after ∧
      (before.map name).Nodup ∧ name entry ∈ before.map name := by
  induction entries using List.reverseRecOn with
  | nil => exact .inl List.nodup_nil
  | append_singleton entries entry ih =>
    rcases ih with hdistinct | ⟨before, other, after, rfl, hagain⟩
    · by_cases hagain : name entry ∈ entries.map name
      · exact .inr ⟨entries, entry, [], rfl, hdistinct, hagain⟩
      · rw [List.map_append, List.map_singleton]
        exact .inl (List.Nodup.append hdistinct (List.nodup_singleton _)
          (List.disjoint_singleton.mpr hagain))
    · exact .inr ⟨before, other, after ++ [entry], by rw [List.append_assoc, List.cons_append],
        hagain⟩

namespace Scheme

variable (h : Scheme fields name add)
include h

theorem isSet_foldl {field : Field δ} (hfield : field ∈ fields) (entries : List ε) :
    field.isSet (entries.foldl add draft) = true ↔
      field.name ∈ entries.map name ∨ field.isSet draft = true := by
  induction entries using List.reverseRecOn with
  | nil => simp
  | append_singleton entries other ih =>
    rw [List.foldl_append, List.foldl_cons, List.foldl_nil, h.isSet_add field hfield,
      Bool.or_eq_true, ih, beq_iff_eq, List.map_append, List.mem_append, List.map_singleton,
      List.mem_singleton]
    tauto

theorem field (entry : ε) :
    ∃ field ∈ fields, fields.find? (·.name == name entry) = some field ∧
      field.name = name entry := by
  obtain ⟨field, hfound⟩ := h.found entry
  have hname : (field.name == name entry) = true := by
    rw [List.find?_eq_some_iff_append] at hfound
    exact hfound.1
  exact ⟨field, List.mem_of_find?_eq_some hfound, hfound, beq_iff_eq.mp hname⟩

theorem steps (hparts : List.Forall₂ (ReadsEntry levels fields name add) entries parts)
    (hdistinct : (entries.map name).Nodup)
    (hunset : ∀ field ∈ fields, field.name ∈ entries.map name → field.isSet draft = false) :
    Steps (levels + 1) (fieldStep owner fields) draft parts (entries.foldl add draft) := by
  induction hparts generalizing draft with
  | nil => exact .nil draft
  | @cons entry part entries parts hpart _ ih =>
    rw [List.map_cons, List.nodup_cons] at hdistinct
    obtain ⟨value, hnamed, hread⟩ := hpart
    obtain ⟨field, hfield, hfound, hname⟩ := h.field entry
    have hfree : field.isSet draft = false :=
      hunset field hfield (hname ▸ List.mem_cons_self)
    have hfirst := hread field hfound draft
    refine .cons (.named (hname ▸ h.plain field hfield) hfound hfree hfirst hnamed) ?_
    refine ih hdistinct.2 fun other hother hmem => ?_
    have hne : other.name ≠ name entry := fun heq => hdistinct.1 (heq ▸ hmem)
    rw [h.isSet_add other hother, beq_eq_false_iff_ne.mpr hne, Bool.false_or]
    exact hunset other hother (List.mem_cons_of_mem _ hmem)

theorem refuses {entry : ε} {value part : List Char} (hnamed : Named (name entry) value part)
    (hagain : name entry ∈ entries.map name) :
    Refuses 1 (fieldStep owner fields (entries.foldl add draft)) part
      (.duplicateField (name entry) owner) := by
  obtain ⟨field, hfield, hfound, hname⟩ := h.field entry
  have hset : field.isSet (entries.foldl add draft) = true :=
    (h.isSet_foldl hfield entries).mpr (.inl (hname ▸ hagain))
  exact .duplicate (hname ▸ h.plain field hfield) hfound hset hnamed

theorem refuses_again {finish : δ → Reader α} {before : List ε} {entry : ε}
    {front back : List (List Char)} {value part text : List Char}
    (hbefore : List.Forall₂ (ReadsEntry levels fields name add) before front)
    (hdistinct : (before.map name).Nodup) (hempty : ∀ field ∈ fields, field.isSet draft = false)
    (hnamed : Named (name entry) value part) (hagain : name entry ∈ before.map name)
    (howner : isPlainIdentifier owner.toList = true)
    (htext : Recorded owner (front ++ part :: back) text) :
    Refuses (levels + 2) (record owner fields draft finish) text
      (.duplicateField (name entry) owner) := by
  have hsteps : Steps (levels + 1) (fieldStep owner fields) draft front (before.foldl add draft) :=
    h.steps hbefore hdistinct fun field hfield _ => hempty field hfield
  exact .recorded howner hsteps ((h.refuses hnamed hagain).mono (Nat.le_add_left 1 levels)) htext

end Scheme

theorem forall₂_append_cons {R : ε → List Char → Prop} {before after : List ε} {entry : ε}
    (h : List.Forall₂ R (before ++ entry :: after) parts) :
    ∃ front part back, parts = front ++ part :: back ∧ List.Forall₂ R before front ∧
      R entry part := by
  induction before generalizing parts with
  | nil =>
    obtain ⟨part, back, hpart, -, rfl⟩ := List.forall₂_cons_left_iff.mp h
    exact ⟨[], part, back, rfl, .nil, hpart⟩
  | cons other before ih =>
    obtain ⟨first, rest, hfirst, hrest, rfl⟩ := List.forall₂_cons_left_iff.mp h
    obtain ⟨front, part, back, rfl, hfront, hpart⟩ := ih hrest
    exact ⟨first :: front, part, back, rfl, .cons hfirst hfront, hpart⟩

theorem exists_forall₂ {R : ε → List Char → Prop} (entries : List ε)
    (h : ∀ entry, ∃ part, R entry part) : ∃ parts, List.Forall₂ R entries parts := by
  choose f hf using h
  exact ⟨entries.map f, List.forall₂_map_right_iff.mpr (List.forall₂_same.mpr fun e _ => hf e)⟩

/-- Whatever the parts are, they can be put side by side. -/
theorem exists_recorded (owner : String) (parts : List (List Char)) :
    ∃ text, Recorded owner parts text := by
  have hlaid : ∃ text, Laid parts text := by
    induction parts with
    | nil => exact ⟨[], .nil⟩
    | cons part parts ih =>
      obtain ⟨text, hlaid⟩ := ih
      exact ⟨_, .cons .nil .nil hlaid⟩
  obtain ⟨inner, hlaid⟩ := hlaid
  exact ⟨_, [], _, .inl rfl, ⟨[], inner, .nil, hlaid, rfl⟩, rfl⟩

end Entries

end Ron.Reader

open Ron Ron.Reader

theorem Side.spelled : Spelled Side := by intro a; cases a <;> decide

/-! ## Fallback materials -/

namespace FallbackMaterial

/-- One field of a fallback material, with a value for it. -/
inductive Entry where
  | color (v : Vec3)
  | roughness (v : Binary32)
  | metalness (v : Binary32)
  | side (s : Side)

namespace Entry

def name : Entry → String
  | color _ => "color"
  | roughness _ => "roughness"
  | metalness _ => "metalness"
  | side _ => "side"

def Spelled : Entry → List Char → Prop
  | color v, value => Vec3.Spelled value v
  | roughness v, value | metalness v, value => Reads 0 Reader.float value v
  | side s, value => value = (Enumerated.word s).toList

def Text (entry : Entry) (part : List Char) : Prop :=
  ∃ value, entry.Spelled value ∧ Named entry.name value part

def set (m : FallbackMaterial) : Entry → FallbackMaterial
  | color v => { m with color := v }
  | roughness v => { m with roughness := v }
  | metalness v => { m with metalness := v }
  | side s => { m with side := s }

def add (draft : Draft) : Entry → Draft
  | color v => { draft with color := some v }
  | roughness v => { draft with roughness := some v }
  | metalness v => { draft with metalness := some v }
  | side s => { draft with side := some s }

theorem scheme : Scheme fields name add where
  plain := by decide
  found entry := by cases entry <;> exact ⟨_, rfl⟩
  isSet_add := by
    simp only [fields, List.forall_mem_cons]
    refine ⟨?_, ?_, ?_, ?_, List.forall_mem_nil _⟩ <;>
      exact fun draft entry => by cases entry <;> rfl

theorem reads {entry : Entry} {part : List Char} (h : entry.Text part) :
    ReadsEntry 2 fields name add entry part := by
  obtain ⟨value, hspelled, hnamed⟩ := h
  refine ⟨value, hnamed, fun field hfound draft => ?_⟩
  cases entry <;> cases hfound
  case color => exact hspelled.reads.map _
  case roughness | metalness => exact (hspelled.map _).mono (Nat.zero_le 2)
  case side s =>
    rw [hspelled]
    exact (Reads.word Side.spelled "Side" s).map _

theorem exists_text (entry : Entry) : ∃ part, entry.Text part := by
  obtain ⟨value, hvalue⟩ : ∃ value, entry.Spelled value := by
    cases entry with
    | color v => exact ⟨_, v.spelled_write 0⟩
    | roughness v | metalness v => exact ⟨_, .float v⟩
    | side s => exact ⟨_, rfl⟩
  exact ⟨_, value, hvalue, [], [], .nil, .nil, rfl⟩

end Entry

def Text (entries : List Entry) (text : List Char) : Prop :=
  ∃ parts, List.Forall₂ Entry.Text entries parts ∧ Recorded "FallbackMaterial" parts text

def missing (entries : List Entry) : List String :=
  ["color", "roughness", "metalness", "side"].filter fun name => name ∉ entries.map Entry.name

def Complete (entries : List Entry) : Prop :=
  (entries.map Entry.name).Nodup ∧ missing entries = []

instance (entries : List Entry) : Decidable (Complete entries) :=
  inferInstanceAs (Decidable (_ ∧ _))

/-- What is wrong with the entries: a name comes again, or if none does, a field is missing. -/
inductive Fault (entries : List Entry) : ReadError → Prop
  | again {before after : List Entry} {entry : Entry} :
      entries = before ++ entry :: after → (before.map Entry.name).Nodup →
        entry.name ∈ before.map Entry.name →
        Fault entries (.duplicateField entry.name "FallbackMaterial")
  | lacks {name : String} :
      (entries.map Entry.name).Nodup → name ∈ (missing entries).head? →
        Fault entries (.missingField name "FallbackMaterial")

theorem complete_or_fault (entries : List Entry) :
    Complete entries ∨ ∃ e, Fault entries e := by
  rcases exists_again entries with hdistinct | ⟨_, _, _, hentries, hbefore, hagain⟩
  · cases hmissing : missing entries with
    | nil => exact .inl ⟨hdistinct, hmissing⟩
    | cons name rest => exact .inr ⟨_, .lacks hdistinct (by rw [hmissing]; rfl)⟩
  · exact .inr ⟨_, .again hentries hbefore hagain⟩

/-! ### Drafts -/

def Draft.empty : Draft := ⟨none, none, none, none⟩

/-- The draft, with the standard values where it has none. -/
def Draft.filled (draft : Draft) : FallbackMaterial where
  color := draft.color.getD standard.color
  roughness := draft.roughness.getD standard.roughness
  metalness := draft.metalness.getD standard.metalness
  side := draft.side.getD standard.side

/-- The end of the reading of a fallback material. -/
def Draft.finish (draft : Draft) : Reader FallbackMaterial := do
  let owner := "FallbackMaterial"
  return ⟨← required owner "color" draft.color, ← required owner "roughness" draft.roughness,
    ← required owner "metalness" draft.metalness, ← required owner "side" draft.side⟩

theorem read_eq : read = record "FallbackMaterial" fields .empty Draft.finish := rfl

theorem Draft.filled_foldl (entries : List Entry) (draft : Draft) :
    (entries.foldl Entry.add draft).filled = entries.foldl Entry.set draft.filled :=
  (List.foldl_hom filled fun draft entry => by cases entry <;> rfl).symm

theorem Draft.finish_apply (draft : Draft) (scope : Scope) (rest : List Char) :
    draft.finish scope rest =
      match ((fields.filter fun field => !field.isSet draft).map (·.name)).head? with
      | none => .ok (draft.filled, rest)
      | some name => .error (.missingField name "FallbackMaterial") := by
  obtain ⟨color, roughness, metalness, side⟩ := draft
  cases color <;> cases roughness <;> cases metalness <;> cases side <;> rfl

theorem isSet_empty : ∀ field ∈ fields, field.isSet Draft.empty = false := by decide

theorem unset_foldl (entries : List Entry) :
    (fields.filter fun field => !field.isSet (entries.foldl Entry.add .empty)).map (·.name) =
      missing entries := by
  have hset : ∀ field ∈ fields, (!field.isSet (entries.foldl Entry.add .empty)) =
      decide (field.name ∉ entries.map Entry.name) := by
    intro field hfield
    have hiff : field.isSet (entries.foldl Entry.add .empty) = true ↔ _ :=
      Entry.scheme.isSet_foldl hfield entries
    rw [isSet_empty field hfield, Bool.false_eq_true, or_false] at hiff
    rw [Bool.eq_iff_iff, decide_eq_true_iff, ← hiff, Bool.not_eq_true', Bool.not_eq_true]
  rw [List.filter_congr hset]
  show _ = (fields.map (·.name)).filter fun name => name ∉ entries.map Entry.name
  rw [List.filter_map]
  rfl

/-! ### Records -/

theorem steps {entries : List Entry} {parts : List (List Char)}
    (hparts : List.Forall₂ Entry.Text entries parts) (hdistinct : (entries.map Entry.name).Nodup) :
    Steps 3 (fieldStep "FallbackMaterial" fields) .empty parts (entries.foldl Entry.add .empty) :=
  Entry.scheme.steps (hparts.imp fun _ _ => Entry.reads) hdistinct
    fun field hfield _ => isSet_empty field hfield

theorem Text.reads {entries : List Entry} {text : List Char} (h : Text entries text)
    (hcomplete : Complete entries) : Reads 4 read text (entries.foldl Entry.set standard) := by
  obtain ⟨parts, hparts, hrecorded⟩ := h
  rw [read_eq]
  refine .recorded (by decide) (steps hparts hcomplete.1) (fun scope rest => ?_) hrecorded
  rw [Draft.finish_apply, unset_foldl, hcomplete.2, Draft.filled_foldl]
  rfl

theorem Text.refuses {entries : List Entry} {text : List Char} {e : ReadError}
    (h : Text entries text) (hfault : Fault entries e) : Refuses 4 read text e := by
  obtain ⟨parts, hparts, hrecorded⟩ := h
  rw [read_eq]
  cases hfault with
  | again hentries hdistinct hagain =>
    subst hentries
    have hreads := hparts.imp fun _ _ => Entry.reads
    obtain ⟨front, part, back, rfl, hfront, value, hnamed, -⟩ := forall₂_append_cons hreads
    exact Entry.scheme.refuses_again hfront hdistinct isSet_empty hnamed hagain (by decide)
      hrecorded
  | lacks hdistinct hmissing =>
    refine .unfinished (by decide) (steps hparts hdistinct) (fun scope rest => ?_) hrecorded
    rw [Draft.finish_apply, unset_foldl, Option.mem_def.mp hmissing]

theorem exists_text (entries : List Entry) : ∃ text, Text entries text := by
  obtain ⟨parts, hparts⟩ := exists_forall₂ entries Entry.exists_text
  obtain ⟨text, hrecorded⟩ := exists_recorded "FallbackMaterial" parts
  exact ⟨text, parts, hparts, hrecorded⟩

end FallbackMaterial

/-! ## Defaults -/

namespace MaterialDefaults

/-- One field of the defaults, with a value for it. The fallback material is given by
entries of its own. -/
inductive Entry where
  | baseColor (v : Vec3)
  | emissive (v : Vec3)
  | roughness (v : Binary32)
  | metalness (v : Binary32)
  | normal (v : Vec3)
  | opacity (v : Binary32)
  | fallback (entries : List FallbackMaterial.Entry)

namespace Entry

def name : Entry → String
  | baseColor _ => "base_color"
  | emissive _ => "emissive"
  | roughness _ => "roughness"
  | metalness _ => "metalness"
  | normal _ => "normal"
  | opacity _ => "opacity"
  | fallback _ => "fallback_material"

def Spelled : Entry → List Char → Prop
  | baseColor v, value | emissive v, value | normal v, value => Vec3.Spelled value v
  | roughness v, value | metalness v, value | opacity v, value => Reads 0 Reader.float value v
  | fallback entries, value => FallbackMaterial.Text entries value

def Text (entry : Entry) (part : List Char) : Prop :=
  ∃ value, entry.Spelled value ∧ Named entry.name value part

def set (m : MaterialDefaults) : Entry → MaterialDefaults
  | baseColor v => { m with baseColor := v }
  | emissive v => { m with emissive := v }
  | roughness v => { m with roughness := v }
  | metalness v => { m with metalness := v }
  | normal v => { m with normal := v }
  | opacity v => { m with opacity := v }
  | fallback entries => { m with fallback := entries.foldl FallbackMaterial.Entry.set .standard }

def add (draft : Draft) : Entry → Draft
  | baseColor v => { draft with baseColor := some v }
  | emissive v => { draft with emissive := some v }
  | roughness v => { draft with roughness := some v }
  | metalness v => { draft with metalness := some v }
  | normal v => { draft with normal := some v }
  | opacity v => { draft with opacity := some v }
  | fallback entries =>
    { draft with fallback := some (entries.foldl FallbackMaterial.Entry.set .standard) }

/-- A fallback material has all its fields, and none twice. -/
def Proper : Entry → Prop
  | fallback entries => FallbackMaterial.Complete entries
  | _ => True

theorem scheme : Scheme fields name add where
  plain := by decide
  found entry := by cases entry <;> exact ⟨_, rfl⟩
  isSet_add := by
    simp only [fields, List.forall_mem_cons]
    refine ⟨?_, ?_, ?_, ?_, ?_, ?_, ?_, List.forall_mem_nil _⟩ <;>
      exact fun draft entry => by cases entry <;> rfl

theorem reads {entry : Entry} {part : List Char} (h : entry.Text part) (hproper : entry.Proper) :
    ReadsEntry 4 fields name add entry part := by
  obtain ⟨value, hspelled, hnamed⟩ := h
  refine ⟨value, hnamed, fun field hfound draft => ?_⟩
  cases entry <;> cases hfound
  case baseColor | emissive | normal => exact (hspelled.reads.map _).mono (by decide)
  case roughness | metalness | opacity => exact (hspelled.map _).mono (by decide)
  case fallback => exact (hspelled.reads hproper).map _

theorem exists_text (entry : Entry) : ∃ part, entry.Text part := by
  obtain ⟨value, hvalue⟩ : ∃ value, entry.Spelled value := by
    cases entry with
    | baseColor v | emissive v | normal v => exact ⟨_, v.spelled_write 0⟩
    | roughness v | metalness v | opacity v => exact ⟨_, .float v⟩
    | fallback entries => exact FallbackMaterial.exists_text entries
  exact ⟨_, value, hvalue, [], [], .nil, .nil, rfl⟩

end Entry

/-- The text is a document that holds a record of the entries. -/
def Document (entries : List Entry) (text : List Char) : Prop :=
  ∃ before body after, text = before ++ (body ++ after) ∧ Gap before ∧
    (∃ parts, List.Forall₂ Entry.Text entries parts ∧ Recorded "MaterialDefaults" parts body) ∧
    skipTrivia .between after = .ok []

/-- No field has two entries, and the fallback material is complete. -/
def Proper (entries : List Entry) : Prop :=
  (entries.map Entry.name).Nodup ∧ ∀ entry ∈ entries, entry.Proper

/-- What is wrong with the first entry that does not go with those before it: it comes
again, or it is a fallback material in which something is wrong. -/
inductive Fault (entries : List Entry) : ReadError → Prop
  | again {before after : List Entry} {entry : Entry} :
      entries = before ++ entry :: after → Proper before →
        entry.name ∈ before.map Entry.name →
        Fault entries (.duplicateField entry.name "MaterialDefaults")
  | within {before after : List Entry} {parts : List FallbackMaterial.Entry} {e : ReadError} :
      entries = before ++ .fallback parts :: after → Proper before →
        "fallback_material" ∉ before.map Entry.name → FallbackMaterial.Fault parts e →
        Fault entries e

theorem proper_or_fault (entries : List Entry) : Proper entries ∨ ∃ e, Fault entries e := by
  induction entries using List.reverseRecOn with
  | nil => exact .inl ⟨List.nodup_nil, List.forall_mem_nil _⟩
  | append_singleton entries entry ih =>
    rcases ih with hproper | ⟨e, hfault⟩
    · by_cases hagain : entry.name ∈ entries.map Entry.name
      · exact .inr ⟨_, .again rfl hproper hagain⟩
      have hextended : entry.Proper → Proper (entries ++ [entry]) := by
        intro hentry
        rw [Proper, List.map_append, List.map_singleton, List.forall_mem_append,
          List.forall_mem_singleton]
        exact ⟨List.Nodup.append hproper.1 (List.nodup_singleton _)
          (List.disjoint_singleton.mpr hagain), hproper.2, hentry⟩
      cases entry with
      | fallback parts =>
        rcases FallbackMaterial.complete_or_fault parts with hcomplete | ⟨e, hfault⟩
        · exact .inl (hextended hcomplete)
        · exact .inr ⟨e, .within rfl hproper hagain hfault⟩
      | _ => exact .inl (hextended trivial)
    · cases hfault with
      | again hentries hproper hagain =>
        subst hentries
        exact .inr ⟨_, .again (by rw [List.append_assoc, List.cons_append]) hproper hagain⟩
      | within hentries hproper hfresh hfault =>
        subst hentries
        exact .inr ⟨e, .within (by rw [List.append_assoc, List.cons_append]) hproper hfresh hfault⟩

def Draft.empty : Draft := ⟨none, none, none, none, none, none, none⟩

theorem read_eq :
    read = record "MaterialDefaults" fields .empty fun draft => pure (ofDraft draft) := rfl

theorem isSet_empty : ∀ field ∈ fields, field.isSet Draft.empty = false := by decide

theorem ofDraft_foldl (entries : List Entry) (draft : Draft) :
    ofDraft (entries.foldl Entry.add draft) = entries.foldl Entry.set (ofDraft draft) :=
  (List.foldl_hom ofDraft fun draft entry => by cases entry <;> rfl).symm

theorem reads_of_proper {entries : List Entry} {parts : List (List Char)}
    (hparts : List.Forall₂ Entry.Text entries parts) (hproper : ∀ entry ∈ entries, entry.Proper) :
    List.Forall₂ (ReadsEntry 4 fields Entry.name Entry.add) entries parts := by
  induction hparts with
  | nil => exact .nil
  | cons hpart _ ih =>
    rw [List.forall_mem_cons] at hproper
    exact .cons (Entry.reads hpart hproper.1) (ih hproper.2)

theorem steps {entries : List Entry} {parts : List (List Char)}
    (hparts : List.Forall₂ Entry.Text entries parts) (hproper : Proper entries) :
    Steps 5 (fieldStep "MaterialDefaults" fields) .empty parts (entries.foldl Entry.add .empty) :=
  Entry.scheme.steps (reads_of_proper hparts hproper.2) hproper.1
    fun field hfield _ => isSet_empty field hfield

theorem reads {entries : List Entry} {parts : List (List Char)} {text : List Char}
    (hparts : List.Forall₂ Entry.Text entries parts)
    (htext : Recorded "MaterialDefaults" parts text) (hproper : Proper entries) :
    Reads 6 read text (entries.foldl Entry.set standard) := by
  rw [read_eq]
  refine .recorded (by decide) (steps hparts hproper) (fun scope rest => ?_) htext
  rw [ofDraft_foldl]
  rfl

theorem refuses {entries : List Entry} {parts : List (List Char)} {text : List Char} {e : ReadError}
    (hparts : List.Forall₂ Entry.Text entries parts)
    (htext : Recorded "MaterialDefaults" parts text) (hfault : Fault entries e) :
    Refuses 6 read text e := by
  rw [read_eq]
  cases hfault with
  | again hentries hproper hagain =>
    subst hentries
    obtain ⟨front, part, back, rfl, hfront, value, -, hnamed⟩ := forall₂_append_cons hparts
    exact Entry.scheme.refuses_again (reads_of_proper hfront hproper.2) hproper.1 isSet_empty hnamed
      hagain (by decide) htext
  | @within before _ _ _ hentries hproper hfresh hfault =>
    subst hentries
    obtain ⟨front, part, back, rfl, hfront, value, hvalue, hnamed⟩ := forall₂_append_cons hparts
    obtain ⟨field, hfield, hfound, hname⟩ := Entry.scheme.field (.fallback [])
    have hunset : field.isSet (before.foldl Entry.add .empty) = false := by
      refine Bool.eq_false_iff.mpr fun hset => ?_
      rcases (Entry.scheme.isSet_foldl hfield before).mp hset with hmem | hempty
      · rw [hname] at hmem
        exact hfresh hmem
      · rw [isSet_empty field hfield] at hempty
        cases hempty
    have hvalue : Refuses 4 (field.read (before.foldl Entry.add .empty)) value e := by
      cases hfound
      exact (hvalue.refuses hfault).map _
    exact .recorded (by decide) (steps hfront hproper)
      (.named (by decide) hfound hunset hvalue hnamed) htext

theorem exists_document (entries : List Entry) : ∃ text, Document entries text := by
  obtain ⟨parts, hparts⟩ := exists_forall₂ entries Entry.exists_text
  obtain ⟨body, hrecorded⟩ := exists_recorded "MaterialDefaults" parts
  exact ⟨_, [], body, [], rfl, .nil, ⟨parts, hparts, hrecorded⟩, rfl⟩

/-- **Partial defaults.** All entries can be written in a document, in any order and layout.
If no field has two of them and the fallback material is complete, the document is read as
the standard defaults with the written values in place of theirs. Else it is refused for
the first entry in which something is wrong. -/
theorem ofText_document :
    (∀ entries, ∃ text : String, Document entries text.toList) ∧
    ∀ (entries : List Entry) (text : String), Document entries text.toList →
      (Proper entries → ofText text = .ok (entries.foldl Entry.set standard)) ∧
      (¬Proper entries → ∃ e, Fault entries e ∧ ofText text = .error e) := by
  refine ⟨fun entries => ?_, fun entries text hdocument => ?_⟩
  · obtain ⟨text, hdocument⟩ := exists_document entries
    exact ⟨String.ofList text, by rwa [String.toList_ofList]⟩
  · obtain ⟨before, body, after, htext, hbefore, ⟨parts, hparts, hrecorded⟩, hafter⟩ := hdocument
    have hfirst : body.head? ≠ some '#' := by
      obtain ⟨header, record, rfl | ⟨gap, -, rfl⟩, ⟨_, _, -, -, rfl⟩, rfl⟩ := hrecorded
      · exact ne_of_beq_false rfl
      · exact ne_of_beq_false rfl
    rw [← String.ofList_toList (s := text), htext]
    refine ⟨fun hproper => ?_, fun himproper => ?_⟩
    · exact document_of_reads (reads hparts hrecorded hproper) (by decide) hfirst hbefore hafter
    · obtain ⟨e, hfault⟩ := (proper_or_fault entries).resolve_left himproper
      exact ⟨e, hfault, document_of_refuses (refuses hparts hrecorded hfault) (by decide) hfirst
        hbefore hafter⟩

/-- Opacity and a fallback material whose fields stand in another order; and a document that
has one field twice. -/
theorem ofText_document_out_of_order :
    ofText ("// Haze\n(opacity: inf, fallback_material: " ++
        "(side: Front, color: (1.0, NaN, -inf,), " ++
        "metalness: -inf, roughness: 1.0) /* all of it */,)") =
      .ok { standard with
        opacity := .infinite false
        fallback := ⟨⟨.ofDecimal false 1 0, .undefined false, .infinite true⟩,
          .ofDecimal false 1 0, .infinite true, .front⟩ } ∧
    ∃ e, ofText "(roughness: 1.0, roughness: NaN)" = .error e := by
  have hnan : Reads 0 Reader.float "NaN".toList (.undefined false) := .float (.undefined false)
  have hminus : Reads 0 Reader.float "-inf".toList (.infinite true) := .float (.infinite true)
  have hone : Reads 0 Reader.float "1.0".toList (.ofDecimal false 1 0) := by
    have htext : (Binary32.ofDecimal false 1 0).positional = "1.0" := by decide +kernel
    rw [← htext]
    exact .float _
  have hnamed (name : String) (value : List Char) :
      Named name value (name.toList ++ ([] ++ ':' :: ([' '] ++ value))) :=
    ⟨[], [' '], .nil, gap_blank, rfl⟩
  constructor
  · have hcolor : Vec3.Spelled "(1.0, NaN, -inf,)".toList
        ⟨.ofDecimal false 1 0, .undefined false, .infinite true⟩ :=
      ⟨["1.0".toList, "NaN".toList, "-inf".toList],
        .cons hone (.cons hnan (.cons hminus .nil)), [], _, .nil,
        .cons .nil gap_blank (.cons .nil gap_blank (.cons .nil .nil .nil)), rfl⟩
    have hfallback : FallbackMaterial.Text
        [.side .front, .color ⟨.ofDecimal false 1 0, .undefined false, .infinite true⟩,
          .metalness (.infinite true), .roughness (.ofDecimal false 1 0)]
        ("(side: Front, color: (1.0, NaN, -inf,), ".toList ++
          "metalness: -inf, roughness: 1.0)".toList) :=
      ⟨["side: Front".toList, "color: (1.0, NaN, -inf,)".toList, "metalness: -inf".toList,
          "roughness: 1.0".toList],
        .cons ⟨_, rfl, hnamed _ _⟩ (.cons ⟨_, hcolor, hnamed _ _⟩
          (.cons ⟨_, hminus, hnamed _ _⟩ (.cons ⟨_, hone, hnamed _ _⟩ .nil))),
        [], _, .inl rfl, ⟨[], _, .nil, .cons .nil gap_blank (.cons .nil gap_blank
          (.cons .nil gap_blank (.last .nil))), rfl⟩, by decide +kernel⟩
    have hcomment : Gap " /* all of it */".toList := fun _ => rfl
    have hline : Gap "// Haze\n".toList := .comment (by decide : '\n' ∉ " Haze".toList)
    have hlaid (first second : List Char) : Laid [first, second] _ :=
      .cons .nil gap_blank (.cons hcomment .nil .nil)
    refine (ofText_document.2 [.opacity (.infinite false), .fallback _] _ ⟨"// Haze\n".toList, _,
      [], by simp only [String.toList_append]; decide +kernel, hline, ⟨["opacity: inf".toList, _],
        .cons ⟨_, .float (.infinite false), hnamed _ _⟩ (.cons ⟨_, hfallback, hnamed _ _⟩ .nil),
        [], _, .inl rfl, ⟨[], _, .nil, hlaid _ _, rfl⟩, rfl⟩, rfl⟩).1 ⟨by decide, ?_⟩
    rw [List.forall_mem_cons, List.forall_mem_singleton]
    exact ⟨trivial, (by decide : FallbackMaterial.Complete _)⟩
  · have hlaid (first second : List Char) : Laid [first, second] _ :=
      .cons .nil gap_blank (.last .nil)
    obtain ⟨e, -, he⟩ := (ofText_document.2
      [.roughness (.ofDecimal false 1 0), .roughness (.undefined false)]
      "(roughness: 1.0, roughness: NaN)" ⟨[], _, [], by decide +kernel, .nil,
        ⟨["roughness: 1.0".toList, "roughness: NaN".toList],
          .cons ⟨_, hone, hnamed _ _⟩ (.cons ⟨_, hnan, hnamed _ _⟩ .nil),
          [], _, .inl rfl, ⟨[], _, .nil, hlaid _ _, rfl⟩, rfl⟩, rfl⟩).2
      fun hproper => absurd hproper.1 (by decide)
    exact ⟨e, he⟩

end MaterialDefaults

end ShaderGraph
