import ShaderGraph.Wgsl
import ShaderGraph.Proofs.Wgsl.CodeNodes

/-
Numbers that a module writes.

Each step of a walk that adds a literal adds a finite one, so all literals of a compilation
are finite, in expressions that no channel reaches and where a default is not needed too.
The literals of the code are among them, since nothing but what stands for a literal is
written as one (`Renders.mem_literals`).

In the text a number that is not finite would be the word `inf` or the word `NaN`
(`allFinite_compact`). The text of a module without the bodies of its functions falls apart,
at characters that are in no word, into constants, names, and numbers of literals; so
neither is a word of it.
-/
namespace ShaderGraph

/-! ## Literals of a compilation -/

def Expressions.FiniteLiterals (table : Expressions) : Prop :=
  ∀ (id : ExprId) value, table.exprs[id]? = some (.literal value) → value.isFinite = true

theorem finiteLiterals_start : Resolution.start.expressions.FiniteLiterals := by
  intro id value h
  simp [Resolution.start, Expressions.empty] at h

theorem Network.Step.finiteLiterals {net : Network} {state later : Resolution}
    (h : net.Step state later) (hs : state.expressions.FiniteLiterals) :
    later.expressions.FiniteLiterals := by
  intro id value hget
  cases h with
  | literal hfinite =>
    rcases Resolution.get_adding.mp hget with hbefore | ⟨-, hvalue⟩
    · exact hs id value hbefore
    · obtain rfl := Expr.literal.inj hvalue
      exact hfinite
  | builtin | apply =>
    rcases Resolution.get_adding.mp hget with hbefore | ⟨-, hvalue⟩
    · exact hs id value hbefore
    · cases hvalue
  | report | mark | answer => exact hs id value hget
  | code =>
    rcases Resolution.get_blending.mp hget with hbefore | ⟨-, h⟩ | ⟨-, h⟩ | ⟨-, h⟩
    · exact hs id value hbefore
    all_goals cases h

theorem Snapshot.finiteLiterals_of_compile {snapshot : Snapshot} {defaults : MaterialDefaults}
    {material : NodeMaterial} (h : (snapshot.compile defaults).material = .node material) :
    material.expressions.FiniteLiterals := by
  obtain ⟨hsteps, hexpressions, -⟩ := steps_of_compile h
  rw [hexpressions]
  exact hsteps.keep (P := fun state => state.expressions.FiniteLiterals)
    (fun hstep => hstep.finiteLiterals) finiteLiterals_start

end ShaderGraph

namespace ShaderGraph.Wgsl

/-! ## Literals of code -/

/-- The literals that occur in the code, from left to right. -/
def Code.literals : Code → List Literal
  | literal value => [value]
  | builtin _ => []
  | bound _ => []
  | arithmetic _ x y => x.literals ++ y.literals
  | pow x y => x.literals ++ y.literals
  | apply1 _ x => x.literals
  | apply3 _ x y z => x.literals ++ y.literals ++ z.literals
  | call _ primary secondary uv => primary.literals ++ secondary.literals ++ uv.literals
  | splat _ x => x.literals
  | pad x => x.literals
  | firstOf x => x.literals
  | firstTwoOf x => x.literals

@[simp] theorem literals_coerce (c : Code) (type target : ValueType) :
    (c.coerce type target).literals = c.literals := by
  cases type <;> cases target <;> rfl

@[simp] theorem literals_as (x : Operand) (target : ValueType) :
    (x.as target).literals = x.code.literals :=
  literals_coerce x.code x.type target

theorem literals_applicationCode (result : ValueType) (application : Application Operand) :
    (applicationCode result application).literals =
      application.operands.flatMap fun x => x.code.literals := by
  cases application with
  | unary op x =>
    cases op <;> cases result <;> simp [applicationCode, Code.literals, Application.operands]
  | binary op x y => cases op <;> simp [applicationCode, Code.literals, Application.operands]
  | ternary op x y z => cases op <;> simp [applicationCode, Code.literals, Application.operands]

section Spelling

variable {source : Source} {final : Emission}

/-- What is written as a literal is one of the table. -/
theorem Renders.mem_literals {r : Rendering} (h : Renders source final r) {value : Literal}
    (hvalue : value ∈ r.code.literals) :
    ∃ e : ExprId, source.table.exprs[e]? = some (.literal value) := by
  induction h with
  | name | builtin => cases hvalue
  | @literal id _ hentry =>
    obtain rfl := List.mem_singleton.mp hvalue
    exact ⟨id, hentry⟩
  | apply _ _ hcode ih =>
    rw [applied_iff.mp hcode, literals_applicationCode, Application.operands_map,
      List.flatMap_map, List.mem_flatMap] at hvalue
    obtain ⟨operand, hoperand, hvalue⟩ := hvalue
    exact ih operand hoperand hvalue
  | call _ _ _ ih =>
    simp only [List.forall_mem_cons] at ih
    obtain ⟨ihp, ihs, ihu, -⟩ := ih
    simp only [Code.literals, literals_coerce, List.mem_append] at hvalue
    rcases hvalue with (hvalue | hvalue) | hvalue
    · exact ihp hvalue
    · exact ihs hvalue
    · exact ihu hvalue

theorem Renders.all_names {q : String → Prop}
    (hq : ∀ f name, final.functions.lookup f = some name → q name) {r : Rendering}
    (h : Renders source final r) : r.code.All (fun _ => True) q := by
  induction h with
  | name | literal | builtin => trivial
  | apply _ _ hcode ih =>
    dsimp only
    rw [applied_iff.mp hcode]
    exact all_applicationCode (Application.forall_operands_map.mpr ih)
  | call _ hname _ ih =>
    simp only [List.forall_mem_cons] at ih
    obtain ⟨ihp, ihs, ihu, -⟩ := ih
    exact ⟨hq _ _ hname, all_coerce ihp _ _, all_coerce ihs _ _, all_coerce ihu _ _⟩

end Spelling

/-! ## Texts of finite numbers -/

def nonFiniteWords : List (List Char) := ["inf".toList, "NaN".toList]

/-- No word of the text is one for a number that is not finite. -/
def AllFinite (text : List Char) : Prop := ∀ word ∈ Text.words text, word ∉ nonFiniteWords

instance (text : List Char) : Decidable (AllFinite text) :=
  inferInstanceAs (Decidable (∀ word ∈ Text.words text, word ∉ nonFiniteWords))

section Delimited

variable {d : Char} {a b : List Char}

theorem allFinite_append (hd : Text.isIdentifierContinue d = false) :
    AllFinite (a ++ d :: b) ↔ AllFinite a ∧ AllFinite b := by
  simp only [AllFinite, Text.words_append hd, List.mem_append, or_imp, forall_and]

theorem allFinite_nil : AllFinite [] := by decide

theorem allFinite_cons (hd : Text.isIdentifierContinue d = false) :
    AllFinite (d :: b) ↔ AllFinite b := by
  have h := allFinite_append (a := []) (b := b) hd
  rwa [List.nil_append, and_iff_right allFinite_nil] at h

end Delimited

theorem allFinite_of_word {text : List Char}
    (hword : ∀ c ∈ text, Text.isIdentifierContinue c = true) (htext : text ∉ nonFiniteWords) :
    AllFinite text := by
  intro word hmem
  rw [Text.words, Text.wordsFrom_of_word hword, List.mem_singleton] at hmem
  rwa [hmem]

/-- **The text of a number shows whether it is finite.** -/
theorem allFinite_compact (v : Binary32) : AllFinite v.compact.toList ↔ v.isFinite = true := by
  constructor
  · intro h
    cases v with
    | finite negative rank => rfl
    | infinite negative => cases negative <;> exact absurd h (by decide)
    | undefined negative =>
      have hnot : ¬ AllFinite "NaN".toList := by decide
      exact absurd h hnot
  · intro h word hword hmem
    -- Both words hold a letter that is in no finite number.
    obtain ⟨c, hc, hnumeral⟩ : ∃ c ∈ word, isNumeral c = false := by
      have hletters : ∀ word ∈ nonFiniteWords, ∃ c ∈ word, isNumeral c = false := by decide
      exact hletters word hmem
    rw [isNumeral_of_mem_compact h (Text.mem_of_mem_words hword hc)] at hnumeral
    cases hnumeral

/-! ## Texts of code -/

theorem FunctionName.allFinite {name : String} (h : FunctionName name) :
    AllFinite name.toList := by
  obtain ⟨rest, hname, hrest⟩ := h
  rw [hname]
  refine allFinite_of_word (fun c hc => ?_) ?_
  · rcases List.mem_append.mp hc with hc | hc
    · have hprefix : ∀ c ∈ "shade_node_".toList, Text.isIdentifierContinue c = true := by decide
      exact hprefix c hc
    · rcases hrest c hc with h | h | rfl
      · exact Text.isIdentifierContinue_of_isLower h
      · exact Text.isIdentifierContinue_of_isDigit h
      · decide
  · simp [nonFiniteWords]

theorem allFinite_boundName (k : Nat) : AllFinite (boundName k).toList := by
  refine allFinite_of_word (fun c hc => isIdentifierContinue_of_mem_boundName hc) ?_
  rw [toList_boundName]
  simp [nonFiniteWords]

theorem allFinite_intercalate {texts : List (List Char)} (h : ∀ text ∈ texts, AllFinite text) :
    AllFinite (", ".toList.intercalate texts) := by
  induction texts with
  | nil => exact allFinite_nil
  | cons text rest ih =>
    obtain ⟨htext, hrest⟩ := List.forall_mem_cons.mp h
    cases rest with
    | nil => simpa using htext
    | cons next rest =>
      rw [List.intercalate_cons_cons, List.append_assoc]
      refine (allFinite_append (by decide)).mpr ⟨htext, ?_⟩
      exact (allFinite_cons (by decide)).mpr (ih hrest)

theorem allFinite_applied {name : String} {operands : List String} (hname : AllFinite name.toList)
    (h : ∀ x ∈ operands, AllFinite x.toList) : AllFinite (applied name operands).toList := by
  have hoperands : AllFinite (", ".toList.intercalate (operands.map String.toList)) :=
    allFinite_intercalate (List.forall_mem_map.mpr h)
  rw [toList_applied, allFinite_append (by decide), allFinite_append (by decide)]
  exact ⟨hname, hoperands, allFinite_nil⟩

theorem allFinite_type (type : ValueType) : AllFinite type.name.toList := by
  cases type <;> decide

theorem allFinite_literalText {value : Literal} (h : value.isFinite = true) :
    AllFinite (literalText value).toList := by
  have hnumbers : ∀ {v : Binary32}, v.isFinite = true → AllFinite v.compact.toList :=
    fun hv => (allFinite_compact _).mpr hv
  cases value with
  | float v => exact hnumbers h
  | vec2 v =>
    obtain ⟨hx, hy⟩ := (Bool.and_eq_true _ _).mp h
    refine allFinite_applied (allFinite_type .vec2) ?_
    simp [hnumbers hx, hnumbers hy]
  | vec3 v =>
    obtain ⟨hxy, hz⟩ := (Bool.and_eq_true _ _).mp h
    obtain ⟨hx, hy⟩ := (Bool.and_eq_true _ _).mp hxy
    refine allFinite_applied (allFinite_type .vec3) ?_
    simp [hnumbers hx, hnumbers hy, hnumbers hz]

theorem allFinite_text {c : Code} (hliterals : ∀ value ∈ c.literals, value.isFinite = true)
    (hnames : c.All (fun _ => True) FunctionName) : AllFinite c.text.toList := by
  induction c with
  | literal value => exact allFinite_literalText (hliterals value List.mem_cons_self)
  | builtin value => cases value <;> decide
  | bound index => exact allFinite_boundName index
  | arithmetic op x y ihx ihy =>
    have hop : AllFinite op.text.toList := by cases op <;> decide
    simp only [Code.literals, List.forall_mem_append] at hliterals
    rw [toList_arithmetic, allFinite_cons (by decide), allFinite_append (by decide),
      allFinite_append (by decide), allFinite_append (by decide)]
    exact ⟨ihx hliterals.1 hnames.1, hop, ihy hliterals.2 hnames.2, allFinite_nil⟩
  | pow x y ihx ihy =>
    simp only [Code.literals, List.forall_mem_append] at hliterals
    refine allFinite_applied (by decide) ?_
    simp [ihx hliterals.1 hnames.1, ihy hliterals.2 hnames.2]
  | apply1 f x ih =>
    refine allFinite_applied (by cases f <;> decide) ?_
    simp [ih hliterals hnames]
  | apply3 f x y z ihx ihy ihz =>
    simp only [Code.literals, List.forall_mem_append] at hliterals
    refine allFinite_applied (by cases f <;> decide) ?_
    simp [ihx hliterals.1.1 hnames.1, ihy hliterals.1.2 hnames.2.1, ihz hliterals.2 hnames.2.2]
  | call function x y z ihx ihy ihz =>
    simp only [Code.literals, List.forall_mem_append] at hliterals
    refine allFinite_applied hnames.1.allFinite ?_
    simp [ihx hliterals.1.1 hnames.2.1, ihy hliterals.1.2 hnames.2.2.1,
      ihz hliterals.2 hnames.2.2.2]
  | splat type x ih =>
    refine allFinite_applied (allFinite_type type) ?_
    simp [ih hliterals hnames]
  | pad x ih =>
    have hzero : AllFinite "0.0".toList := by decide
    refine allFinite_applied (allFinite_type .vec3) ?_
    simp only [List.mem_cons, List.not_mem_nil, or_false, forall_eq_or_imp, forall_eq]
    exact ⟨ih hliterals hnames, hzero⟩
  | firstOf x ih =>
    rw [toList_firstOf, allFinite_cons (by decide), allFinite_append (by decide)]
    exact ⟨ih hliterals hnames, by decide⟩
  | firstTwoOf x ih =>
    rw [toList_firstTwoOf, allFinite_cons (by decide), allFinite_append (by decide)]
    exact ⟨ih hliterals hnames, by decide⟩

/-! ## Texts of modules -/

/-- Before any text of finite numbers, the text makes another one. -/
def Leads (text : String) : Prop :=
  ∀ rest, AllFinite rest → AllFinite (text.toList ++ rest)

theorem Leads.append {text more : String} (h : Leads text) (h' : Leads more) :
    Leads (text ++ more) := by
  intro rest hrest
  rw [String.toList_append, List.append_assoc]
  exact h _ (h' rest hrest)

theorem Leads.join {texts : List String} (h : ∀ text ∈ texts, Leads text) :
    Leads (String.join texts) := by
  intro rest hrest
  rw [String.toList_join]
  induction texts with
  | nil => exact hrest
  | cons text texts ih =>
    obtain ⟨htext, htexts⟩ := List.forall_mem_cons.mp h
    rw [List.flatMap_cons, List.append_assoc]
    exact htext _ (ih htexts)

/-- A text that ends with a character that is in no word. -/
theorem leads_of_ends {text : String} {before : List Char} {d : Char}
    (htext : text.toList = before ++ [d]) (hd : Text.isIdentifierContinue d = false)
    (h : AllFinite before) : Leads text := by
  intro rest hrest
  rw [htext, List.append_assoc, List.singleton_append, allFinite_append hd]
  exact ⟨h, hrest⟩

/-- A text that is empty or ends with a character that is in no word. -/
theorem leads_of_last {text : String} (h : AllFinite text.toList.dropLast)
    (hlast : text.toList.getLast?.all (fun d => !Text.isIdentifierContinue d) = true) :
    Leads text := by
  rcases List.eq_nil_or_concat text.toList with hnil | ⟨before, d, hconcat⟩
  · intro rest hrest
    rwa [hnil]
  · rw [List.concat_eq_append] at hconcat
    rw [hconcat] at h hlast
    refine leads_of_ends hconcat ?_ (by simpa using h)
    simpa using hlast

theorem leads_line {text : String} (h : AllFinite text.toList) : Leads (line text) := by
  have hline : (line text).toList = ' ' :: ' ' :: ' ' :: ' ' :: text.toList ++ ['\n'] := by
    simp [line]
  have hblank : Text.isIdentifierContinue ' ' = false := by decide
  refine leads_of_ends hline (by decide) ?_
  simpa only [allFinite_cons hblank] using h

theorem leads_structureText {name : String} (hname : AllFinite name.toList)
    {fields : List (String × ValueType)} (h : ∀ field ∈ fields, AllFinite field.1.toList) :
    Leads (structureText name fields) := by
  have hbegin : Leads ("struct " ++ name ++ " \x7b\n") := by
    have htext : ("struct " ++ name ++ " \x7b\n").toList =
        ("struct".toList ++ ' ' :: (name.toList ++ ' ' :: ['\x7b'])) ++ ['\n'] := by
      simp
    refine leads_of_ends htext (by decide) ?_
    rw [allFinite_append (by decide), allFinite_append (by decide)]
    exact ⟨by decide, hname, by decide⟩
  have hlines : Leads (String.join (fields.map fun field =>
      line (field.1 ++ ": " ++ field.2.name ++ ","))) := by
    refine Leads.join (List.forall_mem_map.mpr fun field hmem => leads_line ?_)
    have htext : (field.1 ++ ": " ++ field.2.name ++ ",").toList =
        field.1.toList ++ ':' :: ' ' :: (field.2.name.toList ++ [',']) := by
      simp
    rw [htext, allFinite_append (by decide), allFinite_cons (by decide),
      allFinite_append (by decide)]
    exact ⟨h field hmem, allFinite_type field.2, allFinite_nil⟩
  have hclose : Leads "\x7d\n" := leads_of_last (by decide) (by decide)
  exact (hbegin.append hlines).append hclose

theorem leads_render {name : String} (h : FunctionName name) {function : CodeFunction}
    (hbody : function.body = "") : Leads (function.render name) := by
  let tail : List Char :=
    "primary: vec3<f32>, secondary: vec3<f32>, uv: vec2<f32>) -> vec3<f32> \x7b\n\n\x7d".toList
  have htext : (function.render name).toList =
      ("fn".toList ++ ' ' :: (name.toList ++ '(' :: tail)) ++ ['\n'] := by
    rw [CodeFunction.toList_render, hbody, CodeFunction.heading]
    simp [tail, Text.trimRight]
  have htail : AllFinite tail := by decide +kernel
  refine leads_of_ends htext (by decide) ?_
  rw [allFinite_append (by decide), allFinite_append (by decide)]
  exact ⟨by decide, h.allFinite, htail⟩

def Module.withoutBodies (m : Module) : Module :=
  { m with functions := m.functions.map fun declared =>
      (declared.1, { declared.2 with body := "" }) }

/-- Code whose literals are finite and whose calls are by names made of ids of code nodes. -/
def Code.Sound (c : Code) : Prop :=
  (∀ value ∈ c.literals, value.isFinite = true) ∧ c.All (fun _ => True) FunctionName

theorem leads_bindingLines {bindings : List Code} (h : ∀ code ∈ bindings, code.Sound) :
    Leads (String.join (bindingLines bindings)) := by
  refine Leads.join (List.forall_mem_map.mpr fun entry hmem => leads_line ?_)
  have hcode : entry.1.Sound := h entry.1 (List.fst_mem_of_mem_zipIdx hmem)
  have htext : ("let " ++ boundName entry.2 ++ " = " ++ entry.1.text ++ ";").toList =
      "let".toList ++ ' ' :: ((boundName entry.2).toList ++ ' ' :: '=' :: ' ' ::
        (entry.1.text.toList ++ [';'])) := by
    simp
  rw [htext, allFinite_append (by decide), allFinite_append (by decide), allFinite_cons (by decide),
    allFinite_cons (by decide), allFinite_append (by decide)]
  exact ⟨by decide, allFinite_boundName entry.2, allFinite_text hcode.1 hcode.2, allFinite_nil⟩

theorem leads_channelLines {channels : PerChannel Code}
    (h : ∀ channel, (channels.get channel).Sound) :
    Leads (String.join (channelLines channels)) := by
  refine Leads.join (List.forall_mem_map.mpr fun channel _ => ?_)
  have hbefore : AllFinite ("    channels." ++ channelField channel ++ " =").toList := by
    cases channel <;> decide +kernel
  have htext : (channelLine channel (channels.get channel)).toList =
      (("    channels." ++ channelField channel ++ " =").toList ++
        ' ' :: ((channels.get channel).text.toList ++ [';'])) ++ ['\n'] := by
    rw [toList_channelLine]
    simp
  refine leads_of_ends htext (by decide) ?_
  rw [allFinite_append (by decide), allFinite_append (by decide)]
  exact ⟨hbefore, allFinite_text (h channel).1 (h channel).2, allFinite_nil⟩

/-- **Outside the bodies of its functions a module writes finite numbers only.** -/
theorem allFinite_withoutBodies {m : Module}
    (hfunctions : ∀ declared ∈ m.functions, FunctionName declared.1)
    (hbindings : ∀ code ∈ m.bindings, code.Sound)
    (hchannels : ∀ channel, (m.channels.get channel).Sound) :
    AllFinite m.withoutBodies.text.toList := by
  have hinputs : Leads (structureText "MaterialInputs" inputFields) :=
    leads_structureText (by decide) (by decide)
  have hblank : Leads "\n" := leads_of_last (by decide) (by decide)
  have hfields : Leads (structureText "MaterialChannels" channelFields) :=
    leads_structureText (by decide) (by decide)
  have hdeclared : Leads (String.join (m.withoutBodies.functions.map
      fun declared => "\n" ++ declared.2.render declared.1)) := by
    refine Leads.join (List.forall_mem_map.mpr (List.forall_mem_map.mpr fun declared hmem => ?_))
    exact hblank.append (leads_render (hfunctions declared hmem) rfl)
  have hheader :
      Leads "\nfn evaluate_material(inputs: MaterialInputs) -> MaterialChannels \x7b\n" :=
    leads_of_last (by decide +kernel) (by decide +kernel)
  have hvariable : Leads (line "var channels: MaterialChannels;") := leads_line (by decide +kernel)
  have hreturn : Leads (line "return channels;") := leads_line (by decide +kernel)
  have hclose : Leads "\x7d\n" := leads_of_last (by decide) (by decide)
  have hall := ((((((((hinputs.append hblank).append hfields).append hdeclared).append
    hheader).append (leads_bindingLines hbindings)).append hvariable).append
      (leads_channelLines hchannels)).append hreturn).append hclose
  have htext := hall [] allFinite_nil
  rwa [List.append_nil] at htext

end ShaderGraph.Wgsl

namespace ShaderGraph

open Wgsl

/-- **Literals are finite.** In the material of a compilation all literals are finite, whatever
floats the snapshot and the defaults hold; so are the literals of the code that its module
has, and outside the bodies of functions no word of the module's text is `inf` or `NaN`. -/
theorem Snapshot.literals_finite {snapshot : Snapshot} {defaults : MaterialDefaults}
    {material : NodeMaterial} (h : (snapshot.compile defaults).material = .node material) :
    let m := Module.ofMaterial material
    (∀ (id : ExprId) value, material.expressions.exprs[id]? = some (.literal value) →
      value.isFinite = true) ∧
    (∀ code ∈ m.bindings ++ m.channels.toList, ∀ value ∈ code.literals, value.isFinite = true) ∧
    ∀ word ∈ Text.words m.withoutBodies.text.toList, word ≠ "inf".toList ∧ word ≠ "NaN".toList := by
  intro m
  have hfinite := finiteLiterals_of_compile h
  have hnames := functionName_of_declared h
  obtain ⟨hspelled, hchannels⟩ := NodeMaterial.spells_ofMaterial (wellFormed_of_compile h)
  have hsound : ∀ {id code}, Spells (materialSource material) (finalEmission material) id code →
      code.Sound := by
    rintro id code ⟨written, hcode⟩
    refine ⟨fun value hvalue => ?_, hcode.all_names fun f name hname => ?_⟩
    · obtain ⟨e, he⟩ := hcode.mem_literals hvalue
      exact hfinite e value he
    · obtain ⟨before, after, hsplit, -⟩ := List.lookup_eq_some_iff.mp hname
      exact hnames (f, name) (by simp [hsplit])
  have hbound : ∀ code ∈ m.bindings, code.Sound := by
    intro code hmem
    obtain ⟨k, hk⟩ := List.mem_iff_getElem?.mp hmem
    obtain ⟨id, -, hcode, -⟩ := hspelled k code hk
    exact hsound hcode
  have hassigned : ∀ channel, (m.channels.get channel).Sound := by
    intro channel
    obtain ⟨code, hcode, hget⟩ := hchannels channel
    obtain ⟨hliterals, hcalls⟩ := hsound hcode
    rw [hget]
    exact ⟨by rwa [literals_coerce], all_coerce hcalls _ _⟩
  have hdeclared : ∀ declared ∈ m.functions, FunctionName declared.1 := by
    rw [functions_ofMaterial]
    exact List.forall_mem_map.mpr hnames
  refine ⟨hfinite, fun code hmem => ?_, fun word hword => ?_⟩
  · rcases List.mem_append.mp hmem with hmem | hmem
    · exact (hbound code hmem).1
    · obtain ⟨channel, -, rfl⟩ := List.mem_map.mp hmem
      exact (hassigned channel).1
  · have hnot := allFinite_withoutBodies hdeclared hbound hassigned word hword
    simpa [nonFiniteWords] using hnot

/-- A number for the roughness, and one that is not finite and feeds nothing. -/
def stray : Snapshot where
  nodes := [.ofKind "dull" "Float" (.input .float (some (.float (.ofDecimal false 25 (-2)))) none),
    .ofKind "lost" "Float" (.input .float (some (.float (.infinite true))) none),
    .output "rough" "Rough" .roughness]
  edges := [⟨"edge-1", ⟨"dull", .out⟩, ⟨"rough", .input⟩⟩]

theorem literals_of_stray :
    (∃ node ∈ stray.nodes,
      node.kind = .input .float (some (.float (.infinite true))) none) ∧
    ∃ material : NodeMaterial, (stray.compile .standard).material = .node material ∧
      (∀ (id : ExprId) value, material.expressions.exprs[id]? = some (.literal value) →
        value.isFinite = true) ∧
      ∀ word ∈ Text.words (Module.ofMaterial material).withoutBodies.text.toList,
        word ≠ "inf".toList ∧ word ≠ "NaN".toList := by
  have hlost : ∃ node ∈ stray.nodes,
      node.kind = .input .float (some (.float (.infinite true))) none := by
    simp [stray, Node.ofKind]
  have hcompiled : (stray.compile .standard).material.node?.isSome = true := by decide +kernel
  obtain ⟨material, hnode⟩ := Option.isSome_iff_exists.mp hcompiled
  have hmaterial := Material.eq_node_of_node? hnode
  obtain ⟨hliterals, -, hwords⟩ := Snapshot.literals_finite hmaterial
  exact ⟨hlost, material, hmaterial, hliterals, hwords⟩

end ShaderGraph
