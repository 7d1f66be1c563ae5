import ShaderGraph.Proofs.Decimals
import ShaderGraph.Proofs.Ron.Reading
import ShaderGraph.Ron.Writer

/-
Reading the tokens that a writer writes: identifiers, numbers and strings.

A plain identifier and the digits of a number are runs of characters of one class, and
what ends a value is outside of it, so they are taken whole. A string ends where the
writer ended it: the induction is on its characters, along the pieces that the reader
takes from escape to escape, and a quote that is part of an escape ends nothing
(`stringPieces_escaped`).
-/
namespace ShaderGraph.Ron.Reader

/-! ## Identifiers -/

/-- What begins a text and has a character that the text has not runs on past its end. -/
theorem after?_append_eq_none {beginning text rest : List Char} {c : Char}
    (hc : c ∈ beginning) (hnot : c ∉ text) (hrest : ∀ d ∈ rest.head?, d ∉ beginning) :
    after? beginning (text ++ rest) = none := by
  induction text generalizing beginning with
  | nil =>
    cases beginning with
    | nil => cases hc
    | cons b beginning =>
      cases rest with
      | nil => rfl
      | cons d rest =>
        have hne : ¬b = d := by
          rintro rfl
          exact hrest b rfl List.mem_cons_self
        rw [List.nil_append, after?, if_neg hne]
  | cons d text ih =>
    rw [List.mem_cons, not_or] at hnot
    cases beginning with
    | nil => cases hc
    | cons b beginning =>
      rw [List.cons_append, after?]
      split
      · next hbd =>
        refine ih ?_ hnot.2 fun e he hmem => hrest e he (List.mem_cons_of_mem b hmem)
        exact (List.mem_cons.mp hc).resolve_left fun h => hnot.1 (h.trans hbd)
      · rfl

theorem isIdentifierContinue_of_mem {name : List Char} (h : isPlainIdentifier name = true) :
    ∀ c ∈ name, Text.isIdentifierContinue c = true := by
  cases name with
  | nil => exact List.forall_mem_nil _
  | cons c name =>
    simp only [isPlainIdentifier, Bool.and_eq_true, Bool.or_eq_true, beq_iff_eq,
      List.all_eq_true] at h
    intro d hd
    rcases List.mem_cons.mp hd with rfl | hd
    · rcases h.1 with hstart | rfl
      · simp [Text.isIdentifierContinue, hstart]
      · decide
    · exact h.2 d hd

theorem not_mem_of_isPlainIdentifier {name : List Char} (h : isPlainIdentifier name = true)
    {c : Char} (hc : Text.isIdentifierContinue c = false) : c ∉ name := by
  intro hmem
  rw [isIdentifierContinue_of_mem h c hmem] at hc
  cases hc

/-- A text that begins otherwise than identifiers do is not what a plain one begins with. -/
theorem after?_append_of_isPlainIdentifier {name rest : List Char}
    (h : isPlainIdentifier name = true) (hrest : Ends rest) {beginning : List Char}
    (hbeginning : ∃ c ∈ beginning, Text.isIdentifierContinue c = false)
    (hends : ∀ c ∈ enders, c ∉ beginning) :
    after? beginning (name ++ rest) = none := by
  obtain ⟨c, hc, hcontinue⟩ := hbeginning
  exact after?_append_eq_none hc (not_mem_of_isPlainIdentifier h hcontinue)
    fun d hd => hends d (hrest d hd)

theorem startsQuoted_append {name rest : List Char} (h : isPlainIdentifier name = true)
    (hrest : Ends rest) : startsQuoted (name ++ rest) = false := by
  have hquotes : ∀ beginning ∈ ["b\"", "b'", "br#", "br\"", "r\"", "r#\"", "r##"],
      (∃ c ∈ beginning.toList, Text.isIdentifierContinue c = false) ∧
        ∀ c ∈ enders, c ∉ beginning.toList := by decide
  rw [startsQuoted, List.any_eq_false]
  intro beginning hbeginning
  obtain ⟨hother, hends⟩ := hquotes beginning hbeginning
  rw [startsWith, after?_append_of_isPlainIdentifier h hrest hother hends]
  exact Bool.false_ne_true

theorem identifierOf_append {name rest : List Char} (h : isPlainIdentifier name = true)
    (hrest : Ends rest) : identifierOf (name ++ rest) = .ok (String.ofList name, rest) := by
  have hraw : after? "r#".toList (name ++ rest) = none :=
    after?_append_of_isPlainIdentifier h hrest (by decide) (by decide)
  have hcontinue := isIdentifierContinue_of_mem h
  obtain ⟨htake, hdrop⟩ := hrest.takeWhile_append (by decide +kernel) hcontinue
  have hword : ∀ c ∈ name, isRawIdentifierChar c = true := by
    intro c hc
    simp [isRawIdentifierChar, hcontinue c hc]
  have htakeWord := (hrest.takeWhile_append (by decide +kernel) hword).1
  have hquoted := startsQuoted_append h hrest
  cases name with
  | nil => cases h
  | cons c name =>
    simp only [isPlainIdentifier, Bool.and_eq_true] at h
    rw [List.cons_append] at *
    simp only [identifierOf, h.1, if_true, hquoted, hraw, htake, hdrop, htakeWord]
    simp

theorem Reads.identifier {name : String} (h : isPlainIdentifier name.toList = true) :
    Reads 0 identifier name.toList name := by
  have hne : name.toList ≠ [] := by
    intro hnil
    rw [hnil] at h
    cases h
  refine ⟨.of_forall (by decide +kernel) (by decide) hne (isIdentifierContinue_of_mem h),
    fun scope rest _ _ hrest => ?_⟩
  rw [Reader.identifier, onText, identifierOf_append h hrest, String.ofList_toList]

/-! ## Numbers -/

theorem namedFloat?_eq_none {text rest : List Char} (htext : ∀ c ∈ text, isFloatChar c = true)
    (hrest : Ends rest) : namedFloat? (text ++ rest) = none := by
  have hwords : ∀ entry ∈ namedFloats, ∀ suffix ∈ ["", "f32", "f64"],
      (∃ c ∈ (entry.1 ++ suffix).toList, isFloatChar c = false) ∧
        ∀ c ∈ enders, c ∉ (entry.1 ++ suffix).toList := by decide
  have hnone : ∀ entry ∈ namedFloats, ∀ suffix ∈ ["", "f32", "f64"],
      afterWord? (entry.1 ++ suffix) (text ++ rest) = none := by
    intro entry hentry suffix hsuffix
    obtain ⟨⟨c, hc, hfloat⟩, hends⟩ := hwords entry hentry suffix hsuffix
    have hnot : c ∉ text := by
      intro hmem
      rw [htext c hmem] at hfloat
      cases hfloat
    rw [afterWord?, after?_append_eq_none hc hnot fun d hd => hends d (hrest d hd)]
  rw [namedFloat?, List.findSome?_eq_none_iff]
  intro entry hentry
  have hplain := hnone entry hentry "" (by simp)
  rw [String.append_empty] at hplain
  simp only [hplain, hnone entry hentry "f32" (by simp), hnone entry hentry "f64" (by simp)]

theorem formatSuffix?_of_ends {rest : List Char} (hrest : Ends rest) :
    formatSuffix? rest = none := by
  have hsuffix : ∀ suffix ∈ ["f32", "f64"], afterWord? suffix rest = none := by
    have hends : ∀ suffix ∈ ["f32", "f64"], 'f' ∈ suffix.toList ∧
        ∀ c ∈ enders, c ∉ suffix.toList := by decide
    intro suffix hsuffix
    obtain ⟨hf, hends⟩ := hends suffix hsuffix
    have hnone := after?_append_eq_none hf List.not_mem_nil fun d hd => hends d (hrest d hd)
    rw [List.nil_append] at hnone
    rw [afterWord?, hnone]
  simp only [formatSuffix?, hsuffix "f32" (by simp), hsuffix "f64" (by simp)]

theorem withoutUnderscores_eq_some {text : List Char} (h : '_' ∉ text) (allowed : Bool) :
    withoutUnderscores allowed text = some text := by
  induction text generalizing allowed with
  | nil => rfl
  | cons c text ih =>
    rw [List.mem_cons, not_or] at h
    simp only [withoutUnderscores, if_neg (Ne.symm h.1), ih h.2, Option.map_some]

theorem anyFloatOf_append {text rest : List Char} {v : Binary32} (hne : text ≠ [])
    (htext : ∀ c ∈ text, isFloatChar c = true) (hunderscore : '_' ∉ text)
    (hread : Binary32.read? text = some v) (hrest : Ends rest) :
    anyFloatOf (text ++ rest) = .ok (v, false, rest) := by
  obtain ⟨htake, hdrop⟩ := hrest.takeWhile_append (by decide) htext
  simp only [anyFloatOf, namedFloat?_eq_none htext hrest, htake, hdrop,
    withoutUnderscores_eq_some hunderscore, hread, formatSuffix?_of_ends hrest]
  split
  · exact absurd rfl hne
  · exact absurd List.mem_cons_self hunderscore
  · rfl

theorem namedFloat?_positional {v : Binary32} (hv : v.isFinite = false) {rest : List Char}
    (hrest : Ends rest) :
    namedFloat? (v.positional.toList ++ rest) = some (v, false, rest) := by
  have hcontinue := hrest.continuesIdentifier
  cases v with
  | finite => cases hv
  | infinite negative | undefined negative =>
    cases negative <;>
      simp [namedFloat?, namedFloats, Binary32.positional, Binary32.signed, afterWord?, after?,
        hcontinue]

theorem isFloatChar_pointed {whole fraction : List Char}
    (hdigits : ∀ c ∈ whole ++ fraction, c.isDigit = true) (negative : Bool) :
    ∀ c ∈ Binary32.pointed negative whole fraction, isFloatChar c = true ∧ c ≠ '_' := by
  intro c hc
  rw [Binary32.pointed, List.append_assoc, List.mem_append] at hc
  rcases hc with hsign | hc
  · split at hsign
    · rw [List.mem_singleton.mp hsign]
      decide
    · cases hsign
  · have hcases : c ∈ whole ++ fraction ∨ c = '.' := by
      rw [List.mem_append, List.mem_cons] at hc
      rw [List.mem_append, or_assoc, or_comm (a := c ∈ fraction)]
      exact hc
    rcases hcases with hdigit | rfl
    · have hc := hdigits c hdigit
      refine ⟨by simp [isFloatChar, hc], ?_⟩
      rintro rfl
      cases hc
    · decide

theorem anyFloatOf_positional (v : Binary32) {rest : List Char} (hrest : Ends rest) :
    anyFloatOf (v.positional.toList ++ rest) = .ok (v, false, rest) := by
  cases v with
  | finite negative rank =>
    obtain ⟨whole, fraction, htext, hne, hdigits, hread⟩ :=
      Binary32.positional_finite negative rank
    have hchars := isFloatChar_pointed hdigits negative
    rw [htext]
    exact anyFloatOf_append (by simp [Binary32.pointed]) (fun c hc => (hchars c hc).1)
      (fun hmem => (hchars '_' hmem).2 rfl) hread hrest
  | infinite negative | undefined negative =>
    rw [anyFloatOf, namedFloat?_positional rfl hrest]

theorem begins_positional (v : Binary32) : Begins v.positional.toList := by
  cases v with
  | finite negative rank =>
    obtain ⟨whole, fraction, htext, hne, hdigits, hread⟩ :=
      Binary32.positional_finite negative rank
    have hchars := isFloatChar_pointed hdigits negative
    rw [htext]
    exact .of_forall (by decide) (by decide) (by simp [Binary32.pointed])
      fun c hc => (hchars c hc).1
  | infinite negative | undefined negative =>
    cases negative <;> exact Begins.cons (by decide) (by decide) _

/-- Every number, whichever it is, reads back from all its digits. -/
theorem Reads.float (v : Binary32) : Reads 0 float v.positional.toList v := by
  refine ⟨begins_positional v, fun scope rest _ _ hrest => ?_⟩
  rw [Reader.float, onText, anyFloatOf_positional v hrest]

/-! ## Strings -/

theorem hexValue?_digitChar : ∀ d < 16, Text.hexValue? (Nat.digitChar d) = some d := by decide

theorem codeDigits_digitChar {d : Nat} (hd : d < 16) (n count value : Nat) (scope : Scope)
    (rest : List Char) :
    codeDigits (n + 1) count value scope (Nat.digitChar d :: rest) =
      codeDigits n (count + 1) (16 * value + d) scope rest := by
  have hbrace : Nat.digitChar d ≠ '\x7d' := by
    intro h
    have := hexValue?_digitChar d hd
    rw [h] at this
    cases this
  simp [codeDigits, bind_apply, peek, next, hexDigit, hexValue?_digitChar d hd, hbrace, pure_apply]

theorem codeDigits_toDigits (n : Nat) :
    ∀ (more count value : Nat) (scope : Scope) (rest : List Char),
      codeDigits ((Nat.toDigits 16 n).length + more) count value scope
          (Nat.toDigits 16 n ++ rest) =
        codeDigits more (count + (Nat.toDigits 16 n).length)
          (16 ^ (Nat.toDigits 16 n).length * value + n) scope rest := by
  induction n using Nat.strongRecOn with
  | ind n ih =>
    intro more count value scope rest
    rcases Nat.lt_or_ge n 16 with hsmall | hlarge
    · rw [Nat.toDigits_of_lt_base hsmall, List.length_singleton, Nat.add_comm 1 more,
        List.singleton_append, codeDigits_digitChar hsmall, Nat.pow_one]
    · rw [Nat.toDigits_of_base_le (by decide) hlarge, List.length_append, List.length_singleton,
        List.append_assoc, Nat.add_assoc, ih (n / 16) (by omega), Nat.add_comm 1 more,
        List.singleton_append, codeDigits_digitChar (Nat.mod_lt n (by decide)), Nat.add_assoc,
        Nat.pow_succ]
      congr 1
      rw [Nat.mul_add, ← Nat.mul_assoc, Nat.mul_comm 16, Nat.add_assoc, Nat.div_add_mod]

theorem charOfCode?_toNat (c : Char) : Text.charOfCode? c.toNat = some c := by
  have hvalid : c.toNat.isValidChar := c.valid
  rw [Text.charOfCode?, dif_pos hvalid]
  rfl

theorem codePointEscape_hexDigits (c : Char) (scope : Scope) (rest : List Char) :
    codePointEscape scope ('\x7b' :: Text.hexDigits c.toNat ++ '\x7d' :: rest) = .ok (c, rest) := by
  have hlength : (Nat.toDigits 16 c.toNat).length ≤ 6 := by
    have hvalid : c.toNat.isValidChar := c.valid
    rw [Nat.length_toDigits_le_iff (by decide) (by decide)]
    rcases hvalid with h | ⟨-, h⟩ <;> omega
  obtain ⟨more, hmore⟩ : ∃ more, 6 = (Nat.toDigits 16 c.toNat).length + more :=
    ⟨6 - (Nat.toDigits 16 c.toNat).length, by omega⟩
  have hpos : (Nat.toDigits 16 c.toNat).length ≠ 0 := Nat.ne_of_gt Nat.length_toDigits_pos
  have hdigits : codeDigits 6 0 0 scope (Text.hexDigits c.toNat ++ '\x7d' :: rest) =
      .ok (((Nat.toDigits 16 c.toNat).length, c.toNat), '\x7d' :: rest) := by
    rw [hmore, Text.hexDigits, codeDigits_toDigits]
    cases more <;> simp [codeDigits, bind_apply, peek, pure_apply]
  simp [codePointEscape, bind_apply, expect_cons, hdigits, hpos, charOfCode?_toNat, pure_apply]

theorem escapeChar_cases (bytes : Reader Char) (c : Char) :
    (Text.escapeChar [Text.singleQuote, Text.doubleQuote] c = [c] ∧
        c ≠ Text.doubleQuote ∧ c ≠ '\\') ∨
      ∃ code, Text.escapeChar [Text.singleQuote, Text.doubleQuote] c = '\\' :: code ∧
        ∀ scope rest, escape bytes scope (code ++ rest) = .ok (c, rest) := by
  have hletter (letter : Char) (hescape : ∀ scope rest,
      escape bytes scope ([letter] ++ rest) = .ok (c, rest)) :
      ∃ code, ['\\', letter] = '\\' :: code ∧
        ∀ scope rest, escape bytes scope (code ++ rest) = .ok (c, rest) :=
    ⟨[letter], rfl, hescape⟩
  unfold Text.escapeChar
  split
  · next h => subst h; exact .inr (hletter '0' fun _ _ => rfl)
  split
  · next h => subst h; exact .inr (hletter 't' fun _ _ => rfl)
  split
  · next h => subst h; exact .inr (hletter 'r' fun _ _ => rfl)
  split
  · next h => subst h; exact .inr (hletter 'n' fun _ _ => rfl)
  split
  · next h =>
    refine .inr (hletter c fun scope rest => ?_)
    have hquotes : c = Text.singleQuote ∨ c = Text.doubleQuote ∨ c = '\\' := by
      simpa [or_comm, or_assoc, or_left_comm] using h
    simp [escape, bind_apply, next, hquotes, pure_apply]
  · next h =>
    rw [not_or, List.mem_cons, List.mem_singleton, not_or] at h
    split
    · exact .inl ⟨rfl, h.2.2, h.1⟩
    · refine .inr ⟨'u' :: ('\x7b' :: Text.hexDigits c.toNat ++ ['\x7d']), rfl, fun scope rest => ?_⟩
      have hescape := codePointEscape_hexDigits c scope rest
      have hquotes : ¬('u' = Text.singleQuote ∨ 'u' = Text.doubleQuote ∨ 'u' = '\\') := by decide
      have hnext : next scope ('u' :: ('\x7b' :: Text.hexDigits c.toNat ++ ['\x7d']) ++ rest) =
          .ok ('u', '\x7b' :: Text.hexDigits c.toNat ++ '\x7d' :: rest) := by
        simp [next]
      rw [escape, bind_apply, hnext]
      simp only [if_neg hquotes]
      exact hescape

/-- One piece: what comes before the next double quote, up to its first backslash. -/
theorem stringPieces_succ (bytes : Reader Char) {text body plain : List Char}
    (hbody : beforeQuote? text = some body) (hplain : body.takeWhile (· ≠ '\\') = plain)
    (pieces : Nat) (read : List Char) (scope : Scope) :
    stringPieces bytes (pieces + 1) read scope text =
      if plain.length < body.length then
        (escape bytes >>= fun c => stringPieces bytes pieces (read ++ plain ++ [c])) scope
          (text.drop (plain.length + 1))
      else .ok (read ++ plain, text.drop (plain.length + 1)) := by
  subst hplain
  simp only [stringPieces, bind_apply, remaining, hbody, setRemaining]
  split <;> rfl

theorem takeWhile_append_cons {p : Char → Bool} {plain : List Char}
    (hplain : ∀ c ∈ plain, p c = true) {d : Char} (hd : p d = false) (rest : List Char) :
    (plain ++ d :: rest).takeWhile p = plain := by
  rw [List.takeWhile_append_of_pos hplain, List.takeWhile_cons_of_neg (by simp [hd]),
    List.append_nil]

section Pieces

variable (bytes : Reader Char) {plain : List Char}

/-- A piece that a quote ends is the last one. -/
theorem stringPieces_quote (hplain : ∀ c ∈ plain, c ≠ Text.doubleQuote ∧ c ≠ '\\') (pieces : Nat)
    (read : List Char) (scope : Scope) (rest : List Char) :
    stringPieces bytes (pieces + 1) read scope (plain ++ Text.doubleQuote :: rest) =
      .ok (read ++ plain, rest) := by
  have hbody : beforeQuote? (plain ++ Text.doubleQuote :: rest) = some plain := by
    rw [beforeQuote?, if_pos (by simp)]
    exact congrArg some (takeWhile_append_cons (by simpa using fun c hc => (hplain c hc).1)
      (by simp) rest)
  have hall : plain.takeWhile (· ≠ '\\') = plain :=
    List.takeWhile_eq_self_iff.mpr (by simpa using fun c hc => (hplain c hc).2)
  rw [stringPieces_succ bytes hbody hall, if_neg (Nat.lt_irrefl _), List.drop_append,
    List.drop_eq_nil_of_le (by omega)]
  simp

theorem stringPieces_escape (hplain : ∀ c ∈ plain, c ≠ Text.doubleQuote ∧ c ≠ '\\')
    (pieces : Nat) (read : List Char) (scope : Scope) {code rest : List Char} {c : Char}
    (hescape : escape bytes scope (code ++ rest) = .ok (c, rest))
    (hquote : Text.doubleQuote ∈ rest) :
    stringPieces bytes (pieces + 1) read scope (plain ++ '\\' :: (code ++ rest)) =
      stringPieces bytes pieces (read ++ plain ++ [c]) scope rest := by
  have hbody : beforeQuote? (plain ++ '\\' :: (code ++ rest)) =
      some (plain ++ '\\' :: (code ++ rest).takeWhile (· ≠ Text.doubleQuote)) := by
    rw [beforeQuote?, if_pos (by simp [hquote]), List.takeWhile_append_of_pos
      (by simpa using fun c hc => (hplain c hc).1), List.takeWhile_cons_of_pos (by decide)]
  have htake : (plain ++ '\\' :: (code ++ rest).takeWhile (· ≠ Text.doubleQuote)).takeWhile
      (· ≠ '\\') = plain :=
    takeWhile_append_cons (by simpa using fun c hc => (hplain c hc).2) (by simp) _
  rw [stringPieces_succ bytes hbody htake, if_pos (by simp), List.drop_append,
    List.drop_eq_nil_of_le (by omega)]
  simp [bind_apply, hescape]

end Pieces

/-- The characters of a string are read one after another. Those taken since the last
escape stand before them. -/
theorem stringPieces_escaped (bytes : Reader Char) (text : List Char) :
    ∀ (plain read : List Char) (pieces : Nat) (scope : Scope) (rest : List Char),
      (∀ c ∈ plain, c ≠ Text.doubleQuote ∧ c ≠ '\\') → text.length < pieces →
      stringPieces bytes pieces read scope
          (plain ++ text.flatMap (Text.escapeChar [Text.singleQuote, Text.doubleQuote])
            ++ Text.doubleQuote :: rest) =
        .ok (read ++ plain ++ text, rest) := by
  induction text with
  | nil =>
    intro plain read pieces scope rest hplain hpieces
    obtain ⟨pieces, rfl⟩ : ∃ n, pieces = n + 1 := ⟨pieces - 1, by simp at hpieces; omega⟩
    rw [List.flatMap_nil, List.append_nil, List.append_nil]
    exact stringPieces_quote bytes hplain pieces read scope rest
  | cons c text ih =>
    intro plain read pieces scope rest hplain hpieces
    rw [List.length_cons] at hpieces
    rw [List.flatMap_cons]
    rcases escapeChar_cases bytes c with ⟨hself, hother⟩ | ⟨code, hcode, hescape⟩
    · have hplain' : ∀ d ∈ plain ++ [c], d ≠ Text.doubleQuote ∧ d ≠ '\\' := by
        intro d hd
        rcases List.mem_append.mp hd with hd | hd
        · exact hplain d hd
        · rwa [List.mem_singleton.mp hd]
      have := ih (plain ++ [c]) read pieces scope rest hplain' (by omega)
      rw [hself]
      simpa using this
    · obtain ⟨pieces, rfl⟩ : ∃ n, pieces = n + 1 := ⟨pieces - 1, by omega⟩
      have := ih [] (read ++ plain ++ [c]) pieces scope rest (List.forall_mem_nil _) (by omega)
      rw [hcode]
      have hstep := stringPieces_escape bytes hplain pieces read scope
        (hescape scope (text.flatMap (Text.escapeChar [Text.singleQuote, Text.doubleQuote])
          ++ Text.doubleQuote :: rest)) (by simp)
      rw [List.append_assoc, List.append_assoc, List.cons_append, List.append_assoc, hstep]
      simpa using this

theorem length_le_flatMap_escapeChar (text : List Char) :
    text.length ≤
      (text.flatMap (Text.escapeChar [Text.singleQuote, Text.doubleQuote])).length := by
  induction text with
  | nil => exact Nat.le_refl _
  | cons c text ih =>
    have hpos : 1 ≤ (Text.escapeChar [Text.singleQuote, Text.doubleQuote] c).length := by
      rcases escapeChar_cases (byteEscape true) c with ⟨hself, -⟩ | ⟨code, hcode, -⟩
      · rw [hself]
        exact Nat.le_refl _
      · rw [hcode, List.length_cons]
        omega
    rw [List.flatMap_cons, List.length_append, List.length_cons]
    omega

/-- Every string reads back, whatever its characters are. -/
theorem Reads.string (text : String) :
    Reads 0 string (Text.quoted [Text.singleQuote, Text.doubleQuote] text.toList) text := by
  refine ⟨Begins.cons (by decide) (by decide) _, fun scope rest _ _ _ => ?_⟩
  have hlength := length_le_flatMap_escapeChar text.toList
  have hpieces := stringPieces_escaped (byteEscape true) text.toList [] []
    ((text.toList.flatMap (Text.escapeChar [Text.singleQuote, Text.doubleQuote])
      ++ Text.doubleQuote :: rest).length + 1) scope rest (List.forall_mem_nil _)
    (by rw [List.length_append]; omega)
  rw [List.nil_append, List.nil_append, List.nil_append] at hpieces
  rw [Text.quoted, List.append_assoc, List.cons_append, List.singleton_append, Reader.string,
    bind_apply, accept_cons]
  simp only [if_true, map_apply, escapedString, hpieces, String.ofList_toList]

end ShaderGraph.Ron.Reader
