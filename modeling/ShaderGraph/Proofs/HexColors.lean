import ShaderGraph.Proofs.Rounding
import ShaderGraph.Proofs.Trimming
import Mathlib.Data.List.Forall2

/-
Colors written in digits.

Which texts are colors is said of the texts alone (`HexColor.Written`): blanks, a number
sign, three or six hexadecimal digits, blanks. Reading agrees with it (`HexColor.read?_iff`),
so neither the case of letters nor blanks around the text matter, and a short color is the
long one with its digits doubled.

The digits can be cut out of the text by counting bytes (`HexColor.readSliced`), which goes
wrong where a cut falls into a character or past the end. It never does, since only text
whose characters are one byte each is cut (`HexColor.readSliced_eq`).
-/
namespace ShaderGraph.HexColor

/-! ## Digits -/

/-- The character is the hexadecimal digit, be it in lower or upper case. -/
def IsDigit (c : Char) (digit : Nat) : Prop :=
  "0123456789abcdef".toList[digit]? = some c ∨ "0123456789ABCDEF".toList[digit]? = some c

instance (c : Char) (digit : Nat) : Decidable (IsDigit c digit) :=
  inferInstanceAs (Decidable (_ ∨ _))

def digitChars : List Char := "0123456789abcdefABCDEF".toList

theorem mem_digitChars_of_hexValue? {c : Char} {digit : Nat}
    (h : Text.hexValue? c = some digit) : c ∈ digitChars := by
  have hascii : ∀ n < 128, (Text.hexValue? (Char.ofNat n)).isSome = true →
      Char.ofNat n ∈ digitChars := by decide +kernel
  have hbound : c.toNat < 128 := by
    unfold Text.hexValue? at h
    split at h
    · next hc =>
      have : c.toNat ≤ '9'.toNat := hc.2
      exact Nat.lt_of_le_of_lt this (by decide)
    · split at h
      · next hc =>
        have : c.toNat ≤ 'f'.toNat := hc.2
        exact Nat.lt_of_le_of_lt this (by decide)
      · split at h
        · next hc =>
          have : c.toNat ≤ 'F'.toNat := hc.2
          exact Nat.lt_of_le_of_lt this (by decide)
        · cases h
  have hmem := hascii c.toNat hbound
  rw [Char.ofNat_toNat, h] at hmem
  exact hmem rfl

theorem IsDigit.lt {c : Char} {digit : Nat} (h : IsDigit c digit) : digit < 16 := by
  rcases h with h | h <;> exact (List.getElem?_eq_some_iff.mp h).1

theorem IsDigit.mem {c : Char} {digit : Nat} (h : IsDigit c digit) : c ∈ digitChars := by
  have hlower : ∀ c ∈ "0123456789abcdef".toList, c ∈ digitChars := by decide
  have hupper : ∀ c ∈ "0123456789ABCDEF".toList, c ∈ digitChars := by decide
  rcases h with h | h
  · exact hlower c (List.mem_of_getElem? h)
  · exact hupper c (List.mem_of_getElem? h)

theorem hexValue?_eq_some_iff {c : Char} {digit : Nat} :
    Text.hexValue? c = some digit ↔ IsDigit c digit := by
  have hall : ∀ c ∈ digitChars, ∀ digit < 16, Text.hexValue? c = some digit ↔ IsDigit c digit := by
    decide +kernel
  constructor
  · exact fun h => (hall c (mem_digitChars_of_hexValue? h) digit (hexValue?_lt h)).mp h
  · exact fun h => (hall c h.mem digit h.lt).mpr h

theorem plain_of_mem {c : Char} (h : c ∈ digitChars) :
    Text.isBlank c = false ∧ c ≠ '+' ∧ c.utf8Size = 1 := by
  have hall : ∀ c ∈ digitChars, Text.isBlank c = false ∧ c ≠ '+' ∧ c.utf8Size = 1 := by decide
  exact hall c h

theorem mapM_hexValue?_eq_some_iff {chars : List Char} {digits : List Nat} :
    chars.mapM Text.hexValue? = some digits ↔ List.Forall₂ IsDigit chars digits := by
  induction chars generalizing digits with
  | nil => simp [eq_comm]
  | cons c chars ih =>
    simp only [List.mapM_cons, Option.bind_eq_bind, Option.pure_def, Option.bind_eq_some_iff,
      Option.some.injEq, hexValue?_eq_some_iff, ih, List.forall₂_cons_left_iff]
    constructor
    · rintro ⟨digit, hdigit, rest, hrest, rfl⟩
      exact ⟨digit, rest, hdigit, hrest, rfl⟩
    · rintro ⟨digit, rest, hdigit, hrest, rfl⟩
      exact ⟨digit, hdigit, rest, hrest, rfl⟩

/-! ## Colors -/

/-- The digits stand for the three bytes, two for each or one for both of its digits. -/
inductive Digits : List Char → Nat → Nat → Nat → Prop
  | long {c₁ c₂ c₃ c₄ c₅ c₆ : Char} {d₁ d₂ d₃ d₄ d₅ d₆ : Nat} :
      IsDigit c₁ d₁ → IsDigit c₂ d₂ → IsDigit c₃ d₃ → IsDigit c₄ d₄ → IsDigit c₅ d₅ →
        IsDigit c₆ d₆ →
        Digits [c₁, c₂, c₃, c₄, c₅, c₆] (16 * d₁ + d₂) (16 * d₃ + d₄) (16 * d₅ + d₆)
  | short {c₁ c₂ c₃ : Char} {d₁ d₂ d₃ : Nat} :
      IsDigit c₁ d₁ → IsDigit c₂ d₂ → IsDigit c₃ d₃ →
        Digits [c₁, c₂, c₃] (16 * d₁ + d₁) (16 * d₂ + d₂) (16 * d₃ + d₃)

/-- The text is a color: blanks, a number sign, digits and blanks. -/
def Written (text : List Char) (r g b : Nat) : Prop :=
  ∃ lead digits trail, text = lead ++ ('#' :: digits ++ trail) ∧ Text.Blank lead ∧
    Text.Blank trail ∧ Digits digits r g b

theorem Digits.plain {digits : List Char} {r g b : Nat} (h : Digits digits r g b) :
    ∀ c ∈ digits, c ∈ digitChars := by
  cases h with
  | long h₁ h₂ h₃ h₄ h₅ h₆ => simp [h₁.mem, h₂.mem, h₃.mem, h₄.mem, h₅.mem, h₆.mem]
  | short h₁ h₂ h₃ => simp [h₁.mem, h₂.mem, h₃.mem]

theorem Digits.le {digits : List Char} {r g b : Nat} (h : Digits digits r g b) :
    r ≤ 255 ∧ g ≤ 255 ∧ b ≤ 255 := by
  cases h with
  | long h₁ h₂ h₃ h₄ h₅ h₆ =>
    have := h₁.lt; have := h₂.lt; have := h₃.lt; have := h₄.lt; have := h₅.lt; have := h₆.lt
    omega
  | short h₁ h₂ h₃ =>
    have := h₁.lt; have := h₂.lt; have := h₃.lt
    omega

theorem seventeen (digit : Nat) : 17 * digit = 16 * digit + digit := by omega

theorem Written.le {text : List Char} {r g b : Nat} (h : Written text r g b) :
    r ≤ 255 ∧ g ≤ 255 ∧ b ≤ 255 := by
  obtain ⟨_, _, _, -, -, -, hdigits⟩ := h
  exact hdigits.le

theorem digits_iff {hex : List Char} {color : Vec3} :
    (hex.mapM Text.hexValue?).bind ofDigits? = some color ↔
      ∃ r g b, Digits hex r g b ∧ color = ⟨component r, component g, component b⟩ := by
  rw [Option.bind_eq_some_iff]
  constructor
  · rintro ⟨digits, hdigits, hcolor⟩
    have hall := mapM_hexValue?_eq_some_iff.mp hdigits
    unfold ofDigits? at hcolor
    split at hcolor
    · obtain rfl := Option.some.inj hcolor
      match hex, hall with
      | _, .cons h₁ (.cons h₂ (.cons h₃ (.cons h₄ (.cons h₅ (.cons h₆ .nil))))) =>
        exact ⟨_, _, _, .long h₁ h₂ h₃ h₄ h₅ h₆, rfl⟩
    · obtain rfl := Option.some.inj hcolor
      match hex, hall with
      | _, .cons h₁ (.cons h₂ (.cons h₃ .nil)) =>
        exact ⟨_, _, _, .short h₁ h₂ h₃, by simp only [seventeen]⟩
    · cases hcolor
  · rintro ⟨r, g, b, hdigits, rfl⟩
    cases hdigits with
    | long h₁ h₂ h₃ h₄ h₅ h₆ =>
      exact ⟨_, mapM_hexValue?_eq_some_iff.mpr
        (.cons h₁ (.cons h₂ (.cons h₃ (.cons h₄ (.cons h₅ (.cons h₆ .nil)))))), rfl⟩
    | short h₁ h₂ h₃ =>
      exact ⟨_, mapM_hexValue?_eq_some_iff.mpr (.cons h₁ (.cons h₂ (.cons h₃ .nil))),
        by simp only [ofDigits?, seventeen]⟩

theorem trim_written {lead digits trail : List Char} (hlead : Text.Blank lead)
    (htrail : Text.Blank trail) (hdigits : ∀ c ∈ digits, c ∈ digitChars) :
    Text.trim (lead ++ ('#' :: digits ++ trail)) = '#' :: digits := by
  rw [Text.trim_append hlead htrail]
  refine Text.trim_eq_self (by rintro c ⟨⟩; decide) fun c hc => ?_
  rcases List.mem_cons.mp (List.mem_of_getLast? hc) with rfl | hmem
  · decide
  · exact (plain_of_mem (hdigits c hmem)).1

/-- A text is read as a color if it is one. -/
theorem read?_iff {text : String} {color : Vec3} :
    read? text = some color ↔
      ∃ r g b, Written text.toList r g b ∧ color = ⟨component r, component g, component b⟩ := by
  constructor
  · intro h
    unfold read? at h
    split at h
    · next hex htrim =>
      obtain ⟨r, g, b, hdigits, rfl⟩ := digits_iff.mp h
      obtain ⟨lead, trail, htext, hlead, htrail⟩ := Text.exists_trim text.toList
      rw [htrim] at htext
      exact ⟨r, g, b, ⟨lead, hex, trail, htext, hlead, htrail, hdigits⟩, rfl⟩
    · cases h
  · rintro ⟨r, g, b, ⟨lead, hex, trail, htext, hlead, htrail, hdigits⟩, rfl⟩
    rw [read?, htext, trim_written hlead htrail hdigits.plain]
    exact digits_iff.mpr ⟨r, g, b, hdigits, rfl⟩

theorem nearest_component {byte : Nat} (h : byte ≤ 255) :
    (component byte).Nearest (byte / 255) := by
  have hnearest := Binary32.nearest_ofRatio (by decide : 255 % 2 = 1) h
  rwa [Nat.cast_ofNat] at hnearest

theorem share_le_one {byte : Nat} (h : byte ≤ 255) : (byte / 255 : ℚ) ≤ 1 :=
  div_le_one_of_le₀ (by exact_mod_cast h) (by positivity)

theorem nearest_of_read? {text : String} {color : Vec3} (h : read? text = some color) :
    ∃ r g b : Nat, Written text.toList r g b ∧ color.x.Nearest (r / 255) ∧
      color.y.Nearest (g / 255) ∧ color.z.Nearest (b / 255) := by
  obtain ⟨r, g, b, hwritten, rfl⟩ := read?_iff.mp h
  obtain ⟨hr, hg, hb⟩ := hwritten.le
  refine ⟨r, g, b, hwritten, ?_⟩
  dsimp only
  exact ⟨nearest_component hr, nearest_component hg, nearest_component hb⟩

/-! ## What does not matter -/

theorem read?_short {lead trail : List Char} (hlead : Text.Blank lead) (htrail : Text.Blank trail)
    {c₁ c₂ c₃ : Char} {d₁ d₂ d₃ : Nat} (h₁ : IsDigit c₁ d₁) (h₂ : IsDigit c₂ d₂)
    (h₃ : IsDigit c₃ d₃) :
    read? (String.ofList (lead ++ ('#' :: [c₁, c₂, c₃] ++ trail))) =
      read? (String.ofList (lead ++ ('#' :: [c₁, c₁, c₂, c₂, c₃, c₃] ++ trail))) := by
  have hread {digits : List Char} {r g b : Nat} (h : Digits digits r g b) :
      read? (String.ofList (lead ++ ('#' :: digits ++ trail))) =
        some ⟨component r, component g, component b⟩ :=
    read?_iff.mpr ⟨r, g, b,
      ⟨lead, digits, trail, by rw [String.toList_ofList], hlead, htrail, h⟩, rfl⟩
  rw [hread (.short h₁ h₂ h₃), hread (.long h₁ h₁ h₂ h₂ h₃ h₃)]

/-- A letter is blank, a digit or a number sign just if it is in lower case. -/
theorem toLower_plain (c : Char) :
    Text.isBlank c.toLower = Text.isBlank c ∧ Text.hexValue? c.toLower = Text.hexValue? c ∧
      (c.toLower = '#' ↔ c = '#') := by
  have hascii : ∀ n < 128, Text.isBlank (Char.ofNat n).toLower = Text.isBlank (Char.ofNat n) ∧
      Text.hexValue? (Char.ofNat n).toLower = Text.hexValue? (Char.ofNat n) ∧
      ((Char.ofNat n).toLower = '#' ↔ Char.ofNat n = '#') := by decide +kernel
  by_cases h : c.toNat < 128
  · have hc := hascii c.toNat h
    rwa [Char.ofNat_toNat] at hc
  · have hsame : c.toLower = c := by
      refine dif_neg fun hupper => ?_
      have hle : c.toNat ≤ 'Z'.toNat := hupper.2
      exact h (Nat.lt_of_le_of_lt hle (by decide))
    rw [hsame]
    exact ⟨rfl, rfl, Iff.rfl⟩

theorem read?_toLower (text : String) :
    read? (String.ofList (text.toList.map Char.toLower)) = read? text := by
  rw [read?, read?, String.toList_ofList, Text.trim_map fun c => (toLower_plain c).1]
  have hvalue : Text.hexValue? ∘ Char.toLower = Text.hexValue? :=
    funext fun c => (toLower_plain c).2.1
  cases Text.trim text.toList with
  | nil => rfl
  | cons c hex =>
    by_cases hc : c = '#'
    · subst hc
      show ((hex.map Char.toLower).mapM Text.hexValue?).bind ofDigits? =
        (hex.mapM Text.hexValue?).bind ofDigits?
      rw [List.mapM_map, hvalue]
    · have hlower : c.toLower ≠ '#' := mt (toLower_plain c).2.2.mp hc
      simp [hc, hlower]

theorem read?_blanks {lead trail : List Char} (hlead : Text.Blank lead) (htrail : Text.Blank trail)
    (text : List Char) :
    read? (String.ofList (lead ++ (text ++ trail))) = read? (String.ofList text) := by
  rw [read?, read?, String.toList_ofList, String.toList_ofList, Text.trim_append hlead htrail]

/-! ## Slices -/

inductive SliceError where
  | inCharacter
  | pastEnd

def splitBytes : Nat → List Char → Except SliceError (List Char × List Char)
  | 0, text => .ok ([], text)
  | _ + 1, [] => .error .pastEnd
  | n + 1, c :: text =>
    if n + 1 < c.utf8Size then .error .inCharacter
    else do
      let (front, back) ← splitBytes (n + 1 - c.utf8Size) text
      return (c :: front, back)

def slice (text : List Char) (start stop : Nat) : Except SliceError (List Char) := do
  let (front, _) ← splitBytes stop text
  let (_, back) ← splitBytes start front
  return back

/-- The byte that is written in base 16. A plus sign may stand before its digits. -/
def byteOf? (text : List Char) : Option Nat :=
  let digits := match text with
    | '+' :: c :: rest => c :: rest
    | text => text
  if digits.isEmpty then none
  else
    (digits.mapM Text.hexValue?).bind fun values =>
      let byte := values.foldl (fun n digit => 16 * n + digit) 0
      if byte ≤ 255 then some byte else none

/-- The share of the byte in some digits. -/
def channel (digits : List Char) : OptionT (Except SliceError) Binary32 :=
  OptionT.mk (.ok ((byteOf? digits).map component))

/-- The color of digits, by the number of their bytes. Two at a time are cut out; if there
are three, each is doubled. -/
def ofSlices (hex : List Char) : OptionT (Except SliceError) Vec3 :=
  if hex.all fun c => (Text.hexValue? c).isSome then
    match (hex.map Char.utf8Size).sum with
    | 6 => do
      return ⟨← channel (← slice hex 0 2), ← channel (← slice hex 2 4), ← channel (← slice hex 4 6)⟩
    | 3 => do
      let shares ← (hex.take 3).mapM fun c => channel [c, c]
      return ⟨shares.getD 0 default, shares.getD 1 default, shares.getD 2 default⟩
    | _ => failure
  else failure

/-- Reads a color whose digits are cut out by counting bytes. -/
def readSliced (text : String) : OptionT (Except SliceError) Vec3 :=
  match Text.trim text.toList with
  | '#' :: hex => ofSlices hex
  | _ => failure

theorem splitBytes_eq {text : List Char} (h : ∀ c ∈ text, c.utf8Size = 1) {n : Nat}
    (hn : n ≤ text.length) : splitBytes n text = .ok (text.take n, text.drop n) := by
  induction text generalizing n with
  | nil =>
    obtain rfl := Nat.le_zero.mp hn
    rfl
  | cons c text ih =>
    rw [List.forall_mem_cons] at h
    cases n with
    | zero => rfl
    | succ n =>
      have hrest := ih h.2 (Nat.le_of_succ_le_succ hn)
      rw [splitBytes, h.1, if_neg (by omega), Nat.add_sub_cancel, hrest]
      rfl

/-- Where characters are one byte each, bytes are cut out as characters are. -/
theorem slice_eq {text : List Char} (h : ∀ c ∈ text, c.utf8Size = 1) {start stop : Nat}
    (hstart : start ≤ stop) (hstop : stop ≤ text.length) :
    slice text start stop = .ok ((text.take stop).drop start) := by
  have hfront : ∀ c ∈ text.take stop, c.utf8Size = 1 := fun c hc => h c (List.mem_of_mem_take hc)
  have hlength : start ≤ (text.take stop).length := by
    rw [List.length_take]
    omega
  rw [slice, splitBytes_eq h hstop]
  show (do let (_, back) ← splitBytes start (text.take stop); return back : Except _ _) = _
  rw [splitBytes_eq hfront hlength]
  rfl

theorem channel_eq {c c' : Char} {d d' : Nat} (h : IsDigit c d) (h' : IsDigit c' d') :
    channel [c, c'] = pure (component (16 * d + d')) := by
  have hsign := (plain_of_mem h.mem).2.1
  have hvalues : [c, c'].mapM Text.hexValue? = some [d, d'] :=
    mapM_hexValue?_eq_some_iff.mpr (.cons h (.cons h' .nil))
  have hbyte : byteOf? [c, c'] = some (16 * d + d') := by
    have := h.lt
    have := h'.lt
    unfold byteOf?
    split
    · next heq =>
      cases heq
      exact absurd rfl hsign
    · simp only [hvalues, List.isEmpty_cons, Bool.false_eq_true, if_false, Option.bind_some,
        List.foldl_cons, List.foldl_nil, Nat.mul_zero, Nat.zero_add]
      rw [if_pos (by omega)]
  rw [channel, hbyte]
  rfl

theorem length_of_ofDigits? {digits : List Nat} (h : ofDigits? digits = none) :
    digits.length ≠ 6 ∧ digits.length ≠ 3 := by
  constructor <;> intro hlength
  · match digits, hlength with
    | [_, _, _, _, _, _], _ => cases h
  · match digits, hlength with
    | [_, _, _], _ => cases h

theorem all_of_forall₂ {hex : List Char} {digits : List Nat}
    (h : List.Forall₂ IsDigit hex digits) :
    (hex.all fun c => (Text.hexValue? c).isSome) = true := by
  induction h with
  | nil => rfl
  | cons hdigit _ ih => rw [List.all_cons, hexValue?_eq_some_iff.mpr hdigit, ih]; rfl

theorem exists_digits {hex : List Char}
    (h : (hex.all fun c => (Text.hexValue? c).isSome) = true) :
    ∃ digits, List.Forall₂ IsDigit hex digits := by
  induction hex with
  | nil => exact ⟨[], .nil⟩
  | cons c hex ih =>
    rw [List.all_cons, Bool.and_eq_true] at h
    obtain ⟨digit, hdigit⟩ := Option.isSome_iff_exists.mp h.1
    obtain ⟨digits, hdigits⟩ := ih h.2
    exact ⟨digit :: digits, .cons (hexValue?_eq_some_iff.mp hdigit) hdigits⟩

theorem utf8Size_of_forall₂ {hex : List Char} {digits : List Nat}
    (h : List.Forall₂ IsDigit hex digits) :
    (∀ c ∈ hex, c.utf8Size = 1) ∧ (hex.map Char.utf8Size).sum = digits.length := by
  induction h with
  | nil => exact ⟨List.forall_mem_nil _, rfl⟩
  | cons hdigit _ ih =>
    have hsize := (plain_of_mem hdigit.mem).2.2
    refine ⟨List.forall_mem_cons.mpr ⟨hsize, ih.1⟩, ?_⟩
    rw [List.map_cons, List.sum_cons, hsize, ih.2, List.length_cons, Nat.add_comm]

theorem liftM_ok {α : Type} (a : α) :
    (liftM (Except.ok a : Except SliceError α) : OptionT (Except SliceError) α) = pure a := rfl

theorem ofSlices_digits {hex : List Char} {r g b : Nat} (h : Digits hex r g b) :
    (ofSlices hex).run = .ok (some ⟨component r, component g, component b⟩) := by
  cases h with
  | @long c₁ c₂ c₃ c₄ c₅ c₆ _ _ _ _ _ _ h₁ h₂ h₃ h₄ h₅ h₆ =>
    have hdigits : List.Forall₂ IsDigit [c₁, c₂, c₃, c₄, c₅, c₆] _ :=
      .cons h₁ (.cons h₂ (.cons h₃ (.cons h₄ (.cons h₅ (.cons h₆ .nil)))))
    obtain ⟨hsize, hsum⟩ := utf8Size_of_forall₂ hdigits
    have hslice {start stop : Nat} (hstart : start ≤ stop) (hstop : stop ≤ 6) :=
      slice_eq hsize hstart hstop
    rw [ofSlices, if_pos (all_of_forall₂ hdigits), hsum]
    simp only [List.length_cons, List.length_nil, hslice (show 0 ≤ 2 by decide) (by decide),
      hslice (show 2 ≤ 4 by decide) (by decide), hslice (show 4 ≤ 6 by decide) (by decide),
      List.take_succ_cons, List.take_zero, List.drop_succ_cons, List.drop_zero, liftM_ok,
      pure_bind, channel_eq h₁ h₂, channel_eq h₃ h₄, channel_eq h₅ h₆, OptionT.run_pure]
    rfl
  | @short c₁ c₂ c₃ _ _ _ h₁ h₂ h₃ =>
    have hdigits : List.Forall₂ IsDigit [c₁, c₂, c₃] _ := .cons h₁ (.cons h₂ (.cons h₃ .nil))
    rw [ofSlices, if_pos (all_of_forall₂ hdigits), (utf8Size_of_forall₂ hdigits).2]
    simp only [List.length_cons, List.length_nil, List.take_succ_cons, List.take_zero,
      List.mapM_cons, List.mapM_nil, pure_bind, channel_eq h₁ h₁, channel_eq h₂ h₂,
      channel_eq h₃ h₃, OptionT.run_pure, List.getD_cons_zero, List.getD_cons_succ]
    rfl

theorem ofSlices_eq (hex : List Char) :
    (ofSlices hex).run = .ok ((hex.mapM Text.hexValue?).bind ofDigits?) := by
  cases hcolor : (hex.mapM Text.hexValue?).bind ofDigits? with
  | some color =>
    obtain ⟨r, g, b, hdigits, rfl⟩ := digits_iff.mp hcolor
    exact ofSlices_digits hdigits
  | none =>
    by_cases hall : (hex.all fun c => (Text.hexValue? c).isSome) = true
    · obtain ⟨digits, hdigits⟩ := exists_digits hall
      rw [mapM_hexValue?_eq_some_iff.mpr hdigits, Option.bind_some] at hcolor
      obtain ⟨hlong, hshort⟩ := length_of_ofDigits? hcolor
      rw [ofSlices, if_pos hall, (utf8Size_of_forall₂ hdigits).2]
      split
      · contradiction
      · contradiction
      · rfl
    · rw [ofSlices, if_neg hall]
      rfl

/-- Every slice is in place, whatever the text. -/
theorem readSliced_eq (text : String) : (readSliced text).run = .ok (read? text) := by
  rw [readSliced, read?]
  cases Text.trim text.toList with
  | nil => rfl
  | cons c hex =>
    by_cases hc : c = '#'
    · subst hc
      exact ofSlices_eq hex
    · simp [hc]
      rfl

/-- **Colors in digits.** A text is read as a color if it is a number sign and three or six
digits between blanks, and each component is then the number nearest to its byte's share.
A short color is the long one with its digits doubled; the case of letters and blanks
around the text do not matter; components lie between zero and one; and digits can be cut
out by counting bytes. -/
theorem read?_colors :
    (∀ text color, read? text = some color ↔
      ∃ r g b : Nat, Written text.toList r g b ∧ color.x.Nearest (r / 255) ∧
        color.y.Nearest (g / 255) ∧ color.z.Nearest (b / 255)) ∧
    (∀ lead trail c₁ c₂ c₃ d₁ d₂ d₃, Text.Blank lead → Text.Blank trail →
      IsDigit c₁ d₁ → IsDigit c₂ d₂ → IsDigit c₃ d₃ →
      read? (String.ofList (lead ++ ('#' :: [c₁, c₂, c₃] ++ trail))) =
        read? (String.ofList (lead ++ ('#' :: [c₁, c₁, c₂, c₂, c₃, c₃] ++ trail)))) ∧
    (∀ text other : String, text.toList.map Char.toLower = other.toList.map Char.toLower →
      read? text = read? other) ∧
    (∀ lead trail text, Text.Blank lead → Text.Blank trail →
      read? (String.ofList (lead ++ (text ++ trail))) = read? (String.ofList text)) ∧
    (∀ text color, read? text = some color → ∀ v ∈ [color.x, color.y, color.z],
      ∃ a, v.value? = some a ∧ 0 ≤ a ∧ a ≤ 1) ∧
    ∀ text, (readSliced text).run = .ok (read? text) := by
  refine ⟨fun text color => ⟨nearest_of_read?, ?_⟩, ?_, ?_, ?_, ?_, readSliced_eq⟩
  · rintro ⟨r, g, b, hwritten, hx, hy, hz⟩
    obtain ⟨hr, hg, hb⟩ := hwritten.le
    refine read?_iff.mpr ⟨r, g, b, hwritten, ?_⟩
    rw [← hx.unique (nearest_component hr), ← hy.unique (nearest_component hg),
      ← hz.unique (nearest_component hb)]
  · exact fun lead trail c₁ c₂ c₃ d₁ d₂ d₃ hlead htrail h₁ h₂ h₃ =>
      read?_short hlead htrail h₁ h₂ h₃
  · intro text other h
    rw [← read?_toLower, h, read?_toLower]
  · exact fun lead trail text hlead htrail => read?_blanks hlead htrail text
  · intro text color h v hv
    obtain ⟨r, g, b, hwritten, hx, hy, hz⟩ := nearest_of_read? h
    obtain ⟨hr, hg, hb⟩ := hwritten.le
    simp only [List.mem_cons, List.not_mem_nil, or_false] at hv
    rcases hv with rfl | rfl | rfl
    · exact hx.le_one (share_le_one hr)
    · exact hy.le_one (share_le_one hg)
    · exact hz.le_one (share_le_one hb)

/-- White in three digits of either case between blanks, and in six digits; and six bytes that
are three characters, none of them a digit. -/
theorem read?_colors_white :
    read? " #fFf\n" = read? "#FFFFFF" ∧
    (∃ color, read? "#FFFFFF" = some color ∧ color.x.Nearest ((255 : Nat) / 255) ∧
      ∃ a, color.x.value? = some a ∧ 0 ≤ a ∧ a ≤ 1) ∧
    (readSliced "#ééé").run = .ok none := by
  obtain ⟨hread, hshort, hcase, hblanks, hrange, hslices⟩ := read?_colors
  have hlead : Text.Blank [' '] := by decide
  have htrail : Text.Blank ['\n'] := by decide
  have hlower : IsDigit 'f' 15 := by decide
  have hupper : IsDigit 'F' 15 := by decide
  have hwhite : Written "#FFFFFF".toList 255 255 255 :=
    ⟨[], "FFFFFF".toList, [], by decide, by decide, by decide,
      .long hupper hupper hupper hupper hupper hupper⟩
  have hshare := nearest_component (Nat.le_refl 255)
  have hcolor : read? "#FFFFFF" = some ⟨component 255, component 255, component 255⟩ :=
    (hread _ _).mpr ⟨255, 255, 255, hwhite, hshare, hshare, hshare⟩
  refine ⟨?_, ⟨_, hcolor, hshare, hrange _ _ hcolor _ List.mem_cons_self⟩, ?_⟩
  · calc read? " #fFf\n"
        = read? (String.ofList ([' '] ++ ('#' :: ['f', 'f', 'F', 'F', 'f', 'f'] ++ ['\n']))) :=
          hshort [' '] ['\n'] 'f' 'F' 'f' 15 15 15 hlead htrail hlower hupper hlower
      _ = read? (String.ofList ('#' :: ['f', 'f', 'F', 'F', 'f', 'f'])) :=
          hblanks [' '] ['\n'] _ hlead htrail
      _ = read? "#FFFFFF" := hcase _ _ (by decide)
  · have hnone : read? "#ééé" = none := by decide
    rw [hslices, hnone]

end ShaderGraph.HexColor
