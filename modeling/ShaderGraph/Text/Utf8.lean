/-
One character from its UTF-8 bytes.
-/
namespace ShaderGraph.Text

/-- The character of a code point; surrogates and numbers past the last code
point have none. -/
def charOfCode? (code : Nat) : Option Char :=
  if h : code.isValidChar then some (Char.ofNatAux code h) else none

/-- The six payload bits of a continuation byte. -/
def continuation? (byte : Nat) : Option Nat :=
  if 0x80 ≤ byte ∧ byte < 0xC0 then some (byte - 0x80) else none

/-- The character that exactly these bytes encode. Overlong forms, surrogates
and stray bytes encode nothing. -/
def charOfUtf8? : List Nat → Option Char
  | [a] => if a < 0x80 then charOfCode? a else none
  | [a, b] => do
    let y ← continuation? b
    if 0xC2 ≤ a ∧ a < 0xE0 then charOfCode? ((a - 0xC0) * 0x40 + y) else none
  | [a, b, c] => do
    let y ← continuation? b
    let z ← continuation? c
    let code := ((a - 0xE0) * 0x40 + y) * 0x40 + z
    if 0xE0 ≤ a ∧ a < 0xF0 ∧ 0x800 ≤ code then charOfCode? code else none
  | [a, b, c, d] => do
    let x ← continuation? b
    let y ← continuation? c
    let z ← continuation? d
    let code := (((a - 0xF0) * 0x40 + x) * 0x40 + y) * 0x40 + z
    if 0xF0 ≤ a ∧ a < 0xF8 ∧ 0x10000 ≤ code then charOfCode? code else none
  | _ => none

end ShaderGraph.Text
