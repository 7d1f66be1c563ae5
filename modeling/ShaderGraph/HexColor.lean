import ShaderGraph.Binary32
import ShaderGraph.Text.Blank
import ShaderGraph.Text.Hex

/-
Colors written as `#rrggbb` or `#rgb`.

Blank characters around the text do not count. A digit `d` of the short form
stands for the byte `dd`. Each byte becomes the single precision number nearest
to `byte / 255`.
-/
namespace ShaderGraph.HexColor

/-- The share of a byte in 255. -/
def component (byte : Nat) : Binary32 := .ofRatio false byte 255

/-- The color of six digits, or of three. -/
def ofDigits? : List Nat → Option Vec3
  | [r, s, g, h, b, c] => some ⟨component (16 * r + s), component (16 * g + h), component (16 * b + c)⟩
  | [r, g, b] => some ⟨component (17 * r), component (17 * g), component (17 * b)⟩
  | _ => none

/-- The color of a text, if it is one. -/
def read? (text : String) : Option Vec3 :=
  match Text.trim text.toList with
  | '#' :: digits => (digits.mapM Text.hexValue?).bind ofDigits?
  | _ => none

end ShaderGraph.HexColor
