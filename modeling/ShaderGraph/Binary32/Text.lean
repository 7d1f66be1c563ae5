import ShaderGraph.Binary32

/-
Decimal text of single precision numbers.

Writing: a finite number is written with the fewest decimal digits that read
back as it, and of those with the nearest ones; of two equally near ones the
larger. The search goes over decimal grids `10 ^ i` from coarse to fine and
takes the first grid on which one of the two neighbours of the number reads
back. On the grid `10 ^ -149` the number lies itself, so the search ends.
Two layouts are in use: `positional` writes every digit out, `compact` goes
over to an exponent below `10 ^ -4` and from `10 ^ 16` on.

Reading: `read?` takes an optional sign, digits with an optional point, and an
optional exponent, and rounds the exact value once.
-/
namespace ShaderGraph.Binary32

/-- `coefficient * 10 ^ exponent`. -/
structure Decimal where
  coefficient : Nat
  exponent : Int
  deriving DecidableEq, Repr

namespace Decimal

/-- The exponent of the leading digit. -/
def magnitude (d : Decimal) : Int := d.exponent + (d.coefficient.repr.length : Int) - 1

end Decimal

/-! ## Fewest digits -/

/-- The multiple of `10 ^ i` next to the number of a rank that reads back as
that rank, if there is one; the nearer of two, the larger of two equally near. -/
def nearestOnGrid? (rank : Nat) (i : Int) : Option Nat :=
  let units := BinaryFormat.single.units rank
  let n := units * Nat.pow 10 (-i).toNat
  let d := Nat.pow 2 BinaryFormat.single.scale * Nat.pow 10 i.toNat
  let below := n / d
  let readsBack (m : Nat) : Bool := BinaryFormat.single.rankOfDecimal m i == rank
  if readsBack below then
    if readsBack (below + 1) && d ≤ 2 * (n % d) then some (below + 1) else some below
  else if readsBack (below + 1) then some (below + 1)
  else none

/-- The coarsest grid with an answer, from `10 ^ (steps - 149)` down; the number
itself if only the grid `10 ^ -149` is left. -/
def shortestFrom (rank : Nat) : Nat → Decimal
  | 0 => ⟨BinaryFormat.single.units rank * Nat.pow 5 149, -149⟩
  | steps + 1 =>
    let i : Int := (steps + 1 : Nat) - 149
    match nearestOnGrid? rank i with
    | some m => ⟨m, i⟩
    | none => shortestFrom rank steps

/-- The decimal of fewest digits that reads back as the number of a rank. -/
def shortest (rank : Nat) : Decimal :=
  if rank = 0 then ⟨0, 0⟩ else shortestFrom rank 190

/-! ## Layouts -/

/-- The digits written out around the point, with at least one on each side. -/
def Decimal.positional (d : Decimal) : String :=
  let digits := d.coefficient.repr.toList
  let whole : Int := d.exponent + digits.length
  String.ofList <|
    if 0 ≤ d.exponent then digits ++ List.replicate d.exponent.toNat '0' ++ ['.', '0']
    else if 0 < whole then digits.take whole.toNat ++ '.' :: digits.drop whole.toNat
    else '0' :: '.' :: List.replicate (-whole).toNat '0' ++ digits

/-- One digit before the point, the rest after it, and the exponent. -/
def Decimal.scientific (d : Decimal) : String :=
  let exponent := "e" ++ toString d.magnitude
  match d.coefficient.repr.toList with
  | first :: second :: rest => String.ofList (first :: '.' :: second :: rest) ++ exponent
  | digits => String.ofList digits ++ exponent

/-- Positional from `10 ^ -4` up to but not including `10 ^ 16`, and for zero. -/
def Decimal.compact (d : Decimal) : String :=
  if d.coefficient = 0 ∨ (-4 ≤ d.magnitude ∧ d.magnitude < 16) then d.positional
  else d.scientific

def signed (negative : Bool) (text : String) : String :=
  if negative then "-" ++ text else text

/-- All digits written out; the sign of every number is kept. -/
def positional : Binary32 → String
  | finite negative rank => signed negative (shortest rank).positional
  | infinite negative => signed negative "inf"
  | undefined negative => signed negative "NaN"

/-- With an exponent for large and small numbers; an undefined number has no sign. -/
def compact : Binary32 → String
  | finite negative rank => signed negative (shortest rank).compact
  | infinite negative => signed negative "inf"
  | undefined _ => "NaN"

/-! ## Reading -/

def digitsValue (digits : List Char) : Nat :=
  digits.foldl (fun value c => 10 * value + (c.toNat - '0'.toNat)) 0

def splitSign : List Char → Bool × List Char
  | '-' :: rest => (true, rest)
  | '+' :: rest => (false, rest)
  | text => (false, text)

/-- The exponent part: nothing, or `e` and a whole number. -/
def readExponent? : List Char → Option Int
  | [] => some 0
  | c :: rest =>
    let (negative, digits) := splitSign rest
    if (c = 'e' ∨ c = 'E') ∧ digits ≠ [] ∧ digits.all Char.isDigit then
      some (if negative then -(digitsValue digits : Int) else digitsValue digits)
    else none

/-- Reads a whole text as a decimal number. There must be a digit before or
after the point. -/
def read? (text : List Char) : Option Binary32 :=
  let (negative, unsigned) := splitSign text
  let whole := unsigned.takeWhile Char.isDigit
  let afterWhole := unsigned.dropWhile Char.isDigit
  let (fraction, rest) := match afterWhole with
    | '.' :: r => (r.takeWhile Char.isDigit, r.dropWhile Char.isDigit)
    | r => ([], r)
  if whole.isEmpty && fraction.isEmpty then none
  else (readExponent? rest).map fun exponent =>
    ofDecimal negative (digitsValue (whole ++ fraction)) (exponent - fraction.length)

end ShaderGraph.Binary32
