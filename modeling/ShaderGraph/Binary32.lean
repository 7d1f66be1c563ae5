/-
Single precision numbers, held by rank.

The non-negative numbers of a binary format, in increasing order, are numbered
0, 1, 2, …; this number is the `rank`. Every number of the format is a whole
multiple of its smallest positive number, the *unit*, so a rank denotes a
natural number of units (`units`), and rounding an exact ratio to the nearest
number of the format (`rank`) is one rounded division. The last rank of a block
of equal spacing is followed by the first rank of the next block, so a quotient
that rounds up to the next power of two needs no correction.

`Binary32` adds the sign, the two infinities and the two signs of "not a
number". Equality is equality of representations: the two zeros differ, and a
"not a number" equals itself.
-/
namespace ShaderGraph

/-- The whole number nearest to `n / d`; of two equally near ones the even one. -/
def roundDiv (n d : Nat) : Nat :=
  if 2 * (n % d) < d then n / d
  else if d < 2 * (n % d) then n / d + 1
  else n / d + n / d % 2

/-- A binary format: the bits of its significand, the power of two its unit is
the reciprocal of, and the number of its finite magnitudes. -/
structure BinaryFormat where
  precision : Nat
  scale : Nat
  finiteRanks : Nat
  deriving DecidableEq, Repr

namespace BinaryFormat

def single : BinaryFormat := ⟨24, 149, 0x7F800000⟩

def double : BinaryFormat := ⟨53, 1074, 0x7FF0000000000000⟩

variable (f : BinaryFormat)

/-- The rank of the number nearest to `n / d`, with no bound on the exponent. -/
def rank (n d : Nat) : Nat :=
  let units := n * Nat.pow 2 f.scale
  let shift := (units / d).log2 + 1 - f.precision
  shift * Nat.pow 2 (f.precision - 1) + roundDiv units (d * Nat.pow 2 shift)

/-- The number of a rank, counted in units. -/
def units (rank : Nat) : Nat :=
  let block := Nat.pow 2 (f.precision - 1)
  let shift := rank / block - 1
  (rank - shift * block) * Nat.pow 2 shift

/-- The rank of the number nearest to `m * 10 ^ e`. A power of ten past `scale`
already leaves the range of the format, so larger ones are cut to it. -/
def rankOfDecimal (m : Nat) (e : Int) : Nat :=
  if 0 ≤ e then f.rank (m * Nat.pow 10 (min e.toNat f.scale)) 1
  else f.rank m (Nat.pow 10 (min (-e).toNat (m.log2 + 1 + f.scale)))

end BinaryFormat

/-- A single precision number. -/
inductive Binary32 where
  | finite (negative : Bool) (rank : Fin 0x7F800000)
  | infinite (negative : Bool)
  | undefined (negative : Bool)
  deriving DecidableEq, Repr

namespace Binary32

/-- The number with a given sign and rank; ranks past the finite ones are infinite. -/
def ofRank (negative : Bool) (rank : Nat) : Binary32 :=
  if h : rank < 0x7F800000 then .finite negative ⟨rank, h⟩ else .infinite negative

/-- The number nearest to `n / d`. -/
def ofRatio (negative : Bool) (n d : Nat) : Binary32 :=
  ofRank negative (BinaryFormat.single.rank n d)

/-- The number nearest to `m * 10 ^ e`. -/
def ofDecimal (negative : Bool) (m : Nat) (e : Int) : Binary32 :=
  ofRank negative (BinaryFormat.single.rankOfDecimal m e)

/-- The number nearest to the double precision number nearest to `m * 10 ^ e`. -/
def ofDecimalByDouble (negative : Bool) (m : Nat) (e : Int) : Binary32 :=
  let rank := BinaryFormat.double.rankOfDecimal m e
  if rank < BinaryFormat.double.finiteRanks then
    ofRatio negative (BinaryFormat.double.units rank) (Nat.pow 2 BinaryFormat.double.scale)
  else .infinite negative

instance : Inhabited Binary32 := ⟨.finite false 0⟩

def isFinite : Binary32 → Bool
  | finite _ _ => true
  | _ => false

end Binary32

structure Vec2 where
  x : Binary32
  y : Binary32
  deriving DecidableEq, Repr, Inhabited

/-- Three numbers side by side: a direction, a point or a color. -/
structure Vec3 where
  x : Binary32
  y : Binary32
  z : Binary32
  deriving DecidableEq, Repr, Inhabited

def Vec2.isFinite (v : Vec2) : Bool := v.x.isFinite && v.y.isFinite

def Vec3.isFinite (v : Vec3) : Bool := v.x.isFinite && v.y.isFinite && v.z.isFinite

end ShaderGraph
