import ShaderGraph.Binary32.Text
import ShaderGraph.Ron.Word

/-
Numbers of RON text.

A single precision number is a word such as `inf` or `-NaN`, or the longest run of
digits, signs, points, underscores and `e`, without its underscores. Both may carry
a suffix that names the format. Numbers of other types are only passed over, but
must be in their range.
-/
namespace ShaderGraph.Ron.Reader

/-! ## Single precision numbers -/

def isFloatChar (c : Char) : Bool :=
  c.isDigit || c == 'e' || c == 'E' || c == '.' || c == '+' || c == '-' || c == '_'

/-- The numbers that are written as words. -/
def namedFloats : List (String × Binary32) := [
  ("inf", .infinite false), ("+inf", .infinite false), ("-inf", .infinite true),
  ("NaN", .undefined false), ("+NaN", .undefined false), ("-NaN", .undefined true)]

/-- Where a number word ends, whether its suffix asks for double precision, and
its value. -/
def namedFloat? (text : List Char) : Option (Binary32 × Bool × List Char) :=
  namedFloats.findSome? fun (word, value) =>
    match afterWord? word text, afterWord? (word ++ "f32") text, afterWord? (word ++ "f64") text with
    | some rest, _, _ => some (value, false, rest)
    | none, some rest, _ => some (value, false, rest)
    | none, none, some rest => some (value, true, rest)
    | none, none, none => none

/-- The run without its underscores. An underscore may stand only where a digit or
`e` came since the start or the last point. -/
def withoutUnderscores : Bool → List Char → Option (List Char)
  | _, [] => some []
  | allowed, c :: rest =>
    if c = '_' then if allowed then withoutUnderscores allowed rest else none
    else
      let allowed :=
        if c.isDigit ∨ c = 'e' ∨ c = 'E' then true else if c = '.' then false else allowed
      (withoutUnderscores allowed rest).map (c :: ·)

/-- The rest after a suffix that names a format, and whether that is double
precision. -/
def formatSuffix? (text : List Char) : Option (Bool × List Char) :=
  match afterWord? "f32" text, afterWord? "f64" text with
  | some rest, _ => some (false, rest)
  | none, some rest => some (true, rest)
  | none, none => none

/-- A number, whether its suffix asks for double precision, and the rest. -/
def anyFloatOf (text : List Char) : Except ReadError (Binary32 × Bool × List Char) :=
  match namedFloat? text with
  | some answer => .ok answer
  | none =>
    let run := text.takeWhile isFloatChar
    let rest := text.dropWhile isFloatChar
    match run with
    | [] => .error .expectedFloat
    | '_' :: _ => .error .leadingUnderscore
    | _ =>
      match withoutUnderscores false run with
      | none => .error .underscoreInFloat
      | some digits =>
        match Binary32.read? digits with
        | none => .error .expectedFloat
        | some value =>
          match formatSuffix? rest with
          | some (double, rest) => .ok (value, double, rest)
          | none => .ok (value, false, rest)

def float : Reader Binary32 := onText fun text =>
  match anyFloatOf text with
  | .error e => .error e
  | .ok (value, false, rest) => .ok (value, rest)
  | .ok (_, true, rest) =>
    .error (.notSinglePrecision (String.ofList (text.take (text.length - rest.length))))

/-! ## Numbers that are passed over -/

def isIntegerChar (c : Char) : Bool :=
  c.isDigit || ('a' ≤ c && c ≤ 'f') || ('A' ≤ c && c ≤ 'F') || c == '_'

/-- The value of a hexadecimal digit; other characters count as 0. -/
def integerDigit (c : Char) : Nat := (Text.hexValue? c).getD 0

/-- The digits of an integer in a base, with a bound on its size. An error comes
with the text that lies before it: the digits' end if the bound is passed, the
digit itself if it is none of the base. -/
def integerDigits (base bound : Nat) (rest : List Char) :
    Nat → List Char → Except (ReadError × List Char) Unit
  | _, [] => .ok ()
  | value, c :: digits =>
    if c = '_' then integerDigits base bound rest value digits
    else if bound < value * base then .error (.integerOutOfBounds, rest)
    else if base ≤ integerDigit c then .error (.invalidDigit c base, c :: digits ++ rest)
    else if bound < value * base + integerDigit c then .error (.integerOutOfBounds, rest)
    else integerDigits base bound rest (value * base + integerDigit c) digits

def baseOf : List Char → Nat × List Char
  | '0' :: 'x' :: rest => (16, rest)
  | '0' :: 'b' :: rest => (2, rest)
  | '0' :: 'o' :: rest => (8, rest)
  | text => (10, text)

/-- The rest after an integer without sign, with a bound on its size. -/
def afterInteger (bound : Nat) (text : List Char) : Except (ReadError × List Char) (List Char) :=
  let (base, text) := baseOf text
  let digits := text.takeWhile isIntegerChar
  let rest := text.dropWhile isIntegerChar
  match digits with
  | [] => .error (.expectedInteger, text)
  | '_' :: _ => .error (.leadingUnderscore, text)
  | _ =>
    match integerDigits base bound rest 0 digits with
    | .ok () => .ok rest
    | .error e => .error e

/-- The types that a suffix can name, each with the bounds of positive and of
negative numbers. -/
def integerTypes : List (String × Nat × Nat) := [
  ("i8", 0x7F, 0x80), ("i16", 0x7FFF, 0x8000), ("i32", 0x7FFFFFFF, 0x80000000),
  ("i64", 0x7FFFFFFFFFFFFFFF, 0x8000000000000000), ("u8", 0xFF, 0), ("u16", 0xFFFF, 0),
  ("u32", 0xFFFFFFFF, 0), ("u64", 0xFFFFFFFFFFFFFFFF, 0)]

/-- The rest after an integer after its sign. With a suffix the number must be in
the range of that type; without one it must fit 64 bits. -/
def afterUnsigned (negative : Bool) (text : List Char) :
    Except (ReadError × List Char) (List Char) :=
  let afterDigits := text.dropWhile isIntegerChar
  let suffix := integerTypes.findSome? fun (name, positiveBound, negativeBound) =>
    (afterWord? name afterDigits).map fun rest =>
      (if negative then negativeBound else positiveBound, rest)
  match suffix with
  | some (bound, rest) =>
    match afterInteger bound text with
    | .ok _ => .ok rest
    | .error (.leadingUnderscore, place) => .error (.leadingUnderscore, place)
    | .error (.invalidDigit digit base, place) => .error (.invalidDigit digit base, place)
    | .error (e, _) => .error (e, rest)
  | none => afterInteger (if negative then 0x8000000000000000 else 0xFFFFFFFFFFFFFFFF) text

def afterSigned : List Char → Except (ReadError × List Char) (List Char)
  | [] => .error (.endOfText, [])
  | '+' :: text => afterUnsigned false text
  | '-' :: text => afterUnsigned true text
  | text => afterUnsigned false text

/-- Among the characters after a sign, more belong to a run of a number with a point
or exponent than to the digits of an integer. -/
def looksLikeFloat (text : List Char) : Bool :=
  let digits := match text with
    | '+' :: rest => rest
    | '-' :: rest => rest
    | text => text
  (digits.takeWhile isIntegerChar).length < (digits.takeWhile isFloatChar).length

/-- Passes over a number of any type. What is no integer may still be a number with
an exponent or out of the range of integers, if it ends no earlier than the point
where the integer failed. -/
def anyNumber : Reader Unit := onText fun text =>
  if looksLikeFloat text then
    match anyFloatOf text with
    | .ok (_, _, rest) => .ok ((), rest)
    | .error e => .error e
  else
    match afterSigned text with
    | .ok rest => .ok ((), rest)
    | .error (e, place) =>
      match anyFloatOf text with
      | .ok (_, _, rest) => if rest.length ≤ place.length then .ok ((), rest) else .error e
      | .error _ => .error e

/-- Passes over a byte between single quotes, after the first of them. -/
def byteLiteral : Reader Unit := do
  let c ← next
  if c = '\\' then
    match ← peek? with
    | some 'u' => discard (escape byteAsChar); fail (.invalidEscape .unicodeInByte)
    | _ => discard (escape byteAsChar)
  else if 0x80 ≤ c.toNat then fail .expectedByteLiteral
  expect Text.singleQuote .expectedByteLiteral

end ShaderGraph.Ron.Reader
