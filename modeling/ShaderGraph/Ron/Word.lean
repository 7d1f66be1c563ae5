import ShaderGraph.Ron.Reader
import ShaderGraph.Text.Utf8

/-
Identifiers, strings and characters of RON text.
-/
namespace ShaderGraph.Ron.Reader

/-! ## Identifiers -/

/-- A character of a raw identifier. -/
def isRawIdentifierChar (c : Char) : Bool :=
  c == '.' || c == '+' || c == '-' || Text.isIdentifierContinue c

/-- The text is the start of a string or of a byte literal. -/
def startsQuoted (text : List Char) : Bool :=
  ["b\"", "b'", "br#", "br\"", "r\"", "r#\"", "r##"].any (startsWith · text)

/-- An identifier: a plain one, or a raw one after `r#`. A plain one that runs on
into a dot, plus or minus is refused. -/
def identifierOf : List Char → Except ReadError (String × List Char)
  | [] => .error .endOfText
  | c :: rest =>
    let text := c :: rest
    if Text.isIdentifierStart c || c == '_' then
      if startsQuoted text then .error .expectedIdentifier
      else match after? "r#".toList text with
        | some raw =>
          let name := raw.takeWhile isRawIdentifierChar
          if name.isEmpty then .error .expectedIdentifier
          else .ok (String.ofList name, raw.dropWhile isRawIdentifierChar)
        | none =>
          let name := text.takeWhile Text.isIdentifierContinue
          let word := text.takeWhile isRawIdentifierChar
          if name.length < word.length then .error (.suggestRawIdentifier (String.ofList word))
          else .ok (String.ofList name, text.dropWhile Text.isIdentifierContinue)
    else if isRawIdentifierChar c then
      .error (.suggestRawIdentifier (String.ofList (text.takeWhile isRawIdentifierChar)))
    else .error .expectedIdentifier

def identifier : Reader String := onText identifierOf

/-! ## Escapes -/

def hexDigit (c : Char) : Reader Nat :=
  match Text.hexValue? c with
  | some value => pure value
  | none => fail (.invalidEscape .nonHexDigit)

def hexByte : Reader Nat := do
  let high ← hexDigit (← next)
  let low ← hexDigit (← next)
  pure (16 * high + low)

/-- Up to `n` hexadecimal digits before a closing brace: their number and value. -/
def codeDigits : Nat → Nat → Nat → Reader (Nat × Nat)
  | 0, count, value => pure (count, value)
  | n + 1, count, value => do
    let c ← peek
    if c = '}' then pure (count, value)
    else do
      let digit ← hexDigit (← next)
      codeDigits n (count + 1) (16 * value + digit)

/-- The character of an escape by code point, after its `u`. -/
def codePointEscape : Reader Char := do
  expect '{' (.invalidEscape .missingBrace)
  let (count, value) ← codeDigits 6 0 0
  if count = 0 then fail (.invalidEscape .noDigits)
  else do
    expect '}' (.invalidEscape .missingBraceEnd)
    match Text.charOfCode? value with
    | some c => pure c
    | none => fail (.invalidEscape .notACodePoint)

/-- Further byte escapes, at most `n`, up to the end of the character that the
bytes encode. -/
def moreBytes : Nat → List Nat → Reader Char
  | 0, _ => fail (.invalidEscape .notUtf8)
  | n + 1, bytes => do
    if ← acceptText "\\x" then do
      let bytes := bytes ++ [← hexByte]
      match Text.charOfUtf8? bytes with
      | some c => pure c
      | none => moreBytes n bytes
    else fail (.invalidEscape .notUtf8)

/-- The character of an escape by bytes, after its `x`. Only a string may take more
than one byte for a character. -/
def byteEscape (several : Bool) : Reader Char := do
  let byte ← hexByte
  match Text.charOfUtf8? [byte] with
  | some c => pure c
  | none => if several then moreBytes 3 [byte] else fail (.invalidEscape .notUtf8)

/-- The character of an escape, after its backslash; `bytes` reads what follows an
`x`. -/
def escape (bytes : Reader Char) : Reader Char := do
  let c ← next
  if c = Text.singleQuote ∨ c = Text.doubleQuote ∨ c = '\\' then pure c
  else if c = 'n' then pure '\n'
  else if c = 'r' then pure '\r'
  else if c = 't' then pure '\t'
  else if c = '0' then pure '\x00'
  else if c = 'x' then bytes
  else if c = 'u' then codePointEscape
  else fail (.invalidEscape .unknown)

/-! ## Strings -/

def beforeQuote? (text : List Char) : Option (List Char) :=
  if Text.doubleQuote ∈ text then some (text.takeWhile (· ≠ Text.doubleQuote)) else none

/-- The characters of a string after its opening quote, in pieces from escape to
escape. Before each piece a closing quote must be in sight, be it part of an
escape. Each piece takes at least one character. -/
def stringPieces (bytes : Reader Char) : Nat → List Char → Reader (List Char)
  | 0, _ => fail .expectedStringEnd
  | pieces + 1, read => do
    let text ← remaining
    match beforeQuote? text with
    | none => fail .expectedStringEnd
    | some body =>
      let plain := body.takeWhile (· ≠ '\\')
      setRemaining (text.drop (plain.length + 1))
      if plain.length < body.length then do
        let c ← escape bytes
        stringPieces bytes pieces (read ++ plain ++ [c])
      else pure (read ++ plain)

def escapedString (bytes : Reader Char) : Reader (List Char) := fun scope text =>
  stringPieces bytes (text.length + 1) [] scope text

/-- The characters before the first place where `ending` comes next, and the rest
after that. -/
def splitAtEnding (ending : List Char) : List Char → Option (List Char × List Char)
  | [] => if ending.isEmpty then some ([], []) else none
  | c :: text =>
    match after? ending (c :: text) with
    | some rest => some ([], rest)
    | none => (splitAtEnding ending text).map fun (body, rest) => (c :: body, rest)

/-- The characters of a raw string, after its `r`: as many hashes close it as open
it. -/
def rawString (notQuoted : ReadError) : Reader (List Char) := do
  let text ← remaining
  let hashes := text.takeWhile (· = '#')
  setRemaining (text.dropWhile (· = '#'))
  expect Text.doubleQuote notQuoted
  match splitAtEnding (Text.doubleQuote :: hashes) (← remaining) with
  | some (body, rest) => do
    setRemaining rest
    pure body
  | none => fail .expectedStringEnd

/-- A string, with escapes or raw. -/
def string : Reader String := do
  if ← accept Text.doubleQuote then String.ofList <$> escapedString (byteEscape true)
  else if ← accept 'r' then String.ofList <$> rawString .expectedString
  else fail .expectedString

/-! ## Characters and bytes -/

/-- One byte, shown as the character of the same number. -/
def byteAsChar : Reader Char := do
  return Char.ofNat (← hexByte)

/-- A character between single quotes. -/
def character : Reader Char := do
  expect Text.singleQuote .expectedChar
  let c ← next
  let c ← if c = '\\' then escape (byteEscape false) else pure c
  expect Text.singleQuote .expectedChar
  pure c

/-- A byte string, with escapes or raw. -/
def byteString : Reader Unit := do
  if ← acceptText "b\"" then discard (escapedString byteAsChar)
  else if ← acceptText "br" then discard (rawString .expectedByteString)
  else fail .expectedByteString

end ShaderGraph.Ron.Reader
