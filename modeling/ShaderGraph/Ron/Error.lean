import ShaderGraph.Text.Escape
import ShaderGraph.Text.Identifier

/-
What can be wrong with a RON text.

The texts of the errors are complete without the place in the text at which they
arise.
-/
namespace ShaderGraph.Ron

/-- A plain identifier: a starting character or an underscore, then characters
that continue an identifier. -/
def isPlainIdentifier : List Char → Bool
  | [] => false
  | c :: rest => (Text.isIdentifierStart c || c == '_') && rest.all Text.isIdentifierContinue

/-- A name between backticks, as a raw identifier if it is not a plain one. -/
def shownName (name : String) : String :=
  if isPlainIdentifier name.toList then "`" ++ name ++ "`" else "`r#" ++ name ++ "`"

/-- What can be wrong with an escape in a text. -/
inductive EscapeFault where
  | nonHexDigit
  | missingBrace
  | noDigits
  | missingBraceEnd
  | notACodePoint
  | notUtf8
  | unicodeInByte
  | unknown
  deriving DecidableEq, Repr

def EscapeFault.message : EscapeFault → String
  | nonHexDigit => "Non-hex digit found"
  | missingBrace => "Missing \x7b in Unicode escape"
  | noDigits => "Expected 1-6 digits, got 0 digits in Unicode escape"
  | missingBraceEnd => "No \x7d at the end of Unicode escape"
  | notACodePoint => "Not a valid Unicode-escaped character"
  | notUtf8 => "Not a valid byte-escaped Unicode character"
  | unicodeInByte => "Unexpected Unicode escape in byte literal"
  | unknown => "Unknown escape character"

/-- Why a text is refused. -/
inductive ReadError where
  | endOfText
  | unexpectedChar (c : Char)
  | unclosedComment
  | trailingCharacters
  | depthExceeded
  | expectedAttribute
  | expectedAttributeEnd
  | noSuchExtension (name : String)
  | expectedComma
  | expectedColon
  | expectedIdentifier
  | suggestRawIdentifier (word : String)
  | expectedStructName (name : String)
  | expectedNamedStruct (name : String)
  | differentStructName (expected found : String)
  | expectedStruct
  | expectedStructEnd
  | missingField (field owner : String)
  | duplicateField (field owner : String)
  | noSuchVariant (found enumeration : String) (expected : List String)
  | differentLength (expected found : Nat)
  | expectedArray
  | expectedArrayEnd
  | expectedMap
  | expectedMapEnd
  | expectedOption
  | expectedOptionEnd
  | expectedString
  | expectedStringEnd
  | expectedByteString
  | expectedByteLiteral
  | expectedChar
  | invalidEscape (fault : EscapeFault)
  | expectedFloat
  | leadingUnderscore
  | underscoreInFloat
  | notSinglePrecision (found : String)
  | expectedInteger
  | integerOutOfBounds
  | invalidDigit (digit : Char) (base : Nat)
  deriving DecidableEq, Repr

/-- A character between single quotes, escaped if need be. -/
def shownChar (c : Char) : String :=
  String.ofList (Text.singleQuote :: Text.escapeChar [Text.singleQuote] c ++ [Text.singleQuote])

/-- The names that were possible, as the end of a sentence. -/
def alternatives : List String → String
  | [] => "there are no variants"
  | [a] => "expected " ++ shownName a ++ " instead"
  | [a, b] => "expected either " ++ shownName a ++ " or " ++ shownName b ++ " instead"
  | names =>
    "expected one of " ++ ", ".intercalate (names.dropLast.map shownName) ++ ", or "
      ++ shownName (names.getLastD "") ++ " instead"

/-- A number of elements in words. -/
def elementCount : Nat → String
  | 0 => "zero elements"
  | 1 => "one element"
  | n => toString n ++ " elements"

def ReadError.message : ReadError → String
  | endOfText => "Unexpected end of RON"
  | unexpectedChar c => "Unexpected char " ++ shownChar c
  | unclosedComment => "Unclosed block comment"
  | trailingCharacters => "Non-whitespace trailing characters"
  | depthExceeded =>
    "Exceeded recursion limit, try increasing `ron::Options::recursion_limit` and using "
      ++ "`serde_stacker` to protect against a stack overflow"
  | expectedAttribute => "Expected an `#![enable(...)]` attribute"
  | expectedAttributeEnd => "Expected closing `)]` after the enable attribute"
  | noSuchExtension name => "No RON extension named " ++ shownName name
  | expectedComma => "Expected comma"
  | expectedColon => "Expected colon"
  | expectedIdentifier => "Expected identifier"
  | suggestRawIdentifier word =>
    "Found invalid std identifier "
      ++ String.ofList (Text.quoted [Text.doubleQuote] word.toList)
      ++ ", try the raw identifier `r#" ++ word ++ "` instead"
  | expectedStructName name =>
    "Expected the explicit struct name " ++ shownName name ++ ", but none was found"
  | expectedNamedStruct name => "Expected opening `(` for struct " ++ shownName name
  | differentStructName expected found =>
    "Expected struct " ++ shownName expected ++ " but found " ++ shownName found
  | expectedStruct => "Expected opening `(`"
  | expectedStructEnd => "Expected closing `)`"
  | missingField field owner =>
    "Unexpected missing field named " ++ shownName field ++ " in " ++ shownName owner
  | duplicateField field owner =>
    "Unexpected duplicate field named " ++ shownName field ++ " in " ++ shownName owner
  | noSuchVariant found enumeration expected =>
    "Unexpected variant named " ++ shownName found ++ " in enum " ++ shownName enumeration
      ++ ", " ++ alternatives expected
  | differentLength expected found =>
    "Expected an array of length " ++ toString expected ++ " but found " ++ elementCount found
      ++ " instead"
  | expectedArray => "Expected opening `[`"
  | expectedArrayEnd => "Expected closing `]`"
  | expectedMap => "Expected opening `\x7b`"
  | expectedMapEnd => "Expected closing `\x7d`"
  | expectedOption => "Expected option"
  | expectedOptionEnd => "Expected closing `)`"
  | expectedString => "Expected string"
  | expectedStringEnd => "Expected end of string"
  | expectedByteString => "Expected byte string"
  | expectedByteLiteral => "Expected byte literal"
  | expectedChar => "Expected char"
  | invalidEscape fault => fault.message
  | expectedFloat => "Expected float"
  | leadingUnderscore => "Unexpected leading underscore in a number"
  | underscoreInFloat => "Unexpected underscore in float"
  | notSinglePrecision found =>
    "Expected a 32-bit floating point number but found " ++ found ++ " instead"
  | expectedInteger => "Expected integer"
  | integerOutOfBounds => "Integer is out of bounds"
  | invalidDigit digit base =>
    "Invalid digit " ++ shownChar digit ++ " for base " ++ toString base ++ " integers"

end ShaderGraph.Ron
