import ShaderGraph.Enumerated
import ShaderGraph.OrderedMap
import ShaderGraph.Ron.Number

/-
Composite values of RON text: options, lists, maps, tuples, enumerations, records
and values of any shape.

A record is described by its fields, each of which reads into a draft of the
record. Unknown fields are passed over whatever their value, repeated ones are
refused; which fields may be missing is for the reader of the finished draft to
say.
-/
namespace ShaderGraph.Ron.Reader

variable {α β δ : Type}

/-! ## Options, lists, maps and tuples -/

/-- `None`, or a value in `Some(…)`. With implicit options, anything else is the
value itself. -/
def option (value : Reader α) : Reader (Option α) := do
  if ← acceptWord "None" then pure none
  else
    let opened ← do
      if ← acceptWord "Some" then do
        blanks
        accept '('
      else pure false
    if opened then do
      blanks
      let a ← nested value
      discard comma
      expect ')' .expectedOptionEnd
      pure (some a)
    else if (← extensions).implicitSome then some <$> nested value
    else fail .expectedOption

def list (element : Reader α) : Reader (List α) := do
  expect '[' .expectedArray
  let items ← nested <| elements ']' [] fun items => do
    return items ++ [← nested element]
  blanks
  expect ']' .expectedArrayEnd
  pure items

def colonThen (value : Reader α) : Reader α := do
  blanks
  expect ':' .expectedColon
  blanks
  nested value

/-- A map in braces, keyed by strings. A repeated key keeps its first place and
gets the last value. -/
def map (value : Reader α) : Reader (OrderedMap String α) := do
  expect '{' .expectedMap
  let entries ← nested <| elements '}' OrderedMap.empty fun entries => do
    let key ← nested string
    let a ← colonThen value
    return entries.insert key a
  blanks
  expect '}' .expectedMapEnd
  pure entries

/-- The components that are still missing of a tuple of `length` components, each
read like the first. -/
def components (length : Nat) (component : Reader α) :
    Nat → Bool → List α → Reader (List α)
  | 0, _, read => pure read
  | missing + 1, hadComma, read => do
    if ← anotherElement ')' hadComma then do
      let a ← nested component
      let hadComma ← comma
      components length component missing hadComma (read ++ [a])
    else fail (.differentLength length read.length)

/-- A tuple of a fixed length in parentheses; `bare` if these are left to what is
around it. -/
def tuple (length : Nat) (component : Reader α) (bare : Bool) : Reader (List α) := do
  unless bare do expect '(' .expectedStruct
  let items ← nested (components length component length true [])
  blanks
  unless bare do expect ')' .expectedStructEnd
  pure items

/-! ## Enumerations -/

/-- A variant of an enumeration with the given name and variants. -/
def variant (enumeration : String) (variants : List String) : Reader String := do
  blanks
  let name ← nested identifier
  if name ∈ variants then pure name else fail (.noSuchVariant name enumeration variants)

/-- A value of an enumeration: one of its variants, and then what `content` reads
for that variant, all one level deeper. -/
def enumeration (name : String) (variants : List String) (content : String → Reader α) :
    Reader α :=
  nested (variant name variants >>= content)

def word (name : String) (α : Type) [Enumerated α] : Reader α :=
  enumeration name (Enumerated.words α) fun found =>
    match Enumerated.ofWord? α found with
    | some a => pure a
    | none => fail (.noSuchVariant found name (Enumerated.words α))

def payload (value : Reader α) : Reader α := do
  blanks
  expect '(' .expectedStruct
  blanks
  let a ← nested value
  discard comma
  expect ')' .expectedStructEnd
  pure a

/-! ## Values of any shape -/

/-- The rest after an identifier. Unlike `identifier`, a plain one may run on into
a dot, plus or minus, which then belongs to the rest. -/
def afterIdentifier? (text : List Char) : Option (List Char) :=
  if startsQuoted text then none
  else match text, after? "r#".toList text with
    | _, some raw =>
      if (raw.takeWhile isRawIdentifierChar).isEmpty then none
      else some (raw.dropWhile isRawIdentifierChar)
    | c :: rest, none =>
      if Text.isIdentifierStart c || c == '_' then some (rest.dropWhile Text.isIdentifierContinue)
      else none
    | [], none => none

/-- After the opening parenthesis of a value of unknown shape: its items have names. -/
def namesFollow : Reader Bool := fun scope text =>
  match blanks scope text with
  | .error e => .error e
  | .ok ((), inner) =>
    if inner.head? = some ')' then .ok (false, text)
    else
      match afterIdentifier? inner with
      | none => .ok (false, text)
      | some rest =>
        match blanks scope rest with
        | .error e => .error e
        | .ok ((), ':' :: _) => .ok (true, text)
        | .ok ((), ',' :: rest) =>
          match blanks scope rest with
          | .error e => .error e
          | .ok _ => .ok (false, text)
        | .ok _ => .ok (false, text)

/-- The items in parentheses after an identifier or without one; `item` passes over
a nested value. -/
def skipItems (item : Reader Unit) : Reader Unit := do
  expect '(' .expectedStruct
  if ← namesFollow then
    nested <| elements ')' () fun _ => do
      discard (nested identifier)
      colonThen item
  else
    nested <| elements ')' () fun _ => nested item
  blanks
  expect ')' .expectedStructEnd

def valueWords : List String := ["inf", "inff32", "inff64", "NaN", "NaNf32", "NaNf64"]

/-- Takes one of the words if it comes next. -/
def acceptAnyWord : List String → Reader Bool
  | [] => pure false
  | w :: rest => do
    if ← acceptWord w then pure true else acceptAnyWord rest

/-- Passes over a value whose nested values are passed over by `item`. -/
def skipWith (item : Reader Unit) : Reader Unit := do
  if ← acceptAnyWord ["true", "false"] then pure ()
  else if (afterWord? "Some" (← remaining)).isSome then discard (option item)
  else if ← acceptWord "None" then pure ()
  else if ← acceptText "()" then pure ()
  else if ← acceptAnyWord valueWords then pure ()
  else
    match afterIdentifier? (← remaining) with
    | some rest => do
      setRemaining rest
      blanks
      if (← peek?) = some '(' then skipItems item
    | none => do
      let c ← peek
      if c = '(' then skipItems item
      else if c = '[' then discard (list item)
      else if c = '{' then do
        expect '{' .expectedMap
        nested <| elements '}' () fun _ => do
          nested item
          colonThen item
        blanks
        expect '}' .expectedMapEnd
      else if c.isDigit ∨ c = '+' ∨ c = '-' ∨ c = '.' then anyNumber
      else if c = Text.doubleQuote ∨ c = 'r' then discard string
      else if c = 'b' then do
        if ← acceptText "b'" then byteLiteral else byteString
      else if c = Text.singleQuote then discard character
      else fail (.unexpectedChar c)

/-- Passes over a value of any shape, with at most `levels` values inside each
other. -/
def skipWithin : Nat → Reader Unit
  | 0 => fail .depthExceeded
  | levels + 1 => skipWith (skipWithin levels)

/-- Passes over a value of any shape. A nested value is at least one level deeper,
so the depth that is left bounds the levels. -/
def skipValue : Reader Unit := fun scope text => skipWithin (scope.depth + 1) scope text

/-! ## Records -/

/-- A field of a record: its name, whether a draft has it already, and how to read
its value into a draft. -/
structure Field (δ : Type) where
  name : String
  isSet : δ → Bool
  read : δ → Reader δ

/-- The field that reads a value and sets it in the draft. -/
def Field.make (name : String) (get : δ → Option α) (set : δ → α → δ) (value : Reader α) :
    Field δ :=
  ⟨name, fun draft => (get draft).isSome, fun draft => set draft <$> value⟩

/-- The fields of the record `owner`, up to its closing parenthesis. -/
def fieldList (owner : String) (fields : List (Field δ)) (draft : δ) : Reader δ :=
  elements ')' draft fun draft => do
    let key ← nested identifier
    match fields.find? (·.name == key) with
    | none => do
      colonThen skipValue
      pure draft
    | some field =>
      if field.isSet draft then fail (.duplicateField key owner)
      else colonThen (field.read draft)

/-- The value of a field that must not be missing. -/
def required (owner field : String) (value : Option α) : Reader α :=
  match value with
  | some a => pure a
  | none => fail (.missingField field owner)

/-- Takes the name of a record, if one stands before its parenthesis. -/
def recordName (name : String) : Reader Unit := do
  if continuesIdentifier (← remaining) then
    match ← optional identifier with
    | none => fail (.expectedNamedStruct name)
    | some found => if found = name then pure () else fail (.differentStructName name found)
  else if (← extensions).explicitStructNames then fail (.expectedStructName name)

/-- A record with the given name; `finish` makes it from the finished draft. -/
def record (name : String) (fields : List (Field δ)) (draft : δ) (finish : δ → Reader α) :
    Reader α := do
  recordName name
  blanks
  expect '(' (.expectedNamedStruct name)
  let a ← nested (fieldList name fields draft >>= finish)
  blanks
  expect ')' .expectedStructEnd
  pure a

/-- The fields that a variant carries. -/
def variantRecord (name : String) (fields : List (Field δ)) (draft : δ) (finish : δ → Reader α) :
    Reader α := do
  blanks
  expect '(' .expectedStruct
  let a ← nested (fieldList name fields draft >>= finish)
  blanks
  expect ')' .expectedStructEnd
  pure a

/-! ## Documents -/

/-- The levels of nesting that a document may have. -/
def depthLimit : Nat := 128

/-- Takes each of the given texts that comes next, with the blanks after it, and
tells whether all of them came. -/
def acceptAll : List String → Reader Bool
  | [] => pure true
  | text :: rest => do
    let found ← acceptText text
    if found then blanks
    let restFound ← acceptAll rest
    pure (found && restFound)

/-- The names in an attribute, each with the comma after it; `names` bounds their
number. -/
def extensionNames : Nat → Extensions → Reader Extensions
  | 0, _ => fail .endOfText
  | names + 1, enabled => do
    let name ← identifier
    match enabled.enable? name with
    | none => fail (.noSuchExtension name)
    | some enabled => do
      let hadComma ← comma
      let more := continuesIdentifier (← remaining)
      if more then
        if hadComma then extensionNames names enabled else fail .expectedComma
      else pure enabled

/-- The attributes before the value, `attributes` at most. -/
def attributes : Nat → Extensions → Reader Extensions
  | 0, enabled => pure enabled
  | n + 1, enabled => do
    if (← peek?) = some '#' then do
      unless ← acceptAll ["#", "!", "[", "enable", "("] do fail .expectedAttribute
      blanks
      let enabled ← extensionNames ((← remaining).length + 1) enabled
      blanks
      unless ← acceptAll [")", "]"] do fail .expectedAttributeEnd
      blanks
      attributes n enabled
    else pure enabled

/-- Reads a whole document: attributes, one value, and nothing after it. -/
def document (value : Reader α) (text : String) : Except ReadError α :=
  let before : Reader Extensions := do
    blanks
    attributes ((← remaining).length + 1) .none
  let whole : Reader α := do
    let a ← value
    blanks
    if (← peek?).isSome then fail .trailingCharacters else pure a
  match before ⟨.none, depthLimit⟩ text.toList with
  | .error e => .error e
  | .ok (extensions, rest) =>
    match whole ⟨extensions, depthLimit⟩ rest with
    | .error e => .error e
    | .ok (a, _) => .ok a

end ShaderGraph.Ron.Reader
