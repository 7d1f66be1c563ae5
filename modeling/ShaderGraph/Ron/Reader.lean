import ShaderGraph.Ron.Error

/-
Readers of RON text.

A reader takes the text that lies before it and gives a value and the rest, or an
error. It also knows the extensions that the text has switched on and how many
levels of nesting are still allowed; both only change for what is nested.
-/
namespace ShaderGraph.Ron

/-- The extensions that a text can switch on. -/
structure Extensions where
  implicitSome : Bool
  unwrapNewtypes : Bool
  unwrapVariantNewtypes : Bool
  explicitStructNames : Bool
  deriving DecidableEq, Repr

namespace Extensions

def none : Extensions := ⟨false, false, false, false⟩

/-- The extensions with the one of the given name added. -/
def enable? (e : Extensions) (name : String) : Option Extensions :=
  if name = "implicit_some" then some { e with implicitSome := true }
  else if name = "unwrap_newtypes" then some { e with unwrapNewtypes := true }
  else if name = "unwrap_variant_newtypes" then some { e with unwrapVariantNewtypes := true }
  else if name = "explicit_struct_names" then some { e with explicitStructNames := true }
  else Option.none

end Extensions

/-- What a reader knows besides the text. -/
structure Scope where
  extensions : Extensions
  depth : Nat
  deriving DecidableEq, Repr

def Reader (α : Type) : Type := Scope → List Char → Except ReadError (α × List Char)

namespace Reader

variable {α β : Type}

protected def pure (a : α) : Reader α := fun _ text => .ok (a, text)

protected def bind (r : Reader α) (next : α → Reader β) : Reader β := fun scope text =>
  match r scope text with
  | .ok (a, rest) => next a scope rest
  | .error e => .error e

instance : Monad Reader where
  pure := Reader.pure
  bind := Reader.bind

theorem pure_apply (a : α) (scope : Scope) (text : List Char) :
    (pure a : Reader α) scope text = .ok (a, text) := rfl

theorem bind_apply (r : Reader α) (next : α → Reader β) (scope : Scope) (text : List Char) :
    (r >>= next) scope text =
      match r scope text with
      | .ok (a, rest) => next a scope rest
      | .error e => .error e := rfl

def fail (e : ReadError) : Reader α := fun _ _ => .error e

def remaining : Reader (List Char) := fun _ text => .ok (text, text)

def setRemaining (text : List Char) : Reader Unit := fun _ _ => .ok ((), text)

def extensions : Reader Extensions := fun scope text => .ok (scope.extensions, text)

/-- Reads what is nested one level deeper. -/
def nested (r : Reader α) : Reader α := fun scope text =>
  match scope.depth with
  | 0 => .error .depthExceeded
  | depth + 1 => r { scope with depth } text

/-- A step on the text alone. -/
def onText (f : List Char → Except ReadError (α × List Char)) : Reader α := fun _ text => f text

/-- Reads if it can; what it cannot read stays. -/
def optional (r : Reader α) : Reader (Option α) := fun scope text =>
  match r scope text with
  | .ok (a, rest) => .ok (some a, rest)
  | .error _ => .ok (none, text)

/-! ## Characters and words -/

/-- The next character, which stays. -/
def peek? : Reader (Option Char) := fun _ text => .ok (text.head?, text)

/-- The next character, which stays; there must be one. -/
def peek : Reader Char := fun _ text =>
  match text with
  | [] => .error .endOfText
  | c :: _ => .ok (c, text)

def next : Reader Char := fun _ text =>
  match text with
  | [] => .error .endOfText
  | c :: rest => .ok (c, rest)

def accept (c : Char) : Reader Bool := fun _ text =>
  match text with
  | [] => .ok (false, [])
  | d :: rest => if d = c then .ok (true, rest) else .ok (false, d :: rest)

def expect (c : Char) (e : ReadError) : Reader Unit := do
  if ← accept c then pure () else fail e

def after? : List Char → List Char → Option (List Char)
  | [], text => some text
  | c :: beginning, d :: text => if c = d then after? beginning text else none
  | _ :: _, [] => none

def startsWith (beginning : String) (text : List Char) : Bool :=
  (after? beginning.toList text).isSome

def acceptText (beginning : String) : Reader Bool := fun _ text =>
  match after? beginning.toList text with
  | some rest => .ok (true, rest)
  | none => .ok (false, text)

def continuesIdentifier : List Char → Bool
  | [] => false
  | c :: _ => Text.isIdentifierContinue c

/-- The rest after a word that no identifier character follows. -/
def afterWord? (word : String) (text : List Char) : Option (List Char) :=
  match after? word.toList text with
  | some rest => if continuesIdentifier rest then none else some rest
  | none => none

def acceptWord (word : String) : Reader Bool := fun _ text =>
  match afterWord? word text with
  | some rest => .ok (true, rest)
  | none => .ok (false, text)

/-! ## Blanks and comments -/

/-- A character that may stand between tokens. -/
def isSpace (c : Char) : Bool :=
  c ∈ [' ', '\t', '\n', '\r', '\x0B', '\x0C', '\u0085', '\u200E', '\u200F', '\u2028', '\u2029']

/-- Where a walk over blanks stands: between comments, in a line comment, or in a
block comment with `depth` further ones around it. -/
inductive Trivia where
  | between
  | line
  | block (depth : Nat)

/-- The rest after blanks and comments. Block comments nest. -/
def skipTrivia : Trivia → List Char → Except ReadError (List Char)
  | .between, [] => .ok []
  | .between, ['/'] => .error .endOfText
  | .between, '/' :: '/' :: rest => skipTrivia .line rest
  | .between, '/' :: '*' :: rest => skipTrivia (.block 0) rest
  | .between, '/' :: c :: _ => .error (.unexpectedChar c)
  | .between, c :: rest => if isSpace c then skipTrivia .between rest else .ok (c :: rest)
  | .line, [] => .ok []
  | .line, '\n' :: rest => skipTrivia .between rest
  | .line, _ :: rest => skipTrivia .line rest
  | .block _, [] => .error .unclosedComment
  | .block depth, '/' :: '*' :: rest => skipTrivia (.block (depth + 1)) rest
  | .block 0, '*' :: '/' :: rest => skipTrivia .between rest
  | .block (depth + 1), '*' :: '/' :: rest => skipTrivia (.block depth) rest
  | .block depth, _ :: rest => skipTrivia (.block depth) rest

def blanks : Reader Unit := fun _ text =>
  match skipTrivia .between text with
  | .ok rest => .ok ((), rest)
  | .error e => .error e

/-- Takes a comma, if one comes next after blanks, and the blanks around it. -/
def comma : Reader Bool := do
  blanks
  if ← accept ',' then do
    blanks
    pure true
  else pure false

/-! ## Lists -/

/-- Another element follows. After an element without a comma only the closing
character may follow. -/
def anotherElement (close : Char) (hadComma : Bool) : Reader Bool := do
  blanks
  if (← peek?) = some close then pure false
  else if hadComma then pure true
  else fail .expectedComma

/-- Reads elements up to the closing character, which stays. A text of `n`
characters has at most `n` commas, so `n + 1` rounds are enough. -/
def elementsWithin (close : Char) (element : α → Reader α) : Nat → Bool → α → Reader α
  | 0, _, _ => fail .endOfText
  | rounds + 1, hadComma, a => do
    if ← anotherElement close hadComma then do
      let a ← element a
      let hadComma ← comma
      elementsWithin close element rounds hadComma a
    else pure a

/-- Reads elements, separated by commas, up to the closing character, which stays;
each element is read on top of what those before it gave. -/
def elements (close : Char) (start : α) (element : α → Reader α) : Reader α := fun scope text =>
  elementsWithin close element (text.length + 1) true start scope text

end Reader

end ShaderGraph.Ron
