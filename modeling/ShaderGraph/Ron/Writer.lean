import ShaderGraph.Binary32.Text
import ShaderGraph.OrderedMap
import ShaderGraph.Text.Escape

/-
Writing RON text.

A writer gives the text of a value at a level of nesting. Records, lists and maps
put each part on a line of its own, indented by four blanks a level and followed by
a comma; everything else stays on one line.
-/
namespace ShaderGraph.Ron

/-- The text of a value at a level of nesting. -/
def Writer : Type := Nat → List Char

namespace Writer

variable {α : Type}

def indent (level : Nat) : List Char := List.replicate (4 * level) ' '

def plain (text : String) : Writer := fun _ => text.toList

/-- A string in double quotes. Both kinds of quotes are escaped in it. -/
def string (text : String) : Writer := fun _ =>
  Text.quoted [Text.singleQuote, Text.doubleQuote] text.toList

def float (v : Binary32) : Writer := plain v.positional

/-- Parts on lines of their own between two brackets; without parts the brackets
stand together. -/
def block (opening closing : Char) (parts : List Writer) : Writer := fun level =>
  match parts with
  | [] => [opening, closing]
  | _ =>
    let lines := parts.flatMap fun part => indent (level + 1) ++ part (level + 1) ++ [',', '\n']
    opening :: '\n' :: lines ++ indent level ++ [closing]

def field (name : String) (value : Writer) : Writer := fun level =>
  name.toList ++ ':' :: ' ' :: value level

def record (fields : List (String × Writer)) : Writer :=
  block '(' ')' (fields.map fun (name, value) => field name value)

/-- A field that is only written if it has a value. -/
def ifSome (name : String) (value : Option α) (write : α → Writer) : List (String × Writer) :=
  match value with
  | some a => [(name, fun level => "Some(".toList ++ write a level ++ [')'])]
  | none => []

def list (items : List Writer) : Writer := block '[' ']' items

def map (write : α → Writer) (m : OrderedMap String α) : Writer :=
  block '{' '}' (m.entries.map fun (key, value) => fun level =>
    string key level ++ ':' :: ' ' :: write value level)

/-- Numbers in parentheses. -/
def tuple (items : List Binary32) : Writer :=
  plain ("(" ++ ", ".intercalate (items.map Binary32.positional) ++ ")")

def variant (name : String) (payload : Writer) : Writer := fun level =>
  name.toList ++ payload level

/-- A variant with one value in parentheses. -/
def wrapped (name : String) (value : Writer) : Writer := fun level =>
  name.toList ++ '(' :: value level ++ [')']

def document (w : Writer) : String := String.ofList (w 0)

end Writer

end ShaderGraph.Ron
