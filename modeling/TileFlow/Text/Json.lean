import TileFlow.Text.Hex

/-!
# Documents in JSON

Documents of numbers, truth values, texts, lists and records, and their written form over
several lines: one item or field a line, two spaces deeper for each level, and nothing between
the brackets of an empty list. Records keep the order of their fields.

## Main definitions

* `Json`: a document.
* `Json.pretty`: its written form.
-/

namespace TileFlow

/-- A document. -/
inductive Json where
  | number (n : Nat)
  | integer (n : Int)
  | bool (b : Bool)
  | text (s : String)
  | list (items : List Json)
  | record (fields : List (String × Json))

namespace Json

/-- How a character of a text is written. -/
def escape (c : Char) : List Char :=
  if c = '"' then ['\\', '"']
  else if c = '\\' then ['\\', '\\']
  else if c = '\x08' then ['\\', 'b']
  else if c = '\t' then ['\\', 't']
  else if c = '\n' then ['\\', 'n']
  else if c = '\x0c' then ['\\', 'f']
  else if c = '\r' then ['\\', 'r']
  else if c.toNat < 0x20 then '\\' :: 'u' :: (Text.hexPadded 4 c.toNat).toList
  else [c]

/-- A text between quotes. -/
def quote (s : String) : String :=
  String.ofList ('"' :: (s.toList.flatMap escape ++ ['"']))

/-- A line break and the spaces of a level. -/
def newline (level : Nat) : String :=
  "\n" ++ String.ofList (List.replicate (2 * level) ' ')

/-- Items on lines of their own, between brackets. -/
def block (level : Nat) (opening closing : String) (items : List String) : String :=
  if items.isEmpty then opening ++ closing
  else
    opening ++ newline (level + 1) ++ ("," ++ newline (level + 1)).intercalate items ++
      newline level ++ closing

mutual

/-- The written form of a document at a level. -/
def prettyAt (level : Nat) : Json → String
  | .number n => toString n
  | .integer n => toString n
  | .bool b => if b then "true" else "false"
  | .text s => quote s
  | .list items => block level "[" "]" (prettyItems (level + 1) items)
  | .record fields => block level "\x7b" "\x7d" (prettyFields (level + 1) fields)

/-- The written forms of items at a level. -/
def prettyItems (level : Nat) : List Json → List String
  | [] => []
  | item :: rest => item.prettyAt level :: prettyItems level rest

/-- The written forms of fields at a level. -/
def prettyFields (level : Nat) : List (String × Json) → List String
  | [] => []
  | (key, value) :: rest =>
    (quote key ++ ": " ++ value.prettyAt level) :: prettyFields level rest

end

/-- The written form of a document. -/
def pretty (document : Json) : String :=
  document.prettyAt 0

end Json

end TileFlow
