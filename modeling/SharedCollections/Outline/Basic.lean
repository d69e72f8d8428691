import SharedCollections.Outline.Marks
/-!
# Outlines

An outline is the shape in which a value is shown to a programmer. `inline` writes it on one line;
`expanded` writes every item of a list, map or record on a line of its own, four blanks deeper than
the brackets around it.
-/

namespace SharedCollections

inductive Outline where
  | atom (text : String)
  | entry (label item : Outline)
  | tagged (name : String) (item : Outline)
  | list (items : List Outline)
  | map (items : List Outline)
  | record (name : String) (items : List Outline)

namespace Outline

def nat (n : Nat) : Outline := .atom (toString n)

def bool (b : Bool) : Outline := .atom (toString b)

def option : Option Outline → Outline
  | none => .atom "None"
  | some o => .tagged "Some" o

def field (name : String) (item : Outline) : Outline := .entry (.atom name) item

mutual

def inline : Outline → String
  | .atom text => text
  | .entry label item => inline label ++ ": " ++ inline item
  | .tagged name item => name ++ "(" ++ inline item ++ ")"
  | .list items => "[" ++ ", ".intercalate (inlineAll items) ++ "]"
  | .map items => "\x7b" ++ ", ".intercalate (inlineAll items) ++ "\x7d"
  | .record name items => name ++ " \x7b " ++ ", ".intercalate (inlineAll items) ++ " \x7d"

def inlineAll : List Outline → List String
  | [] => []
  | o :: os => inline o :: inlineAll os

end

def indent (depth : Nat) : String := String.ofList (List.replicate (4 * depth) ' ')

/-- Writes the lines of a bracketed block; an empty block stays on one line. -/
def block (depth : Nat) (opening closing : String) (lines : List String) : String :=
  match lines with
  | [] => opening ++ closing
  | lines =>
    opening ++ "\n" ++ String.join (lines.map fun line => indent (depth + 1) ++ line ++ ",\n")
      ++ indent depth ++ closing

mutual

def expanded (depth : Nat) : Outline → String
  | .atom text => text
  | .entry label item => expanded depth label ++ ": " ++ expanded depth item
  | .tagged name item => block depth (name ++ "(") ")" [expanded (depth + 1) item]
  | .list items => block depth "[" "]" (expandedAll (depth + 1) items)
  | .map items => block depth "\x7b" "\x7d" (expandedAll (depth + 1) items)
  | .record name items => block depth (name ++ " \x7b") "\x7d" (expandedAll (depth + 1) items)

def expandedAll (depth : Nat) : List Outline → List String
  | [] => []
  | o :: os => expanded depth o :: expandedAll depth os

end

/-- How a character of a text is written between its quotes: a character that would not show as
itself is written as its code point in hexadecimal. -/
def escape (c : Char) : String :=
  match c with
  | '"' => "\\\""
  | '\\' => "\\\\"
  | '\n' => "\\n"
  | '\t' => "\\t"
  | '\r' => "\\r"
  | '\x00' => "\\0"
  | c =>
    if showsAsItself c then c.toString
    else "\\u\x7b" ++ String.ofList (Nat.toDigits 16 c.toNat) ++ "\x7d"

/-- The outline of a quoted text. -/
def quoted (s : String) : Outline :=
  .atom ("\"" ++ String.join (s.toList.map escape) ++ "\"")

end Outline

/-- Values that can be shown to a programmer. -/
class Outlined (α : Type) where
  outline : α → Outline

end SharedCollections
