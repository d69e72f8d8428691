import SharedCollections.Double
import SharedCollections.Payload
/-!
# Recorded data

What a history records of calls and replies, and how it is written: on one line, without blanks,
with texts and the names of fields in quotes.
-/

namespace SharedCollections.History

/-- A datum without parts. -/
inductive Atom where
  | null
  | flag (b : Bool)
  | int (n : Int)
  | real (x : Double)
  | text (s : String)
deriving DecidableEq, Repr

/-- A whole number. One that is no word, signed or not, is recorded as the double it reads as. -/
def Atom.ofInt (n : Int) : Atom :=
  if -n ≤ Word.limit / 2 ∧ n < Word.limit then .int n else .real (.ofDecimal (n < 0) n.natAbs 0)

/-- A reply as it is recorded, or what takes its place. -/
inductive Datum where
  | atom (a : Atom)
  | list (items : List Datum)
  /-- The fields are in ascending order of their names. -/
  | record (fields : List (String × Datum))
deriving Repr

/-- How a character of a text is written between quotes. -/
def escape (c : Char) : String :=
  match c with
  | '"' => "\\\""
  | '\\' => "\\\\"
  | '\n' => "\\n"
  | '\r' => "\\r"
  | '\t' => "\\t"
  | '\x08' => "\\b"
  | '\x0c' => "\\f"
  | c =>
    if c.toNat < 32 then
      let digits := Nat.toDigits 16 c.toNat
      "\\u" ++ String.ofList (List.replicate (4 - digits.length) '0' ++ digits)
    else c.toString

def quote (s : String) : String := "\"" ++ String.join (s.toList.map escape) ++ "\""

/-- Writes a positive number that is `0.digits * 10 ^ point`: with a point among zeros and digits if
it is of middling size, and otherwise with a power of ten. -/
def decimalText (digits : List Char) (point : Int) : String :=
  let zeros (n : Int) : List Char := List.replicate n.toNat '0'
  if point ≤ -5 ∨ 16 < point then
    let fraction := if digits.length = 1 then [] else '.' :: digits.tail
    let sign := if 0 < point then "+" else ""
    String.ofList (digits.take 1 ++ fraction) ++ "e" ++ sign ++ toString (point - 1)
  else if point ≤ 0 then "0." ++ String.ofList (zeros (-point) ++ digits)
  else if point < digits.length then
    String.ofList (digits.take point.toNat ++ '.' :: digits.drop point.toNat)
  else String.ofList (digits ++ zeros (point - digits.length)) ++ ".0"

def realText (x : Double) : String :=
  let (n, k) := x.shortest
  let digits := Nat.toDigits 10 n
  (if x.negative then "-" else "")
    ++ if n = 0 then "0.0" else decimalText digits (digits.length + k)

def Atom.toText : Atom → String
  | null => "null"
  | flag b => toString b
  | int n => toString n
  | real x => realText x
  | text s => quote s

namespace Datum

def null : Datum := .atom .null

def flag (b : Bool) : Datum := .atom (.flag b)

instance : Inhabited Datum := ⟨null⟩

mutual

def decEq : (a b : Datum) → Decidable (a = b)
  | .atom a, .atom b => if h : a = b then isTrue (h ▸ rfl) else isFalse (by simp [h])
  | .list xs, .list ys =>
    match decEqAll xs ys with
    | isTrue h => isTrue (h ▸ rfl)
    | isFalse h => isFalse (by simp [h])
  | .record xs, .record ys =>
    match decEqFields xs ys with
    | isTrue h => isTrue (h ▸ rfl)
    | isFalse h => isFalse (by simp [h])
  | .atom _, .list _ | .atom _, .record _ | .list _, .atom _ | .list _, .record _
  | .record _, .atom _ | .record _, .list _ => isFalse (by simp)

def decEqAll : (xs ys : List Datum) → Decidable (xs = ys)
  | [], [] => isTrue rfl
  | x :: xs, y :: ys =>
    match decEq x y, decEqAll xs ys with
    | isTrue h, isTrue hs => isTrue (h ▸ hs ▸ rfl)
    | isFalse h, _ => isFalse (by simp [h])
    | _, isFalse hs => isFalse (by simp [hs])
  | [], _ :: _ | _ :: _, [] => isFalse (by simp)

def decEqFields : (xs ys : List (String × Datum)) → Decidable (xs = ys)
  | [], [] => isTrue rfl
  | (m, x) :: xs, (n, y) :: ys =>
    if hn : m = n then
      match decEq x y, decEqFields xs ys with
      | isTrue h, isTrue hs => isTrue (hn ▸ h ▸ hs ▸ rfl)
      | isFalse h, _ => isFalse (by simp [h])
      | _, isFalse hs => isFalse (by simp [hs])
    else isFalse (by simp [hn])
  | [], _ :: _ | _ :: _, [] => isFalse (by simp)

end

instance : DecidableEq Datum := decEq

mutual

def ofPayload : Payload → Datum
  | .int n => .atom (.int n)
  | .text s => .atom (.text s)
  | .list items => .list (ofPayloads items)

def ofPayloads : List Payload → List Datum
  | [] => []
  | x :: xs => ofPayload x :: ofPayloads xs

end

def ofOption : Option Payload → Datum
  | none => null
  | some v => ofPayload v

mutual

def text : Datum → String
  | .atom a => a.toText
  | .list items => "[" ++ ",".intercalate (textAll items) ++ "]"
  | .record fields => "\x7b" ++ ",".intercalate (textFields fields) ++ "\x7d"

def textAll : List Datum → List String
  | [] => []
  | x :: xs => text x :: textAll xs

def textFields : List (String × Datum) → List String
  | [] => []
  | (name, x) :: fields => (quote name ++ ":" ++ text x) :: textFields fields

end

end Datum

/-- A call as it is written: its name and its arguments. -/
def callText (name : String) (args : List Payload) : String :=
  (Datum.ofPayload (.list (.text name :: args))).text

end SharedCollections.History
