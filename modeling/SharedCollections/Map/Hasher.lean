import SharedCollections.Payload
/-!
# Hashers

A hasher gives every key a word, with or without a salt. The concrete ones feed a state with words
and bytes: an integer key is fed as one word, a text as its bytes and an end mark, and a salt, if
there is one, before the key.
-/

namespace SharedCollections.Map

structure Hasher (κ : Type) where
  name : String
  hash : Option UInt64 → κ → UInt64

/-- The word of an integer, wrapped. -/
def word (n : Int) : UInt64 := UInt64.ofInt n

/-- The eight bytes of a word, the lowest one first. -/
def bytesOf (w : UInt64) : List UInt8 :=
  (List.range 8).map fun i => (w >>> (UInt64.ofNat (8 * i))).toUInt8

/-- The bytes of a text and the mark that ends it. -/
def textBytes (s : String) : List UInt8 := s.toUTF8.toList ++ [0xFF]

/-- An integer is its own hash; the bytes of a text are shifted in from the right. -/
def plainHash : Key → UInt64
  | .int n => word n
  | .text s => (textBytes s).foldl (fun h b => (h <<< 8) ||| b.toUInt64) 0

/-- The start of the byte-wise hash. -/
def offsetBasis : UInt64 := 0xCBF29CE484222325

/-- Folds bytes into a hash, each by exclusive or and a multiplication. -/
def foldBytes (h : UInt64) (bytes : List UInt8) : UInt64 :=
  bytes.foldl (fun h b => (h ^^^ b.toUInt64) * 0x100000001B3) h

def keyBytes : Key → List UInt8
  | .int n => bytesOf (word n)
  | .text s => textBytes s

def byteHash (start : UInt64) (k : Key) : UInt64 := foldBytes start (keyBytes k)

/-- The byte-wise hash of a key behind a salt. -/
def saltedHash (salt : UInt64) (k : Key) : UInt64 :=
  byteHash (foldBytes offsetBasis (bytesOf salt)) k

namespace Hasher

def identity : Hasher Key := ⟨"identity", fun _ => plainHash⟩

def constant : Hasher Key := ⟨"constant", fun _ _ => 0⟩

def modulo (m : UInt64) : Hasher Key := ⟨"mod", fun _ k => plainHash k % m⟩

def multiplying : Hasher Key := ⟨"mul", fun _ k => plainHash k * 0x9E3779B97F4A7C15⟩

def bytewise : Hasher Key := ⟨"fnv", fun _ => byteHash offsetBasis⟩

/-- The byte-wise hasher that takes the salt into account. -/
def bytewiseSalted : Hasher Key :=
  ⟨"fnv_salt", fun
    | none => byteHash offsetBasis
    | some salt => saltedHash salt⟩

/-- All keys collide until there is a salt. -/
def saltedOnly : Hasher Key :=
  ⟨"salted", fun
    | none => fun _ => 0
    | some salt => saltedHash salt⟩

/-- A hasher of which nothing is known; any function will do. -/
def unspecified : Hasher Key := { bytewiseSalted with name := "random" }

end Hasher

/-- The outline of the way in which a table hashes. -/
def saltOutline (salt : Option UInt64) : Outline :=
  .record "Hashing" [.field "salt" (.option (salt.map fun w => .nat w.toNat))]

end SharedCollections.Map
