import SharedCollections.Outline.Basic
import SharedCollections.Word
/-!
# Keys and payloads

The values that a session puts into its collections: integers, texts and lists of them, with one
order on them all (integers before texts before lists) and the outline in which they are shown.
-/

namespace SharedCollections

inductive Payload where
  | int (n : Int)
  | text (s : String)
  | list (items : List Payload)
deriving Repr

inductive Key where
  | int (n : Int)
  | text (s : String)
deriving DecidableEq, Repr, Hashable

namespace Payload

mutual

def decEq : (a b : Payload) → Decidable (a = b)
  | .int m, .int n => if h : m = n then isTrue (h ▸ rfl) else isFalse (by simp [h])
  | .text s, .text t => if h : s = t then isTrue (h ▸ rfl) else isFalse (by simp [h])
  | .list xs, .list ys =>
    match decEqAll xs ys with
    | isTrue h => isTrue (h ▸ rfl)
    | isFalse h => isFalse (by simp [h])
  | .int _, .text _ | .int _, .list _ | .text _, .int _ | .text _, .list _ | .list _, .int _
  | .list _, .text _ => isFalse (by simp)

def decEqAll : (xs ys : List Payload) → Decidable (xs = ys)
  | [], [] => isTrue rfl
  | x :: xs, y :: ys =>
    match decEq x y, decEqAll xs ys with
    | isTrue h, isTrue hs => isTrue (h ▸ hs ▸ rfl)
    | isFalse h, _ => isFalse (by simp [h])
    | _, isFalse hs => isFalse (by simp [hs])
  | [], _ :: _ | _ :: _, [] => isFalse (by simp)

end

instance : DecidableEq Payload := decEq

mutual

def hash : Payload → UInt64
  | .int n => mixHash 0 (Hashable.hash n)
  | .text s => mixHash 1 (Hashable.hash s)
  | .list xs => mixHash 2 (hashAll xs)

def hashAll : List Payload → UInt64
  | [] => 0
  | x :: xs => mixHash (hash x) (hashAll xs)

end

instance : Hashable Payload := ⟨hash⟩

mutual

def cmp : Payload → Payload → Ordering
  | .int m, .int n => compare m n
  | .text s, .text t => compare s t
  | .list xs, .list ys => cmpAll xs ys
  | .int _, _ | .text _, .list _ => .lt
  | _, .int _ | .list _, .text _ => .gt

/-- Lists are compared item by item; a beginning comes before the whole. -/
def cmpAll : List Payload → List Payload → Ordering
  | [], [] => .eq
  | [], _ :: _ => .lt
  | _ :: _, [] => .gt
  | x :: xs, y :: ys => (cmp x y).then (cmpAll xs ys)

end

mutual

def outline : Payload → Outline
  | .int n => .atom (toString n)
  | .text s => .quoted s
  | .list items => .list (outlineAll items)

def outlineAll : List Payload → List Outline
  | [] => []
  | x :: xs => outline x :: outlineAll xs

end

instance : Outlined Payload := ⟨outline⟩

/-- The sum of two signed words, wrapped into their range. -/
def wrapAdd (a b : Int) : Int := (a + b).bmod Word.limit

/-- Adds `n` to an integer and leaves any other value alone. -/
def plus (n : Int) : Payload → Payload
  | .int m => .int (wrapAdd m n)
  | v => v

end Payload

namespace Key

def toPayload : Key → Payload
  | int n => .int n
  | text s => .text s

def cmp (a b : Key) : Ordering := a.toPayload.cmp b.toPayload

instance : Ord Key := ⟨cmp⟩

@[simp] theorem compare_int (m n : Int) : compare (int m) (int n) = compare m n := rfl

@[simp] theorem compare_text (s t : String) : compare (text s) (text t) = compare s t := rfl

@[simp] theorem compare_int_text (m : Int) (t : String) : compare (int m) (text t) = .lt := rfl

@[simp] theorem compare_text_int (s : String) (n : Int) : compare (text s) (int n) = .gt := rfl

instance : Std.LawfulEqOrd Key where
  compare_self {a} := by cases a <;> simp
  eq_of_compare {a b} := by cases a <;> cases b <;> simp

instance : Std.TransOrd Key where
  eq_swap {a b} := by
    cases a <;> cases b <;> simp <;> exact Std.OrientedCmp.eq_swap
  isLE_trans {a b c} := by
    cases a <;> cases b <;> cases c <;> simp <;> exact Std.TransCmp.isLE_trans

instance : Outlined Key := ⟨fun k => k.toPayload.outline⟩

end Key

/-- The order of entries: by key, then by value. -/
def Payload.cmpEntry (a b : Key × Payload) : Ordering := (a.1.cmp b.1).then (a.2.cmp b.2)

/-- Sorts by `cmp`, keeping the order of equals. -/
def sortBy {α : Type} (cmp : α → α → Ordering) (xs : List α) : List α :=
  xs.mergeSort fun a b => (cmp a b).isLE

end SharedCollections
