/-!
# Machine words

Counters, sizes and cursors are natural numbers kept below `Word.limit`. Each operation says in its
name what happens at the limit: it is refused (`add?`, `mul?`), it saturates (`satMul`), or it wraps
(`wrapAdd`, `wrapPred`).
-/

namespace SharedCollections.Word

/-- How many values a word can hold. -/
def limit : Nat := 0x10000000000000000

/-- The largest word. -/
def top : Nat := limit - 1

def add? (a b : Nat) : Option Nat := if a + b < limit then some (a + b) else none

def mul? (a b : Nat) : Option Nat := if a * b < limit then some (a * b) else none

def satMul (a b : Nat) : Nat := min (a * b) top

def wrapAdd (a b : Nat) : Nat := (a + b) % limit

/-- Takes one from `a`; zero wraps round to the largest word. -/
def wrapPred (a : Nat) : Nat := if a = 0 then top else a - 1

/-- The sum of `xs` modulo `limit`. -/
def wrapSum (xs : List Nat) : Nat := xs.foldl wrapAdd 0

theorem top_lt_limit : top < limit := by decide

theorem lt_top_iff {a : Nat} : a < top ↔ a + 1 < limit := by
  simp only [top, limit]; omega

theorem add?_eq_some {a b c : Nat} : add? a b = some c ↔ a + b < limit ∧ a + b = c := by
  by_cases h : a + b < limit <;> simp [add?, h]

theorem mul?_eq_some {a b c : Nat} : mul? a b = some c ↔ a * b < limit ∧ a * b = c := by
  by_cases h : a * b < limit <;> simp [mul?, h]

theorem satMul_le_top (a b : Nat) : satMul a b ≤ top := Nat.min_le_right _ _

theorem wrapAdd_lt (a b : Nat) : wrapAdd a b < limit := Nat.mod_lt _ (by decide)

theorem wrapAdd_of_lt {a b : Nat} (h : a + b < limit) : wrapAdd a b = a + b := Nat.mod_eq_of_lt h

@[simp] theorem wrapSum_nil : wrapSum [] = 0 := rfl

private theorem foldl_wrapAdd (a : Nat) (xs : List Nat) (h : a < limit) :
    xs.foldl wrapAdd a = (a + xs.foldr (· + ·) 0) % limit := by
  induction xs generalizing a with
  | nil => simp [Nat.mod_eq_of_lt h]
  | cons x xs ih =>
    rw [List.foldl_cons, ih _ (wrapAdd_lt a x), wrapAdd, List.foldr_cons, Nat.mod_add_mod,
      Nat.add_assoc]

theorem wrapSum_eq (xs : List Nat) : wrapSum xs = xs.foldr (· + ·) 0 % limit := by
  rw [wrapSum, foldl_wrapAdd 0 xs (by decide), Nat.zero_add]

end SharedCollections.Word
