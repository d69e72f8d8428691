import Mathlib.Order.Bounds.Basic
import SharedCollections.Map.Policy
/-!
# The bucket count that follows

The next bucket count is searched among the odd numbers from one more than twice the present count
on. The search goes on by checked additions (`search_eq`), so it ends with the first number that is
not avoided, or where the next number would be no word. What it finds is the least count that the
policy admits, unless the policy admits none (`search_spec`).
-/

namespace SharedCollections.Map.Policy

variable (p : Policy) {buckets room n : Nat}

/-- Whether a table of `buckets` buckets may be followed by one of `m`. -/
structure Admits (buckets m : Nat) : Prop where
  odd : m % 2 = 1
  grows : 2 * buckets + 1 ≤ m
  fits : m ≤ p.maxBuckets
  free : ∀ d ∈ p.avoided, 1 < d → ¬d ∣ m

theorem avoids_eq_false_iff : p.avoids n = false ↔ ∀ d ∈ p.avoided, 1 < d → ¬d ∣ n := by
  simp [avoids, Nat.dvd_iff_mod_eq_zero]

/-! ## Searching -/

/-- One round of the search: the number at hand is taken unless it is avoided, and the next one is
looked at as long as it is a word. -/
theorem search_eq (word : n < Word.limit) :
    p.search ((Word.top - n) / 2) n =
      if p.avoids n then (Word.add? n 2).bind fun next => p.search ((Word.top - next) / 2) next
      else some n := by
  have top : Word.top + 1 = Word.limit := rfl
  by_cases more : n + 2 < Word.limit
  · have room : (Word.top - n) / 2 = (Word.top - (n + 2)) / 2 + 1 := by omega
    have next : Word.add? n 2 = some (n + 2) := Word.add?_eq_some.mpr ⟨more, rfl⟩
    rw [room, search, next, Option.bind_some]
  · have room : (Word.top - n) / 2 = 0 := by omega
    have next : Word.add? n 2 = none := if_neg more
    rw [room, search, next, Option.bind_none]

/-- A search finds the first number that is not avoided, if there is one in its room. -/
theorem search_spec (room n : Nat) :
    match p.search room n with
    | some m => IsLeast {m | m % 2 = n % 2 ∧ n ≤ m ∧ p.avoids m = false} m ∧ m ≤ n + 2 * room
    | none => ∀ m, m % 2 = n % 2 → n ≤ m → m ≤ n + 2 * room → p.avoids m = true := by
  induction room generalizing n with
  | zero =>
    rw [search]
    cases here : p.avoids n with
    | true =>
      intro m _ ge le
      obtain rfl : m = n := by omega
      exact here
    | false => exact ⟨⟨⟨rfl, le_rfl, here⟩, fun m hm => hm.2.1⟩, le_rfl⟩
  | succ room ih =>
    rw [search]
    cases here : p.avoids n with
    | true =>
      -- a number of the same parity that is not `n` is one that the rest of the search looks at
      have behind : ∀ m, m % 2 = n % 2 → n ≤ m → p.avoids m = false → n + 2 ≤ m := by
        intro m parity ge free
        have other : m ≠ n := by
          rintro rfl
          rw [here] at free
          cases free
        omega
      specialize ih (n + 2)
      rw [if_pos rfl]
      cases found : p.search room (n + 2) with
      | some m =>
        rw [found] at ih
        obtain ⟨⟨⟨parity, ge, free⟩, least⟩, le⟩ := ih
        refine ⟨⟨⟨by omega, by omega, free⟩, ?_⟩, by omega⟩
        rintro k ⟨parity', ge', free'⟩
        exact least ⟨by omega, behind k parity' ge' free', free'⟩
      | none =>
        rw [found] at ih
        intro m parity ge le
        by_contra free
        have ge' := behind m parity ge (Bool.not_eq_true _ ▸ free)
        exact free (ih m (by omega) ge' (by omega))
    | false => exact ⟨⟨⟨rfl, le_rfl, here⟩, fun m hm => hm.2.1⟩, by omega⟩

/-! ## The count that follows -/

/-- Without the bound of the policy, the next count is the least odd word past twice the present one
that is not avoided. -/
theorem grownLen?_spec (buckets : Nat) :
    match p.grownLen? buckets with
    | some n =>
      IsLeast {m | m % 2 = 1 ∧ 2 * buckets + 1 ≤ m ∧ p.avoids m = false} n ∧ n < Word.limit
    | none => ∀ m, m % 2 = 1 → 2 * buckets + 1 ≤ m → m < Word.limit → p.avoids m = true := by
  have top : Word.top + 1 = Word.limit := rfl
  have twice : buckets * 2 + 1 = 2 * buckets + 1 := by omega
  by_cases word : 2 * buckets + 1 < Word.limit
  · have mul : Word.mul? buckets 2 = some (buckets * 2) :=
      Word.mul?_eq_some.mpr ⟨by omega, rfl⟩
    have add : Word.add? (buckets * 2) 1 = some (2 * buckets + 1) :=
      Word.add?_eq_some.mpr ⟨by omega, twice⟩
    have start : p.grownLen? buckets =
        p.search ((Word.top - (2 * buckets + 1)) / 2) (2 * buckets + 1) := by
      simp only [grownLen?, mul, add, Option.bind_eq_bind, Option.bind_some]
    have odd : (2 * buckets + 1) % 2 = 1 := by omega
    have spec := p.search_spec ((Word.top - (2 * buckets + 1)) / 2) (2 * buckets + 1)
    rw [start]
    rw [odd] at spec
    cases found : p.search ((Word.top - (2 * buckets + 1)) / 2) (2 * buckets + 1) with
    | some n =>
      rw [found] at spec
      exact ⟨spec.1, by omega⟩
    | none =>
      rw [found] at spec
      exact fun m parity ge le => spec m parity ge (by omega)
  · have none : p.grownLen? buckets = none := by
      rw [grownLen?, Option.bind_eq_bind, Option.bind_eq_none_iff]
      intro twice' mul
      obtain ⟨-, rfl⟩ := Word.mul?_eq_some.mp mul
      rw [Option.bind_eq_none_iff]
      intro odd add
      obtain ⟨fits, -⟩ := Word.add?_eq_some.mp add
      omega
    rw [none]
    exact fun m _ ge le => absurd (ge.trans_lt le) word

/-- The next bucket count, for a policy whose bound is a word. If the policy admits a count, the
least one follows and is not capped; otherwise the bound follows, and is. The search looks at words
only: it goes on by checked additions, and what it finds is a word. -/
theorem nextBuckets_exact {p : Policy} (word : p.maxBuckets < Word.limit) (buckets : Nat) :
    ((∃ m, p.Admits buckets m) →
      ∃ m, IsLeast {m | p.Admits buckets m} m ∧ p.nextBuckets buckets = (m, false)) ∧
    ((¬∃ m, p.Admits buckets m) → p.nextBuckets buckets = (p.maxBuckets, true)) ∧
    (∀ n, p.grownLen? buckets = some n → n < Word.limit) ∧
    ∀ n < Word.limit, p.search ((Word.top - n) / 2) n =
      if p.avoids n then (Word.add? n 2).bind fun next => p.search ((Word.top - next) / 2) next
      else some n := by
  have spec := p.grownLen?_spec buckets
  cases found : p.grownLen? buckets with
  | some n =>
    rw [found] at spec
    obtain ⟨⟨⟨odd, grows, free⟩, least⟩, small⟩ := spec
    have below : ∀ m, p.Admits buckets m → n ≤ m := fun m h =>
      least ⟨h.odd, h.grows, p.avoids_eq_false_iff.mpr h.free⟩
    refine ⟨?_, ?_, fun _ eq => Option.some.inj eq ▸ small, fun _ => p.search_eq⟩
    · rintro ⟨m, h⟩
      have fits : n ≤ p.maxBuckets := (below m h).trans h.fits
      refine ⟨n, ⟨⟨odd, grows, fits, p.avoids_eq_false_iff.mp free⟩, fun m h => below m h⟩, ?_⟩
      simp only [nextBuckets, found, if_pos fits]
    · intro none
      have beyond : ¬n ≤ p.maxBuckets := fun fits =>
        none ⟨n, odd, grows, fits, p.avoids_eq_false_iff.mp free⟩
      simp only [nextBuckets, found, if_neg beyond]
  | none =>
    rw [found] at spec
    refine ⟨?_, fun _ => ?_, nofun, fun _ => p.search_eq⟩
    · rintro ⟨m, h⟩
      have free := p.avoids_eq_false_iff.mpr h.free
      have avoided := spec m h.odd h.grows (h.fits.trans_lt word)
      rw [free] at avoided
      cases avoided
    · simp only [nextBuckets, found]

/-- Seven is avoided, and behind ten buckets the bound is too low. -/
theorem nextBuckets_exact_nine :
    let p : Policy := { Policy.default with avoided := [0, 1, 2, 7, 7], maxBuckets := 20 }
    p.maxBuckets < Word.limit ∧ p.nextBuckets 3 = (9, false) ∧ p.nextBuckets 10 = (20, true) := by
  intro p
  have word : p.maxBuckets < Word.limit := by decide
  have nine : p.Admits 3 9 := ⟨by decide, by decide, by decide, by decide⟩
  have none : ¬∃ m, p.Admits 10 m := by
    rintro ⟨m, h⟩
    have fits : m ≤ 20 := h.fits
    have grows := h.grows
    omega
  obtain ⟨m, ⟨admitted, least⟩, next⟩ := (nextBuckets_exact word 3).1 ⟨9, nine⟩
  have eq : m = 9 := by
    have le : m ≤ 9 := least nine
    have ge := admitted.grows
    have odd := admitted.odd
    have free := admitted.free 7 (by decide) (by decide)
    omega
  exact ⟨word, eq ▸ next, (nextBuckets_exact word 10).2.1 none⟩

end SharedCollections.Map.Policy
