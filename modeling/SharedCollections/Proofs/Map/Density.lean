import Mathlib.Data.Set.Finite.Lemmas
import Mathlib.Data.Set.Finite.List
import SharedCollections.Proofs.Map.Geometry
import SharedCollections.Proofs.Map.Policy
/-!
# Tables and the entries in them

One stripe over the budget asks for growth, so under a bad hasher every insert does, however few
entries there are. But a sparse table does not grow, it has its budget doubled; and under the
divisors of the default policy a table is followed by one of little more than twice its size
(`Policy.nextBuckets_le`). So one part of an operation makes a table large only if there are entries
for it (`Part.buckets_le`), and over a run the table keeps in proportion to the most entries that
the map has held. The exception are new hashes for a long chain: they are regenerated in a larger
table, whether the old one is sparse or not.
-/

namespace SharedCollections

namespace Map

/-! ## Usual policies -/

namespace Policy

variable {p : Policy} {entries buckets : Nat}

/-- A policy that is sparse and avoids divisors as the default one does, with a word for a bound. -/
structure Usual (p : Policy) : Prop where
  sparseDivisor : p.sparseDivisor = 4
  avoided : p.avoided = [3, 5, 7]
  maxBuckets_lt : p.maxBuckets < Word.limit

theorem usual_default : default.Usual := ⟨rfl, rfl, by decide⟩

namespace Usual

variable (usual : p.Usual)
include usual

theorem le_of_isSparse_eq_false (dense : p.isSparse entries buckets = false) :
    buckets ≤ 4 * entries + 3 := by
  have enough : ¬entries < buckets / 4 := by simpa [isSparse, usual.sparseDivisor] using dense
  omega

/-- Of five numbers of one parity that follow each other, one is not avoided. -/
theorem exists_avoids_eq_false (n : Nat) : ∃ i < 5, p.avoids (n + 2 * i) = false := by
  have residues : ∀ r < 105, ∃ i < 5,
      (r + 2 * i) % 3 ≠ 0 ∧ (r + 2 * i) % 5 ≠ 0 ∧ (r + 2 * i) % 7 ≠ 0 := by decide
  obtain ⟨i, near, three, five, seven⟩ := residues (n % 105) (Nat.mod_lt _ (by decide))
  refine ⟨i, near, p.avoids_eq_false_iff.mpr ?_⟩
  simp only [usual.avoided, List.forall_mem_cons, List.not_mem_nil, false_implies, implies_true,
    and_true, Nat.dvd_iff_mod_eq_zero]
  omega

theorem nextBuckets_le (buckets : Nat) : (p.nextBuckets buckets).1 ≤ 2 * buckets + 9 := by
  obtain ⟨i, near, free⟩ := usual.exists_avoids_eq_false (2 * buckets + 1)
  have spec := p.grownLen?_spec buckets
  cases found : p.grownLen? buckets with
  | some n =>
    rw [found] at spec
    obtain ⟨⟨-, least⟩, -⟩ := spec
    have le : n ≤ 2 * buckets + 1 + 2 * i := least ⟨by omega, by omega, free⟩
    rw [nextBuckets, found]
    dsimp only
    split <;> dsimp only <;> omega
  | none =>
    rw [found] at spec
    -- the number that is not avoided is no word, and the bound of the policy is one
    have beyond : Word.limit ≤ 2 * buckets + 1 + 2 * i := by
      by_contra word
      have avoided := spec _ (by omega) (by omega) (Nat.not_le.mp word)
      rw [free] at avoided
      cases avoided
    have word := usual.maxBuckets_lt
    rw [nextBuckets, found]
    dsimp only
    omega

end Usual

end Policy

variable {κ ν : Type} {m : Map κ ν}

theorem grownLen_le_of_usual (usual : m.policy.Usual) :
    m.grownLen.1 ≤ 2 * m.table.buckets.size + 9 := by
  have next := usual.nextBuckets_le m.table.buckets.size
  rw [grownLen]
  dsimp only
  split
  · exact max_le next (by omega)
  · exact next

/-- A table that is seen to without new hashes grows only if it is not sparse. -/
theorem isSparse_of_judge {r : Request} (judged : m.judge r = .grow false) :
    m.policy.isSparse m.table.total m.table.buckets.size = false := by
  rw [judge] at judged
  split at judged
  · cases judged
  · split at judged
    · cases judged
    · split at judged
      · cases judged
      · next dense => exact Bool.eq_false_iff.mpr dense

theorem Table.total_lt (t : Table κ ν) : t.total < Word.limit := by
  rw [Table.total, Word.wrapSum_eq]
  exact Nat.mod_lt _ (by decide)

/-! ## Parts -/

namespace Part

variable [DecidableEq κ] (h : m.Sound) (p : Part κ ν)
include h

theorem policy_after : (p.after m).policy = m.policy := by
  cases Life.turn (x := .start m) h p with
  | kept shape | doubled _ shape | grown _ shape => exact congrArg Shape.policy shape
  | cleared shape =>
    rw [shape_cleared] at shape
    exact congrArg Shape.policy shape

theorem rehashes_le_after : m.rehashes ≤ (p.after m).rehashes := by
  cases Life.turn (x := .start m) h p with
  | kept shape | doubled _ shape => exact (congrArg Shape.rehashes shape).ge
  | @grown r regenerate _ _ shape =>
    refine le_of_le_of_eq ?_ (congrArg Shape.rehashes shape).symm
    cases regenerate with
    | true => exact Nat.le_succ _
    | false => exact le_rfl
  | cleared shape =>
    rw [shape_cleared] at shape
    exact (congrArg Shape.rehashes shape).ge

/-- Without new hashes, a part makes a table no larger than the default unless there are entries for
it. -/
theorem buckets_le (usual : m.policy.Usual) (plain : (p.after m).rehashes = m.rehashes) :
    (p.after m).table.buckets.size ≤
      max m.table.buckets.size (max defaultCapacity (8 * m.table.total + 15)) := by
  cases Life.turn (x := .start m) h p with
  | kept shape | doubled _ shape => exact le_max_of_le_left (congrArg Shape.buckets shape).le
  | @grown r regenerate _ judged shape =>
    cases regenerate with
    | true => exact absurd ((congrArg Shape.rehashes shape).symm.trans plain) (Nat.succ_ne_self _)
    | false =>
      have dense := usual.le_of_isSparse_eq_false (isSparse_of_judge judged)
      refine le_max_of_le_right (le_max_of_le_right ?_)
      calc ((grow r : Part κ ν).after m).table.buckets.size
          = m.grownLen.1 := congrArg Shape.buckets shape
        _ ≤ 2 * m.table.buckets.size + 9 := grownLen_le_of_usual usual
        _ ≤ 8 * m.table.total + 15 := by omega
  | cleared shape =>
    rw [shape_cleared] at shape
    refine le_max_of_le_right (le_max_of_le_left ?_)
    exact (congrArg Shape.buckets shape).le

theorem rehashes_le_afterAll (parts : List (Part κ ν)) :
    m.rehashes ≤ (afterAll parts m).rehashes := by
  induction parts generalizing m with
  | nil => exact le_rfl
  | cons p parts ih => exact (rehashes_le_after h p).trans (ih (h.change (p.change m)))

end Part

/-! ## Runs -/

/-- A map that started out as `c` says and has had at most `n` entries so far. Its counts are right
unless there were more entries than a word can count. -/
structure Modest (c : Config) (n : Nat) (m : Map κ ν) : Prop where
  sound : m.Sound
  policy : m.policy = c.policy
  length_le : m.entries.length ≤ n
  counted : m.Counted ∨ Word.limit ≤ n
  buckets_le : m.table.buckets.size ≤ max c.initialBuckets (max defaultCapacity (8 * n + 15))

namespace Modest

variable {c : Config} {n : Nat}

theorem ofConfig (ok : c.check = .ok ()) (hasher : Hasher κ) (salts : Nat → UInt64) (n : Nat) :
    (ofConfig c hasher salts : Map κ ν).Modest c n where
  sound := sound_ofConfig ok
  policy := rfl
  length_le := by rw [entries_ofConfig]; exact Nat.zero_le n
  counted := .inl counted_ofConfig
  buckets_le := le_max_of_le_left (Table.size_buckets_empty _ _ _).le

theorem total_le (h : m.Modest c n) : m.table.total ≤ n := by
  rcases h.counted with counted | many
  · rw [counted.total_eq h.sound]
    exact (Nat.mod_le _ _).trans h.length_le
  · exact m.table.total_lt.le.trans many

variable [DecidableEq κ]

theorem part (h : m.Modest c n) (usual : c.policy.Usual) {p : Part κ ν}
    (length_le : (p.after m).entries.length ≤ n) (plain : (p.after m).rehashes = m.rehashes) :
    (p.after m).Modest c n where
  sound := h.sound.change (p.change m)
  policy := (p.policy_after h.sound).trans h.policy
  length_le := length_le
  counted := by
    rcases h.counted with counted | many
    · rcases Nat.lt_or_ge (p.after m).entries.length Word.limit with fits | many
      · exact .inl (counted.change_of_length_lt h.sound (p.change m) fits)
      · exact .inr (many.trans length_le)
    · exact .inr many
  buckets_le := by
    have total := h.total_le
    refine (p.buckets_le h.sound (h.policy ▸ usual) plain).trans (max_le h.buckets_le ?_)
    exact le_max_of_le_right (max_le_max_left _ (by omega))

theorem parts (h : m.Modest c n) (usual : c.policy.Usual) {parts : List (Part κ ν)}
    (length_le : ∀ before, before <+: parts → (Part.afterAll before m).entries.length ≤ n)
    (plain : (Part.afterAll parts m).rehashes = m.rehashes) :
    (Part.afterAll parts m).Modest c n := by
  induction parts generalizing m with
  | nil => exact h
  | cons p parts ih =>
    have sound := h.sound.change (p.change m)
    -- rehashes are never taken back, so none of the parts has regenerated the hashes
    have first := p.rehashes_le_after h.sound
    have rest := Part.rehashes_le_afterAll sound parts
    have same : (p.after m).rehashes = m.rehashes := le_antisymm (rest.trans plain.le) first
    refine ih (h.part usual ?_ same) (fun before le => ?_) (plain.trans same.symm)
    · exact length_le [p] (List.prefix_append [p] parts)
    · exact length_le (p :: before) (List.cons_prefix_cons.mpr ⟨rfl, le⟩)

end Modest

variable [DecidableEq κ]

/-- The largest number of entries that a map has while `parts` come. -/
theorem exists_isGreatest_length (m : Map κ ν) (parts : List (Part κ ν)) :
    ∃ n, IsGreatest {n | ∃ before, before <+: parts ∧ (Part.afterAll before m).pairs.length = n}
      n := by
  have finite : {before | before <+: parts}.Finite :=
    (List.finite_toSet parts.inits).subset fun before le => (List.mem_inits before parts).mpr le
  obtain ⟨most, le, greatest⟩ := Set.exists_max_image _
    (fun before => (Part.afterAll before m).pairs.length) finite ⟨[], List.nil_prefix⟩
  refine ⟨_, ⟨most, le, rfl⟩, ?_⟩
  rintro _ ⟨before, le', rfl⟩
  exact greatest before le'

/-- Whatever the hasher, the table of a map is no larger than it was at first, than the default, or
than eight buckets for each of the most entries that the map has held, and fifteen. This is so after
any parts of operations that have not regenerated the hashes, and all uses of a map come in such
parts. -/
theorem buckets_le_entries {c : Config} (ok : c.check = .ok ()) (usual : c.policy.Usual)
    (hasher : Hasher κ) (salts : Nat → UInt64) {parts : List (Part κ ν)}
    (plain : (Part.afterAll parts (ofConfig c hasher salts)).rehashes = 0) :
    let start : Map κ ν := ofConfig c hasher salts
    let m := Part.afterAll parts start
    (∃ n, IsGreatest {n | ∃ before, before <+: parts ∧
        (Part.afterAll before start).pairs.length = n} n ∧
      m.table.buckets.size ≤ max c.initialBuckets (max defaultCapacity (8 * n + 15))) ∧
    ∀ (α : Type) (a : Action (Map κ ν) α), Use a →
      ∃ more, a.after m = Part.afterAll (parts ++ more) start := by
  intro start m
  constructor
  · obtain ⟨n, greatest⟩ := exists_isGreatest_length start parts
    have length_le : ∀ before, before <+: parts →
        (Part.afterAll before start).entries.length ≤ n := by
      intro before le
      rw [← List.length_map Entry.pair]
      exact greatest.2 ⟨before, le, rfl⟩
    have modest : m.Modest c n :=
      (Modest.ofConfig ok hasher salts n).parts usual length_le plain
    exact ⟨n, greatest, modest.buckets_le⟩
  · intro α a use
    obtain ⟨more, eq⟩ := use.inParts m
    exact ⟨more, eq.trans (Part.afterAll_append parts more start).symm⟩

/-- Eight keys in one chain have had the table grow three times, and then it is sparse. -/
theorem buckets_le_entries_constant : ∃ parts : List (Part Nat Nat),
    let start : Map Nat Nat := ofConfig ⟨1, 1, true, .default, false⟩ ⟨"constant", fun _ _ => 0⟩
      fun _ => 0
    (Part.afterAll parts start).pairs.length = 8 ∧ (Part.afterAll parts start).budget = 10 ∧
      ∃ n, IsGreatest {n | ∃ before, before <+: parts ∧
        (Part.afterAll before start).pairs.length = n} n ∧ 47 ≤ max 1 (max 31 (8 * n + 15)) := by
  let add (k : Nat) : Part Nat Nat := .insert k 0 false
  let parts : List (Part Nat Nat) :=
    [add 1, add 2, .grow ⟨0, none⟩, add 3, add 4, add 5, add 6, .grow ⟨1, none⟩, add 7,
      .grow ⟨2, none⟩, add 8, .grow ⟨3, none⟩]
  have plain : (Part.afterAll parts (ofConfig ⟨1, 1, true, .default, false⟩
    ⟨"constant", fun _ _ => 0⟩ fun _ => 0)).rehashes = 0 := by decide +kernel
  obtain ⟨n, greatest, le⟩ := (buckets_le_entries rfl Policy.usual_default _ _ plain).1
  have buckets : (Part.afterAll parts (ofConfig ⟨1, 1, true, .default, false⟩
    ⟨"constant", fun _ _ => 0⟩ fun _ => 0)).table.buckets.size = 47 := by decide +kernel
  rw [buckets] at le
  exact ⟨parts, by decide +kernel, by decide +kernel, n, greatest, le⟩

end Map

end SharedCollections
