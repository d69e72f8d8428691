import SharedCollections.Proofs.Map.Life
/-!
# The geometry of tables

How many buckets and locks a table can have, and when it stops growing. The bounds hold at every
moment of a life (`Shape.Within`). A table that was capped has as many buckets as its policy allows
and a budget that no count can exceed, so no insert asks for growth on its account any more; only a
request for new hashes can have it replaced, by a table of the same size (`Life.Settled`).
-/

namespace SharedCollections

namespace Map

/-! ## Sizes that follow -/

namespace Policy

variable (p : Policy)

theorem nextBuckets_cases (buckets : Nat) :
    (∃ n, p.nextBuckets buckets = (n, false) ∧ 2 * buckets < n ∧ n ≤ p.maxBuckets) ∨
      p.nextBuckets buckets = (p.maxBuckets, true) := by
  cases next : p.grownLen? buckets with
  | none =>
    right
    simp only [nextBuckets, next]
  | some n =>
    by_cases fits : n ≤ p.maxBuckets
    · have eq : p.nextBuckets buckets = (n, false) := by simp only [nextBuckets, next, if_pos fits]
      exact .inl ⟨n, eq, p.lt_of_nextBuckets eq, fits⟩
    · right
      simp only [nextBuckets, next, if_neg fits]

/-- A table that has as many buckets as the policy allows is capped. -/
theorem nextBuckets_of_le {buckets : Nat} (full : p.maxBuckets ≤ buckets) :
    p.nextBuckets buckets = (p.maxBuckets, true) := by
  rcases p.nextBuckets_cases buckets with ⟨n, -, more, fits⟩ | capped
  · omega
  · exact capped

theorem nextLocks_le (locks : Nat) (growing : Bool) :
    p.nextLocks locks growing ≤ max locks (2 * p.maxLocks) := by
  rw [nextLocks]
  split
  · next grows =>
    have := grows.2
    simp only [Word.satMul]
    omega
  · exact le_max_left _ _

end Policy

variable {κ ν : Type} {m : Map κ ν}

theorem grownLen_cases (m : Map κ ν) :
    (2 * m.table.buckets.size < m.grownLen.1 ∧ m.grownLen.1 ≤ m.policy.maxBuckets ∧
        m.grownLen.2 = false) ∨
      m.grownLen = (max m.policy.maxBuckets m.table.buckets.size, true) := by
  rcases m.policy.nextBuckets_cases m.table.buckets.size with ⟨n, next, more, fits⟩ | capped
  · left
    rw [grownLen, next]
    exact ⟨more, fits, rfl⟩
  · right
    rw [grownLen, capped]
    rfl

theorem le_grownLen (m : Map κ ν) : m.table.buckets.size ≤ m.grownLen.1 := by
  rcases m.grownLen_cases with ⟨more, -, -⟩ | capped
  · omega
  · rw [capped]
    exact le_max_right _ _

theorem grownLen_le (m : Map κ ν) :
    m.grownLen.1 ≤ max m.policy.maxBuckets m.table.buckets.size := by
  rcases m.grownLen_cases with ⟨-, fits, -⟩ | capped
  · exact le_max_of_le_left fits
  · exact le_of_eq (congrArg Prod.fst capped)

theorem size_grownLocks (m : Map κ ν) : m.grownLocks.1.size =
    max m.lockCount (m.policy.nextLocks m.lockCount m.growLocks) :=
  size_extendLocks _ _ _

/-! ## Bounds -/

/-- The bounds of a map that started out as `c` says. -/
structure Shape.Within (c : Config) (s : Shape) : Prop where
  policy : s.policy = c.policy
  growLocks : s.growLocks = c.growLocks
  buckets_le : s.buckets ≤ max c.initialBuckets (max c.policy.maxBuckets defaultCapacity)
  locks_le : s.locks ≤ max c.locks (2 * c.policy.maxLocks)
  locks_eq : c.growLocks = false → s.locks = c.locks

theorem within_ofConfig (c : Config) (hasher : Hasher κ) (salts : Nat → UInt64) :
    (ofConfig c hasher salts : Map κ ν).shape.Within c := by
  have buckets : (ofConfig c hasher salts : Map κ ν).shape.buckets = c.initialBuckets :=
    Table.size_buckets_empty _ _ _
  have locks : (ofConfig c hasher salts : Map κ ν).shape.locks = c.locks := by
    change (extendLocks #[] c.locks 0).1.size = _
    rw [size_extendLocks]
    exact max_eq_right (Nat.zero_le _)
  refine ⟨rfl, rfl, ?_, ?_, fun _ => locks⟩
  · rw [buckets]
    exact le_max_left _ _
  · rw [locks]
    exact le_max_left _ _

theorem within_grownShape {c : Config} (h : m.shape.Within c) (regenerate : Bool) :
    (m.grownShape regenerate).Within c := by
  have policy : m.policy = c.policy := h.policy
  have next := m.policy.nextLocks_le m.lockCount m.growLocks
  have sizes := size_grownLocks m
  have max_locks : max m.lockCount (2 * m.policy.maxLocks) ≤ max c.locks (2 * c.policy.maxLocks) :=
    max_le h.locks_le (policy ▸ le_max_right _ _)
  refine ⟨h.policy, h.growLocks, ?_, ?_, ?_⟩
  · refine m.grownLen_le.trans (max_le ?_ h.buckets_le)
    exact policy ▸ le_max_of_le_right (le_max_left _ _)
  · change m.grownLocks.1.size ≤ _
    rw [sizes]
    exact max_le h.locks_le (next.trans max_locks)
  · intro fixed
    have growLocks : m.growLocks = false := h.growLocks.trans fixed
    have same : m.policy.nextLocks m.lockCount m.growLocks = m.lockCount := by
      rw [growLocks]
      exact if_neg nofun
    change m.grownLocks.1.size = _
    rw [sizes, same, max_self]
    exact h.locks_eq fixed

namespace Life

variable {x y z : Life κ ν} {p : Part κ ν} {c : Config}

theorem within_of_turn (h : x.map.shape.Within c) (turn : Turn x p y) : y.map.shape.Within c := by
  cases turn with
  | kept shape => rwa [shape]
  | doubled _ shape =>
    rw [shape]
    exact ⟨h.policy, h.growLocks, h.buckets_le, h.locks_le, h.locks_eq⟩
  | grown _ shape =>
    rw [shape]
    exact within_grownShape h _
  | cleared shape =>
    rw [shape, shape_cleared]
    exact ⟨h.policy, h.growLocks, le_max_of_le_right (le_max_right _ _), h.locks_le, h.locks_eq⟩

theorem locks_le_of_turn (turn : Turn x p y) : x.map.shape.locks ≤ y.map.shape.locks := by
  cases turn with
  | kept shape | doubled _ shape => exact (congrArg Shape.locks shape).ge
  | grown _ shape =>
    rw [shape]
    exact (le_max_left _ _).trans_eq (size_grownLocks _).symm
  | cleared shape =>
    rw [shape, shape_cleared]

/-- Only a clear makes a table smaller. -/
theorem buckets_le_of_turn (turn : Turn x p y) (uncleared : p ≠ .clear) :
    x.map.shape.buckets ≤ y.map.shape.buckets := by
  cases turn with
  | kept shape | doubled _ shape => exact (congrArg Shape.buckets shape).ge
  | grown _ shape =>
    rw [shape]
    exact le_grownLen _
  | cleared => exact absurd rfl uncleared

/-- A table that is not capped is more than twice as large as the one before. -/
theorem two_mul_lt_of_turn {r : Request} (turn : Turn x (.grow r) y)
    (resized : y.map.generation ≠ x.map.generation) (uncapped : x.map.grownLen.2 = false) :
    2 * x.map.table.buckets.size < y.map.table.buckets.size := by
  cases turn with
  | kept shape | doubled _ shape => exact absurd (congrArg Shape.generation shape) resized
  | grown _ shape =>
    have buckets : y.map.table.buckets.size = x.map.grownLen.1 := congrArg Shape.buckets shape
    rw [buckets]
    rcases x.map.grownLen_cases with ⟨more, -, -⟩ | capped
    · exact more
    · rw [capped] at uncapped
      cases uncapped

/-! ## Capped tables -/

/-- The table is as large as it may be, and no count exceeds the budget; whoever asks for growth of
it asks for new hashes. -/
structure Settled (x : Life κ ν) : Prop where
  budget : x.map.budget = Word.top
  full : x.map.policy.maxBuckets ≤ x.map.table.buckets.size
  asked : ∀ r ∈ x.asked, r.generation = x.map.generation → r.rehash.isSome = true

namespace Settled

variable {r : Request}

theorem grownLen_eq (h : x.Settled) : x.map.grownLen = (x.map.table.buckets.size, true) := by
  rw [grownLen, x.map.policy.nextBuckets_of_le h.full]
  exact congrArg (·, true) (max_eq_right h.full)

/-- A table that was installed by a capped call is settled. -/
theorem of_capped (orderly : x.Orderly) (turn : Turn x (.grow r) y)
    (resized : y.map.generation ≠ x.map.generation) (capped : x.map.grownLen.2 = true) :
    y.Settled := by
  cases turn with
  | kept shape | doubled _ shape => exact absurd (congrArg Shape.generation shape) resized
  | @grown _ regenerate _ _ shape asked =>
    have len : x.map.grownLen = (max x.map.policy.maxBuckets x.map.table.buckets.size, true) := by
      rcases x.map.grownLen_cases with ⟨-, -, uncapped⟩ | len
      · cases capped.symm.trans uncapped
      · exact len
    constructor
    case budget =>
      have budget : y.map.budget = x.map.grownBudget := congrArg Shape.budget shape
      rw [budget, grownBudget, if_pos capped]
    case full =>
      have policy : y.map.policy = x.map.policy := congrArg Shape.policy shape
      have buckets : y.map.table.buckets.size = x.map.grownLen.1 := congrArg Shape.buckets shape
      rw [policy, buckets, len]
      exact le_max_left _ _
    case asked =>
      have generation : y.map.generation = x.map.generation + 1 := congrArg Shape.generation shape
      intro s hs here
      have old := orderly.generation_le s (asked ▸ hs)
      omega

/-- A request that is seen to on a settled table is too late, or has new hashes made. -/
theorem judge_eq (h : x.Settled) (orderly : x.Orderly) (asked : r ∈ x.asked) :
    x.map.judge r = .late ∨ x.map.judge r = .grow true := by
  by_cases current : r.rehash = some x.map.rehashes
  · exact .inr (judge_eq_grow_true.mpr current)
  · refine .inl (judge_eq_late.mpr ⟨current, fun here => current ?_⟩)
    -- whoever asks for growth of this table asks for new hashes, with a count that is current
    obtain ⟨n, rehash⟩ := Option.isSome_iff_exists.mp (h.asked r asked here)
    rw [rehash, orderly.rehash_eq r asked here n rehash]

/-- A settled table stays until it is cleared, but for the hashes. -/
theorem of_turn (h : x.Settled) (orderly : x.Orderly) (may : x.Allows p) (uncleared : p ≠ .clear)
    (turn : Turn x p y) :
    y.Settled ∧ y.map.table.buckets.size = x.map.table.buckets.size ∧
      y.map.generation + x.regenerations = x.map.generation + y.regenerations := by
  cases turn with
  | kept shape asked regenerations =>
    have budget : y.map.budget = x.map.budget := congrArg Shape.budget shape
    have policy : y.map.policy = x.map.policy := congrArg Shape.policy shape
    have buckets : y.map.table.buckets.size = x.map.table.buckets.size :=
      congrArg Shape.buckets shape
    have generation : y.map.generation = x.map.generation := congrArg Shape.generation shape
    refine ⟨⟨budget.trans h.budget, ?_, ?_⟩, buckets, ?_⟩
    · rw [policy, buckets]
      exact h.full
    · intro s hs here
      rcases asked s hs with old | new
      · exact h.asked s old (here.trans generation)
      · by_contra plain
        -- no count exceeds the largest word
        have below := new.budget (Option.not_isSome_iff_eq_none.mp plain)
        rw [h.budget] at below
        exact absurd below (lt_irrefl _)
    · rw [generation, regenerations]
  | doubled judged =>
    rcases h.judge_eq orderly may with late | regenerate
    · cases judged.symm.trans late
    · cases judged.symm.trans regenerate
  | @grown s regenerate _ judged shape asked regenerations =>
    obtain rfl : regenerate = true := by
      rcases h.judge_eq orderly may with late | regenerates
      · cases judged.symm.trans late
      · exact Verdict.grow.inj (judged.symm.trans regenerates)
    have generation : y.map.generation = x.map.generation + 1 := congrArg Shape.generation shape
    have buckets : y.map.table.buckets.size = x.map.grownLen.1 := congrArg Shape.buckets shape
    have resized : y.map.generation ≠ x.map.generation := generation ▸ Nat.succ_ne_self _
    have capped : x.map.grownLen.2 = true := congrArg Prod.snd h.grownLen_eq
    refine ⟨of_capped orderly (.grown judged shape asked regenerations) resized capped, ?_, ?_⟩
    · rw [buckets, h.grownLen_eq]
    · rw [generation, regenerations, if_pos rfl]
      omega
  | cleared => exact absurd rfl uncleared

end Settled

/-! ## The geometry of a life -/

variable [DecidableEq κ] {P : Part κ ν → Prop}

namespace LeadsBy

theorem within (h : LeadsBy P x y) (orderly : x.Orderly) (within : x.map.shape.Within c) :
    y.map.shape.Within c := by
  induction h with
  | refl => exact within
  | step h _ may ih => exact within_of_turn ih (turn (h.orderly orderly).sound _)

theorem settled (h : LeadsBy (· ≠ .clear) x y) (orderly : x.Orderly) (settled : x.Settled) :
    y.Settled ∧ y.map.table.buckets.size = x.map.table.buckets.size ∧
      y.map.generation + x.regenerations = x.map.generation + y.regenerations := by
  induction h with
  | refl => exact ⟨settled, rfl, rfl⟩
  | step h uncleared may ih =>
    obtain ⟨settled, buckets, tables⟩ := ih
    have now := h.orderly orderly
    obtain ⟨settled', buckets', tables'⟩ :=
      settled.of_turn now may uncleared (turn now.sound _)
    refine ⟨settled', buckets'.trans buckets, ?_⟩
    omega

end LeadsBy

/-- Buckets, locks and the budget keep within their bounds at every moment of a life. Locks are only
added, and only a clear takes buckets away. A call for growth that installs a table makes it more
than twice as large; or the table is capped, and until the next clear it keeps its size and no
insert asks for growth of it, but for the one set of new hashes in a life. Operations that run to
their ends are parts of a life. -/
theorem geometry (ok : c.check = .ok ()) (hasher : Hasher κ) (salts : Nat → UInt64)
    (lived : Leads (start (ofConfig c hasher salts)) x) :
    (1 ≤ x.map.table.buckets.size ∧ x.map.table.buckets.size ≤
      max c.initialBuckets (max c.policy.maxBuckets defaultCapacity)) ∧
    (1 ≤ x.map.lockCount ∧ x.map.lockCount ≤ max c.locks (2 * c.policy.maxLocks) ∧
      (c.growLocks = false → x.map.lockCount = c.locks)) ∧
    1 ≤ x.map.budget ∧
    (∀ p, x.Allows p → x.map.lockCount ≤ (x.move p).map.lockCount ∧
      ((x.move p).map.table.buckets.size < x.map.table.buckets.size → p = .clear)) ∧
    (∀ r ∈ x.asked, (x.move (.grow r)).map.generation ≠ x.map.generation →
      (x.map.grownLen.2 = false →
        2 * x.map.table.buckets.size + 1 ≤ (x.move (.grow r)).map.table.buckets.size) ∧
      (x.map.grownLen.2 = true → ∀ y, LeadsBy (· ≠ .clear) (x.move (.grow r)) y →
        y.map.budget = Word.top ∧
        y.map.table.buckets.size = (x.move (.grow r)).map.table.buckets.size ∧
        y.map.generation + (x.move (.grow r)).regenerations =
          (x.move (.grow r)).map.generation + y.regenerations ∧
        y.regenerations ≤ 1)) ∧
    ∀ (α : Type) (a : Action (Map κ ν) α), Use a → ∃ y, x.Leads y ∧ y.map = a.after x.map := by
  have start : (start (ofConfig c hasher salts : Map κ ν)).Orderly :=
    orderly_ofConfig ok hasher salts
  have orderly := lived.orderly start
  have within := lived.within start (within_ofConfig c hasher salts)
  refine ⟨⟨orderly.sound.placed.buckets_pos, within.buckets_le⟩,
    ⟨orderly.sound.placed.locks_pos, within.locks_le, within.locks_eq⟩,
    orderly.sound.budget_pos, ?_, ?_, fun α a use => exists_leads_of_use use x⟩
  · intro p may
    have turn := turn orderly.sound p
    refine ⟨locks_le_of_turn turn, fun fewer => ?_⟩
    by_contra uncleared
    exact absurd (buckets_le_of_turn turn uncleared) (Nat.not_le.mpr fewer)
  · intro r asked resized
    have turn := turn orderly.sound (.grow r)
    have after := orderly.move (p := .grow r) asked
    constructor
    · exact two_mul_lt_of_turn turn resized
    · intro capped y lived'
      obtain ⟨settled, buckets, tables⟩ :=
        lived'.settled after (.of_capped orderly turn resized capped)
      exact ⟨settled.budget, buckets, tables, (lived'.orderly after).regenerations_le_one⟩

/-- A table that is capped at two buckets stays with them. -/
theorem geometry_capped_two : ∃ x : Life Nat Nat, x.map.pairs.length = 3 ∧
    x.map.generation = 1 ∧ x.map.budget = Word.top ∧ x.map.table.buckets.size = 2 := by
  let policy : Policy := { Policy.default with maxBuckets := 2 }
  let x₀ : Life Nat Nat :=
    start (ofConfig ⟨1, 1, true, policy, true⟩ ⟨"identity", fun _ k => UInt64.ofNat k⟩ fun _ => 0)
  let x₁ := x₀.move (.insert 1 5 false)
  let x₂ := x₁.move (.insert 2 6 false)
  let x₃ := x₂.move (.grow ⟨0, none⟩)
  let x₄ := x₃.move (.insert 3 7 false)
  have h₁ : x₀.Leads x₁ := .step .refl trivial (p := .insert 1 5 false) trivial
  have h₂ : x₀.Leads x₂ := h₁.step trivial (p := .insert 2 6 false) trivial
  have asked : (⟨0, none⟩ : Request) ∈ x₂.asked := by decide +kernel
  have h₄ : LeadsBy (· ≠ .clear) x₃ x₄ := .step .refl nofun (p := .insert 3 7 false) trivial
  obtain ⟨-, -, -, -, growth, -⟩ := geometry rfl _ _ h₂
  obtain ⟨-, capped⟩ := growth ⟨0, none⟩ asked (by decide +kernel)
  obtain ⟨budget, buckets, -, -⟩ := capped (by decide +kernel) x₄ h₄
  have two : (x₂.move (.grow ⟨0, none⟩)).map.table.buckets.size = 2 := by decide +kernel
  have three : x₄.map.pairs.length = 3 := by decide +kernel
  have once : x₄.map.generation = 1 := by decide +kernel
  exact ⟨x₄, three, once, budget, buckets.trans two⟩

end Life

end Map

end SharedCollections
