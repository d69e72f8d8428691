import SharedCollections.Proofs.Map.Table
/-!
# Copying into a new table

Growing a map fills a new table with copies of the entries of the old one. What a table has received
is read off the list of the entries (`Table.Received`): the chain of a bucket is the entries that
belong there, last one first, and each stripe has counted its own. Copying fails only if a stripe
would have to count past the largest word.
-/

namespace SharedCollections.Map

variable {κ ν : Type}

namespace Table

/-! ## Receiving entries -/

/-- `t` is `into` after receiving the entries `es`, in this order. -/
structure Received (into : Table κ ν) (es : List (Entry κ ν)) (t : Table κ ν) : Prop where
  size_buckets : t.buckets.size = into.buckets.size
  locks : t.locks = into.locks
  salt : t.salt = into.salt
  size_counts : t.counts.size = into.counts.size
  chain : ∀ b, t.chain b = (es.filter fun e => into.bucketOf e.hash = b).reverse ++ into.chain b
  entries : t.entries.Perm (es ++ into.entries)
  count : ∀ s, t.count s =
    into.count s + es.countP fun e => into.stripeOf (into.bucketOf e.hash) = s

namespace Received

variable {t₀ t₁ t₂ : Table κ ν} {es es' : List (Entry κ ν)}

theorem bucketOf (h : Received t₀ es t₁) (hash : UInt64) : t₁.bucketOf hash = t₀.bucketOf hash := by
  rw [Table.bucketOf, Table.bucketOf, h.size_buckets]

theorem stripeOf (h : Received t₀ es t₁) (bucket : Nat) :
    t₁.stripeOf bucket = t₀.stripeOf bucket := by
  rw [Table.stripeOf, Table.stripeOf, h.locks]

theorem refl (t : Table κ ν) : Received t [] t :=
  ⟨rfl, rfl, rfl, rfl, fun _ => rfl, .refl _, fun _ => rfl⟩

theorem trans (h : Received t₀ es t₁) (h' : Received t₁ es' t₂) : Received t₀ (es ++ es') t₂ := by
  constructor
  case size_buckets => exact h'.size_buckets.trans h.size_buckets
  case locks => exact h'.locks.trans h.locks
  case salt => exact h'.salt.trans h.salt
  case size_counts => exact h'.size_counts.trans h.size_counts
  case chain =>
    intro b
    rw [h'.chain, h.chain, List.filter_append, List.reverse_append, List.append_assoc]
    simp only [h.bucketOf]
  case entries =>
    calc t₂.entries.Perm (es' ++ t₁.entries) := h'.entries
      _ |>.Perm (es' ++ (es ++ t₀.entries)) := h.entries.append_left es'
      _ |>.Perm (es ++ es' ++ t₀.entries) := by
        rw [← List.append_assoc]
        exact List.perm_append_comm.append_right _
  case count =>
    intro s
    rw [h'.count, h.count, List.countP_append, Nat.add_assoc]
    simp only [h.bucketOf, h.stripeOf]

end Received

/-- What putting an entry into a table comes to. -/
theorem add?_eq (t : Table κ ν) (e : Entry κ ν) :
    t.add? e =
      if t.count (t.stripeOf (t.bucketOf e.hash)) < Word.top then
        .ok ((t.modifyChain (t.bucketOf e.hash) (e :: ·)).setCount
          (t.stripeOf (t.bucketOf e.hash)) (t.count (t.stripeOf (t.bucketOf e.hash)) + 1))
      else .error (.stripeOverflow (t.stripeOf (t.bucketOf e.hash))) := by
  rw [add?, increment?_eq, count_modifyChain]
  split <;> rfl

theorem Received.of_add? {t t' : Table κ ν} {e : Entry κ ν} (hb : 0 < t.buckets.size)
    (hs : t.stripeOf (t.bucketOf e.hash) < t.counts.size) (h : t.add? e = .ok t') :
    Received t [e] t' := by
  have hb' := t.bucketOf_lt hb e.hash
  rw [add?_eq] at h
  split at h
  · obtain rfl := Except.ok.inj h
    constructor
    case size_buckets | size_counts => simp
    case locks | salt => rfl
    case chain =>
      intro b
      rw [chain_setCount, t.chain_modifyChain _ hb']
      by_cases same : t.bucketOf e.hash = b <;> simp [same]
    case entries => exact t.entries_cons_perm hb' e
    case count =>
      intro s
      rw [count_setCount _ _ (by simpa using hs), count_modifyChain]
      by_cases same : t.stripeOf (t.bucketOf e.hash) = s <;> simp [same]
  · simp at h

/-! ## Copies -/

/-- Copies of entries, numbered from `first` on, under other hashes. -/
def copies (hashOf : Entry κ ν → UInt64) : (first : Nat) → List (Entry κ ν) → List (Entry κ ν)
  | _, [] => []
  | first, e :: es => { e with id := first, hash := hashOf e } :: copies hashOf (first + 1) es

section

variable (hashOf : Entry κ ν → UInt64) (first : Nat) (es : List (Entry κ ν))

theorem map_id_copies : (copies hashOf first es).map Entry.id = List.range' first es.length := by
  induction es generalizing first with
  | nil => rfl
  | cons e es ih => simp [copies, ih, List.range'_succ]

theorem map_pair_copies : (copies hashOf first es).map Entry.pair = es.map Entry.pair := by
  induction es generalizing first with
  | nil => rfl
  | cons e es ih => simp [copies, ih, Entry.pair]

theorem map_key_copies : (copies hashOf first es).map Entry.key = es.map Entry.key := by
  have := congrArg (List.map Prod.fst) (map_pair_copies hashOf first es)
  simpa [Entry.pair, Function.comp_def] using this

variable {hashOf first es}

theorem exists_of_mem_copies {c : Entry κ ν} (h : c ∈ copies hashOf first es) :
    ∃ e ∈ es, c.key = e.key ∧ c.value = e.value ∧ c.hash = hashOf e := by
  induction es generalizing first with
  | nil => simp [copies] at h
  | cons e es ih =>
    rcases List.mem_cons.mp h with rfl | h
    · exact ⟨e, List.mem_cons_self, rfl, rfl, rfl⟩
    · obtain ⟨e', he', same⟩ := ih h
      exact ⟨e', List.mem_cons_of_mem _ he', same⟩

end

/-- A table that is copied to has received copies of all entries, unless a stripe of it would have
had to count past the largest word. -/
theorem copyTo_spec (t into : Table κ ν) (hashOf : Entry κ ν → UInt64) (first : Nat)
    (hb : 0 < into.buckets.size) (hl : 0 < into.locks.size)
    (hc : into.counts.size = into.locks.size) :
    match t.copyTo into hashOf first with
    | .ok (t', next) => Received into (copies hashOf first t.entries) t' ∧
        next = first + t.entries.length
    | .error f => ∃ s, f = .stripeOverflow s ∧ Word.top < into.count s +
        t.entries.countP fun e => into.stripeOf (into.bucketOf (hashOf e)) = s := by
  rw [copyTo]
  induction t.entries generalizing into first with
  | nil => exact ⟨.refl into, rfl⟩
  | cons e es ih =>
    have hs : into.stripeOf (into.bucketOf (hashOf e)) < into.counts.size :=
      hc ▸ into.stripeOf_lt hl _
    rw [List.foldlM_cons]
    cases step : into.add? { e with id := first, hash := hashOf e } with
    | error f =>
      simp only [step, bind, Except.bind]
      rw [add?_eq] at step
      split at step
      · simp at step
      · next full =>
        obtain rfl := Except.error.inj step
        refine ⟨_, rfl, ?_⟩
        rw [List.countP_cons_of_pos (by simp)]
        have := not_lt.mp full
        dsimp only at this ⊢
        omega
    | ok t₁ =>
      simp only [step, bind, Except.bind, pure, Except.pure]
      have one := Received.of_add? hb hs step
      have rest := ih t₁ (first + 1) (one.size_buckets ▸ hb) (one.locks ▸ hl)
        (by rw [one.size_counts, one.locks, hc])
      split at rest
      · next t' next h =>
        simp only [bind, Except.bind, pure, Except.pure] at h
        rw [h]
        exact ⟨one.trans rest.1, by rw [rest.2, List.length_cons]; omega⟩
      · next f h =>
        simp only [bind, Except.bind, pure, Except.pure] at h
        rw [h]
        obtain ⟨s, rfl, excess⟩ := rest
        refine ⟨s, rfl, ?_⟩
        simp only [one.count, one.bucketOf, one.stripeOf] at excess
        simp only [List.countP_cons, List.countP_nil] at excess ⊢
        omega

end Table

end SharedCollections.Map
