import SharedCollections.Map.Basic
import SharedCollections.Map.Update
import Mathlib.Data.List.Nodup
import Mathlib.Algebra.BigOperators.Group.Finset.Basic
/-!
# Well-placed tables

In a table that a map builds, every entry stands in the bucket that its hash asks for, no key stands
in it twice, and there is a lock and a bucket to begin with (`Table.Placed`). The count of a stripe
is meant to be its load, the number of entries whose bucket belongs to it (`Table.load`).

A change of one chain leaves the rest of the table as it is, before and behind that chain
(`Table.exists_entries_eq`). All that a change does to the entries as a whole follows from that.
-/

namespace SharedCollections.Map

variable {κ ν : Type}

namespace Table

variable (t : Table κ ν)

/-! ## Chains -/

theorem chain_eq_getElem {b : Nat} (h : b < t.buckets.size) : t.chain b = t.buckets[b] := by
  simp [chain, h]

theorem chain_of_size_le {b : Nat} (h : t.buckets.size ≤ b) : t.chain b = [] := by
  simp [chain, h]

theorem bucketOf_lt (h : 0 < t.buckets.size) (hash : UInt64) : t.bucketOf hash < t.buckets.size :=
  Nat.mod_lt _ h

theorem stripeOf_lt (h : 0 < t.locks.size) (bucket : Nat) : t.stripeOf bucket < t.locks.size :=
  Nat.mod_lt _ h

theorem mem_entries {e : Entry κ ν} : e ∈ t.entries ↔ ∃ b, e ∈ t.chain b := by
  simp only [entries, List.mem_flatten, List.mem_iff_getElem (l := t.buckets.toList),
    Array.length_toList, Array.getElem_toList]
  constructor
  · rintro ⟨_, ⟨b, hb, rfl⟩, he⟩
    exact ⟨b, (t.chain_eq_getElem hb).symm ▸ he⟩
  · rintro ⟨b, he⟩
    by_cases hb : b < t.buckets.size
    · exact ⟨_, ⟨b, hb, rfl⟩, t.chain_eq_getElem hb ▸ he⟩
    · simp [t.chain_of_size_le (not_lt.mp hb)] at he

section

variable (b : Nat) (f : List (Entry κ ν) → List (Entry κ ν))

@[simp] theorem size_modifyChain : (t.modifyChain b f).buckets.size = t.buckets.size := by
  simp [modifyChain]

@[simp] theorem locks_modifyChain : (t.modifyChain b f).locks = t.locks := rfl

@[simp] theorem counts_modifyChain : (t.modifyChain b f).counts = t.counts := rfl

@[simp] theorem salt_modifyChain : (t.modifyChain b f).salt = t.salt := rfl

@[simp] theorem bucketOf_modifyChain (hash : UInt64) :
    (t.modifyChain b f).bucketOf hash = t.bucketOf hash := by
  simp [bucketOf]

@[simp] theorem stripeOf_modifyChain (bucket : Nat) :
    (t.modifyChain b f).stripeOf bucket = t.stripeOf bucket := rfl

@[simp] theorem count_modifyChain (s : Nat) : (t.modifyChain b f).count s = t.count s := rfl

variable {b}

theorem chain_modifyChain (h : b < t.buckets.size) (b' : Nat) :
    (t.modifyChain b f).chain b' = if b = b' then f (t.chain b) else t.chain b' := by
  simp only [chain, modifyChain, Array.getD_eq_getD_getElem?, Array.getElem?_modify]
  split
  · subst b'
    simp [h]
  · rfl

end

/-- What comes before and behind a chain stays when the chain is changed. -/
theorem exists_entries_eq {b : Nat} (h : b < t.buckets.size) :
    ∃ before behind, t.entries = before ++ t.chain b ++ behind ∧
      ∀ f, (t.modifyChain b f).entries = before ++ f (t.chain b) ++ behind := by
  have hb : b < t.buckets.toList.length := by simpa using h
  refine ⟨(t.buckets.toList.take b).flatten, (t.buckets.toList.drop (b + 1)).flatten, ?_, ?_⟩
  · conv_lhs => rw [entries, ← List.take_append_drop b t.buckets.toList,
      List.drop_eq_getElem_cons hb]
    simp [t.chain_eq_getElem h]
  · intro f
    rw [entries, modifyChain, Array.toList_modify, List.modify_eq_take_cons_drop hb]
    simp [t.chain_eq_getElem h]

theorem entries_cons_perm (t : Table κ ν) {b : Nat} (hb : b < t.buckets.size) (e : Entry κ ν) :
    (t.modifyChain b (e :: ·)).entries.Perm (e :: t.entries) := by
  obtain ⟨before, behind, h₀, h₁⟩ := t.exists_entries_eq hb
  rw [h₁, h₀, List.append_assoc, List.append_assoc]
  exact List.perm_middle

/-! ## Empty tables -/

section

variable (buckets : Nat) (locks : Array Nat) (salt : Option UInt64)

@[simp] theorem size_buckets_empty :
    (empty buckets locks salt : Table κ ν).buckets.size = buckets := by
  simp [empty]

@[simp] theorem locks_empty : (empty buckets locks salt : Table κ ν).locks = locks := rfl

@[simp] theorem salt_empty : (empty buckets locks salt : Table κ ν).salt = salt := rfl

@[simp] theorem size_counts_empty :
    (empty buckets locks salt : Table κ ν).counts.size = locks.size := by
  simp [empty]

@[simp] theorem entries_empty : (empty buckets locks salt : Table κ ν).entries = [] := by
  simp [empty, entries]

@[simp] theorem chain_empty (b : Nat) : (empty buckets locks salt : Table κ ν).chain b = [] := by
  simp only [empty, chain, Array.getD_eq_getD_getElem?, Array.getElem?_replicate]
  split <;> rfl

@[simp] theorem count_empty (s : Nat) : (empty buckets locks salt : Table κ ν).count s = 0 := by
  simp only [empty, count, Array.getD_eq_getD_getElem?, Array.getElem?_replicate]
  split <;> rfl

end

/-! ## Counts -/

section

variable (s n : Nat)

@[simp] theorem buckets_setCount : (t.setCount s n).buckets = t.buckets := rfl

@[simp] theorem locks_setCount : (t.setCount s n).locks = t.locks := rfl

@[simp] theorem salt_setCount : (t.setCount s n).salt = t.salt := rfl

@[simp] theorem entries_setCount : (t.setCount s n).entries = t.entries := rfl

@[simp] theorem chain_setCount (b : Nat) : (t.setCount s n).chain b = t.chain b := rfl

@[simp] theorem bucketOf_setCount (hash : UInt64) :
    (t.setCount s n).bucketOf hash = t.bucketOf hash := rfl

@[simp] theorem stripeOf_setCount (bucket : Nat) :
    (t.setCount s n).stripeOf bucket = t.stripeOf bucket := rfl

@[simp] theorem size_counts_setCount : (t.setCount s n).counts.size = t.counts.size := by
  simp [setCount]

variable {s}

theorem count_setCount (h : s < t.counts.size) (s' : Nat) :
    (t.setCount s n).count s' = if s = s' then n else t.count s' := by
  simp only [count, setCount, Array.getD_eq_getD_getElem?, Array.getElem?_setIfInBounds]
  split <;> simp_all

end

theorem increment?_eq (s : Nat) :
    t.increment? s =
      if t.count s < Word.top then .ok (t.count s + 1, t.setCount s (t.count s + 1))
      else .error (.stripeOverflow s) := by
  rw [increment?, Word.add?]
  by_cases h : t.count s < Word.top
  · rw [if_pos h, if_pos (Word.lt_top_iff.mp h)]
  · rw [if_neg h, if_neg (mt Word.lt_top_iff.mpr h)]

/-- The number of entries in the buckets of a stripe. -/
def load (s : Nat) : Nat := t.entries.countP fun e => t.stripeOf (t.bucketOf e.hash) = s

@[simp] theorem load_setCount (s n s' : Nat) : (t.setCount s n).load s' = t.load s' := rfl

/-! ## Well-placed entries -/

/-- A table in which a search finds what there is to be found. -/
structure Placed (hasher : Hasher κ) : Prop where
  buckets_pos : 0 < t.buckets.size
  locks_pos : 0 < t.locks.size
  size_counts : t.counts.size = t.locks.size
  hash_eq : ∀ b, ∀ e ∈ t.chain b, e.hash = hasher.hash t.salt e.key
  bucket_eq : ∀ b, ∀ e ∈ t.chain b, t.bucketOf e.hash = b
  keys_nodup : (t.entries.map Entry.key).Nodup

variable {t} {hasher : Hasher κ}

theorem nodup_map_chain {α : Type} {f : Entry κ ν → α} (h : (t.entries.map f).Nodup) (b : Nat) :
    ((t.chain b).map f).Nodup := by
  by_cases hb : b < t.buckets.size
  · obtain ⟨before, behind, h₀, -⟩ := t.exists_entries_eq hb
    rw [h₀, List.map_append, List.map_append] at h
    exact h.of_append_left.of_append_right
  · simp [t.chain_of_size_le (not_lt.mp hb)]

namespace Placed

theorem empty {buckets : Nat} {locks : Array Nat} {salt : Option UInt64} (hb : 0 < buckets)
    (hl : 0 < locks.size) : (Table.empty buckets locks salt : Table κ ν).Placed hasher :=
  ⟨by simpa using hb, hl, by simp, by simp, by simp, by simp⟩

theorem setCount (h : t.Placed hasher) (s n : Nat) : (t.setCount s n).Placed hasher :=
  ⟨h.buckets_pos, h.locks_pos, by simpa using h.size_counts, h.hash_eq, h.bucket_eq, h.keys_nodup⟩

/-- Changing a chain keeps a table well placed if what is new in the chain belongs there and no key
is repeated. -/
theorem modifyChain (h : t.Placed hasher) {b : Nat} (hb : b < t.buckets.size)
    {f : List (Entry κ ν) → List (Entry κ ν)}
    (belongs : ∀ e ∈ f (t.chain b), e ∈ t.chain b ∨
      e.hash = hasher.hash t.salt e.key ∧ t.bucketOf e.hash = b)
    (nodup : ((t.modifyChain b f).entries.map Entry.key).Nodup) :
    (t.modifyChain b f).Placed hasher := by
  constructor
  case buckets_pos => simpa using h.buckets_pos
  case locks_pos => exact h.locks_pos
  case size_counts => exact h.size_counts
  case keys_nodup => exact nodup
  case hash_eq =>
    intro b' e he
    rw [t.chain_modifyChain f hb] at he
    split at he
    · rcases belongs e he with he | he
      · exact h.hash_eq b e he
      · exact he.1
    · exact h.hash_eq b' e he
  case bucket_eq =>
    intro b' e he
    rw [t.chain_modifyChain f hb] at he
    rw [bucketOf_modifyChain]
    split at he
    · next same =>
      subst b'
      rcases belongs e he with he | he
      · exact h.bucket_eq b e he
      · exact he.2
    · exact h.bucket_eq b' e he

theorem mem_chain_bucketOf (h : t.Placed hasher) {e : Entry κ ν} (he : e ∈ t.entries) :
    e ∈ t.chain (t.bucketOf e.hash) := by
  obtain ⟨b, he⟩ := t.mem_entries.mp he
  rwa [h.bucket_eq b e he]

theorem hash_eq_of_mem (h : t.Placed hasher) {e : Entry κ ν} (he : e ∈ t.entries) :
    e.hash = hasher.hash t.salt e.key :=
  h.hash_eq _ e (h.mem_chain_bucketOf he)

/-- Entries of one key are one entry. -/
theorem eq_of_key_eq (h : t.Placed hasher) {e e' : Entry κ ν} (he : e ∈ t.entries)
    (he' : e' ∈ t.entries) (hk : e.key = e'.key) : e = e' :=
  List.inj_on_of_nodup_map h.keys_nodup he he' hk

/-- A search in the bucket of a key finds the entry of the key and no other. -/
theorem find?_eq_some_iff [DecidableEq κ] (h : t.Placed hasher) {k : κ} {e : Entry κ ν} :
    (t.chain (t.bucketOf (hasher.hash t.salt k))).find? (Entry.isFor (hasher.hash t.salt k) k) =
      some e ↔ e ∈ t.entries ∧ e.key = k := by
  constructor
  · intro found
    have here := List.mem_of_find?_eq_some found
    have := List.find?_some found
    simp only [Entry.isFor, Bool.and_eq_true, beq_iff_eq] at this
    exact ⟨t.mem_entries.mpr ⟨_, here⟩, this.2⟩
  · rintro ⟨he, rfl⟩
    have here := h.mem_chain_bucketOf he
    rw [h.hash_eq_of_mem he] at here
    cases found : (t.chain (t.bucketOf (hasher.hash t.salt e.key))).find?
        (Entry.isFor (hasher.hash t.salt e.key) e.key) with
    | none =>
      have := List.find?_eq_none.mp found e here
      simp [Entry.isFor, h.hash_eq_of_mem he] at this
    | some e' =>
      have here' := List.mem_of_find?_eq_some found
      have := List.find?_some found
      simp only [Entry.isFor, Bool.and_eq_true, beq_iff_eq] at this
      rw [h.eq_of_key_eq (t.mem_entries.mpr ⟨_, here'⟩) he this.2]

theorem stripe_lt (h : t.Placed hasher) (bucket : Nat) : t.stripeOf bucket < t.counts.size :=
  h.size_counts ▸ t.stripeOf_lt h.locks_pos bucket

end Placed

/-! ## Changes of one chain -/

/-- An entry in a chain, with what is before it and behind it. Nothing before it has its number. -/
theorem exists_chain_eq {chain : List (Entry κ ν)} (nodup : (chain.map Entry.id).Nodup)
    {e : Entry κ ν} (he : e ∈ chain) :
    ∃ before behind, chain = before ++ e :: behind ∧ ∀ a ∈ before, (a.id == e.id) = false := by
  obtain ⟨before, behind, rfl⟩ := List.append_of_mem he
  refine ⟨before, behind, rfl, fun a ha => ?_⟩
  rw [List.map_append, List.map_cons, List.nodup_append] at nodup
  exact beq_eq_false_iff_ne.mpr
    (nodup.2.2 a.id (List.mem_map_of_mem ha) e.id List.mem_cons_self)

end Table

section

variable {before behind : List (Entry κ ν)} {e : Entry κ ν}
  (first : ∀ a ∈ before, (a.id == e.id) = false)

include first

theorem eraseP_split :
    (before ++ e :: behind).eraseP (·.id == e.id) = before ++ behind := by
  rw [List.eraseP_append_right _ (fun a ha => by simp [first a ha]),
    List.eraseP_cons_of_pos (by simp)]

theorem replaceFirst_split (new : Entry κ ν) :
    replaceFirst (·.id == e.id) new (before ++ e :: behind) = before ++ new :: behind := by
  induction before with
  | nil => simp [replaceFirst]
  | cons a before ih =>
    rw [List.cons_append, replaceFirst, if_neg (by simp [first a List.mem_cons_self]),
      ih fun x hx => first x (List.mem_cons_of_mem _ hx)]
    rfl

theorem follower?_split : follower? e.id (before ++ e :: behind) = some behind.head? := by
  rw [follower?, List.dropWhile_append_of_pos (fun a ha => by simpa using first a ha)]
  simp

end

end SharedCollections.Map
