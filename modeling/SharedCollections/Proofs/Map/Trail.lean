import Mathlib.Data.List.TakeWhile
import SharedCollections.Proofs.Map.Walk
/-!
# Trails

The entries that a cursor has before it in a bucket, if the map stays as it is, are its trail. The
first few of them may have left their chain already; each of those still leads to the next one by
the link it had, and the last one leads back into the chain. So a change never puts an entry on a
trail. It may take one off, when its key is gone from the map, and it may replace one by a new entry
of the same key (`Trail.change`).
-/

namespace SharedCollections

namespace Map

variable {κ ν : Type}

/-- The entries to come in bucket `b` of table `g`. -/
inductive Trail (m : Map κ ν) (g b : Nat) : List (Entry κ ν) → Prop where
  | live {es : List (Entry κ ν)} (suffix : es <:+ (m.tableAt g).chain b) : Trail m g b es
  | left {e : Entry κ ν} {es : List (Entry κ ν)}
      (gone : ∀ a ∈ (m.tableAt g).chain b, a.id ≠ e.id)
      (link : m.unlinked.find? (·.id = e.id) = some ⟨e.id, es.head?⟩) (rest : Trail m g b es) :
      Trail m g b (e :: es)

namespace Trail

variable {m m' : Map κ ν} {g b : Nat} {e : Entry κ ν} {es : List (Entry κ ν)}

theorem tail (t : Trail m g b (e :: es)) : Trail m g b es := by
  cases t with
  | live suffix => exact .live ((List.suffix_cons e es).trans suffix)
  | left _ _ rest => exact rest

/-- The link of an entry on a trail leads to the next one. -/
theorem follower_eq (t : Trail m g b (e :: es)) (h : m.Sound) : m.follower g b e = es.head? := by
  rw [follower]
  cases t with
  | live suffix =>
    obtain ⟨before, eq⟩ := suffix
    have nodup := Table.nodup_map_chain (h.tableAt g).2 b
    rw [← eq, List.map_append, List.map_cons, List.nodup_append] at nodup
    have first : ∀ a ∈ before, (a.id == e.id) = false := fun a ha =>
      beq_eq_false_iff_ne.mpr (nodup.2.2 _ (List.mem_map_of_mem ha) _ List.mem_cons_self)
    rw [← eq, follower?_split first]
  | left gone link rest =>
    have none : follower? e.id ((m.tableAt g).chain b) = none := by
      rw [follower?, List.dropWhile_eq_nil_iff.mpr fun a ha => decide_eq_true (gone a ha)]
    rw [none, link]
    rfl

end Trail

/-! ## Trails under a change -/

variable [DecidableEq κ]

/-- The trail `es` has become `es'` in the map `m'`. -/
structure Carried (m' : Map κ ν) (es es' : List (Entry κ ν)) : Prop where
  head : es'.head? = es.head?
  keys : (es'.map Entry.key).Sublist (es.map Entry.key)
  /-- A key that is lost is gone from the map. -/
  lost : ∀ e ∈ es, e.key ∉ es'.map Entry.key → m'.find? e.key = none
  new : ∀ e ∈ es', e ∈ es ∨ e ∈ m'.entries

namespace Carried

variable {m' : Map κ ν} {es es' : List (Entry κ ν)}

theorem refl (m' : Map κ ν) (es : List (Entry κ ν)) : Carried m' es es :=
  ⟨rfl, .refl _, fun _ he absent => absurd (List.mem_map_of_mem he) absent, fun _ => .inl⟩

theorem cons (c : Carried m' es es') (e : Entry κ ν) : Carried m' (e :: es) (e :: es') := by
  constructor
  case head => rfl
  case keys => exact c.keys.cons_cons _
  case lost =>
    intro a ha absent
    rw [List.map_cons, List.mem_cons, not_or] at absent
    rcases List.mem_cons.mp ha with rfl | ha
    · exact absurd rfl absent.1
    · exact c.lost a ha absent.2
  case new =>
    intro a ha
    rcases List.mem_cons.mp ha with rfl | ha
    · exact .inl List.mem_cons_self
    · exact (c.new a ha).imp_left (List.mem_cons_of_mem _)

/-- An entry behind the first one gives way to a new one of its key, or to nothing. -/
theorem parted (a : Entry κ ν) (before : List (Entry κ ν)) {behind : List (Entry κ ν)}
    {e : Entry κ ν} {new : Option (Entry κ ν)}
    (key : ∀ n ∈ new, n.key = e.key ∧ n ∈ m'.entries)
    (gone : new = none → m'.find? e.key = none) :
    Carried m' (a :: before ++ e :: behind) (a :: before ++ (new.toList ++ behind)) := by
  cases new with
  | none =>
    have sublist := (List.sublist_cons_self e behind).append_left (a :: before)
    constructor
    case head => rfl
    case keys => exact sublist.map _
    case lost =>
      intro x hx absent
      by_cases same : x = e
      · exact same ▸ gone rfl
      · have stays : x ∈ a :: before ++ ([] ++ behind) := by simp_all
        exact absurd (List.mem_map_of_mem stays) absent
    case new => exact fun x hx => .inl (sublist.subset hx)
  | some n =>
    obtain ⟨same, here⟩ := key n rfl
    have keys : (a :: before ++ ([n] ++ behind)).map Entry.key =
        (a :: before ++ e :: behind).map Entry.key := by simp [same]
    constructor
    case head => rfl
    case keys => exact keys ▸ .refl _
    case lost => exact fun x hx absent => absurd (keys ▸ List.mem_map_of_mem hx) absent
    case new =>
      intro x hx
      by_cases new : x = n
      · exact .inr (new ▸ here)
      · exact .inl (by simp_all; tauto)

end Carried

namespace Trail

variable {m m' : Map κ ν} {g b : Nat} {es : List (Entry κ ν)}

/-- A trail that lies in the chain, after an entry of the chain was unlinked. -/
theorem parted {before behind : List (Entry κ ν)} {e : Entry κ ν} {new : Option (Entry κ ν)}
    (suffix : es <:+ before ++ e :: behind)
    (eq' : (m'.tableAt g).chain b = before ++ (new.toList ++ behind))
    (left : m'.unlinked.find? (·.id = e.id) = some ⟨e.id, behind.head?⟩)
    (gone' : ∀ a ∈ (m'.tableAt g).chain b, a.id ≠ e.id)
    (key : ∀ n ∈ new, n.key = e.key ∧ n ∈ m'.entries)
    (gone : new = none → m'.find? e.key = none) :
    ∃ es', Trail m' g b es' ∧ Carried m' es es' := by
  obtain ⟨passed, split⟩ := suffix
  have behind_suffix : behind <:+ (m'.tableAt g).chain b := by
    rw [eq', ← List.append_assoc]
    exact List.suffix_append _ _
  rcases List.append_eq_append_iff.mp split with ⟨ahead, rfl, rfl⟩ | ⟨more, -, eq⟩
  · cases ahead with
    | nil => exact ⟨_, .left gone' left (.live behind_suffix), .refl _ _⟩
    | cons a ahead =>
      refine ⟨_, .live ?_, .parted a ahead key gone⟩
      rw [eq', List.append_assoc]
      exact List.suffix_append _ _
  · cases more with
    | nil =>
      obtain rfl : e :: behind = es := eq
      exact ⟨_, .left gone' left (.live behind_suffix), .refl _ _⟩
    | cons x more =>
      obtain ⟨-, rfl⟩ := List.cons.inj eq
      exact ⟨_, .live ((List.suffix_append _ _).trans behind_suffix), .refl _ _⟩

/-- What a change makes of a trail. -/
theorem change (t : Trail m g b es) (h : m.Sound) (c : Change m m') (hg : g ≤ m.retired.size) :
    ∃ es', Trail m' g b es' ∧ Carried m' es es' := by
  have turn := c.turn h hg b
  induction t with
  | @live es suffix =>
    cases turn with
    | kept same => exact ⟨es, .live (same ▸ suffix), .refl _ _⟩
    | headed new id eq => exact ⟨es, .live (eq ▸ suffix.trans (List.suffix_cons _ _)), .refl _ _⟩
    | parted new eq eq' apart left key gone =>
      exact parted (eq ▸ suffix) eq' left (eq' ▸ apart) (fun n hn => (key n hn).2) gone
  | @left e es gone link rest ih =>
    obtain ⟨es', t', carried⟩ := ih
    refine ⟨e :: es', .left ?_ ?_ t', carried.cons e⟩
    · intro a ha
      rcases turn.id_mem ha with id | ha
      · rw [id]
        exact (h.unlinked_id_lt (List.mem_of_find?_eq_some link)).ne'
      · exact gone a ha
    · rw [carried.head]
      exact c.find?_unlinked h link

end Trail

end Map

end SharedCollections
