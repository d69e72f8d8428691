import SharedCollections.Proofs.Map.Reached
import SharedCollections.Proofs.Map.Shape
/-!
# The life of a map

An insert asks for growth while it holds its lock, and the request is seen to at some later time. In
between there may be parts of any operations of any threads, so a life of a map is a sequence of
parts in which growth comes only after it was asked for (`Life.Leads`). What a part makes of the
shape of the map is its `Turn`; the invariants of a life are proved by turns.

New hashes are asked for only while a table has no salt, and the request carries the count of
rehashes (`Life.Orderly`), so they are regenerated once in a life at most, and a request that comes
too late does nothing.
-/

namespace SharedCollections

namespace Map

variable {κ ν : Type}

/-! ## What an insert asks for -/

/-- What a request says that was made on `m`: new hashes are asked for only if the table has no
salt, and otherwise there are more entries in a stripe than the budget allows. -/
structure Request.MadeOn (m : Map κ ν) (r : Request) : Prop where
  generation : r.generation = m.generation
  rehash : ∀ n, r.rehash = some n → n = m.rehashes ∧ m.table.salt = none
  budget : r.rehash = none → m.budget < Word.top

theorem madeOn_of_requestAfter {m : Map κ ν} {k : κ} {r : Request}
    (room : m.table.count (m.target k).stripe < Word.top) (h : m.requestAfter k = some r) :
    r.MadeOn m := by
  rw [requestAfter, requestFor, Option.ite_none_right_eq_some] at h
  obtain ⟨asked, h⟩ := h
  obtain rfl := Option.some.inj h
  constructor
  · rfl
  · intro n rehash
    obtain ⟨long, count⟩ := Option.ite_none_right_eq_some.mp rehash
    exact ⟨(Option.some.inj count).symm, Option.isNone_iff_eq_none.mp long.2⟩
  · intro none
    dsimp only at none
    rw [none] at asked
    rcases asked with beyond | rehash
    · exact Nat.lt_of_lt_of_le beyond room
    · cases rehash

/-! ## Parts -/

namespace Part

variable {m : Map κ ν}

/-- Whether a part regenerates the hashes. -/
def regenerates : Part κ ν → Map κ ν → Bool
  | grow r, m => m.judge r = .grow true && (m.grown true).isOk
  | _, _ => false

theorem regenerates_grow_iff {r : Request} : (grow r : Part κ ν).regenerates m = true ↔
    m.judge r = .grow true ∧ ∃ m', m.grown true = .ok m' := by
  rw [regenerates, Bool.and_eq_true, decide_eq_true_iff]
  cases m.grown true <;> simp [Except.isOk, Except.toBool]

theorem regenerates_grow {r : Request} {regenerate : Bool} {m' : Map κ ν}
    (judged : m.judge r = .grow regenerate) (ok : m.grown regenerate = .ok m') :
    (grow r : Part κ ν).regenerates m = regenerate := by
  cases regenerate with
  | true => exact regenerates_grow_iff.mpr ⟨judged, m', ok⟩
  | false =>
    refine Bool.eq_false_iff.mpr fun regenerates => ?_
    cases judged.symm.trans (regenerates_grow_iff.mp regenerates).1

variable [DecidableEq κ]

theorem madeOn_of_request? {p : Part κ ν} {r : Request} (h : p.request? m = some r) :
    r.MadeOn m := by
  cases p with
  | insert k v replace =>
    rw [request?] at h
    cases found : m.find? k with
    | some e =>
      rw [run_insertLocked_of_some found v replace] at h
      cases h
    | none =>
      by_cases room : m.table.count (m.target k).stripe < Word.top
      · rw [run_insertLocked_of_none found room v replace] at h
        exact madeOn_of_requestAfter room h
      · rw [run_insertLocked_of_full found room v replace] at h
        cases h
  | _ => cases h

end Part

/-! ## Moments -/

/-- A moment in the life of a map. -/
structure Life (κ ν : Type) where
  map : Map κ ν
  /-- What inserts have asked for so far. -/
  asked : List Request
  /-- How often the hashes were regenerated so far. -/
  regenerations : Nat

namespace Life

variable {x y z : Life κ ν} {p : Part κ ν}

def start (m : Map κ ν) : Life κ ν := ⟨m, [], 0⟩

/-- Whether `p` may come now. Growth comes only after an insert has asked for it, and then at any
time, even more than once. -/
def Allows (x : Life κ ν) : Part κ ν → Prop
  | .grow r => r ∈ x.asked
  | _ => True

/-- What a part makes of a moment, entries left aside. -/
inductive Turn (x : Life κ ν) : Part κ ν → Life κ ν → Prop where
  | kept {p : Part κ ν} {y : Life κ ν} (shape : y.map.shape = x.map.shape)
      (asked : ∀ r ∈ y.asked, r ∈ x.asked ∨ r.MadeOn x.map)
      (regenerations : y.regenerations = x.regenerations) : Turn x p y
  | doubled {r : Request} {y : Life κ ν} (judged : x.map.judge r = .sparse)
      (shape : y.map.shape = x.map.doubled.shape) (asked : y.asked = x.asked)
      (regenerations : y.regenerations = x.regenerations) : Turn x (.grow r) y
  | grown {r : Request} {regenerate : Bool} {y : Life κ ν}
      (judged : x.map.judge r = .grow regenerate)
      (shape : y.map.shape = x.map.grownShape regenerate) (asked : y.asked = x.asked)
      (regenerations : y.regenerations = x.regenerations + if regenerate then 1 else 0) :
      Turn x (.grow r) y
  | cleared {y : Life κ ν} (shape : y.map.shape = x.map.cleared.shape) (asked : y.asked = x.asked)
      (regenerations : y.regenerations = x.regenerations) : Turn x .clear y

theorem Turn.of_answered {r : Request} (answered : Answered x.map r y.map)
    (asked : y.asked = x.asked) (regenerations : y.regenerations =
      x.regenerations + if (Part.grow r).regenerates x.map then 1 else 0) :
    Turn x (.grow r) y := by
  generalize after : y.map = m' at answered
  cases answered with
  | kept idle trace =>
    rw [if_neg fun regenerates => ?_] at regenerations
    · refine .kept (after ▸ rfl) (fun s hs => .inl (asked ▸ hs)) regenerations
    · obtain ⟨judged, m', ok⟩ := Part.regenerates_grow_iff.mp regenerates
      exact idle m' judged ok
  | doubled judged trace =>
    rw [if_neg fun regenerates => ?_] at regenerations
    · exact .doubled judged (after ▸ rfl) asked regenerations
    · cases judged.symm.trans (Part.regenerates_grow_iff.mp regenerates).1
  | grown judged ok g trace =>
    rw [Part.regenerates_grow judged ok] at regenerations
    exact .grown judged (after ▸ g.shape_eq) asked regenerations

/-! ## What requests are like at any time -/

/-- The requests of a life belong to the tables it has had. New hashes were asked for before there
was a salt; and while the table is the one that a request was made on, nobody has regenerated them
since. -/
structure Orderly (x : Life κ ν) : Prop where
  sound : x.map.Sound
  generation_le : ∀ r ∈ x.asked, r.generation ≤ x.map.generation
  rehash_eq_zero : ∀ r ∈ x.asked, ∀ n, r.rehash = some n → n = 0
  rehash_eq : ∀ r ∈ x.asked, r.generation = x.map.generation → ∀ n, r.rehash = some n →
    n = x.map.rehashes
  rehashes_eq : x.map.rehashes = if x.map.table.salt.isSome then 1 else 0
  regenerations_eq : x.regenerations = x.map.rehashes

namespace Orderly

theorem start {m : Map κ ν} (sound : m.Sound) (salt : m.table.salt = none)
    (rehashes : m.rehashes = 0) : (start m).Orderly where
  sound := sound
  generation_le := nofun
  rehash_eq_zero := nofun
  rehash_eq := nofun
  rehashes_eq := by
    change m.rehashes = if m.table.salt.isSome then 1 else 0
    rw [salt, rehashes]
    rfl
  regenerations_eq := rehashes.symm

/-- Hashes are regenerated only while the table has no salt. -/
theorem rehashes_eq_zero (h : x.Orderly) {r : Request} (asked : r ∈ x.asked)
    (judged : x.map.judge r = .grow true) : x.map.rehashes = 0 :=
  h.rehash_eq_zero r asked _ (judge_eq_grow_true.mp judged)

theorem rehashes_eq_one_iff (h : x.Orderly) :
    x.map.rehashes = 1 ↔ x.map.table.salt.isSome = true := by
  rw [h.rehashes_eq]
  split
  · next salted => exact iff_of_true rfl salted
  · next plain => exact iff_of_false nofun plain

theorem regenerations_le_one (h : x.Orderly) : x.regenerations ≤ 1 := by
  rw [h.regenerations_eq, h.rehashes_eq]
  split <;> decide

/-- Requests grow old as the table is replaced. -/
theorem of_asked_eq (h : x.Orderly) (sound : y.map.Sound) (asked : y.asked = x.asked)
    (generation : x.map.generation ≤ y.map.generation)
    (rehashes : y.map.generation = x.map.generation → y.map.rehashes = x.map.rehashes)
    (rehashes_eq : y.map.rehashes = if y.map.table.salt.isSome then 1 else 0)
    (regenerations_eq : y.regenerations = y.map.rehashes) : y.Orderly := by
  refine ⟨sound, ?_, ?_, ?_, rehashes_eq, regenerations_eq⟩ <;> rw [asked]
  · exact fun r hr => (h.generation_le r hr).trans generation
  · exact h.rehash_eq_zero
  · intro r hr here n asks
    -- no request is younger than the table, so the table has not been replaced
    have same : y.map.generation = x.map.generation :=
      le_antisymm (here ▸ h.generation_le r hr) generation
    rw [rehashes same]
    exact h.rehash_eq r hr (here.trans same) n asks

theorem of_salt_eq (h : x.Orderly) (sound : y.map.Sound) (asked : y.asked = x.asked)
    (generation : x.map.generation ≤ y.map.generation)
    (rehashes : y.map.rehashes = x.map.rehashes) (salt : y.map.table.salt = x.map.table.salt)
    (regenerations : y.regenerations = x.regenerations) : y.Orderly := by
  refine h.of_asked_eq sound asked generation (fun _ => rehashes) ?_ ?_
  · rw [rehashes, salt, h.rehashes_eq]
  · rw [regenerations, rehashes, h.regenerations_eq]

theorem of_turn (h : x.Orderly) (may : x.Allows p) (sound : y.map.Sound) (turn : Turn x p y) :
    y.Orderly := by
  cases turn with
  | kept shape asked regenerations =>
    have generation : y.map.generation = x.map.generation := congrArg Shape.generation shape
    have rehashes : y.map.rehashes = x.map.rehashes := congrArg Shape.rehashes shape
    have salt : y.map.table.salt = x.map.table.salt := congrArg Shape.salt shape
    constructor
    case sound => exact sound
    case generation_le =>
      intro r hr
      rw [generation]
      rcases asked r hr with old | new
      · exact h.generation_le r old
      · exact new.generation.le
    case rehash_eq_zero =>
      intro r hr n asks
      rcases asked r hr with old | new
      · exact h.rehash_eq_zero r old n asks
      · obtain ⟨rfl, plain⟩ := new.rehash n asks
        rw [h.rehashes_eq, plain]
        rfl
    case rehash_eq =>
      intro r hr here n asks
      rw [rehashes]
      rcases asked r hr with old | new
      · exact h.rehash_eq r old (here.trans generation) n asks
      · exact (new.rehash n asks).1
    case rehashes_eq =>
      rw [rehashes, salt]
      exact h.rehashes_eq
    case regenerations_eq => rw [regenerations, rehashes, h.regenerations_eq]
  | doubled judged shape asked regenerations =>
    exact h.of_salt_eq sound asked (congrArg Shape.generation shape).ge
      (congrArg Shape.rehashes shape) (congrArg Shape.salt shape) regenerations
  | @grown r regenerate y judged shape asked regenerations =>
    have generation : y.map.generation = x.map.generation + 1 := congrArg Shape.generation shape
    have rehashes : y.map.rehashes = if regenerate then x.map.rehashes + 1 else x.map.rehashes :=
      congrArg Shape.rehashes shape
    have salt : y.map.table.salt = x.map.grownSalt regenerate := congrArg Shape.salt shape
    refine h.of_asked_eq sound asked (generation ▸ Nat.le_succ _)
      (fun same => absurd (generation.symm.trans same) (Nat.succ_ne_self _)) ?_ ?_
    · rw [rehashes, salt, grownSalt]
      cases regenerate with
      -- the call was asked for before there was a salt, and carries the count of that time
      | true => rw [h.rehashes_eq_zero may judged]; rfl
      | false => exact h.rehashes_eq
    · rw [regenerations, rehashes, h.regenerations_eq]
      cases regenerate <;> rfl
  | cleared shape asked regenerations =>
    rw [shape_cleared] at shape
    have generation : y.map.generation = x.map.generation + 1 := congrArg Shape.generation shape
    exact h.of_salt_eq sound asked (generation ▸ Nat.le_succ _) (congrArg Shape.rehashes shape)
      (congrArg Shape.salt shape) regenerations

/-- A salt is never replaced. -/
theorem salt_eq_of_turn (h : x.Orderly) (may : x.Allows p) (turn : Turn x p y)
    (salted : x.map.table.salt.isSome = true) : y.map.table.salt = x.map.table.salt := by
  cases turn with
  | kept shape | doubled _ shape => exact congrArg Shape.salt shape
  | cleared shape =>
    rw [shape_cleared] at shape
    exact congrArg Shape.salt shape
  | @grown r regenerate y judged shape =>
    cases regenerate with
    | false => exact congrArg Shape.salt shape
    | true =>
      have one := h.rehashes_eq_one_iff.mpr salted
      rw [h.rehashes_eq_zero may judged] at one
      cases one

end Orderly

theorem orderly_ofConfig {c : Config} (ok : c.check = .ok ()) (hasher : Hasher κ)
    (salts : Nat → UInt64) : (start (ofConfig c hasher salts : Map κ ν)).Orderly :=
  .start (sound_ofConfig ok) rfl rfl

theorem allows_of_isWhole (whole : p.isWhole = true) : x.Allows p := by
  cases p with
  | grow => cases whole
  | _ => trivial

/-! ## Lives -/

variable [DecidableEq κ] {P : Part κ ν → Prop}

/-- The next moment if `p` comes now. -/
def move (x : Life κ ν) (p : Part κ ν) : Life κ ν where
  map := p.after x.map
  asked := x.asked ++ (p.request? x.map).toList
  regenerations := x.regenerations + if p.regenerates x.map then 1 else 0

/-- Parts for which `P` holds lead from one moment to another. -/
inductive LeadsBy (P : Part κ ν → Prop) (x : Life κ ν) : Life κ ν → Prop where
  | refl : LeadsBy P x x
  | step {y : Life κ ν} (h : LeadsBy P x y) {p : Part κ ν} (ok : P p) (may : y.Allows p) :
      LeadsBy P x (y.move p)

/-- Any parts lead from one moment to another. -/
abbrev Leads (x y : Life κ ν) : Prop := LeadsBy (fun _ => True) x y

theorem turn (h : x.map.Sound) (p : Part κ ν) : Turn x p (x.move p) := by
  have asked : ∀ r ∈ (x.move p).asked, r ∈ x.asked ∨ r.MadeOn x.map := by
    intro r hr
    rcases List.mem_append.mp hr with old | new
    · exact .inl old
    · exact .inr (Part.madeOn_of_request? (Option.mem_toList.mp new))
  cases p with
  | insert k v replace => exact .kept (Part.edit_insert k v replace x.map).shape_eq asked rfl
  | remove k accept => exact .kept (Part.edit_remove k accept x.map).shape_eq asked rfl
  | update k v accept => exact .kept (Part.edit_update k v accept x.map).shape_eq asked rfl
  | look => exact .kept (Part.edit_look x.map).shape_eq asked rfl
  | note e => exact .kept rfl asked rfl
  | clear => exact .cleared rfl (List.append_nil _) rfl
  | grow r => exact .of_answered (h.answered r) (List.append_nil _) rfl

/-- Every part of a life leaves its requests orderly. -/
theorem Orderly.move (h : x.Orderly) (may : x.Allows p) : (x.move p).Orderly :=
  h.of_turn may (h.sound.change (p.change x.map)) (turn h.sound p)

namespace LeadsBy

theorem orderly (h : LeadsBy P x y) (orderly : x.Orderly) : y.Orderly := by
  induction h with
  | refl => exact orderly
  | step _ _ may ih => exact ih.move may

theorem trans (h : LeadsBy P x y) (h' : LeadsBy P y z) : LeadsBy P x z := by
  induction h' with
  | refl => exact h
  | step _ ok may ih => exact ih.step ok may

/-- A salt stays for life. -/
theorem salt_eq (h : LeadsBy P x y) (orderly : x.Orderly)
    (salted : x.map.table.salt.isSome = true) : y.map.table.salt = x.map.table.salt := by
  induction h with
  | refl => rfl
  | step h _ may ih =>
    have now := h.orderly orderly
    exact (now.salt_eq_of_turn may (turn now.sound _) (ih ▸ salted)).trans ih

end LeadsBy

/-! ## Uses in a life -/

/-- Operations that run to their ends come in a life, whatever came before. -/
theorem exists_leads_of_onward {m m' : Map κ ν} (h : Onward m m') (here : x.map = m) :
    ∃ y, x.Leads y ∧ y.map = m' := by
  induction h generalizing x with
  | refl => exact ⟨x, .refl, here⟩
  | trans _ _ first rest =>
    obtain ⟨y, leads, there⟩ := first here
    obtain ⟨z, leads', there'⟩ := rest there
    exact ⟨z, leads.trans leads', there'⟩
  | part whole m =>
    subst here
    exact ⟨x.move _, .step .refl trivial (allows_of_isWhole whole), rfl⟩
  | insertOr k v replace m =>
    subst here
    have inserted : x.Leads (x.move (.insert k v replace)) := .step .refl trivial trivial
    rw [after_insertOr]
    cases request : (Part.insert k v replace).request? x.map with
    | none => exact ⟨_, inserted, rfl⟩
    | some r =>
      refine ⟨_, .step inserted trivial (p := .grow r) ?_, rfl⟩
      refine List.mem_append_right _ ?_
      rw [request]
      exact List.mem_singleton_self r

theorem exists_leads_of_use {α : Type} {a : Action (Map κ ν) α} (use : Use a) (x : Life κ ν) :
    ∃ y, x.Leads y ∧ y.map = a.after x.map :=
  exists_leads_of_onward (use.onward x.map) rfl

/-! ## Late requests -/

/-- Growth leaves a map its entries and keeps it well formed, whenever it comes. A request for a
table that is gone, with a count of rehashes that is out of date or none at all, changes nothing
but the trace, where a sink sees the first lock. The hashes are regenerated once in a life at most;
the count of rehashes tells whether the table has a salt, and once it has one it keeps it. -/
theorem requests_harmless {c : Config} (ok : c.check = .ok ()) (hasher : Hasher κ)
    (salts : Nat → UInt64) {x : Life κ ν} (lived : Leads (start (ofConfig c hasher salts)) x) :
    (∀ r : Request,
      ((grow r).after x.map).pairs.Perm x.map.pairs ∧
      ((grow r).after x.map).Sound ∧
      (x.map.WellFormed → ((grow r).after x.map).WellFormed) ∧
      (r.generation ≠ x.map.generation → r.rehash ≠ some x.map.rehashes →
        (grow r).run x.map = .ok () (guarded 0 x.map) ∧
        (guarded 0 x.map).trace.observed true = x.map.trace.observed true ++ [.locked 0])) ∧
    x.regenerations ≤ 1 ∧
    (x.map.rehashes = 1 ↔ x.map.table.salt.isSome = true) ∧
    ∀ y, x.Leads y → x.map.table.salt.isSome = true → y.map.table.salt = x.map.table.salt := by
  have orderly := lived.orderly (orderly_ofConfig ok hasher salts)
  refine ⟨fun r => ⟨?_, ?_, ?_, ?_⟩, ?_, orderly.rehashes_eq_one_iff, ?_⟩
  · exact (orderly.sound.answered r).pairs_perm
  · exact orderly.sound.change (Part.change_grow r x.map)
  · intro wellFormed
    have counted := orderly.sound.wellFormed_iff.mp wellFormed
    have sound := orderly.sound.change (Part.change_grow r x.map)
    exact sound.wellFormed_iff.mpr ((orderly.sound.answered r).counted counted)
  · intro gone outdated
    refine ⟨run_grow_of_late (judge_eq_late.mpr ⟨outdated, gone⟩), ?_⟩
    simp [guarded, emit, Trace.observed, List.filter, Event.isLogged, Event.reported]
  · exact orderly.regenerations_le_one
  · exact fun y leads => leads.salt_eq orderly

/-- Two inserts ask for new hashes of the same table; the second request comes when the hashes have
been regenerated. -/
theorem requests_harmless_twice : ∃ x : Life Nat Nat,
    x.asked = [⟨0, some 0⟩, ⟨0, some 0⟩] ∧ x.map.generation = 1 ∧ x.regenerations = 1 ∧
    x.map.rehashes = 1 ∧ (grow ⟨0, some 0⟩).run x.map = .ok () (guarded 0 x.map) := by
  let policy : Policy := { Policy.default with collisionLimit := 0 }
  let x₀ : Life Nat Nat :=
    start (ofConfig ⟨1, 1, true, policy, true⟩ ⟨"constant", fun _ _ => 0⟩ fun _ => 7)
  let x₁ := x₀.move (.insert 1 5 false)
  let x₂ := x₁.move (.insert 2 6 false)
  let x₃ := x₂.move (.insert 3 7 false)
  let x₄ := x₃.move (.grow ⟨0, some 0⟩)
  have h₁ : x₀.Leads x₁ := .step .refl trivial (p := .insert 1 5 false) trivial
  have h₂ : x₀.Leads x₂ := h₁.step trivial (p := .insert 2 6 false) trivial
  have h₃ : x₀.Leads x₃ := h₂.step trivial (p := .insert 3 7 false) trivial
  have asked : (⟨0, some 0⟩ : Request) ∈ x₃.asked := by decide +kernel
  have h₄ : x₀.Leads x₄ := h₃.step trivial (p := .grow ⟨0, some 0⟩) asked
  obtain ⟨-, -, -, late⟩ := (requests_harmless rfl _ _ h₄).1 ⟨0, some 0⟩
  refine ⟨x₄, by decide +kernel, by decide +kernel, by decide +kernel, by decide +kernel, ?_⟩
  exact (late (by decide +kernel) (by decide +kernel)).1

end Life

end Map

end SharedCollections
