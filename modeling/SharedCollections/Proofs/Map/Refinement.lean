import SharedCollections.Proofs.Map.Contents
/-!
# Maps as finite maps

Run one after the other, the operations of a map answer what the operations of a finite map answer
(`Answers`), whatever the hashes and salts are and however the table grows on the way. There is one
way in which a run can end early: a stripe would have to count past the largest word, be it for an
entry that is added or in the table that a growing map is about to fill (`AtLimit`).
-/

namespace SharedCollections

namespace Map

variable {κ ν α β : Type}

/-! ## Runs that end early -/

/-- A stripe has counted as far as it can, or could not count the entries of a larger table. -/
def AtLimit (m : Map κ ν) (s : Nat) : Prop :=
  Word.top ≤ m.table.count s ∨ ∃ regenerate, Word.top < m.grownLoad regenerate s

/-- A run ends as `post` says, unless a stripe is at its limit. -/
def Ends (post : α → Map κ ν → Prop) : Ending (Map κ ν) α → Prop
  | .ok x m => post x m
  | .error f m => ∃ s, f = .stripeOverflow s ∧ m.AtLimit s

namespace Ends

variable {a : Action (Map κ ν) α} {m : Map κ ν} {post : α → Map κ ν → Prop}

theorem bind {f : α → Action (Map κ ν) β} {post' : β → Map κ ν → Prop}
    (first : Ends post (a.run m)) (rest : ∀ x m', post x m' → Ends post' ((f x).run m')) :
    Ends post' ((a >>= f).run m) := by
  rw [Action.run_bind]
  cases run : a.run m with
  | ok x m' =>
    rw [run] at first
    exact rest x m' first
  | error e m' =>
    rw [run] at first
    exact first

theorem map {f : α → β} {post' : β → Map κ ν → Prop} (first : Ends post (a.run m))
    (rest : ∀ x m', post x m' → post' (f x) m') : Ends post' ((do return f (← a)).run m) :=
  bind first rest

theorem mono {post' : α → Map κ ν → Prop} (h : Ends post (a.run m))
    (weaker : ∀ x m', post x m' → post' x m') : Ends post' (a.run m) := by
  cases run : a.run m with
  | ok x m' =>
    rw [run] at h
    exact weaker x m' h
  | error e m' =>
    rw [run] at h
    exact h

theorem of_run {x : α} {m' : Map κ ν} (run : a.run m = .ok x m') (h : post x m') :
    Ends post (a.run m) := by
  rw [run]
  exact h

end Ends

variable [DecidableEq κ]

/-- Adds an entry unless the key is present. -/
def Dict.addNew (k : κ) (v : ν) (d : Dict κ ν) : Dict κ ν := if k ∈ d then d else d.insert k v

theorem Dict.erase_eq_self {k : κ} {d : Dict κ ν} (absent : k ∉ d) : d.erase k = d := by
  refine Finmap.ext_lookup fun j => ?_
  by_cases same : j = k
  · rw [same, Finmap.lookup_erase, Finmap.lookup_eq_none.mpr absent]
  · rw [Finmap.lookup_erase_ne same]

/-! ## Operations on one key -/

namespace Models

variable {m : Map κ ν} {d : Dict κ ν}

theorem guarded (h : Models m d) (s : Nat) : Models (guarded s m) d := h.retrace _

theorem grow (h : Models m d) (r : Request) : Ends (fun _ m' => Models m' d) ((grow r).run m) := by
  obtain ⟨trace, run⟩ := exists_run_grow r m
  cases judged : m.judge r with
  | late =>
    rw [judged] at run
    exact .of_run run (h.retrace trace)
  | sparse =>
    rw [judged] at run
    exact .of_run run (h.doubled.retrace trace)
  | grow regenerate =>
    rw [judged] at run
    have spec := h.sound.grown_spec regenerate
    cases g : m.grown regenerate with
    | ok m' =>
      simp only [g] at run
      exact .of_run run ((h.grown g).retrace trace)
    | error f =>
      simp only [g] at run
      rw [g] at spec
      obtain ⟨s, rfl, excess⟩ := spec
      rw [run]
      exact ⟨s, rfl, .inr ⟨regenerate, excess⟩⟩

/-- What an insert into a finite map comes to. -/
def inserted (k : κ) (v : ν) (replace : Bool) (d : Dict κ ν) : Inserted ν :=
  ⟨decide (k ∉ d), if replace then v else (d.lookup k).getD v⟩

theorem insertOr (h : Models m d) (k : κ) (v : ν) (replace : Bool) :
    Ends (fun r m' => r = inserted k v replace d ∧
      Models m' (if replace then d.insert k v else Dict.addNew k v d))
      ((insertOr k v replace).run m) := by
  cases found : m.find? k with
  | some e =>
    have present := h.mem_of_find? found
    have value := h.lookup_of_find? found
    obtain ⟨he, rfl⟩ := mem_of_find?_eq_some found
    refine .of_run (Action.run_bind_ok (run_insertLocked_of_some found v replace) _) ⟨?_, ?_⟩
    · simp [inserted, present, value]
    · cases replace with
      | true => exact (h.substitute he v).guarded _
      | false =>
        rw [Dict.addNew, if_pos present]
        exact h.guarded _
  | none =>
    have missing := h.find?_eq_none.mp found
    have next : (if replace then d.insert k v else Dict.addNew k v d) = d.insert k v := by
      rw [Dict.addNew, if_neg missing, ite_self]
    have answer : inserted k v replace d = ⟨true, v⟩ := by
      simp [inserted, missing, Finmap.lookup_eq_none.mpr missing]
    rw [next, answer]
    by_cases room : m.table.count (m.target k).stripe < Word.top
    · have added := (h.added found v).guarded (m.target k).stripe
      rw [Map.insertOr, Action.run_bind_ok (run_insertLocked_of_none found room v replace)]
      cases m.requestAfter k with
      | none => exact ⟨rfl, added⟩
      | some r => exact .map (added.grow r) fun _ _ h' => ⟨rfl, h'⟩
    · rw [Map.insertOr, Action.run_bind_error (run_insertLocked_of_full found room v replace)]
      exact ⟨_, rfl, .inl (not_lt.mp room)⟩

theorem insertIfNew (h : Models m d) (k : κ) (v : ν) :
    Ends (fun r m' => r = decide (k ∉ d) ∧ Models m' (Dict.addNew k v d))
      ((insertIfNew k v).run m) :=
  .map (h.insertOr k v false) fun _ _ ⟨hr, h'⟩ => ⟨congrArg Inserted.added hr, h'⟩

theorem insertNew (h : Models m d) (k : κ) (v : ν) :
    Ends (fun r m' => k ∈ d ∧ r = .error .duplicateKey ∧ Models m' d ∨
      k ∉ d ∧ r = .ok () ∧ Models m' (d.insert k v)) ((insertNew k v).run m) := by
  refine .map (h.insertIfNew k v) fun added m' ⟨hr, h'⟩ => ?_
  by_cases present : k ∈ d
  · rw [Dict.addNew, if_pos present] at h'
    exact .inl ⟨present, by simp [hr, present], h'⟩
  · rw [Dict.addNew, if_neg present] at h'
    exact .inr ⟨present, by simp [hr, present], h'⟩

theorem insert (h : Models m d) (k : κ) (v : ν) :
    Ends (fun _ m' => Models m' (d.insert k v)) ((insert k v).run m) :=
  .map (h.insertOr k v true) fun _ _ h' => h'.2

theorem removeIf (h : Models m d) (k : κ) (accept : ν → Bool) :
    Ends (fun r m' => r = (d.lookup k).filter accept ∧
      Models m' (if (d.lookup k).any accept then d.erase k else d))
      ((removeIf k accept).run m) := by
  cases found : m.find? k with
  | none =>
    rw [Finmap.lookup_eq_none.mpr (h.find?_eq_none.mp found)]
    exact .of_run (run_removeIf_of_none found accept) ⟨rfl, h.guarded _⟩
  | some e =>
    rw [h.lookup_of_find? found]
    obtain ⟨he, rfl⟩ := mem_of_find?_eq_some found
    refine .of_run (run_removeIf_of_some found accept) ⟨?_, ?_⟩
    · rw [Option.filter_some]
    · rw [Option.any_some]
      split
      · exact (h.erased he).guarded _
      · exact h.guarded _

theorem erase? (h : Models m d) (k : κ) :
    Ends (fun r m' => r = d.lookup k ∧ Models m' (d.erase k)) ((erase? k).run m) := by
  refine .mono (h.removeIf k fun _ => true) fun r m' ⟨hr, h'⟩ => ?_
  cases value : d.lookup k with
  | none =>
    rw [value] at hr h'
    refine ⟨hr, ?_⟩
    rwa [Dict.erase_eq_self (Finmap.lookup_eq_none.mp value)]
  | some v =>
    rw [value] at hr h'
    exact ⟨hr, h'⟩

theorem replaceIf (h : Models m d) (k : κ) (v : ν) (accept : ν → Bool) :
    Ends (fun r m' => r = (d.lookup k).any accept ∧
      Models m' (if (d.lookup k).any accept then d.insert k v else d))
      ((replaceIf k v fun e => accept e.value).run m) := by
  cases found : m.find? k with
  | none =>
    rw [Finmap.lookup_eq_none.mpr (h.find?_eq_none.mp found)]
    exact .of_run (run_replaceIf_of_none found v _) ⟨rfl, h.guarded _⟩
  | some e =>
    rw [h.lookup_of_find? found]
    obtain ⟨he, rfl⟩ := mem_of_find?_eq_some found
    refine .of_run (run_replaceIf_of_some found v _) ⟨rfl, ?_⟩
    rw [Option.any_some]
    split
    · exact (h.substitute he v).guarded _
    · exact h.guarded _

section

variable [DecidableEq ν]

theorem eraseIfEq (h : Models m d) (k : κ) (v : ν) :
    Ends (fun r m' => r = decide (d.lookup k = some v) ∧
      Models m' (if d.lookup k = some v then d.erase k else d)) ((eraseIfEq k v).run m) := by
  refine .map (h.removeIf k (· == v)) fun r m' ⟨hr, h'⟩ => ?_
  cases value : d.lookup k with
  | none =>
    rw [value] at hr h'
    exact ⟨by rw [hr]; rfl, h'⟩
  | some w =>
    rw [value] at hr h'
    by_cases same : w = v <;> simp_all

theorem replaceIfEq (h : Models m d) (k : κ) (v expected : ν) :
    Ends (fun r m' => r = decide (d.lookup k = some expected) ∧
      Models m' (if d.lookup k = some expected then d.insert k v else d))
      ((replaceIfEq k v expected).run m) := by
  refine .mono (h.replaceIf k v (· == expected)) fun r m' ⟨hr, h'⟩ => ?_
  cases value : d.lookup k with
  | none =>
    rw [value] at hr h'
    exact ⟨hr, h'⟩
  | some w =>
    rw [value] at hr h'
    by_cases same : w = expected <;> simp_all

end

theorem getOrInsert (h : Models m d) (k : κ) (v : ν) :
    Ends (fun r m' => r = (d.lookup k).getD v ∧ Models m' (Dict.addNew k v d))
      ((getOrInsert k v).run m) := by
  rw [Map.getOrInsert, Action.run_get_bind]
  cases found : m.find? k with
  | some e =>
    rw [Dict.addNew, if_pos (h.mem_of_find? found), h.lookup_of_find? found]
    exact ⟨rfl, h⟩
  | none => exact .map (h.insertOr k v false) fun r m' ⟨hr, h'⟩ => ⟨by rw [hr]; rfl, h'⟩

theorem insertAll (h : Models m d) (es : List (κ × ν)) :
    Ends (fun _ m' => Models m' (es.foldl (fun d e => d.insert e.1 e.2) d))
      ((insertAll es).run m) := by
  induction es generalizing m d with
  | nil => exact h
  | cons e es ih =>
    exact .bind (h.insert e.1 e.2) fun _ _ h' => ih h'

end Models

/-! ## Listing and counting -/

/-- `es` has each entry of `d` once and nothing else. -/
def Dict.Listed (d : Dict κ ν) (es : List (κ × ν)) : Prop :=
  es.Nodup ∧ ∀ k v, (k, v) ∈ es ↔ d.lookup k = some v

namespace Models

variable {m : Map κ ν} {d : Dict κ ν}

theorem listed (h : Models m d) : Dict.Listed d m.pairs :=
  ⟨h.sound.keys_nodup.of_map, h.mem_pairs⟩

theorem toFinset_keys (h : Models m d) : (m.entries.map Entry.key).toFinset = d.keys := by
  ext k
  rw [List.mem_toFinset, Finmap.mem_keys, Finmap.mem_iff]
  simp only [← h.mem_pairs, pairs, List.mem_map, Entry.pair, Prod.mk.injEq]
  constructor
  · rintro ⟨e, he, rfl⟩
    exact ⟨e.value, e, he, rfl, rfl⟩
  · rintro ⟨v, e, he, rfl, -⟩
    exact ⟨e, he, rfl⟩

theorem card_keys (h : Models m d) : d.keys.card = m.entries.length := by
  have nodup : (m.entries.map Entry.key).Nodup := h.sound.placed.keys_nodup
  rw [← h.toFinset_keys, List.toFinset_card_of_nodup nodup, List.length_map]

theorem keys_eq_empty (h : Models m d) : decide (d.keys = ∅) = m.entries.isEmpty := by
  rw [Bool.eq_iff_iff, decide_eq_true_iff, List.isEmpty_iff, ← Finset.card_eq_zero, h.card_keys,
    List.length_eq_zero_iff]

theorem exclusively (h : Models m d) (f : Table κ ν → α) :
    Ends (fun x m' => x = f m.table ∧ Models m' d)
      ((exclusively do return f (← get).table).run m) := by
  obtain ⟨trace, run⟩ := exists_run_exclusively f m
  exact .of_run run ⟨rfl, h.retrace trace⟩

theorem clear (h : Models m d) : Ends (fun _ m' => Models m' ∅) (clear.run m) := by
  obtain ⟨trace, run⟩ := exists_run_clear m
  exact .of_run run (h.cleared.retrace trace)

end Models

/-! ## The operations of a finite map -/

variable [DecidableEq ν]

/-- What a command answers for a finite map, and the finite map it leaves. Entries are listed in any
order. -/
inductive Answers : Plain κ ν → Dict κ ν → Reply κ ν → Dict κ ν → Prop where
  | insertIfNew {k v d} : Answers (.insertIfNew k v) d (.flag (k ∉ d)) (Dict.addNew k v d)
  | insertNew {k v d} (absent : k ∉ d) : Answers (.insertNew k v) d .done (d.insert k v)
  | duplicateKey {k v d} (present : k ∈ d) :
      Answers (.insertNew k v) d (.misuse .duplicateKey) d
  | insert {k v d} : Answers (.insert k v) d .done (d.insert k v)
  | insertAll {es d} :
      Answers (.insertAll es) d .done (es.foldl (fun d e => d.insert e.1 e.2) d)
  | get? {k d} : Answers (.get? k) d (.value (d.lookup k)) d
  | require {k v d} (present : d.lookup k = some v) : Answers (.require k) d (.required v) d
  | keyNotFound {k d} (absent : k ∉ d) : Answers (.require k) d (.misuse .keyNotFound) d
  | contains {k d} : Answers (.contains k) d (.flag (k ∈ d)) d
  | getOrInsert {k v d} : Answers (.getOrInsert k v) d (.value (some ((d.lookup k).getD v)))
      (Dict.addNew k v d)
  | erase? {k d} : Answers (.erase? k) d (.value (d.lookup k)) (d.erase k)
  | eraseIfEq {k v d} : Answers (.eraseIfEq k v) d (.flag (d.lookup k = some v))
      (if d.lookup k = some v then d.erase k else d)
  | replaceIfEq {k v expected d} : Answers (.replaceIfEq k v expected) d
      (.flag (d.lookup k = some expected))
      (if d.lookup k = some expected then d.insert k v else d)
  | clear {d} : Answers .clear d .done ∅
  | size {d} : Answers .size d (.count (d.keys.card % Word.limit)) d
  | isEmpty {d} : Answers .isEmpty d (.flag (d.keys = ∅)) d
  | toList {es d} (h : Dict.Listed d es) : Answers .toList d (.entries es) d
  | keys {es d} (h : Dict.Listed d es) : Answers .keys d (.keys (es.map Prod.fst)) d
  | values {es d} (h : Dict.Listed d es) : Answers .values d (.values (es.map Prod.snd)) d

/-- The commands that a finite map has, too. -/
def Plain.isDictionary : Plain κ ν → Bool
  | .insertNewAll _ | .view _ | .countMatching _ | .eraseAll _ | .iterate | .display _
  | .hasherName | .offer .. | .exchangeTake | .exchangeItems | .exchangeCount | .exchangeIsEmpty
  | .copyTo .. => false
  | _ => true

/-- A command of a finite map answers and does what it does there. -/
theorem Models.plain {m : Map κ ν} {d : Dict κ ν} (h : Models m d) {c : Plain κ ν}
    (hc : c.isDictionary) :
    Ends (fun r m' => ∃ d', Answers c d r d' ∧ Models m' d') (c.run.run m) := by
  cases c with
  | insertIfNew k v =>
    refine .map (h.insertIfNew k v) ?_
    rintro r m' ⟨hr, h'⟩
    refine ⟨_, ?_, h'⟩
    exact hr ▸ .insertIfNew
  | insertNew k v =>
    refine .map (h.insertNew k v) ?_
    rintro r m' (⟨present, rfl, h'⟩ | ⟨absent, rfl, h'⟩)
    · exact ⟨_, .duplicateKey present, h'⟩
    · exact ⟨_, .insertNew absent, h'⟩
  | insert k v => exact .map (h.insert k v) fun _ _ h' => ⟨_, .insert, h'⟩
  | insertAll es => exact .map (h.insertAll es) fun _ _ h' => ⟨_, .insertAll, h'⟩
  | get? k => exact ⟨d, h.get?_eq k ▸ .get?, h⟩
  | require k =>
    refine ⟨d, ?_, h⟩
    rw [Map.require, h.get?_eq]
    cases value : d.lookup k with
    | none => exact .keyNotFound (Finmap.lookup_eq_none.mp value)
    | some v => exact .require value
  | contains k => exact ⟨d, h.contains_eq k ▸ .contains, h⟩
  | getOrInsert k v =>
    refine .map (h.getOrInsert k v) ?_
    rintro r m' ⟨hr, h'⟩
    refine ⟨_, ?_, h'⟩
    exact hr ▸ .getOrInsert
  | erase? k =>
    refine .map (h.erase? k) ?_
    rintro r m' ⟨hr, h'⟩
    refine ⟨_, ?_, h'⟩
    exact hr ▸ .erase?
  | eraseIfEq k v =>
    refine .map (h.eraseIfEq k v) ?_
    rintro r m' ⟨hr, h'⟩
    refine ⟨_, ?_, h'⟩
    exact hr ▸ .eraseIfEq
  | replaceIfEq k v expected =>
    refine .map (h.replaceIfEq k v expected) ?_
    rintro r m' ⟨hr, h'⟩
    refine ⟨_, ?_, h'⟩
    exact hr ▸ .replaceIfEq
  | clear => exact .map h.clear fun _ _ h' => ⟨_, .clear, h'⟩
  | size =>
    refine .map (h.exclusively Table.total) ?_
    rintro r m' ⟨hr, h'⟩
    refine ⟨_, ?_, h'⟩
    rw [hr, h.counted.total_eq h.sound, ← h.card_keys]
    exact .size
  | isEmpty =>
    refine .map (h.exclusively fun t => t.counts.all (· == 0)) ?_
    rintro r m' ⟨hr, h'⟩
    refine ⟨_, ?_, h'⟩
    rw [hr, h.counted.all_counts_eq_zero h.sound, ← h.keys_eq_empty]
    exact .isEmpty
  | toList =>
    refine .map (h.exclusively fun t => t.entries.map Entry.pair) ?_
    rintro r m' ⟨hr, h'⟩
    refine ⟨_, ?_, h'⟩
    exact hr ▸ .toList h.listed
  | keys =>
    refine .map (h.exclusively fun t => t.entries.map Entry.key) ?_
    rintro r m' ⟨hr, h'⟩
    refine ⟨_, ?_, h'⟩
    have answer := Answers.keys h.listed
    rw [pairs, List.map_map] at answer
    exact hr ▸ answer
  | values =>
    refine .map (h.exclusively fun t => t.entries.map Entry.value) ?_
    rintro r m' ⟨hr, h'⟩
    refine ⟨_, ?_, h'⟩
    have answer := Answers.values h.listed
    rw [pairs, List.map_map] at answer
    exact hr ▸ answer
  | _ => simp [Plain.isDictionary] at hc

/-- What commands answer for a finite map one after the other, and the finite map they leave. -/
inductive AnswersAll : List (Plain κ ν) → Dict κ ν → List (Reply κ ν) → Dict κ ν → Prop where
  | nil {d} : AnswersAll [] d [] d
  | cons {c cs d d' d'' r rs} (head : Answers c d r d') (tail : AnswersAll cs d' rs d'') :
      AnswersAll (c :: cs) d (r :: rs) d''

theorem Models.script {m : Map κ ν} {d : Dict κ ν} (h : Models m d) {cs : List (Plain κ ν)}
    (hcs : ∀ c ∈ cs, c.isDictionary) :
    Ends (fun rs m' => ∃ d', AnswersAll cs d rs d' ∧ Models m' d')
      ((runScript (cs.map .plain)).run m) := by
  induction cs generalizing m d with
  | nil =>
    rw [List.map_nil, runScript]
    exact ⟨d, .nil, h⟩
  | cons c cs ih =>
    rw [List.map_cons, runScript, Command.run]
    refine .bind (h.plain (hcs c List.mem_cons_self)) fun r m' ⟨d', head, h'⟩ => ?_
    refine .map (ih h' fun c hc => hcs c (List.mem_cons_of_mem _ hc)) fun rs m'' h'' => ?_
    obtain ⟨d'', tail, h''⟩ := h''
    exact ⟨d'', .cons head tail, h''⟩

/-- Commands on a new map answer what they answer for an empty finite map, and the map is left with
exactly the entries of the finite map. A run that ends early has brought a stripe to its limit. -/
theorem runScript_refines {c : Config} (ok : c.check = .ok ()) (hasher : Hasher κ)
    (salts : Nat → UInt64) {cs : List (Plain κ ν)} (hcs : ∀ c ∈ cs, c.isDictionary) :
    match (runScript (cs.map .plain)).run (ofConfig c hasher salts) with
    | .ok rs m => ∃ d, AnswersAll cs ∅ rs d ∧ Dict.Listed d m.pairs
    | .error f m => ∃ s, f = .stripeOverflow s ∧ m.AtLimit s := by
  have new : Models (Map.ofConfig c hasher salts : Map κ ν) ∅ := .ofConfig ok hasher salts
  have ends := new.script hcs
  cases run : (runScript (cs.map .plain)).run (Map.ofConfig c hasher salts) with
  | ok rs m =>
    rw [run] at ends
    obtain ⟨d, answers, h⟩ := ends
    exact ⟨d, answers, h.listed⟩
  | error f m =>
    rw [run] at ends
    exact ends

/-- Two keys in a map that grows on the way, a key that is there already, and one that is not. -/
theorem runScript_refines_four :
    let cs : List (Plain Nat Nat) := [.insertNew 1 5, .insertNew 32 6, .insertNew 1 7, .require 2]
    ∃ rs m d, (runScript (cs.map .plain)).run (ofConfig ⟨1, 1, true, .default, false⟩
        ⟨"identity", fun _ k => UInt64.ofNat k⟩ fun _ => 0) = .ok rs m ∧
      m.table.buckets.size = 11 ∧ AnswersAll cs ∅ rs d ∧ Dict.Listed d m.pairs := by
  intro cs
  have dictionary : ∀ c ∈ cs, c.isDictionary := by decide
  have refines := runScript_refines (c := ⟨1, 1, true, .default, false⟩) rfl
    ⟨"identity", fun _ k => UInt64.ofNat k⟩ (fun _ => 0) dictionary
  have buckets : (match (runScript (cs.map .plain)).run (ofConfig ⟨1, 1, true, .default, false⟩
        ⟨"identity", fun _ k => UInt64.ofNat k⟩ fun _ => 0) with
      | .ok _ m => m.table.buckets.size
      | .error .. => 0) = 11 := by decide +kernel
  cases run : (runScript (cs.map .plain)).run (ofConfig ⟨1, 1, true, .default, false⟩
      ⟨"identity", fun _ k => UInt64.ofNat k⟩ fun _ => 0) with
  | ok rs m =>
    rw [run] at refines buckets
    obtain ⟨d, h⟩ := refines
    exact ⟨rs, m, d, rfl, buckets, h⟩
  | error f m =>
    rw [run] at buckets
    simp at buckets

end Map

end SharedCollections
