import Mathlib.Data.List.Perm.Basic
import SharedCollections.Proofs.Map.Single
/-!
# Independent threads

Threads that work on keys of their own do not notice each other. In whatever order their commands
come, each is answered alike, and the map is left with the same entries
(`Independent.schedule_irrelevant`), though it may have grown at other times, have another size and
other chains, and have regenerated its hashes or not. Threads may share a key, too, as long as all
that they do with it is to increment it: a sum does not depend on the order, even where it wraps.
-/

namespace SharedCollections

namespace Map

variable {κ ν α β : Type}

/-! ## Orders of commands -/

/-- Commands of several threads in an order in which they can come, each with the number of its
thread. -/
def Interleaves (threads : Nat → List α) (order : List (Nat × α)) : Prop :=
  ∀ i, (order.filter (·.1 = i)).map (·.2) = threads i

/-- The commands of thread `i`, with the answers to them. -/
def answered (i : Nat) (order : List (Nat × α)) (rs : List β) : List (α × β) :=
  ((order.zip rs).filter (·.1.1 = i)).map fun x => (x.1.2, x.2)

namespace Interleaves

variable {threads : Nat → List α} {order order' : List (Nat × α)}

theorem mem (h : Interleaves threads order) {x : Nat × α} (hx : x ∈ order) :
    x.2 ∈ threads x.1 := by
  rw [← h x.1]
  exact List.mem_map_of_mem (List.mem_filter.mpr ⟨hx, by simp⟩)

theorem filter_eq (h : Interleaves threads order) (i : Nat) :
    order.filter (·.1 = i) = (threads i).map (i, ·) := by
  have fst : ∀ x ∈ order.filter (·.1 = i), (i, x.2) = x := by
    rintro ⟨j, a⟩ hx
    have here : j = i := by simpa using (List.mem_filter.mp hx).2
    rw [here]
  rw [← h i, List.map_map]
  exact ((List.map_congr_left fst).trans (List.map_id _)).symm

/-- Each thread's commands come in any two orders as often. -/
theorem perm (h : Interleaves threads order) (h' : Interleaves threads order') :
    order.Perm order' := by
  classical
  refine List.perm_iff_count.mpr fun x => ?_
  have own (order : List (Nat × α)) : order.count x = (order.filter (·.1 = x.1)).count x :=
    (List.count_filter (by simp)).symm
  rw [own order, own order', h.filter_eq, h'.filter_eq]

/-- The commands that only one thread has come in the same order in both. -/
theorem filter_congr (h : Interleaves threads order) (h' : Interleaves threads order')
    {p : α → Bool} (own : ∀ i j, ∀ a ∈ threads i, ∀ b ∈ threads j, p a → p b → i = j) :
    order.filter (p ·.2) = order'.filter (p ·.2) := by
  by_cases some : ∃ i, ∃ a ∈ threads i, p a
  · obtain ⟨i, a, ha, pa⟩ := some
    have here {order : List (Nat × α)} (h : Interleaves threads order) :
        order.filter (p ·.2) = ((threads i).map (i, ·)).filter (p ·.2) := by
      rw [← h.filter_eq i, List.filter_filter]
      refine List.filter_congr fun x hx => ?_
      by_cases px : p x.2
      · simp [px, own x.1 i x.2 (h.mem hx) a ha px pa]
      · simp [px]
    rw [here h, here h']
  · have nothing {order : List (Nat × α)} (h : Interleaves threads order) :
        order.filter (p ·.2) = [] :=
      List.filter_eq_nil_iff.mpr fun x hx px => some ⟨x.1, x.2, h.mem hx, px⟩
    rw [nothing h, nothing h']

/-- Every command of a thread has its answer. -/
theorem fst_answered (h : Interleaves threads order) {rs : List β}
    (length : rs.length = order.length) (i : Nat) :
    (answered i order rs).map (·.1) = threads i := by
  have firsts : (order.zip rs).map Prod.fst = order := List.map_fst_zip length.ge
  calc (answered i order rs).map (·.1)
      = (((order.zip rs).map Prod.fst).filter (·.1 = i)).map (·.2) := by
        rw [answered, List.filter_map, List.map_map, List.map_map]
        rfl
    _ = threads i := by rw [firsts, h i]

/-- What one thread has of commands that only it has is all that there is of them. -/
theorem filter_answered (h : Interleaves threads order) {rs : List β} {p : α → Bool} {i : Nat}
    (own : ∀ j, ∀ a ∈ threads j, p a → j = i) :
    (answered i order rs).filter (p ·.1) = ((order.map (·.2)).zip rs).filter (p ·.1) := by
  rw [answered, List.filter_map, List.filter_filter, List.zip_map_left, List.filter_map]
  refine congrArg (List.map _) (List.filter_congr fun x hx => ?_)
  have here : x.1 ∈ order := (List.of_mem_zip hx).1
  by_cases px : p x.1.2
  · simp [px, own x.1.1 x.1.2 (h.mem here) px]
  · simp [px]

end Interleaves

/-- Pairs whose first parts are the same agree where they agree among those that `p` selects. -/
theorem getElem?_eq_of_filter_eq {p : α → Bool} {xs ys : List (α × β)}
    (fst : xs.map (·.1) = ys.map (·.1)) (selected : xs.filter (p ·.1) = ys.filter (p ·.1)) {j : Nat}
    {a : α} {b : β} (here : xs[j]? = some (a, b)) (pa : p a) : ys[j]? = some (a, b) := by
  induction xs generalizing ys j with
  | nil => cases here
  | cons x xs ih =>
    cases ys with
    | nil => cases fst
    | cons y ys =>
      obtain ⟨first, rest⟩ := List.cons.inj fst
      replace first : x.1 = y.1 := first
      by_cases px : p x.1
      · have py : p y.1 := by rwa [← first]
        rw [List.filter_cons_of_pos (by exact px),
          List.filter_cons_of_pos (by exact py)] at selected
        obtain ⟨rfl, others⟩ := List.cons.inj selected
        cases j with
        | zero => exact here
        | succ j => exact ih rest others here
      · have py : ¬p y.1 := by rwa [← first]
        rw [List.filter_cons_of_neg (by exact px),
          List.filter_cons_of_neg (by exact py)] at selected
        cases j with
        | zero =>
          cases here
          exact absurd pa px
        | succ j => exact ih rest selected here

/-! ## Increments -/

/-- Adds `n` to the integer that `k` has, or gives `k` the value `n`. -/
def increment (k : κ) (n : Int) : Command κ Payload :=
  .upsert k (.int n) [] fun _ current => .ok ((current.getD (.int 0)).plus n)

/-- The value of a key after adding `n` to it. -/
theorem onKey_increment (k : κ) (n : Int) (current : Option Payload) :
    ((increment k n).onKey current).2 =
      some (match current with
        | none => .int n
        | some v => v.plus n) := by
  cases current <;> rfl

theorem wrapAdd_right_comm (a b c : Int) : Payload.wrapAdd (Payload.wrapAdd a b) c =
    Payload.wrapAdd (Payload.wrapAdd a c) b := by
  simp only [Payload.wrapAdd, Int.bmod_add_bmod, Int.add_right_comm]

theorem onKey_increment_comm (k : κ) (m n : Int) (current : Option Payload) :
    ((increment k m).onKey ((increment k n).onKey current).2).2 =
      ((increment k n).onKey ((increment k m).onKey current).2).2 := by
  simp only [onKey_increment]
  match current with
  | none => exact congrArg (fun a => some (Payload.int (a.bmod Word.limit))) (Int.add_comm n m)
  | some (.int a) => exact congrArg (some ∘ Payload.int) (wrapAdd_right_comm a n m)
  | some (.text _) => rfl
  | some (.list _) => rfl

/-- The order of increments does not matter. -/
theorem foldl_onKey_perm {k : κ} {cs cs' : List (Command κ Payload)} (perm : cs.Perm cs')
    (increments : ∀ c ∈ cs, ∃ n, c = increment k n) (current : Option Payload) :
    cs.foldl (fun current c => (c.onKey current).2) current =
      cs'.foldl (fun current c => (c.onKey current).2) current := by
  refine perm.foldl_eq' (fun c hc c' hc' current => ?_) current
  obtain ⟨n, rfl⟩ := increments c hc
  obtain ⟨n', rfl⟩ := increments c' hc'
  exact onKey_increment_comm k n' n current

/-! ## Independent threads -/

variable [DecidableEq κ]

/-- Threads that run commands on one key each, and share a key only where all that they do with it
is to increment it. -/
structure Independent (shared : κ → Prop) (threads : Nat → List (Command κ Payload)) : Prop where
  single : ∀ i, ∀ c ∈ threads i, c.key?.isSome
  own : ∀ k, ¬shared k → ∀ i j, ∀ c ∈ threads i, ∀ c' ∈ threads j, c.key? = some k →
    c'.key? = some k → i = j
  increments : ∀ k, shared k → ∀ i, ∀ c ∈ threads i, c.key? = some k → ∃ n, c = increment k n

/-- A reached map has the entries of some finite map. -/
theorem Reached.exists_models {m : Map κ ν} (h : Reached HasRoom m) : ∃ d, Models m d := by
  let entries : List (Sigma fun _ : κ => ν) := m.pairs.map fun e => ⟨e.1, e.2⟩
  have keys : entries.NodupKeys := by
    rw [List.NodupKeys, List.keys, List.map_map]
    exact h.sound.keys_nodup
  refine ⟨entries.toFinmap, h.sound, h.counted, fun k v => ?_⟩
  rw [Finmap.dlookup_list_toFinmap, ← Option.mem_def, List.mem_dlookup_iff keys, List.mem_map]
  constructor
  · exact fun here => ⟨(k, v), here, rfl⟩
  · rintro ⟨⟨k', v'⟩, here, eq⟩
    cases eq
    exact here

namespace Models

variable {m m' : Map κ ν} {d : Dict κ ν}

/-- Maps that have the entries of one finite map have the same entries. -/
theorem pairs_perm (h : Models m d) (h' : Models m' d) : m.pairs.Perm m'.pairs :=
  (List.perm_ext_iff_of_nodup h.listed.1 h'.listed.1).mpr fun (k, v) =>
    (h.mem_pairs k v).trans (h'.mem_pairs k v).symm

theorem exists_run_size (h : Models m d) :
    ∃ t, size.run m = .ok (d.keys.card % Word.limit) t := by
  obtain ⟨trace, run⟩ := exists_run_exclusively Table.total m
  rw [h.counted.total_eq h.sound, ← h.card_keys] at run
  exact ⟨_, run⟩

end Models

/-- The commands on a key, with the answers to them. -/
theorem filter_key?_zip [DecidableEq ν] {cs : List (Command κ ν)} {rs : List (Reply κ ν)}
    (length : rs.length = cs.length) {k : κ} : (cs.zip rs).filter (·.1.key? = some k) =
      (cs.filter (·.key? = some k)).zip (repliesOn k cs rs) := by
  refine List.zip_of_prod ?_ rfl
  have firsts : (cs.zip rs).map Prod.fst = cs := List.map_fst_zip length.ge
  conv_rhs => rw [← firsts, List.filter_map]
  rfl

namespace Independent

variable {shared : κ → Prop} {threads : Nat → List (Command κ Payload)}
  {order order' : List (Nat × Command κ Payload)}

omit [DecidableEq κ] in
theorem isSome_key? (independent : Independent shared threads) (h : Interleaves threads order) :
    ∀ c ∈ order.map (·.2), c.key?.isSome := by
  intro c hc
  obtain ⟨x, hx, rfl⟩ := List.mem_map.mp hc
  exact independent.single x.1 x.2 (h.mem hx)

/-- The commands on a key that is not shared come in the same order in both. -/
theorem filter_key?_eq (independent : Independent shared threads) (h : Interleaves threads order)
    (h' : Interleaves threads order') {k : κ} (unshared : ¬shared k) :
    (order.map (·.2)).filter (·.key? = some k) = (order'.map (·.2)).filter (·.key? = some k) := by
  rw [List.filter_map, List.filter_map]
  refine congrArg (List.map _) (h.filter_congr h' (p := (·.key? = some k)) ?_)
  intro i j c hc c' hc' key key'
  exact independent.own k unshared i j c hc c' hc' (of_decide_eq_true key) (of_decide_eq_true key')

/-- Two orders leave each key with the same value. -/
theorem replay_snd_eq (independent : Independent shared threads) (h : Interleaves threads order)
    (h' : Interleaves threads order') (k : κ) (current : Option Payload) :
    (Command.replay ((order.map (·.2)).filter (·.key? = some k)) current).2 =
      (Command.replay ((order'.map (·.2)).filter (·.key? = some k)) current).2 := by
  by_cases common : shared k
  · rw [Command.replay_snd, Command.replay_snd]
    refine foldl_onKey_perm (k := k) (((h.perm h').map _).filter _) (fun c hc => ?_) current
    obtain ⟨here, key⟩ := List.mem_filter.mp hc
    obtain ⟨x, hx, rfl⟩ := List.mem_map.mp here
    exact independent.increments k common x.1 x.2 (h.mem hx) (by simpa using key)
  · rw [independent.filter_key?_eq h h' common]

/-- In any two orders in which the commands of independent threads can come, every command on a key
that is not shared is answered alike, and the map is left with the same entries and the same size,
unless a stripe overflows. The map may be another one of the same entries, with another number of
buckets, say, or with other salts to come. -/
theorem schedule_irrelevant {m m' : Map κ Payload} (reached : Reached HasRoom m)
    (reached' : Reached HasRoom m') (same : m.pairs.Perm m'.pairs)
    (independent : Independent shared threads) (h : Interleaves threads order)
    (h' : Interleaves threads order') :
    ∃ rs w rs' w', (runEach (order.map (·.2))).run m = .ok rs w ∧
      (runEach (order'.map (·.2))).run m' = .ok rs' w' ∧
      ((∀ s, .fault (.stripeOverflow s) ∉ rs) → (∀ s, .fault (.stripeOverflow s) ∉ rs') →
        (∀ (i j : Nat) (c : Command κ Payload) (k : κ),
          (threads i)[j]? = some c → c.key? = some k → ¬shared k →
          ∃ r, (answered i order rs)[j]? = some (c, r) ∧
            (answered i order' rs')[j]? = some (c, r)) ∧
        w.pairs.Perm w'.pairs ∧
        ∃ n t t', size.run w = .ok n t ∧ size.run w' = .ok n t') := by
  obtain ⟨d, models⟩ := reached.exists_models
  have models' : Models m' d := ⟨reached'.sound, reached'.counted, fun k v =>
    same.mem_iff.symm.trans (models.mem_pairs k v)⟩
  obtain ⟨rs, w, run, length⟩ := exists_run_runEach (order.map (·.2)) m
  obtain ⟨rs', w', run', length'⟩ := exists_run_runEach (order'.map (·.2)) m'
  rw [List.length_map] at length length'
  refine ⟨rs, w, rs', w', run, run', fun fits fits' => ?_⟩
  obtain ⟨e, left, history⟩ := models.history (independent.isSome_key? h) run fits
  obtain ⟨e', left', history'⟩ := models'.history (independent.isSome_key? h') run' fits'
  obtain rfl : e = e' := by
    refine Finmap.ext_lookup fun k => ?_
    have values := independent.replay_snd_eq h h' k (d.lookup k)
    rwa [history k, history' k] at values
  obtain ⟨t, size⟩ := left.exists_run_size
  obtain ⟨t', size'⟩ := left'.exists_run_size
  refine ⟨fun i j c k here key unshared => ?_, left.pairs_perm left', _, t, t', size, size'⟩
  have own : ∀ i', ∀ c' ∈ threads i', c'.key? = some k → i' = i := fun i' c' hc' key' =>
    independent.own k unshared i' i c' hc' c (List.mem_of_getElem? here) key' key
  -- the commands on `k` and their answers are the same in both orders
  have commands := independent.filter_key?_eq h h' unshared
  have replies : repliesOn k (order.map (·.2)) rs = repliesOn k (order'.map (·.2)) rs' := by
    have answers := congrArg Prod.fst (history k)
    rw [commands, history' k] at answers
    exact answers.symm
  have selected : (answered i order rs).filter (·.1.key? = some k) =
      (answered i order' rs').filter (·.1.key? = some k) := by
    have only : ∀ i', ∀ c' ∈ threads i', decide (c'.key? = some k) → i' = i :=
      fun i' c' hc' key' => own i' c' hc' (of_decide_eq_true key')
    rw [h.filter_answered only, h'.filter_answered only]
    rw [filter_key?_zip (by rw [List.length_map, length]),
      filter_key?_zip (by rw [List.length_map, length']), commands, replies]
  have fst := h.fst_answered length i
  obtain ⟨r, hr⟩ : ∃ r, (answered i order rs)[j]? = some (c, r) := by
    rw [← fst, List.getElem?_map, Option.map_eq_some_iff] at here
    obtain ⟨⟨c', r⟩, hr, rfl⟩ := here
    exact ⟨r, hr⟩
  exact ⟨r, hr, getElem?_eq_of_filter_eq (p := (·.key? = some k))
    (fst.trans (h'.fst_answered length' i).symm) selected hr (decide_eq_true key)⟩

/-- Two threads with a key of their own each and a counter that they share. In one order the table
never holds more than two entries; in the other it holds three, and grows. -/
theorem schedule_irrelevant_counter :
    let c : Config := ⟨2, 1, true, .default, false⟩
    let m : Map Nat Payload := ofConfig c ⟨"identity", fun _ k => UInt64.ofNat k⟩ fun _ => 0
    let order : List (Nat × Command Nat Payload) :=
      [(0, increment 9 1), (1, increment 9 2), (0, .plain (.insertNew 1 (.int 5))),
        (0, .plain (.erase? 1)), (1, .plain (.insertNew 32 (.int 6)))]
    let order' : List (Nat × Command Nat Payload) :=
      [(0, increment 9 1), (0, .plain (.insertNew 1 (.int 5))), (1, increment 9 2),
        (1, .plain (.insertNew 32 (.int 6))), (0, .plain (.erase? 1))]
    ∃ rs w rs' w', (runEach (order.map (·.2))).run m = .ok rs w ∧
      (runEach (order'.map (·.2))).run m = .ok rs' w' ∧
      w.table.buckets.size = 2 ∧ w'.table.buckets.size = 11 ∧
      (∃ r, (answered 0 order rs)[2]? = some (.plain (.erase? 1), r) ∧
        (answered 0 order' rs')[2]? = some (.plain (.erase? 1), r)) ∧
      w.pairs.Perm w'.pairs := by
  intro c m order order'
  let threads : Nat → List (Command Nat Payload)
    | 0 => [increment 9 1, .plain (.insertNew 1 (.int 5)), .plain (.erase? 1)]
    | 1 => [increment 9 2, .plain (.insertNew 32 (.int 6))]
    | _ => []
  have reached : Reached HasRoom m := .new rfl _ _
  have independent : Independent (· = 9) threads := by
    constructor
    case single =>
      rintro (_ | _ | i) <;> simp [threads, increment, Command.key?]
    case own =>
      rintro k other (_ | _ | i) (_ | _ | j) <;> simp [threads, increment, Command.key?] <;> omega
    case increments =>
      rintro k rfl (_ | _ | i) <;> simp [threads, increment, Command.key?]
  have h : Interleaves threads order := by
    rintro (_ | _ | i) <;> rfl
  have h' : Interleaves threads order' := by
    rintro (_ | _ | i) <;> rfl
  obtain ⟨rs, w, rs', w', run, run', alike⟩ :=
    schedule_irrelevant reached reached (.refl _) independent h h'
  have ends : (match (runEach (order.map (·.2))).run m with
      | .ok rs w => rs.all (fun r => !r matches .fault _) && w.table.buckets.size == 2
      | .error .. => false) = true := by decide +kernel
  have ends' : (match (runEach (order'.map (·.2))).run m with
      | .ok rs w => rs.all (fun r => !r matches .fault _) && w.table.buckets.size == 11
      | .error .. => false) = true := by decide +kernel
  rw [run] at ends
  rw [run'] at ends'
  simp only [Bool.and_eq_true, List.all_eq_true, beq_iff_eq] at ends ends'
  have fits : ∀ s, .fault (.stripeOverflow s) ∉ rs := fun s hs => nomatch ends.1 _ hs
  have fits' : ∀ s, .fault (.stripeOverflow s) ∉ rs' := fun s hs => nomatch ends'.1 _ hs
  obtain ⟨answers, entries, -⟩ := alike fits fits'
  exact ⟨rs, w, rs', w', run, run', ends.2, ends'.2, answers 0 2 _ 1 rfl rfl (by decide), entries⟩

end Independent

end Map

end SharedCollections
