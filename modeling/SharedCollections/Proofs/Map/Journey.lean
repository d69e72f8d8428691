import SharedCollections.Proofs.Map.Trail
/-!
# Journeys of a cursor

A cursor gives entries while parts of operations change the map between its calls (`Journey`). It
gives no key twice; what it gives has been an entry of the map since it was opened; and a key that
has been there all the time is not left out. The invariant is `Course`. It says where the keys stand
that were given, and those that are to come in the bucket entered last, which make up a trail.
-/

namespace SharedCollections

namespace Map

variable {κ ν : Type}

/-! ## Looking for a bucket -/

/-- What a cursor finds when it goes on to the next chain. -/
theorem Table.seek_spec (t : Table κ ν) (room b : Nat) :
    match t.seek room b with
    | (some e, b') => ∃ i es, b' = i + 1 ∧ b ≤ i ∧ t.chain i = e :: es ∧
        ∀ j, b ≤ j → j < i → t.chain j = []
    | (none, b') => b' = b + room ∧ ∀ j, b ≤ j → j < b' → t.chain j = [] := by
  induction room generalizing b with
  | zero => exact ⟨rfl, fun j _ _ => by omega⟩
  | succ room ih =>
    cases chain : t.chain b with
    | cons e es =>
      simp only [seek, chain]
      exact ⟨b, es, rfl, le_rfl, chain, fun j _ _ => by omega⟩
    | nil =>
      simp only [seek, chain]
      have rest := ih (b + 1)
      have passed : ∀ j, b ≤ j → (b + 1 ≤ j → t.chain j = []) → t.chain j = [] := by
        intro j hj later
        rcases Nat.eq_or_lt_of_le hj with rfl | hj
        · exact chain
        · exact later hj
      split at rest
      · obtain ⟨i, es, rfl, hi, here, empty⟩ := rest
        exact ⟨i, es, rfl, by omega, here, fun j hj hi => passed j hj fun hj => empty j hj hi⟩
      · obtain ⟨rfl, empty⟩ := rest
        exact ⟨by omega, fun j hj hi => passed j hj fun hj => empty j hj hi⟩

/-! ## Journeys -/

/-- What can happen next while a cursor is open. -/
inductive Move (κ ν : Type) where
  | next
  | part (p : Part κ ν)

/-- A cursor on its way, and what there was since it was opened. -/
structure Journey (κ ν : Type) where
  map : Map κ ν
  cursor : Cursor κ ν
  /-- The map at every moment, the current one last. -/
  moments : List (Map κ ν)
  /-- The entries that were given, each with its bucket. -/
  given : List (Nat × κ × ν)

namespace Journey

/-- A cursor is opened. -/
def start (m : Map κ ν) : Journey κ ν := ⟨m, m.openCursor, [m], []⟩

variable (j : Journey κ ν)

/-- The table that is walked. -/
def table : Table κ ν := j.map.tableAt j.cursor.generation

/-- The bucket of a key in the table that is walked. -/
def home (k : κ) : Nat := j.table.bucketOf (j.map.hasher.hash j.table.salt k)

def keys : List κ := j.given.map (·.2.1)

/-- How many entries bucket `b` has given. -/
def countFrom (b : Nat) : Nat := j.given.countP (·.1 = b)

/-- The cursor is asked for the next entry. -/
def next : Journey κ ν :=
  let (x, cursor) := j.cursor.next? j.map
  { j with cursor, given := j.given ++ (x.map (cursor.bucket - 1, ·)).toList }

variable [DecidableEq κ]

def move (j : Journey κ ν) : Move κ ν → Journey κ ν
  | .next => j.next
  | .part p => { j with map := p.after j.map, moments := j.moments ++ [p.after j.map] }

def follow (moves : List (Move κ ν)) : Journey κ ν := moves.foldl move j

/-- `x` has been an entry of the map. -/
def Was (x : κ × ν) : Prop := ∃ m ∈ j.moments, x ∈ m.pairs

/-- `k` has been in the map all the time. -/
def Stayed (k : κ) : Prop := ∀ m ∈ j.moments, m.contains k

/-! ## The course of a journey -/

/-- Where a journey stands, with the entries `es` to come in the bucket entered last. -/
structure Course (j : Journey κ ν) (es : List (Entry κ ν)) : Prop where
  sound : j.map.Sound
  generation_le : j.cursor.generation ≤ j.map.retired.size
  now : j.map ∈ j.moments
  trail : Trail j.map j.cursor.generation (j.cursor.bucket - 1) es
  held : j.cursor.held = es.head?
  /-- The keys to come belong to the bucket entered last. -/
  ahead : ∀ k ∈ es.map Entry.key, j.home k + 1 = j.cursor.bucket
  /-- What was given came from the bucket of its key, which was entered. -/
  behind : ∀ y ∈ j.given, j.home y.2.1 = y.1 ∧ y.1 < j.cursor.bucket
  nodup : (j.keys ++ es.map Entry.key).Nodup
  table_was : ∀ e ∈ j.table.entries, j.Was e.pair
  trail_was : ∀ e ∈ es, j.Was e.pair
  table_has : ∀ k, j.Stayed k → k ∈ j.table.entries.map Entry.key
  /-- A key that stayed was given, or is to come, once its bucket was entered. -/
  seen : ∀ k, j.Stayed k → j.home k < j.cursor.bucket → k ∈ j.keys ∨ k ∈ es.map Entry.key

theorem mem_keys_of_contains {m : Map κ ν} {k : κ} (h : m.contains k) :
    k ∈ m.entries.map Entry.key := by
  obtain ⟨e, found⟩ := Option.isSome_iff_exists.mp h
  obtain ⟨he, rfl⟩ := mem_of_find?_eq_some found
  exact List.mem_map_of_mem he

omit [DecidableEq κ] in
theorem table_start (m : Map κ ν) : (start m).table = m.table := tableAt_of_size_le le_rfl

theorem course_start {m : Map κ ν} (h : m.Sound) : Course (start m) [] := by
  have now : m ∈ (start m).moments := List.mem_singleton_self m
  constructor
  case sound => exact h
  case generation_le => exact le_rfl
  case now => exact now
  case trail => exact .live List.nil_suffix
  case held => rfl
  case nodup => exact .nil
  case ahead | behind | trail_was | seen => exact nofun
  case table_was =>
    intro e he
    rw [table_start] at he
    exact ⟨m, now, List.mem_map_of_mem he⟩
  case table_has =>
    intro k stayed
    rw [table_start]
    exact mem_keys_of_contains (stayed m now)

namespace Course

variable {j : Journey κ ν} {es : List (Entry κ ν)}

/-! ### Parts of operations -/

theorem part (h : j.Course es) (p : Part κ ν) :
    ∃ es', (j.move (.part p)).Course es' ∧ (es'.map Entry.key).Sublist (es.map Entry.key) := by
  have c := p.change j.map
  obtain ⟨es', trail, carried⟩ := h.trail.change h.sound c h.generation_le
  have table : (j.move (.part p)).table = (p.after j.map).tableAt j.cursor.generation := rfl
  have home : ∀ k, (j.move (.part p)).home k = j.home k := by
    intro k
    have hasher : (j.move (.part p)).map.hasher = j.map.hasher := c.hasher_eq h.sound
    rw [Journey.home, table, hasher, Table.bucketOf, c.size_tableAt h.sound h.generation_le,
      c.salt_tableAt h.sound h.generation_le]
    rfl
  have earlier : ∀ {x}, j.Was x → (j.move (.part p)).Was x := by
    rintro x ⟨m, hm, hx⟩
    exact ⟨m, List.mem_append_left _ hm, hx⟩
  have now : p.after j.map ∈ (j.move (.part p)).moments :=
    List.mem_append_right _ (List.mem_singleton_self _)
  have stayed : ∀ {k}, (j.move (.part p)).Stayed k → j.Stayed k :=
    fun stayed m hm => stayed m (List.mem_append_left _ hm)
  refine ⟨es', ?_, carried.keys⟩
  constructor
  case sound => exact h.sound.change c
  case generation_le => exact h.generation_le.trans (c.size_retired_le h.sound)
  case now => exact now
  case trail => exact trail
  case held => exact h.held.trans carried.head.symm
  case ahead =>
    intro k hk
    rw [home]
    exact h.ahead k (carried.keys.subset hk)
  case behind =>
    intro y hy
    rw [home]
    exact h.behind y hy
  case nodup => exact h.nodup.sublist (carried.keys.append_left _)
  case table_was =>
    intro e he
    rcases c.tableAt_eq_or h.sound h.generation_le with same | ⟨-, current⟩
    · rw [table, same] at he
      exact earlier (h.table_was e he)
    · rw [table, current] at he
      exact ⟨_, now, List.mem_map_of_mem he⟩
  case trail_was =>
    intro e he
    rcases carried.new e he with he | he
    · exact earlier (h.trail_was e he)
    · exact ⟨_, now, List.mem_map_of_mem he⟩
  case table_has =>
    intro k hk
    rcases c.tableAt_eq_or h.sound h.generation_le with same | ⟨-, current⟩
    · rw [table, same]
      exact h.table_has k (stayed hk)
    · rw [table, current]
      exact mem_keys_of_contains (hk _ now)
  case seen =>
    -- a key that leaves the trail would have left the map, too
    intro k hk passed
    rw [home] at passed
    refine (h.seen k (stayed hk) passed).imp_right fun here => ?_
    by_contra lost
    obtain ⟨e, he, rfl⟩ := List.mem_map.mp here
    have gone := carried.lost e he lost
    have present := hk _ now
    rw [contains, gone] at present
    exact Bool.false_ne_true present

/-! ### Calls of the cursor -/

/-- What a cursor comes to stand on when it is asked, with `es'` to come instead of `es`. -/
inductive Settled (j : Journey κ ν) : List (Entry κ ν) → List (Entry κ ν) → Prop where
  | standing {e es} (same : j.cursor.settle j.map = j.cursor) : Settled j (e :: es) (e :: es)
  | entered {e es} (later : j.cursor.bucket < (j.cursor.settle j.map).bucket)
      (chain : j.table.chain ((j.cursor.settle j.map).bucket - 1) = e :: es) :
      Settled j [] (e :: es)
  | exhausted (later : j.cursor.bucket ≤ (j.cursor.settle j.map).bucket)
      (all : j.table.buckets.size ≤ (j.cursor.settle j.map).bucket) : Settled j [] []

theorem home_of_mem_chain (h : j.Course es) {b : Nat} {e : Entry κ ν}
    (he : e ∈ j.table.chain b) : j.home e.key = b := by
  have placed := (h.sound.tableAt j.cursor.generation).1
  rw [home, table, ← placed.hash_eq b e he]
  exact placed.bucket_eq b e he

theorem mem_chain_home (h : j.Course es) {e : Entry κ ν} (he : e ∈ j.table.entries) :
    e ∈ j.table.chain (j.home e.key) := by
  obtain ⟨b, he⟩ := j.table.mem_entries.mp he
  rwa [h.home_of_mem_chain he]

theorem home_lt_of_mem_keys (h : j.Course es) {k : κ} (hk : k ∈ j.keys) :
    j.home k < j.cursor.bucket := by
  obtain ⟨y, hy, rfl⟩ := List.mem_map.mp hk
  obtain ⟨eq, lt⟩ := h.behind y hy
  exact eq ▸ lt

/-- The cursor goes on to a later bucket, past chains that have nothing else to give. -/
theorem advance (h : j.Course []) {bucket : Nat} (later : j.cursor.bucket ≤ bucket)
    {es : List (Entry κ ν)} (suffix : es <:+ j.table.chain (bucket - 1))
    (inside : es ≠ [] → j.cursor.bucket < bucket)
    (passed : ∀ b, j.cursor.bucket ≤ b → b < bucket → j.table.chain b ⊆ es) :
    Course { j with cursor := { j.cursor with held := es.head?, bucket } } es := by
  have home : ∀ k ∈ es.map Entry.key, j.home k = bucket - 1 ∧ j.cursor.bucket < bucket := by
    intro k hk
    obtain ⟨e, he, rfl⟩ := List.mem_map.mp hk
    exact ⟨h.home_of_mem_chain (suffix.subset he), inside (List.ne_nil_of_mem he)⟩
  constructor
  case sound => exact h.sound
  case generation_le => exact h.generation_le
  case now => exact h.now
  case trail => exact .live suffix
  case held => rfl
  case ahead =>
    intro k hk
    have := home k hk
    change j.home k + 1 = bucket
    omega
  case behind =>
    intro y hy
    exact (h.behind y hy).imp_right fun before => before.trans_le later
  case nodup =>
    have placed := (h.sound.tableAt j.cursor.generation).1
    have distinct := Table.nodup_map_chain placed.keys_nodup (bucket - 1)
    refine List.nodup_append.mpr
      ⟨h.nodup.of_append_left, distinct.sublist (suffix.sublist.map _), ?_⟩
    rintro k hk _ hk' rfl
    have := h.home_lt_of_mem_keys hk
    have := home k hk'
    omega
  case table_was => exact h.table_was
  case trail_was =>
    intro e he
    exact h.table_was e (j.table.mem_entries.mpr ⟨_, suffix.subset he⟩)
  case table_has => exact h.table_has
  case seen =>
    intro k hk here
    by_cases before : j.home k < j.cursor.bucket
    · exact (h.seen k hk before).imp_right nofun
    · obtain ⟨e, he, rfl⟩ := List.mem_map.mp (h.table_has k hk)
      have he := passed _ (not_lt.mp before) here (h.mem_chain_home he)
      exact .inr (List.mem_map_of_mem he)

theorem settle (h : j.Course es) : ∃ es', Settled j es es' ∧
    Course { j with cursor := j.cursor.settle j.map } es' := by
  cases es with
  | cons e es =>
    have same : j.cursor.settle j.map = j.cursor := by
      rw [Cursor.settle, h.held]
      rfl
    exact ⟨e :: es, .standing same, same.symm ▸ h⟩
  | nil =>
    have held : j.cursor.held = none := h.held
    have found := j.table.seek_spec (j.table.buckets.size - j.cursor.bucket) j.cursor.bucket
    have settled : j.cursor.settle j.map = { j.cursor with
        held := (j.table.seek (j.table.buckets.size - j.cursor.bucket) j.cursor.bucket).1
        bucket := (j.table.seek (j.table.buckets.size - j.cursor.bucket) j.cursor.bucket).2 } := by
      rw [Cursor.settle, held]
      rfl
    split at found
    · next e b sought =>
      rw [sought] at settled
      obtain ⟨i, es, rfl, later, chain, empty⟩ := found
      refine ⟨e :: es, .entered ?_ ?_, ?_⟩
      · rw [settled]
        exact Nat.lt_succ_of_le later
      · rw [settled]
        exact chain
      · rw [settled]
        have suffix : e :: es <:+ j.table.chain (i + 1 - 1) := chain ▸ List.suffix_rfl
        refine h.advance (later.trans (Nat.le_succ i)) suffix
          (fun _ => Nat.lt_succ_of_le later) fun b hb hi => ?_
        rcases Nat.lt_succ_iff_lt_or_eq.mp hi with hi | rfl
        · rw [empty b hb hi]
          exact List.nil_subset _
        · exact chain ▸ List.Subset.refl _
    · next b sought =>
      rw [sought] at settled
      obtain ⟨rfl, empty⟩ := found
      refine ⟨[], .exhausted ?_ ?_, ?_⟩
      · rw [settled]
        exact Nat.le_add_right _ _
      · rw [settled]
        change _ ≤ j.cursor.bucket + (j.table.buckets.size - j.cursor.bucket)
        omega
      · rw [settled]
        refine h.advance (Nat.le_add_right _ _) List.nil_suffix (fun more => absurd rfl more)
          fun b hb hi => ?_
        rw [empty b hb hi]
        exact List.Subset.refl _

/-- The cursor gives the entry it stands on. -/
theorem give {e : Entry κ ν} (h : j.Course (e :: es)) :
    Course { j with
      cursor := { j.cursor with held := es.head? }
      given := j.given ++ [(j.cursor.bucket - 1, e.pair)] } es := by
  have keys : (j.given ++ [(j.cursor.bucket - 1, e.pair)]).map (·.2.1) = j.keys ++ [e.key] := by
    rw [List.map_append]
    rfl
  have ahead := h.ahead e.key List.mem_cons_self
  constructor
  case sound => exact h.sound
  case generation_le => exact h.generation_le
  case now => exact h.now
  case trail => exact h.trail.tail
  case held => rfl
  case ahead => exact fun k hk => h.ahead k (List.mem_cons_of_mem _ hk)
  case behind =>
    intro y hy
    rcases List.mem_append.mp hy with hy | hy
    · exact h.behind y hy
    · obtain rfl := List.mem_singleton.mp hy
      change j.home e.key = j.cursor.bucket - 1 ∧ j.cursor.bucket - 1 < j.cursor.bucket
      omega
  case nodup =>
    rw [Journey.keys, keys, List.append_assoc]
    exact h.nodup
  case table_was => exact h.table_was
  case trail_was => exact fun a ha => h.trail_was a (List.mem_cons_of_mem _ ha)
  case table_has => exact h.table_has
  case seen =>
    intro k hk here
    rw [Journey.keys, keys, List.mem_append, List.mem_singleton, or_assoc, ← List.mem_cons]
    exact h.seen k hk here

/-- What a call of the cursor comes to. -/
theorem next (h : j.Course es) : ∃ es', Settled j es es' ∧
    (∀ e ∈ es', j.Was e.pair) ∧
    (j.cursor.next? j.map).1 = es'.head?.map Entry.pair ∧
    j.next.table = j.table ∧
    j.next.cursor.bucket = (j.cursor.settle j.map).bucket ∧
    j.next.given = j.given ++
      (es'.head?.map fun e => ((j.cursor.settle j.map).bucket - 1, e.pair)).toList ∧
    j.next.Course es'.tail := by
  obtain ⟨es', settled, h'⟩ := h.settle
  have table : j.map.tableAt (j.cursor.settle j.map).generation = j.table := by
    rw [Cursor.settle]
    split <;> rfl
  refine ⟨es', settled, h'.trail_was, ?_⟩
  cases es' with
  | nil =>
    have asked : j.cursor.next? j.map = (none, j.cursor.settle j.map) := by
      rw [Cursor.next?, show (j.cursor.settle j.map).held = none from h'.held]
    have next : j.next = { j with cursor := j.cursor.settle j.map } := by
      rw [Journey.next, asked]
      simp
    rw [next, asked]
    exact ⟨rfl, table, rfl, (List.append_nil _).symm, h'⟩
  | cons e es' =>
    have link := h'.trail.follower_eq h'.sound
    have asked : j.cursor.next? j.map =
        (some e.pair, { j.cursor.settle j.map with held := es'.head? }) := by
      rw [Cursor.next?, show (j.cursor.settle j.map).held = some e from h'.held, ← link]
    have next : j.next = { j with
        cursor := { j.cursor.settle j.map with held := es'.head? }
        given := j.given ++ [((j.cursor.settle j.map).bucket - 1, e.pair)] } := by
      rw [Journey.next, asked]
      rfl
    rw [next, asked]
    exact ⟨rfl, table, rfl, rfl, h'.give⟩

end Course

/-! ## How much a bucket gives -/

/-- Bucket `b` was entered and gives at most `n` entries, those to come included. -/
def Spent (b n : Nat) (j : Journey κ ν) (es : List (Entry κ ν)) : Prop :=
  b < j.cursor.bucket ∧
    j.countFrom b + (if j.cursor.bucket = b + 1 then es.length else 0) ≤ n

namespace Course

variable {j : Journey κ ν} {es : List (Entry κ ν)}

/-- A move keeps a journey on its course and a bucket within its bound. -/
theorem move (h : j.Course es) (mv : Move κ ν) :
    ∃ es', (j.move mv).Course es' ∧ ∀ b n, Spent b n j es → Spent b n (j.move mv) es' := by
  cases mv with
  | part p =>
    obtain ⟨es', h', sublist⟩ := h.part p
    refine ⟨es', h', fun b n ⟨entered, spent⟩ => ⟨entered, le_trans ?_ spent⟩⟩
    have shorter : es'.length ≤ es.length := by simpa using sublist.length_le
    change j.countFrom b + (if j.cursor.bucket = b + 1 then es'.length else 0) ≤ _
    split <;> omega
  | next =>
    obtain ⟨es', settled, -, -, -, bucket, given, h'⟩ := h.next
    refine ⟨es'.tail, h', fun b n ⟨entered, spent⟩ => ?_⟩
    change b < j.next.cursor.bucket ∧ j.next.countFrom b +
      (if j.next.cursor.bucket = b + 1 then es'.tail.length else 0) ≤ n
    rw [countFrom, given, bucket, List.countP_append, ← countFrom]
    cases settled with
    | @standing e es same =>
      rw [same]
      refine ⟨entered, ?_⟩
      simp only [List.head?_cons, Option.map_some, Option.toList_some, List.countP_singleton,
        List.tail_cons, decide_eq_true_eq]
      rw [List.length_cons] at spent
      split at spent <;> split <;> omega
    | entered later chain =>
      refine ⟨entered.trans later, ?_⟩
      simp only [List.head?_cons, Option.map_some, Option.toList_some, List.countP_singleton,
        decide_eq_true_eq]
      rw [if_neg (by omega), if_neg (by omega)]
      omega
    | exhausted later =>
      refine ⟨entered.trans_le later, ?_⟩
      simpa using spent

theorem follow (h : j.Course es) (moves : List (Move κ ν)) :
    ∃ es', (j.follow moves).Course es' ∧
      ∀ b n, Spent b n j es → Spent b n (j.follow moves) es' := by
  induction moves generalizing j es with
  | nil => exact ⟨es, h, fun _ _ => id⟩
  | cons mv moves ih =>
    obtain ⟨es₁, h₁, spent₁⟩ := h.move mv
    obtain ⟨es₂, h₂, spent₂⟩ := ih h₁
    exact ⟨es₂, h₂, fun b n spent => spent₂ b n (spent₁ b n spent)⟩

end Course

/-! ## The end of a journey -/

/-- The cursor has nothing left to give. -/
def Done (j : Journey κ ν) : Prop :=
  j.cursor.held = none ∧ j.table.buckets.size ≤ j.cursor.bucket

namespace Done

variable {j : Journey κ ν} {es : List (Entry κ ν)}

omit [DecidableEq κ] in
theorem next?_eq (h : j.Done) : j.cursor.next? j.map = (none, j.cursor) := by
  obtain ⟨held, all⟩ := h
  have settle : j.cursor.settle j.map = j.cursor := by
    have room : (j.map.tableAt j.cursor.generation).buckets.size - j.cursor.bucket = 0 :=
      Nat.sub_eq_zero_of_le all
    rw [Cursor.settle, held]
    simp only [room, Table.seek]
    rw [← held]
  rw [Cursor.next?, settle, held]

theorem move (h : j.Done) (course : j.Course es) (mv : Move κ ν) : (j.move mv).Done := by
  cases mv with
  | next =>
    change j.next.Done
    rw [Journey.next, h.next?_eq]
    exact h
  | part p =>
    refine ⟨h.1, ?_⟩
    exact ((p.change j.map).size_tableAt course.sound course.generation_le).le.trans h.2

theorem follow (h : j.Done) (course : j.Course es) (moves : List (Move κ ν)) :
    (j.follow moves).Done := by
  induction moves generalizing j es with
  | nil => exact h
  | cons mv moves ih =>
    obtain ⟨es', course', -⟩ := course.move mv
    exact ih (h.move course mv) course'

end Done

namespace Course

variable {j : Journey κ ν} {es : List (Entry κ ν)}

theorem home_lt (h : j.Course es) (k : κ) : j.home k < j.table.buckets.size :=
  j.table.bucketOf_lt (h.sound.tableAt _).1.buckets_pos _

/-- A cursor that has nothing to give has given every key that stayed, and is done. -/
theorem of_next?_eq_none (h : j.Course es) (asked : (j.cursor.next? j.map).1 = none) :
    (∀ k, j.Stayed k → j.keys.count k = 1) ∧ j.next.Done := by
  obtain ⟨es', settled, -, answer, table, bucket, given, h'⟩ := h.next
  rw [asked] at answer
  cases settled with
  | standing | entered => simp at answer
  | exhausted later all =>
    have keys : j.next.keys = j.keys := by
      rw [Journey.keys, given]
      exact congrArg _ (List.append_nil _)
    have everywhere : ∀ k, j.next.home k < j.next.cursor.bucket := by
      intro k
      refine (h'.home_lt k).trans_le ?_
      rw [table, bucket]
      exact all
    refine ⟨fun k stayed => List.count_eq_one_of_mem h.nodup.of_append_left ?_, h'.held, ?_⟩
    · have given := (h'.seen k stayed (everywhere k)).resolve_right nofun
      rwa [keys] at given
    · rw [table, bucket]
      exact all

/-- A bucket that the cursor enters gives at most the entries that it has at that moment. -/
theorem spent_of_entered (h : j.Course es) {b : Nat} (held : j.cursor.held = none) {x : κ × ν}
    (asked : (j.cursor.next? j.map).1 = some x) (here : j.next.cursor.bucket = b + 1) :
    ∃ es', j.next.Course es' ∧ Spent b (j.table.chain b).length j.next es' := by
  obtain ⟨es', settled, -, answer, -, bucket, given, h'⟩ := h.next
  refine ⟨es'.tail, h', ?_⟩
  rw [bucket] at here
  cases settled with
  | standing =>
    rw [h.held] at held
    simp at held
  | exhausted =>
    rw [asked] at answer
    simp at answer
  | entered later chain =>
    rw [here] at later chain given
    have before : j.countFrom b = 0 := by
      refine List.countP_eq_zero.mpr fun y hy => ?_
      have := (h.behind y hy).2
      simp only [decide_eq_true_eq]
      omega
    rw [Nat.add_sub_cancel] at chain given
    rw [Spent, bucket, here, countFrom, given, List.countP_append, ← countFrom, before, chain]
    simp
    omega

end Course

theorem map_follow_parts (j : Journey κ ν) (parts : List (Part κ ν)) :
    (j.follow (parts.map Move.part)).map = Part.afterAll parts j.map := by
  induction parts generalizing j with
  | nil => rfl
  | cons p parts ih => exact ih (j.move (.part p))

/-- A cursor on a map that changes gives no key twice; it gives what has been an entry of the map
since it was opened; once it has nothing to give, every key that stayed was given exactly once, and
nothing is given later; and a bucket that it enters gives at most the entries it has at that moment.
A use of the map leads to parts of operations only, so the parts may come from any uses of it. -/
theorem weakly_consistent {m : Map κ ν} (h : Reached (fun _ => True) m) (moves : List (Move κ ν)) :
    let j := (start m).follow moves
    j.keys.Nodup ∧
    (∀ x, (j.cursor.next? j.map).1 = some x → j.Was x) ∧
    ((j.cursor.next? j.map).1 = none →
      (∀ k, j.Stayed k → j.keys.count k = 1) ∧
      ∀ later, ((j.next.follow later).cursor.next? (j.next.follow later).map).1 = none) ∧
    (∀ b x, j.cursor.held = none → (j.cursor.next? j.map).1 = some x →
      j.next.cursor.bucket = b + 1 →
      ∀ later, (j.next.follow later).countFrom b ≤ (j.table.chain b).length) ∧
    ∀ (α : Type) (a : Action (Map κ ν) α), Use a →
      ∃ parts : List (Part κ ν), (j.follow (parts.map .part)).map = a.after j.map := by
  intro j
  obtain ⟨es, course, -⟩ := (course_start h.sound).follow moves
  refine ⟨course.nodup.of_append_left, fun x asked => ?_, fun asked => ?_,
    fun b x held asked here later => ?_, fun α a use => ?_⟩
  · obtain ⟨es', -, was, answer, -⟩ := course.next
    rw [asked] at answer
    obtain ⟨e, head, rfl⟩ := Option.map_eq_some_iff.mp answer.symm
    exact was e (List.mem_of_head? head)
  · obtain ⟨stayed, done⟩ := course.of_next?_eq_none asked
    obtain ⟨es', -, -, -, -, -, -, course'⟩ := course.next
    exact ⟨stayed, fun later => by rw [(done.follow course' later).next?_eq]⟩
  · obtain ⟨es', course', spent⟩ := course.spent_of_entered held asked here
    obtain ⟨es'', -, kept⟩ := course'.follow later
    exact (Nat.le_add_right _ _).trans (kept b _ spent).2
  · obtain ⟨parts, eq⟩ := use.inParts j.map
    exact ⟨parts, (map_follow_parts j parts).trans eq.symm⟩

/-- A cursor stands on the middle one of three entries in a chain while that one is removed and
added again: it is given once, and the cursor still finds its way to the last one. -/
theorem weakly_consistent_readded : ∃ (m : Map Nat Nat) (moves : List (Move Nat Nat)),
    ((start m).follow moves).given = [(0, 3, 7), (0, 2, 6), (0, 1, 5)] ∧
    ((start m).follow moves).keys.Nodup := by
  let m₀ : Map Nat Nat := ofConfig ⟨1, 1, true, .default, false⟩ ⟨"constant", fun _ _ => 0⟩
    fun _ => 0
  have h₁ : Reached (fun _ => True) (Part.after (.insert 1 5 false) m₀) :=
    .part (.new rfl _ _) trivial _
  have h₂ : Reached (fun _ => True) (Part.after (.insert 2 6 false) _) := .part h₁ trivial _
  have h₃ : Reached (fun _ => True) (Part.after (.insert 3 7 false) _) := .part h₂ trivial _
  refine ⟨_, [.next, .part (.remove 2 fun _ => true), .part (.insert 2 8 false), .next, .next], ?_,
    (weakly_consistent h₃ _).1⟩
  decide +kernel

end Journey

end Map

end SharedCollections
