import SharedCollections.Proofs.Queue.Built
/-!
# Changes to a queue that several threads work on

What a step does to the queue is its change (`Change`). A thread may make it because of the slots
that it has reserved or claimed itself, which the ledger tells. Changes keep the queue in line with
the ledger (`Laid`) and never take certain things back (`Grows`), and the change by one thread
leaves alone what the others rely on (`Rely`).
-/

namespace SharedCollections.Queue

/-! ## Ledgers -/

/-- The reservations and claims of slots so far, in order, each with the thread that made it. -/
structure Ledger (α : Type) where
  /-- What was reserved, with the values that are to go there. -/
  puts : List (Nat × α)
  claims : List Nat

variable {α : Type} {q q' : Queue α} {l l' : Ledger α} {t u g i p : Nat} {v : α}

namespace Ledger

def reserve (t : Nat) (v : α) (l : Ledger α) : Ledger α := { l with puts := l.puts ++ [(t, v)] }

def claim (t : Nat) (l : Ledger α) : Ledger α := { l with claims := l.claims ++ [t] }

end Ledger

/-- If slot `p` is written, the value that was to go there is there. -/
def Intact (q : Queue α) (l : Ledger α) (p : Nat) : Prop :=
  ∀ t v, l.puts[p]? = some (t, v) → (q.place p).slot.isWritten = true →
    (q.place p).value = some v

/-- A queue that fits a ledger. -/
structure Laid (q : Queue α) (l : Ledger α) : Prop extends
    Built q l.puts.length l.claims.length where
  fresh : ∀ p, l.puts.length ≤ p → (q.place p).slot.isWritten = false
  intact : ∀ p, l.claims.length ≤ p → Intact q l p

/-! ## What belongs to a thread -/

/-- Thread `t` has reserved slot `i` of segment `g` for `v`, and has not published it yet. -/
structure Reserved (q : Queue α) (l : Ledger α) (t : Nat) (v : α) (g i : Nat) : Prop where
  slot_lt : i < Segment.size
  mine : l.puts[Segment.size * g + i]? = some (t, v)
  unwritten : (q.place (Segment.size * g + i)).slot.isWritten = false
  /-- Only the thread with the last slot links the next segment. -/
  last : i + 1 = Segment.size → q.segments.size = g + 1

/-- Thread `t` has claimed slot `i` of segment `g`, and has not moved the value out yet. -/
structure Claimed (q : Queue α) (l : Ledger α) (t g i : Nat) : Prop where
  slot_lt : i < Segment.size
  mine : l.claims[Segment.size * g + i]? = some t
  /-- Only the thread with the last slot moves the head on. -/
  last : i + 1 = Segment.size → q.head = g
  intact : Intact q l (Segment.size * g + i)

/-- Thread `t` has the value of the last slot of segment `g` and is to move the head on. -/
structure Leaves (q : Queue α) (l : Ledger α) (t g : Nat) (v : α) : Prop where
  mine : l.claims[Segment.size * g + (Segment.size - 1)]? = some t
  head : q.head = g
  value : ∃ u, l.puts[Segment.size * g + (Segment.size - 1)]? = some (u, v)

theorem Laid.lt_size_of_reserved (h : Laid q l) {x : Nat × α}
    (reserved : l.puts[Segment.size * g + i]? = some x) : g < q.segments.size := by
  obtain ⟨inside, -⟩ := List.getElem?_eq_some_iff.mp reserved
  have le_size := h.le_size
  simp only [Segment.size] at inside le_size
  omega

theorem Laid.reserved_of_claimed (h : Laid q l) (claimed : l.claims[p]? = some t) :
    ∃ u v, l.puts[p]? = some (u, v) := by
  obtain ⟨inside, -⟩ := List.getElem?_eq_some_iff.mp claimed
  exact ⟨_, _, List.getElem?_eq_getElem (inside.trans_le h.claims_le)⟩

/-- What is read of the slots after a change of one that was reserved. -/
theorem Laid.place_modifyCell (h : Laid q l) (hi : i < Segment.size) {x : Nat × α}
    (reserved : l.puts[Segment.size * g + i]? = some x) (f : Cell α → Cell α) (p : Nat) :
    (q.modifyCell g i f).place p =
      if p = Segment.size * g + i then f (q.place p) else q.place p :=
  have hg := h.lt_size_of_reserved reserved
  Queue.place_modifyCell hg (h.fits g hg).cells hi f p

/-! ## Changes -/

/-- What those who look at values and those who take values tell each other by a step. -/
inductive Signal where
  | none
  | raise
  | lower
  | arrive (g i : Nat)
  | leave (g i : Nat)
  | mark (g i : Nat)
  | move (g i : Nat)

variable {signal : Signal}

/-- The changes that are up to thread `t`, with their signals and what they enter into the ledger.
-/
inductive Change (t : Nat) (q : Queue α) (l : Ledger α) : Signal → Queue α → Ledger α → Prop where
  | still {q' : Queue α} (same : Still q q') : Change t q l .none q' l
  | raise : Change t q l .raise { q with takers := q.takers + 1 } l
  | lower : Change t q l .lower { q with takers := q.takers - 1 } l
  | arrive (g i : Nat) :
      Change t q l (.arrive g i) (q.modifyCell g i fun c => { c with slot := c.slot.arrive }) l
  | leave (g i : Nat) :
      Change t q l (.leave g i) (q.modifyCell g i fun c => { c with slot := c.slot.leave }) l
  | mark {g i : Nat} (mine : Claimed q l t g i) :
      Change t q l (.mark g i) (q.modifyCell g i fun c => { c with slot := c.slot.markTaken }) l
  | move {g i : Nat} (mine : Claimed q l t g i)
      (written : (q.place (Segment.size * g + i)).slot.isWritten = true) :
      Change t q l (.move g i) (q.modifyCell g i fun c => { c with value := none }) l
  | reserve {g : Nat} (v : α) (hg : g < q.segments.size)
      (room : (q.segment g).reserved < Segment.size) :
      Change t q l .none (q.modifySegment g Segment.reserve) (l.reserve t v)
  | write {g i : Nat} {v : α} (mine : Reserved q l t v g i) :
      Change t q l .none (q.modifyCell g i fun c => { c with value := some v }) l
  | publish {g i : Nat} {v : α} (mine : Reserved q l t v g i)
      (value : (q.place (Segment.size * g + i)).value = some v) :
      Change t q l .none (q.modifyCell g i fun c => { c with slot := c.slot.markWritten }) l
  | link {g : Nat} {v : α} (mine : l.puts[Segment.size * g + (Segment.size - 1)]? = some (t, v))
      (last : q.segments.size = g + 1) : Change t q l .none (q.linked g) l
  | swing {g : Nat} (hg : g < q.segments.size) : Change t q l .none { q with tail := g } l
  | claim {g : Nat} (le : g ≤ q.head) (left : (q.segment g).claimed < (q.segment g).stop) :
      Change t q l .none (q.modifySegment g fun s => { s with claimed := s.claimed + 1 })
        (l.claim t)
  | advance {v : α} (mine : Leaves q l t q.head v) (behind : q.head + 1 < q.segments.size) :
      Change t q l .none { q with head := q.head + 1 } l

/-! ## The queue stays in line with the ledger -/

namespace Laid

theorem empty : Laid (Queue.empty : Queue α) ⟨[], []⟩ where
  toBuilt := .empty
  fresh p _ := by
    rw [place_empty]
    exact (by decide : Slot.empty.isWritten = false)
  intact := nofun

theorem of_alike (h : Laid q l) (same : Alike q q') : Laid q' l where
  toBuilt := h.of_sameFrame same.toSameFrame
  fresh p hp := (same.written p).trans (h.fresh p hp)
  intact p hp t v put written := by
    rw [same.value]
    exact h.intact p hp t v put (same.written p ▸ written)

theorem reserve (h : Laid q l) (hg : g < q.segments.size)
    (room : (q.segment g).reserved < Segment.size) :
    Laid (q.modifySegment g Segment.reserve) (l.reserve t v) where
  toBuilt := by
    rw [Ledger.reserve, List.length_append]
    exact h.toBuilt.reserve hg room
  fresh p hp := by
    rw [Ledger.reserve, List.length_append] at hp
    rw [place_reserve]
    exact h.fresh p (Nat.le_of_succ_le hp)
  intact p hp u w put written := by
    rw [place_reserve] at written ⊢
    have inside : p < l.puts.length := by
      by_contra beyond
      rw [h.fresh p (Nat.not_lt.mp beyond)] at written
      cases written
    rw [Ledger.reserve, List.getElem?_append_left inside] at put
    exact h.intact p hp u w put written

theorem write (h : Laid q l) (mine : Reserved q l t v g i) :
    Laid (q.modifyCell g i fun c => { c with value := some v }) l where
  toBuilt := h.of_sameFrame (sameFrame_modifyCell g i _)
  fresh p hp := by
    rw [h.place_modifyCell mine.slot_lt mine.mine, apply_ite (fun c : Cell α => c.slot.isWritten),
      ite_self]
    exact h.fresh p hp
  intact p hp u w put written := by
    rw [h.place_modifyCell mine.slot_lt mine.mine] at written ⊢
    split at written
    · next here =>
      subst here
      rw [mine.unwritten] at written
      cases written
    · next other =>
      rw [if_neg other]
      exact h.intact p hp u w put written

theorem publish (h : Laid q l) (mine : Reserved q l t v g i)
    (value : (q.place (Segment.size * g + i)).value = some v) :
    Laid (q.modifyCell g i fun c => { c with slot := c.slot.markWritten }) l where
  toBuilt := h.of_sameFrame (sameFrame_modifyCell g i _)
  fresh p hp := by
    obtain ⟨inside, -⟩ := List.getElem?_eq_some_iff.mp mine.mine
    rw [h.place_modifyCell mine.slot_lt mine.mine, if_neg (by omega)]
    exact h.fresh p hp
  intact p hp u w put written := by
    rw [h.place_modifyCell mine.slot_lt mine.mine] at written ⊢
    split at written
    · next here =>
      subst here
      obtain ⟨-, rfl⟩ := Prod.mk.inj (Option.some.inj (mine.mine.symm.trans put))
      rw [if_pos rfl]
      exact value
    · next other =>
      rw [if_neg other]
      exact h.intact p hp u w put written

theorem link (h : Laid q l) (mine : l.puts[Segment.size * g + (Segment.size - 1)]? = some (t, v))
    (last : q.segments.size = g + 1) : Laid (q.linked g) l where
  toBuilt := by
    obtain ⟨inside, -⟩ := List.getElem?_eq_some_iff.mp mine
    refine h.toBuilt.link last ?_
    simp only [Segment.size] at inside ⊢
    omega
  fresh p hp := by
    rw [place_linked]
    exact h.fresh p hp
  intact p hp u w put written := by
    rw [place_linked] at written ⊢
    exact h.intact p hp u w put written

theorem claim (h : Laid q l) (le : g ≤ q.head)
    (left : (q.segment g).claimed < (q.segment g).stop) :
    Laid (q.modifySegment g fun s => { s with claimed := s.claimed + 1 }) (l.claim t) where
  toBuilt := by
    rw [Ledger.claim, List.length_append]
    exact h.toBuilt.claim le left
  fresh p hp := by
    rw [place_claim]
    exact h.fresh p hp
  intact p hp u w put written := by
    rw [Ledger.claim, List.length_append] at hp
    rw [place_claim] at written ⊢
    exact h.intact p (Nat.le_of_succ_le hp) u w put written

theorem move (h : Laid q l) (mine : Claimed q l t g i) :
    Laid (q.modifyCell g i fun c => { c with value := none }) l where
  toBuilt := h.of_sameFrame (sameFrame_modifyCell g i _)
  fresh p hp := by
    obtain ⟨u, v, put⟩ := h.reserved_of_claimed mine.mine
    rw [h.place_modifyCell mine.slot_lt put, apply_ite (fun c : Cell α => c.slot.isWritten),
      ite_self]
    exact h.fresh p hp
  intact p hp u w put written := by
    obtain ⟨inside, -⟩ := List.getElem?_eq_some_iff.mp mine.mine
    obtain ⟨u', v, put'⟩ := h.reserved_of_claimed mine.mine
    rw [h.place_modifyCell mine.slot_lt put', if_neg (by omega)] at written ⊢
    exact h.intact p hp u w put written

theorem advance (h : Laid q l) (mine : Leaves q l t q.head v)
    (behind : q.head + 1 < q.segments.size) : Laid { q with head := q.head + 1 } l where
  toBuilt := by
    obtain ⟨inside, -⟩ := List.getElem?_eq_some_iff.mp mine.mine
    refine h.toBuilt.advance ?_ behind
    simp only [Segment.size] at inside ⊢
    omega
  fresh := h.fresh
  intact := h.intact

end Laid

theorem alike_takers (n : Nat) : Alike q { q with takers := n } :=
  ⟨.of_segments rfl rfl rfl, fun _ => rfl, fun _ => rfl, fun _ => id⟩

theorem alike_arrive : Alike q (q.modifyCell g i fun c => { c with slot := c.slot.arrive }) :=
  alike_modifyCell g i Slot.isWritten_arrive fun s => s.isTaken_arrive.trans

theorem alike_leave : Alike q (q.modifyCell g i fun c => { c with slot := c.slot.leave }) :=
  alike_modifyCell g i Slot.isWritten_leave fun s => s.isTaken_leave.trans

theorem alike_markTaken : Alike q (q.modifyCell g i fun c => { c with slot := c.slot.markTaken }) :=
  alike_modifyCell g i Slot.isWritten_markTaken fun s _ => s.isTaken_markTaken

theorem Change.laid (change : Change t q l signal q' l') (h : Laid q l) : Laid q' l' := by
  cases change with
  | still same => exact h.of_alike same.alike
  | raise | lower => exact h.of_alike (alike_takers _)
  | arrive => exact h.of_alike alike_arrive
  | leave => exact h.of_alike alike_leave
  | mark => exact h.of_alike alike_markTaken
  | move mine => exact h.move mine
  | reserve v hg room => exact h.reserve hg room
  | write mine => exact h.write mine
  | publish mine value => exact h.publish mine value
  | link mine last => exact h.link mine last
  | swing hg => exact ⟨h.toBuilt.swing hg, h.fresh, h.intact⟩
  | claim le left => exact h.claim le left
  | advance mine behind => exact h.advance mine behind

/-! ## What only grows -/

/-- What no change takes back. -/
structure Grows (q : Queue α) (l : Ledger α) (q' : Queue α) (l' : Ledger α) : Prop where
  size_le : q.segments.size ≤ q'.segments.size
  head_le : q.head ≤ q'.head
  claimed_le : ∀ g < q.segments.size, (q.segment g).claimed ≤ (q'.segment g).claimed
  stop_le : ∀ g < q.segments.size, (q.segment g).stop ≤ (q'.segment g).stop
  puts : ∀ (p : Nat) (x : Nat × α), l.puts[p]? = some x → l'.puts[p]? = some x
  claims : ∀ (p t : Nat), l.claims[p]? = some t → l'.claims[p]? = some t
  written : ∀ p, (q.place p).slot.isWritten = true → (q'.place p).slot.isWritten = true
  taken : ∀ p, (q.place p).slot.isTaken = true → (q'.place p).slot.isTaken = true

namespace Grows

theorem of_alike (same : Alike q q') : Grows q l q' l where
  size_le := same.size.ge
  head_le := same.head.ge
  claimed_le g _ := (same.claimed g).ge
  stop_le g _ := (same.stop g).ge
  puts _ _ := id
  claims _ _ := id
  written p written := (same.written p).trans written
  taken := same.taken

/-- A change of the ends. -/
theorem of_ends {tail : Nat} (head : q.head ≤ g) : Grows q l { q with head := g, tail := tail } l :=
  ⟨le_rfl, head, fun _ _ => le_rfl, fun _ _ => le_rfl, fun _ _ => id, fun _ _ => id, fun _ => id,
    fun _ => id⟩

theorem of_modifyCell (f : Cell α → Cell α)
    (written : ∀ c, c.slot.isWritten = true → (f c).slot.isWritten = true)
    (taken : ∀ c, c.slot.isTaken = true → (f c).slot.isTaken = true) :
    Grows q l (q.modifyCell g i f) l := by
  have frame : SameFrame q (q.modifyCell g i f) := sameFrame_modifyCell g i f
  refine ⟨frame.size.ge, frame.head.ge, fun g _ => (frame.claimed g).ge,
    fun g _ => (frame.stop g).ge, fun _ _ => id, fun _ _ => id, fun p before => ?_,
    fun p before => ?_⟩
  all_goals rcases place_modifyCell_cases (q := q) g i f p with same | changed
  · rwa [same]
  · rw [changed]
    exact written _ before
  · rwa [same]
  · rw [changed]
    exact taken _ before

theorem of_modifySegment (f : Segment α → Segment α) (cells : ∀ s, (f s).cells = s.cells)
    (claimed : ∀ s, s.claimed ≤ (f s).claimed) (stop : ∀ s, s.stop ≤ (f s).stop)
    (puts : ∀ (p : Nat) (x : Nat × α), l.puts[p]? = some x → l'.puts[p]? = some x)
    (claims : ∀ (p t : Nat), l.claims[p]? = some t → l'.claims[p]? = some t) :
    Grows q l (q.modifySegment g f) l' := by
  have place := place_modifySegment (q := q) g f cells
  refine ⟨(size_modifySegment g _).ge, le_rfl, fun g' _ => ?_, fun g' _ => ?_, puts, claims,
    fun p before => ?_, fun p before => ?_⟩
  · rcases segment_modifySegment_cases (q := q) g f g' with same | changed
    · rw [same]
    · rw [changed]
      exact claimed _
  · rcases segment_modifySegment_cases (q := q) g f g' with same | changed
    · rw [same]
    · rw [changed]
      exact stop _
  · rwa [place]
  · rwa [place]

theorem reserve : Grows q l (q.modifySegment g Segment.reserve) (l.reserve t v) := by
  refine of_modifySegment Segment.reserve (fun _ => rfl) (fun _ => le_rfl) (fun s => ?_)
    (fun p x put => ?_) (fun _ _ => id)
  · simp only [Segment.stop, Segment.reserve]
    omega
  · exact List.getElem?_append_left (List.getElem?_eq_some_iff.mp put).1 ▸ put

theorem claim :
    Grows q l (q.modifySegment g fun s => { s with claimed := s.claimed + 1 }) (l.claim t) := by
  refine of_modifySegment (fun s => { s with claimed := s.claimed + 1 }) (fun _ => rfl)
    (fun _ => Nat.le_succ _) (fun _ => le_rfl) (fun _ _ => id) (fun p u claimed => ?_)
  exact List.getElem?_append_left (List.getElem?_eq_some_iff.mp claimed).1 ▸ claimed

theorem link (hg : g < q.segments.size) : Grows q l (q.linked g) l := by
  have segment := segment_linked hg
  refine ⟨size_linked ▸ Nat.le_succ _, le_rfl, fun g' hg' => ?_, fun g' hg' => ?_, fun _ _ => id,
    fun _ _ => id, fun p before => ?_, fun p before => ?_⟩
  · rw [segment, if_neg hg'.ne]
    split <;> exact le_rfl
  · rw [segment, if_neg hg'.ne]
    split <;> exact le_rfl
  · rwa [place_linked]
  · rwa [place_linked]

end Grows

theorem Change.grows (change : Change t q l signal q' l') (h : Laid q l) : Grows q l q' l' := by
  cases change with
  | still same => exact .of_alike same.alike
  | raise | lower => exact .of_alike (alike_takers _)
  | arrive => exact .of_alike alike_arrive
  | leave => exact .of_alike alike_leave
  | mark => exact .of_alike alike_markTaken
  | move | write => exact .of_modifyCell _ (fun _ => id) (fun _ => id)
  | publish =>
    exact .of_modifyCell _ (fun c _ => c.slot.isWritten_markWritten)
      fun c => c.slot.isTaken_markWritten.trans
  | reserve => exact .reserve
  | claim => exact .claim
  | link mine => exact .link (h.lt_size_of_reserved mine)
  | swing => exact .of_ends le_rfl
  | advance => exact .of_ends (Nat.le_succ _)

/-! ## What the others rely on -/

/-- What thread `u` can rely on when another thread changes something. -/
structure Rely (u : Nat) (q : Queue α) (l : Ledger α) (q' : Queue α) (l' : Ledger α) : Prop where
  /-- Nobody else writes to a slot that `u` has reserved or publishes it. -/
  reserved : ∀ (p : Nat) (v : α), l.puts[p]? = some (u, v) → (q.place p).slot.isWritten = false →
    (q'.place p).slot.isWritten = false ∧ (q'.place p).value = (q.place p).value
  /-- Nobody else links a segment behind one of which `u` has reserved the last slot. -/
  last_reserved : ∀ (g : Nat) (v : α),
    l.puts[Segment.size * g + (Segment.size - 1)]? = some (u, v) →
    q.segments.size = g + 1 → q'.segments.size = g + 1
  /-- Nobody else moves the value out of a slot that `u` has claimed. -/
  claimed : ∀ p : Nat, l.claims[p]? = some u → Intact q l p → Intact q' l' p
  /-- Nobody else moves the head on from a segment of which `u` has claimed the last slot. -/
  last_claimed : ∀ g : Nat, l.claims[Segment.size * g + (Segment.size - 1)]? = some u →
    q.head = g → q'.head = g

namespace Rely

theorem of_alike (same : Alike q q') : Rely u q l q' l where
  reserved p _ _ unwritten := ⟨(same.written p).trans unwritten, same.value p⟩
  last_reserved _ _ _ last := same.size.trans last
  claimed p _ intact t v put written := by
    rw [same.value]
    exact intact t v put (same.written p ▸ written)
  last_claimed _ _ head := same.head.trans head

/-- A change of a slot that `u` has neither reserved nor claimed. -/
theorem of_modifyCell (h : Laid q l) (hi : i < Segment.size) {x : Nat × α}
    (put : l.puts[Segment.size * g + i]? = some x) (f : Cell α → Cell α)
    (reserved : x.1 = u → (q.place (Segment.size * g + i)).slot.isWritten = true)
    (claimed : l.claims[Segment.size * g + i]? = some u →
      (f (q.place (Segment.size * g + i))).slot.isWritten = true →
      (f (q.place (Segment.size * g + i))).value = some x.2) :
    Rely u q l (q.modifyCell g i f) l := by
  have frame : SameFrame q (q.modifyCell g i f) := sameFrame_modifyCell g i f
  have place := h.place_modifyCell hi put f
  constructor
  case reserved =>
    intro p v mine unwritten
    rw [place, if_neg ?_]
    · exact ⟨unwritten, rfl⟩
    · rintro rfl
      rw [Option.some.inj (put.symm.trans mine)] at reserved
      rw [reserved rfl] at unwritten
      cases unwritten
  case last_reserved => exact fun _ _ _ last => frame.size.trans last
  case claimed =>
    intro p mine intact t v put' written'
    rw [place] at written' ⊢
    split at written'
    · next here =>
      subst here
      rw [if_pos rfl]
      rw [Option.some.inj (put.symm.trans put')] at claimed
      exact claimed mine written'
    · next other =>
      rw [if_neg other]
      exact intact t v put' written'
  case last_claimed => exact fun _ _ head => frame.head.trans head

theorem reserve (h : Laid q l) :
    Rely u q l (q.modifySegment g Segment.reserve) (l.reserve t v) where
  reserved p w _ unwritten := by
    rw [place_reserve]
    exact ⟨unwritten, rfl⟩
  last_reserved _ _ _ last := (size_modifySegment g _).trans last
  claimed p claimed intact w x put written := by
    have inside := (List.getElem?_eq_some_iff.mp claimed).1.trans_le h.claims_le
    rw [Ledger.reserve, List.getElem?_append_left inside] at put
    rw [place_reserve] at written ⊢
    exact intact w x put written
  last_claimed _ _ := id

theorem claim : Rely u q l (q.modifySegment g fun s => { s with claimed := s.claimed + 1 })
    (l.claim t) where
  reserved p w _ unwritten := by
    rw [place_claim]
    exact ⟨unwritten, rfl⟩
  last_reserved _ _ _ last := (size_modifySegment g _).trans last
  claimed p _ intact w x put written := by
    rw [place_claim] at written ⊢
    exact intact w x put written
  last_claimed _ _ := id

theorem link (mine : l.puts[Segment.size * g + (Segment.size - 1)]? = some (t, v))
    (last : q.segments.size = g + 1) (other : u ≠ t) : Rely u q l (q.linked g) l where
  reserved p w _ unwritten := by
    rw [place_linked]
    exact ⟨unwritten, rfl⟩
  last_reserved g' w theirs last' := by
    obtain rfl : g = g' := Nat.succ.inj (last.symm.trans last')
    exact absurd (congrArg Prod.fst (Option.some.inj (theirs.symm.trans mine))) other
  claimed p _ intact w x put written := by
    rw [place_linked] at written ⊢
    exact intact w x put written
  last_claimed _ _ := id

theorem advance (mine : Leaves q l t q.head v) (other : u ≠ t) :
    Rely u q l { q with head := q.head + 1 } l where
  reserved _ _ _ unwritten := ⟨unwritten, rfl⟩
  last_reserved _ _ _ := id
  claimed _ _ := id
  last_claimed g theirs head := by
    subst head
    exact absurd (Option.some.inj (theirs.symm.trans mine.mine)) other

end Rely

/-- The change by one thread leaves alone what the others rely on. -/
theorem Change.rely (change : Change t q l signal q' l') (h : Laid q l) (other : u ≠ t) :
    Rely u q l q' l' := by
  cases change with
  | still same => exact .of_alike same.alike
  | raise | lower => exact .of_alike (alike_takers _)
  | arrive => exact .of_alike alike_arrive
  | leave => exact .of_alike alike_leave
  | mark => exact .of_alike alike_markTaken
  | move mine written =>
    obtain ⟨w, v, put⟩ := h.reserved_of_claimed mine.mine
    refine .of_modifyCell h mine.slot_lt put _ (fun _ => written) fun claimed => ?_
    exact absurd (Option.some.inj (claimed.symm.trans mine.mine)) other
  | reserve => exact .reserve h
  | write mine =>
    refine .of_modifyCell h mine.slot_lt mine.mine _ (fun same => ?_) ?_
    · exact absurd same.symm other
    · intro _ written
      rw [mine.unwritten] at written
  | publish mine value =>
    refine .of_modifyCell h mine.slot_lt mine.mine _ (fun same => ?_) fun _ _ => value
    exact absurd same.symm other
  | link mine last => exact .link mine last other
  | swing =>
    exact ⟨fun _ _ _ unwritten => ⟨unwritten, rfl⟩, fun _ _ _ => id, fun _ _ => id, fun _ _ => id⟩
  | claim => exact .claim
  | advance mine => exact .advance mine other

end SharedCollections.Queue
