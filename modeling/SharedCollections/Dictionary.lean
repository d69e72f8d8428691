/-!
# Dictionaries

A finite map as a list of entries in ascending order of their keys, in which no key is repeated.
The order in which entries were inserted leaves no trace (`insert_comm`), so dictionaries that came
to hold the same entries in different ways are one and the same list.
-/

namespace SharedCollections

abbrev Dictionary (κ ν : Type) := List (κ × ν)

namespace Dictionary

variable {κ ν : Type} [DecidableEq κ]

def get? (k : κ) (d : Dictionary κ ν) : Option ν := (d.find? (·.1 = k)).map (·.2)

def erase (k : κ) (d : Dictionary κ ν) : Dictionary κ ν := d.filter (·.1 ≠ k)

@[simp] theorem get?_nil (k : κ) : get? k ([] : Dictionary κ ν) = none := rfl

theorem get?_erase (k j : κ) (d : Dictionary κ ν) :
    get? j (erase k d) = if k = j then none else get? j d := by
  induction d with
  | nil => simp [erase, get?]
  | cons e d ih => simp only [erase, get?, List.filter_cons, List.find?_cons] at ih ⊢; grind

variable [Ord κ]

/-- Gives `k` the value `v`. A new key comes before the first larger one. -/
def insert (k : κ) (v : ν) : Dictionary κ ν → Dictionary κ ν
  | [] => [(k, v)]
  | e :: d =>
    if e.1 = k then (k, v) :: d
    else if compare k e.1 = .lt then (k, v) :: e :: d
    else e :: insert k v d

/-- The dictionary of the given entries. Of two entries with one key the later one counts. -/
def ofList (entries : List (κ × ν)) : Dictionary κ ν :=
  entries.foldl (fun d (k, v) => insert k v d) []

theorem get?_insert (k j : κ) (v : ν) (d : Dictionary κ ν) :
    get? j (insert k v d) = if k = j then some v else get? j d := by
  induction d with
  | nil => simp [insert, get?]
  | cons e d ih =>
    simp only [get?, insert] at ih ⊢
    split
    · grind
    · split <;> grind

theorem insert_comm [Std.TransOrd κ] [Std.LawfulEqOrd κ] {j k : κ} (h : j ≠ k) (v w : ν)
    (d : Dictionary κ ν) : insert j v (insert k w d) = insert k w (insert j v d) := by
  have swap : compare j k = (compare k j).swap := Std.OrientedCmp.eq_swap
  have asymm : compare j k = .lt ↔ ¬ compare k j = .lt := by
    rcases hc : compare k j with _ | _ | _ <;> simp_all
  have trans {a b c : κ} : compare a b = .lt → compare b c = .lt → compare a c = .lt :=
    Std.TransCmp.lt_trans
  induction d with
  | nil => grind [insert]
  | cons e d ih => grind [insert]

end Dictionary

end SharedCollections
