import SharedCollections.Misuse
/-!
# Windows

A window is a run of cells of a buffer. Whether it lies in the buffer is decided before anything is
read or written.
-/

namespace SharedCollections

/-- Accepts the window of `count` cells from `start` on if it lies in a buffer of `len` cells. The
count is compared with the room behind `start`, so no sum can pass the word limit. -/
def checkWindow (start count len : Nat) : Except Misuse Unit :=
  if start > len then .error (.indexOutOfRange start len)
  else if count > len - start then .error (.invalidRange start count len)
  else .ok ()

theorem checkWindow_eq_ok {start count len : Nat} :
    checkWindow start count len = .ok () ↔ start + count ≤ len := by
  unfold checkWindow; split
  · simp; omega
  · split <;> simp <;> omega

section

variable {α : Type}

/-- The `count` cells of `buffer` from `start` on. -/
def window (buffer : List α) (start count : Nat) : List α := (buffer.drop start).take count

/-- Writes `values` over the cells of `buffer` from `start` on. -/
def overwrite (buffer : List α) (start : Nat) (values : List α) : List α :=
  buffer.take start ++ values ++ buffer.drop (start + values.length)

@[simp] theorem overwrite_nil (buffer : List α) (start : Nat) :
    overwrite buffer start [] = buffer := by
  simp [overwrite]

theorem length_overwrite {buffer : List α} {start : Nat} {values : List α}
    (h : start + values.length ≤ buffer.length) :
    (overwrite buffer start values).length = buffer.length := by
  simp only [overwrite, List.length_append, List.length_take, List.length_drop]; omega

theorem take_overwrite {buffer : List α} {start : Nat} {values : List α}
    (h : start ≤ buffer.length) :
    (overwrite buffer start values).take start = buffer.take start := by
  simp [overwrite, Nat.min_eq_left h]

theorem drop_overwrite {buffer : List α} {start : Nat} {values : List α}
    (h : start ≤ buffer.length) :
    (overwrite buffer start values).drop (start + values.length) =
      buffer.drop (start + values.length) := by
  have len : (buffer.take start ++ values).length = start + values.length := by
    rw [List.length_append, List.length_take, Nat.min_eq_left h]
  rw [overwrite, ← len, List.drop_left]

theorem window_overwrite {buffer : List α} {start : Nat} {values : List α}
    (h : start ≤ buffer.length) :
    window (overwrite buffer start values) start values.length = values := by
  simp [window, overwrite, Nat.min_eq_left h]

end

end SharedCollections
