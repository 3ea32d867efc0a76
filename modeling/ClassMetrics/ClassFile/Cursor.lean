import ClassMetrics.Bytes

/-!
A place in a file: what is still to be read, and how many bytes were read before it. Readers hand
on the cursor and fail with a fault of their own kind.
-/

namespace ClassMetrics

structure Cursor where
  position : Nat
  rest : Bytes

namespace Cursor

def ofBytes (data : Bytes) : Cursor :=
  ⟨0, data⟩

/-- The length of the whole file. -/
def fileLength (cursor : Cursor) : Nat :=
  cursor.position + cursor.rest.length

/-- The next `count` bytes, and the cursor behind them. -/
def take? (cursor : Cursor) (count : Nat) : Option (Bytes × Cursor) :=
  (cursor.rest.split? count).map fun (front, back) => (front, ⟨cursor.position + count, back⟩)

theorem length_of_take? {cursor next : Cursor} {count : Nat} {front : Bytes}
    (h : cursor.take? count = some (front, next)) :
    next.rest.length + count = cursor.rest.length := by
  simp only [take?, Option.map_eq_some_iff, Prod.exists, Prod.mk.injEq] at h
  obtain ⟨front', back, hsplit, -, rfl⟩ := h
  obtain ⟨happend, hlength⟩ := Bytes.split?_eq_some_iff.1 hsplit
  simp only [← happend, ← hlength, List.length_append]
  omega

end Cursor

/-- A computation that reads on from a cursor. -/
abbrev Reader (ε : Type) := StateT Cursor (Except ε)

namespace Reader

variable {ε α β : Type}

theorem bind_eq_ok {first : Reader ε α} {second : α → Reader ε β} {cursor next : Cursor}
    {value : β} :
    (first >>= second) cursor = .ok (value, next) ↔
      ∃ middle after, first cursor = .ok (middle, after) ∧
        second middle after = .ok (value, next) := by
  change (first cursor >>= fun (middle, after) => second middle after) = _ ↔ _
  cases first cursor with
  | error fault => simp [bind, Except.bind]
  | ok pair =>
      constructor
      · intro h
        exact ⟨pair.1, pair.2, rfl, h⟩
      · rintro ⟨middle, after, hpair, h⟩
        cases hpair
        exact h

theorem pure_eq_ok {given value : α} {cursor next : Cursor} :
    (pure given : Reader ε α) cursor = .ok (value, next) ↔ given = value ∧ cursor = next := by
  change (Except.ok (given, cursor) : Except ε _) = _ ↔ _
  simp

/-- Runs a reader the given number of times. -/
def times (item : Reader ε α) : Nat → Reader ε (List α)
  | 0 => pure []
  | count + 1 => do
      let first ← item
      let others ← times item count
      return first :: others

end Reader

end ClassMetrics
