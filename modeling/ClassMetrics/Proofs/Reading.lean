import Mathlib.Tactic
import ClassMetrics.ClassFile.Cursor
import ClassMetrics.Proofs.Pairing

/-!
What a reader does on bytes of a known shape. `Reads` says that a reader takes exactly the given
bytes, whatever follows them and wherever they stand, and what it makes of them. Readers built by
sequencing and repetition read the bytes of their parts one after another.
-/

namespace ClassMetrics

theorem Bytes.split?_append (front back : Bytes) :
    Bytes.split? front.length (front ++ back) = some (front, back) :=
  Bytes.split?_eq_some_iff.2 ⟨rfl, rfl⟩

namespace Cursor

theorem take?_append (position : Nat) (front back : Bytes) :
    take? ⟨position, front ++ back⟩ front.length =
      some (front, ⟨position + front.length, back⟩) := by
  simp [take?, Bytes.split?_append]

/-- The bytes between two places of a file. -/
structure Passes (cursor : Cursor) (front : Bytes) (next : Cursor) : Prop where
  rest : cursor.rest = front ++ next.rest
  position : next.position = cursor.position + front.length

theorem Passes.refl (cursor : Cursor) : cursor.Passes [] cursor :=
  ⟨rfl, rfl⟩

theorem Passes.trans {cursor middle next : Cursor} {front back : Bytes}
    (hfront : cursor.Passes front middle) (hback : middle.Passes back next) :
    cursor.Passes (front ++ back) next := by
  constructor
  · rw [hfront.rest, hback.rest, List.append_assoc]
  · rw [hback.position, hfront.position, List.length_append, Nat.add_assoc]

/-- What can be taken stands at the front. -/
theorem take?_eq_some {cursor next : Cursor} {count : Nat} {front : Bytes}
    (h : cursor.take? count = some (front, next)) :
    cursor.Passes front next ∧ front.length = count := by
  simp only [take?, Option.map_eq_some_iff, Prod.exists, Prod.mk.injEq] at h
  obtain ⟨front, back, hsplit, rfl, rfl⟩ := h
  obtain ⟨happend, rfl⟩ := Bytes.split?_eq_some_iff.1 hsplit
  exact ⟨⟨happend.symm, rfl⟩, rfl⟩

end Cursor

namespace Reader

variable {ε α β γ : Type}

/-- On the given bytes the reader has the given result. After a success it stands right behind
them. -/
def Reads (reader : Reader ε α) (bytes : Bytes) (result : Except ε α) : Prop :=
  ∀ position rest, reader ⟨position, bytes ++ rest⟩ =
    result.map fun value => (value, ⟨position + bytes.length, rest⟩)

theorem Reads.run {reader : Reader ε α} {bytes : Bytes} {result : Except ε α}
    (h : Reads reader bytes result) (rest : Bytes) :
    reader.run (Cursor.ofBytes (bytes ++ rest)) =
      result.map fun value => (value, ⟨bytes.length, rest⟩) := by
  have hrun := h 0 rest
  rw [Nat.zero_add] at hrun
  exact hrun

/-- What a reader makes of bytes that it has come upon. -/
theorem Reads.value_eq {reader : Reader ε α} {bytes rest : Bytes} {value made : α}
    {cursor next : Cursor} (h : Reads reader bytes (.ok value))
    (hrest : cursor.rest = bytes ++ rest)
    (hread : reader cursor = .ok (made, next)) : value = made := by
  have hcursor : cursor = ⟨cursor.position, bytes ++ rest⟩ := by rw [← hrest]
  rw [hcursor, h] at hread
  exact (Prod.mk.inj (Except.ok.inj hread)).1

theorem reads_pure (value : α) : Reads (pure value : Reader ε α) [] (.ok value) :=
  fun _ _ => rfl

/-- A result that is not read. -/
theorem reads_lift (result : Except ε α) : Reads (liftM result : Reader ε α) [] result := by
  intro position rest
  cases result with
  | error fault => rfl
  | ok value => rfl

theorem Reads.bind {first : Reader ε α} {second : α → Reader ε β} {front back : Bytes}
    {result : Except ε α} {later : α → Except ε β} (hfirst : Reads first front result)
    (hsecond : ∀ value, Reads (second value) back (later value)) :
    Reads (first >>= second) (front ++ back) (result >>= later) := by
  intro position rest
  change (first _ >>= fun (value, cursor) => second value cursor) = _
  rw [List.append_assoc, hfirst]
  cases result with
  | error fault => rfl
  | ok value =>
      change second value ⟨position + front.length, back ++ rest⟩ = (later value).map _
      rw [hsecond, List.length_append, Nat.add_assoc]

/-- Sequencing behind a reader that succeeds. -/
theorem Reads.bind_ok {first : Reader ε α} {second : α → Reader ε β} {front back : Bytes}
    {value : α} {result : Except ε β} (hfirst : Reads first front (.ok value))
    (hsecond : Reads (second value) back result) :
    Reads (first >>= second) (front ++ back) result := by
  intro position rest
  change (first _ >>= fun (value, cursor) => second value cursor) = _
  rw [List.append_assoc, hfirst]
  change second value ⟨position + front.length, back ++ rest⟩ = _
  rw [hsecond, List.length_append, Nat.add_assoc]

theorem Reads.bind_ok_nil {first : Reader ε α} {second : α → Reader ε β} {bytes : Bytes}
    {value : α} {result : Except ε β} (hfirst : Reads first bytes (.ok value))
    (hsecond : Reads (second value) [] result) : Reads (first >>= second) bytes result := by
  have hboth := hfirst.bind_ok hsecond
  rwa [List.append_nil] at hboth

/-- Sequencing with a second part that reads nothing. -/
theorem Reads.bind_nil {first : Reader ε α} {second : α → Reader ε β} {bytes : Bytes}
    {result : Except ε α} {later : α → Except ε β} (hfirst : Reads first bytes result)
    (hsecond : ∀ value, Reads (second value) [] (later value)) :
    Reads (first >>= second) bytes (result >>= later) := by
  have hboth := hfirst.bind hsecond
  rwa [List.append_nil] at hboth

/-- A function of what was read. -/
theorem Reads.bind_pure {reader : Reader ε α} {bytes : Bytes} {result : Except ε α}
    (h : Reads reader bytes result) (make : α → β) :
    Reads (reader >>= fun value => pure (make value)) bytes (result.map make) := by
  have hmade := h.bind_nil fun value => reads_pure (ε := ε) (make value)
  cases result with
  | error fault => exact hmade
  | ok value => exact hmade

theorem Reads.lift_bind {result : Except ε α} {second : α → Reader ε β} {bytes : Bytes}
    {later : α → Except ε β} (h : ∀ value, Reads (second value) bytes (later value)) :
    Reads ((liftM result : Reader ε α) >>= second) bytes (result >>= later) :=
  (reads_lift result).bind h

/-- Repetition over items, each of which is read by itself. -/
theorem Reads.times {reader : Reader ε α} {write : γ → Bytes} {read : γ → Except ε α}
    (items : List γ) (h : ∀ item ∈ items, Reads reader (write item) (read item)) :
    Reads (times reader items.length) (items.flatMap write) (items.mapM read) := by
  induction items with
  | nil => exact reads_pure []
  | cons first others ih =>
      have hothers := ih fun item hitem => h item (List.mem_cons_of_mem _ hitem)
      rw [List.mapM_cons, List.flatMap_cons, List.length_cons]
      refine (h first List.mem_cons_self).bind fun value => ?_
      exact hothers.bind_pure (value :: ·)

theorem lift_eq_ok {result : Except ε α} {cursor next : Cursor} {value : α} :
    (liftM result : Reader ε α) cursor = .ok (value, next) ↔
      result = .ok value ∧ cursor = next := by
  cases result with
  | error fault =>
      change Except.error fault = _ ↔ _
      simp
  | ok given =>
      change Except.ok (given, cursor) = _ ↔ _
      simp

/-- What has been read by repetition is made of items, if one reading takes an item. -/
theorem exists_items_of_times {reader : Reader ε α} {write : γ → Bytes}
    {Stands : α → γ → Prop} {count : Nat} {cursor next : Cursor} {values : List α}
    (h : ∀ value ∈ values, ∀ {cursor next : Cursor}, reader cursor = .ok (value, next) →
      ∃ item, Stands value item ∧ cursor.rest = write item ++ next.rest)
    (hread : times reader count cursor = .ok (values, next)) :
    ∃ items : List γ, items.length = count ∧ List.Forall₂ Stands values items ∧
      cursor.rest = items.flatMap write ++ next.rest := by
  induction count generalizing cursor values with
  | zero =>
      obtain ⟨rfl, rfl⟩ := pure_eq_ok.1 hread
      exact ⟨[], rfl, .nil, rfl⟩
  | succ count ih =>
      obtain ⟨value, middle, hfirst, hread⟩ := bind_eq_ok.1 hread
      obtain ⟨others, after, hothers, hread⟩ := bind_eq_ok.1 hread
      obtain ⟨rfl, rfl⟩ := pure_eq_ok.1 hread
      obtain ⟨item, hstands, hitem⟩ := h value List.mem_cons_self hfirst
      obtain ⟨items, hcount, hall, hitems⟩ :=
        ih (fun value hvalue => h value (List.mem_cons_of_mem _ hvalue)) hothers
      exact ⟨item :: items, by simp [hcount], .cons hstands hall, by
        rw [hitem, hitems, List.flatMap_cons, List.append_assoc]⟩

theorem Reads.bind_error {first : Reader ε α} {second : α → Reader ε β} {front : Bytes} {fault : ε}
    (h : Reads first front (.error fault)) (back : Bytes) :
    Reads (first >>= second) (front ++ back) (.error fault) := by
  intro position rest
  change (first _ >>= fun (value, cursor) => second value cursor) = _
  rw [List.append_assoc, h]
  rfl

/-- On bad bytes the reader fails with the given fault. Otherwise it makes something good of
them. -/
structure Outcome (reader : Reader ε α) (bytes : Bytes) (fault : ε) (bad : Prop) (good : α → Prop) :
    Prop where
  fails : bad → Reads reader bytes (.error fault)
  reads : ¬bad → ∃ value, good value ∧ Reads reader bytes (.ok value)

namespace Outcome

variable {first : Reader ε α} {second : α → Reader ε β} {front back : Bytes} {fault : ε}
variable {bad badLater : Prop} {good : α → Prop} {goodLater : β → Prop}

theorem bind (hfirst : Outcome first front fault bad good)
    (hsecond : ∀ value, good value → Outcome (second value) back fault badLater goodLater) :
    Outcome (first >>= second) (front ++ back) fault (bad ∨ badLater) goodLater := by
  by_cases hbad : bad
  · exact ⟨fun _ => (hfirst.fails hbad).bind_error back, fun h => absurd (Or.inl hbad) h⟩
  · obtain ⟨value, hgood, hread⟩ := hfirst.reads hbad
    have hlater := hsecond value hgood
    constructor
    · rintro (h | h)
      · exact absurd h hbad
      · exact hread.bind_ok (hlater.fails h)
    · intro h
      obtain ⟨made, hmade, hreads⟩ := hlater.reads fun hlate => h (Or.inr hlate)
      exact ⟨made, hmade, hread.bind_ok hreads⟩

/-- Sequencing behind a reader that succeeds. -/
theorem bind_ok {value : α} (hfirst : Reads first front (.ok value))
    (hsecond : Outcome (second value) back fault bad goodLater) :
    Outcome (first >>= second) (front ++ back) fault bad goodLater := by
  constructor
  · intro h
    exact hfirst.bind_ok (hsecond.fails h)
  · intro h
    obtain ⟨made, hmade, hreads⟩ := hsecond.reads h
    exact ⟨made, hmade, hfirst.bind_ok hreads⟩

theorem bind_pure {make : α → β} (h : Outcome first front fault bad good)
    (hgood : ∀ value, good value → goodLater (make value)) :
    Outcome (first >>= fun value => pure (make value)) front fault bad goodLater := by
  constructor
  · intro hbad
    exact (h.fails hbad).bind_pure make
  · intro hbad
    obtain ⟨value, hvalue, hread⟩ := h.reads hbad
    exact ⟨make value, hgood value hvalue, hread.bind_pure make⟩

/-- A repetition goes wrong if one of its items is bad. -/
theorem times {reader : Reader ε α} {write : γ → Bytes} {bad : γ → Prop} {good : γ → α → Prop}
    {items : List γ}
    (h : ∀ item ∈ items, Outcome reader (write item) fault (bad item) (good item)) :
    Outcome (times reader items.length) (items.flatMap write) fault (∃ item ∈ items, bad item)
      (List.Forall₂ good items) := by
  induction items with
  | nil => exact ⟨by simp, fun _ => ⟨[], .nil, reads_pure []⟩⟩
  | cons item others ih =>
      have hothers := ih fun other hother => h other (List.mem_cons_of_mem _ hother)
      simp only [List.exists_mem_cons_iff]
      refine (h item List.mem_cons_self).bind fun value hvalue => ?_
      exact hothers.bind_pure fun values hvalues => .cons hvalue hvalues

end Outcome

/-- What the first reader has done can be done again by the second one, wherever the same bytes
stand with at least as many bytes behind them. -/
def Replays (reader again : Reader ε α) : Prop :=
  ∀ ⦃cursor next : Cursor⦄ ⦃value : α⦄, reader cursor = .ok (value, next) →
    ∃ front, cursor.Passes front next ∧
      ∀ position rest, next.rest.length ≤ rest.length →
        again ⟨position, front ++ rest⟩ = .ok (value, ⟨position + front.length, rest⟩)

theorem replays_pure (value : α) : Replays (pure value : Reader ε α) (pure value) := by
  intro cursor next made h
  obtain ⟨rfl, rfl⟩ := pure_eq_ok.1 h
  exact ⟨[], .refl cursor, fun position rest _ => rfl⟩

theorem Replays.bind {reader again : Reader ε α} {second secondAgain : α → Reader ε β}
    (hfirst : Replays reader again)
    (hsecond : ∀ value, Replays (second value) (secondAgain value)) :
    Replays (reader >>= second) (again >>= secondAgain) := by
  intro cursor next made h
  obtain ⟨value, middle, hread, h⟩ := bind_eq_ok.1 h
  obtain ⟨front, hfront, hagain⟩ := hfirst hread
  obtain ⟨back, hback, hlater⟩ := hsecond value h
  refine ⟨front ++ back, hfront.trans hback, ?_⟩
  intro position rest hrest
  have hmiddle : middle.rest.length ≤ (back ++ rest).length := by
    rw [hback.rest, List.length_append, List.length_append]
    omega
  rw [List.append_assoc, bind_eq_ok]
  refine ⟨value, _, hagain position (back ++ rest) hmiddle, ?_⟩
  rw [hlater _ _ hrest, List.length_append, Nat.add_assoc]

end Reader

end ClassMetrics
