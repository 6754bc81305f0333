import Mathlib.Algebra.Order.Ring.Nat
import Mathlib.Data.Int.ConditionallyCompleteOrder

/-!
# Readers of bytes

Readers that take bytes from the front of a stream.  A reader takes a row of bytes if it reads them
in front of any others, and notices when they are cut.
-/

/-- A reader of bytes; what it leaves is the rest of the stream. -/
abbrev ByteReader (Error : Type) := StateT (List UInt8) (Except Error)

namespace ByteReader

variable {Error α β : Type} {reader : ByteReader Error α} {next : α → ByteReader Error β}
  {stream : List UInt8} {value' : β}

/-- The next bytes of a stream, or an error if there are too few. -/
def bytes (short : Error) (size : Nat) : ByteReader Error (List UInt8) := fun stream =>
  if stream.length < size then .error short else .ok (stream.take size, stream.drop size)

/-- What a reader finds next in a stream, which it leaves as it is. -/
def peek (reader : ByteReader Error α) : ByteReader Error α := fun stream =>
  (reader stream).map fun pair => (pair.1, stream)

/-- As many readings as are asked for. -/
def replicate (reader : ByteReader Error α) : Nat → ByteReader Error (List α)
  | 0 => pure []
  | count + 1 => do
      let first ← reader
      let rest ← replicate reader count
      pure (first :: rest)

/-- A reader behind one that has read. -/
theorem bind_ok {rest : List UInt8} {value : α} (ran : reader stream = .ok (value, rest)) :
    (reader >>= next) stream = next value rest := by
  show reader stream >>= _ = _
  rw [ran]
  rfl

/-- A reader behind one that has failed. -/
theorem bind_error {error : Error} (failed : reader stream = .error error) :
    (reader >>= next) stream = .error error := by
  show reader stream >>= _ = _
  rw [failed]
  rfl

/-- A reader takes a row of bytes for a value, and fails on every cut of them. -/
structure Takes (torn : Error → Prop) (reader : ByteReader Error α) (row : List UInt8) (value : α) :
    Prop where
  whole : ∀ rest, reader (row ++ rest) = .ok (value, rest)
  cut : ∀ size < row.length, ∃ error, reader (row.take size) = .error error ∧ torn error

namespace Takes

variable {torn : Error → Prop} {reader : ByteReader Error α} {row row' : List UInt8} {value : α}

theorem pure (value : α) : Takes torn (Pure.pure value : ByteReader Error α) [] value :=
  ⟨fun _ => rfl, fun _ below => absurd below (Nat.not_lt_zero _)⟩

theorem bytes {short : Error} (is_torn : torn short) (row : List UInt8) :
    Takes torn (ByteReader.bytes short row.length) row row := by
  constructor
  · intro rest
    rw [ByteReader.bytes, if_neg (by simp), List.take_left' rfl, List.drop_left' rfl]
  · intro size below
    refine ⟨short, ?_, is_torn⟩
    rw [ByteReader.bytes, if_pos]
    rw [List.length_take]
    omega

/-- One reader behind another takes the bytes of both. -/
theorem bind (first : Takes torn reader row value) (second : Takes torn (next value) row' value') :
    Takes torn (reader >>= next) (row ++ row') value' := by
  constructor
  · intro rest
    rw [List.append_assoc]
    exact (bind_ok (first.whole (row' ++ rest))).trans (second.whole rest)
  · intro size below
    rw [List.length_append] at below
    by_cases inside : size < row.length
    · obtain ⟨error, failed, is_torn⟩ := first.cut size inside
      refine ⟨error, ?_, is_torn⟩
      rw [List.take_append_of_le_length inside.le]
      exact bind_error failed
    · obtain ⟨error, failed, is_torn⟩ := second.cut (size - row.length) (by omega)
      refine ⟨error, ?_, is_torn⟩
      rw [List.take_append, List.take_of_length_le (by omega)]
      exact (bind_ok (first.whole _)).trans failed

/-- A reader whose value is only repackaged. -/
theorem bind_pure {package : α → β} (first : Takes torn reader row value) :
    Takes torn (reader >>= fun value => Pure.pure (package value)) row (package value) := by
  rw [← List.append_nil row]
  exact first.bind (pure (package value))

/-- A reader that looks at the next bytes leaves them to the one behind it. -/
theorem peek_bind (first : Takes torn reader row value)
    (second : Takes torn (next value) (row ++ row') value') :
    Takes torn (peek reader >>= next) (row ++ row') value' := by
  constructor
  · intro rest
    have looked : peek reader (row ++ row' ++ rest) = .ok (value, row ++ row' ++ rest) := by
      rw [List.append_assoc, peek, first.whole]
      rfl
    exact (bind_ok looked).trans (second.whole rest)
  · intro size below
    by_cases inside : size < row.length
    · obtain ⟨error, failed, is_torn⟩ := first.cut size inside
      refine ⟨error, ?_, is_torn⟩
      have looked : peek reader ((row ++ row').take size) = .error error := by
        rw [List.take_append_of_le_length inside.le, peek, failed]
        rfl
      exact bind_error looked
    · obtain ⟨error, failed, is_torn⟩ := second.cut size below
      refine ⟨error, ?_, is_torn⟩
      have looked : peek reader ((row ++ row').take size) = .ok (value, (row ++ row').take size) := by
        rw [List.take_append, List.take_of_length_le (by omega), peek, first.whole]
        rfl
      exact (bind_ok looked).trans failed

/-- Readings of one kind, one after the other. -/
theorem replicate {values : List α} {encode : α → List UInt8}
    (each : ∀ value ∈ values, Takes torn reader (encode value) value) :
    Takes torn (ByteReader.replicate reader values.length) (values.flatMap encode) values := by
  induction values with
  | nil => exact pure []
  | cons value values ih =>
      have rest := ih fun other member => each other (List.mem_cons_of_mem _ member)
      exact (each value List.mem_cons_self).bind rest.bind_pure

end Takes

end ByteReader
