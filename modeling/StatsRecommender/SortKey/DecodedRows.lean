import StatsRecommender.SortKey.DecodedValues

/-!
# Rows read back from sort keys

What a decoder leaves in a result vector: the rows that it decoded have the values that their
bytes were made from, and the other rows keep their values.  Rows that are decoded later find
what they need untouched, in particular behind the elements of all lists.
-/

namespace StatsRecommender

variable {row : Nat} {delimiter : UInt8}

/-- Values are not distinct if they are placed alike. -/
theorem notDistinct_iff_fieldDigits (left right : Option Payload) :
    notDistinct left right = true ↔ fieldDigits left = fieldDigits right := by
  cases left with
  | none =>
      cases right with
      | none => simp [notDistinct, fieldDigits]
      | some right => simp [notDistinct, fieldDigits]
  | some left =>
      cases right with
      | none => simp [notDistinct, fieldDigits]
      | some right => simp [notDistinct, fieldDigits, Payload.key]

theorem bind_of_ok {Error Value Result : Type} {first : Except Error Value} {value : Value}
    (succeeds : first = .ok value) (next : Value → Except Error Result) :
    (first >>= next) = next value := by
  rw [succeeds]
  rfl

/-! ## Places in a key -/

namespace DecodeSortKeyData

/-- The state between the bytes that were read and those that are left. -/
def between (before rest : List UInt8) : DecodeSortKeyData := ⟨before ++ rest, before.length⟩

@[simp]
theorem byte_between (before rest : List UInt8) (byte : UInt8) :
    (between before (byte :: rest)).byte = .ok byte := by
  simp [between, DecodeSortKeyData.byte]

theorem advance_between (before bytes rest : List UInt8) :
    (between before (bytes ++ rest)).advance bytes.length = between (before ++ bytes) rest := by
  simp [between, advance]

theorem advance_one (before rest : List UInt8) (byte : UInt8) :
    (between before (byte :: rest)).advance 1 = between (before ++ [byte]) rest :=
  advance_between before [byte] rest

theorem drop_between (before rest : List UInt8) :
    (between before rest).data.drop (between before rest).position = rest :=
  List.drop_left

end DecodeSortKeyData

open DecodeSortKeyData

/-- What is known of the rows that keys were made from. -/
structure KeySource where
  bytes : Nat → List UInt8
  value : Nat → Option Payload
  WellFormed : Nat → Prop

/-- A row of the source, with what is around its bytes in the key. -/
structure KeyPlace where
  row : Nat
  before : List UInt8
  after : List UInt8

namespace KeyPlace

def start (bytes : Nat → List UInt8) (place : KeyPlace) : DecodeSortKeyData :=
  between place.before (bytes place.row ++ place.after)

def finish (bytes : Nat → List UInt8) (place : KeyPlace) : DecodeSortKeyData :=
  between (place.before ++ bytes place.row) place.after

/-- The place behind the bytes of the row, for what follows them in the key. -/
def behind (bytes : Nat → List UInt8) (place : KeyPlace) : KeyPlace :=
  ⟨place.row, place.before ++ bytes place.row, place.after⟩

end KeyPlace

/-! ## Rows of result vectors -/

/-- How the rows of a vector are seen: not written, written as a whole, and their values. -/
structure RowView (Vector : Type) where
  Fresh : Vector → Nat → Prop
  Settled : Vector → Nat → Prop
  valueAt : Vector → Nat → Option Payload

variable {source : KeySource}

namespace RowView

variable {Vector : Type} (view : RowView Vector) {old new : Vector}
  {decode decodeChild : RowsDecoder Vector}

/-- The row was written, with a value that is not distinct. -/
def Holds (value : Option Payload) (vector : Vector) (row : Nat) : Prop :=
  view.Settled vector row ∧ notDistinct (view.valueAt vector row) value = true

/-- The row is as before. -/
def Keeps (old new : Vector) (row : Nat) : Prop :=
  (view.Fresh old row → view.Fresh new row) ∧ (view.Settled old row →
    view.Settled new row ∧ view.valueAt new row = view.valueAt old row)

/-- Values were written from a row on, and nothing else. -/
structure Written (values : List (Option Payload)) (start : Nat) (old new : Vector) : Prop where
  holds : ∀ index value, values[index]? = some value → view.Holds value new (start + index)
  keeps : ∀ row, row < start ∨ start + values.length ≤ row → view.Keeps old new row

variable {view}

theorem Keeps.refl (vector : Vector) (row : Nat) : view.Keeps vector vector row :=
  ⟨id, fun settled => ⟨settled, rfl⟩⟩

theorem Keeps.trans {middle : Vector} (first : view.Keeps old middle row)
    (second : view.Keeps middle new row) : view.Keeps old new row := by
  refine ⟨fun fresh => second.1 (first.1 fresh), fun settled => ?_⟩
  obtain ⟨between, same⟩ := first.2 settled
  obtain ⟨after, equal⟩ := second.2 between
  exact ⟨after, equal.trans same⟩

theorem Keeps.holds (keeps : view.Keeps old new row) {value : Option Payload}
    (holds : view.Holds value old row) : view.Holds value new row := by
  obtain ⟨settled, same⟩ := keeps.2 holds.1
  exact ⟨settled, same ▸ holds.2⟩

theorem Written.nil (start : Nat) (vector : Vector) : view.Written [] start vector vector :=
  ⟨fun _ _ found => absurd found (by simp), fun row _ => Keeps.refl vector row⟩

theorem Written.cons {value : Option Payload} {values : List (Option Payload)} {start : Nat}
    {old middle new : Vector} (holds : view.Holds value middle start)
    (keeps : ∀ row, row ≠ start → view.Keeps old middle row)
    (rest : view.Written values (start + 1) middle new) :
    view.Written (value :: values) start old new := by
  constructor
  · intro index other found
    cases index with
    | zero =>
        cases found
        exact (rest.keeps start (Or.inl (Nat.lt_succ_self start))).holds holds
    | succ index =>
        rw [show start + (index + 1) = start + 1 + index by omega]
        exact rest.holds index other found
  · intro row outside
    rw [List.length_cons] at outside
    exact (keeps row (by omega)).trans (rest.keeps row (by omega))

/-- What was written, read again. -/
theorem Written.digits {values : List (Option Payload)} {start : Nat}
    (written : view.Written values start old new) :
    (List.range' start values.length).map (fun row => fieldDigits (view.valueAt new row)) =
      values.map fieldDigits := by
  apply List.ext_getElem
  · simp
  · intro index inside bound
    rw [List.length_map] at bound
    have holds := written.holds index values[index] (List.getElem?_eq_getElem bound)
    simpa using (notDistinct_iff_fieldDigits _ _).mp holds.2

/-- A decoder of rows leaves the values that the bytes of the rows were made from. -/
def Decodes (view : RowView Vector) (decode : RowsDecoder Vector) (source : KeySource) : Prop :=
  ∀ (resultOffset : Nat) (places : List KeyPlace) (vector : Vector),
    (∀ place ∈ places, source.WellFormed place.row) →
    (∀ index < places.length, view.Fresh vector (resultOffset + index)) →
    ∃ decoded, decode resultOffset (places.map (·.start source.bytes)) vector =
        .ok (places.map (·.finish source.bytes), decoded) ∧
      view.Written (places.map fun place => source.value place.row) resultOffset vector decoded

/-- The same for what decodes one row. -/
def DecodesRow (view : RowView Vector)
    (decodeRow : Nat → DecodeSortKeyData → Vector → Except DecodeError (DecodeSortKeyData × Vector))
    (source : KeySource) : Prop :=
  ∀ (resultIdx : Nat) (place : KeyPlace) (vector : Vector), source.WellFormed place.row →
    view.Fresh vector resultIdx →
    ∃ decoded, decodeRow resultIdx (place.start source.bytes) vector =
        .ok (place.finish source.bytes, decoded) ∧
      view.Holds (source.value place.row) decoded resultIdx ∧
      ∀ row, row ≠ resultIdx → view.Keeps vector decoded row

theorem DecodesRow.rows {decodeRow : Nat → DecodeSortKeyData → Vector →
    Except DecodeError (DecodeSortKeyData × Vector)} (decodes : view.DecodesRow decodeRow source) :
    view.Decodes (decodeRows decodeRow) source := by
  intro resultOffset places
  induction places generalizing resultOffset with
  | nil => exact fun vector _ _ => ⟨vector, rfl, .nil resultOffset vector⟩
  | cons place rest ih =>
      intro vector wellFormed fresh
      obtain ⟨first, others⟩ := List.forall_mem_cons.mp wellFormed
      obtain ⟨middle, row, holds, keeps⟩ := decodes resultOffset place vector first
        (fresh 0 (Nat.succ_pos _))
      obtain ⟨decoded, rows, written⟩ := ih (resultOffset + 1) middle others fun index inside => by
        refine (keeps _ (by omega)).1 ?_
        rw [show resultOffset + 1 + index = resultOffset + (index + 1) by omega]
        exact fresh (index + 1) (Nat.succ_lt_succ inside)
      refine ⟨decoded, ?_, .cons holds keeps written⟩
      rw [List.map_cons, decodeRows, row]
      dsimp only [bind, Except.bind]
      rw [rows]
      rfl

/-- A decoder stops where the bytes of others begin. -/
theorem Decodes.leading (decodes : view.Decodes decode source) (rest : Nat → List UInt8)
    (resultOffset : Nat) (places : List KeyPlace) (vector : Vector)
    (wellFormed : ∀ place ∈ places, source.WellFormed place.row)
    (fresh : ∀ index < places.length, view.Fresh vector (resultOffset + index)) :
    ∃ decoded, decode resultOffset
        (places.map (KeyPlace.start fun row => source.bytes row ++ rest row)) vector =
        .ok ((places.map (KeyPlace.behind source.bytes)).map (KeyPlace.start rest), decoded) ∧
      view.Written (places.map fun place => source.value place.row) resultOffset vector decoded := by
  obtain ⟨decoded, rows, written⟩ := decodes resultOffset
    (places.map fun place => ⟨place.row, place.before, rest place.row ++ place.after⟩) vector
    (List.forall_mem_map.mpr wellFormed) (fun index inside => fresh index (by simpa using inside))
  simp only [List.map_map] at rows written ⊢
  refine ⟨decoded, ?_, written⟩
  have started : places.map (KeyPlace.start fun row => source.bytes row ++ rest row) =
      places.map (KeyPlace.start source.bytes ∘ fun place =>
        KeyPlace.mk place.row place.before (rest place.row ++ place.after)) :=
    List.map_congr_left fun place _ => congrArg (between place.before) (List.append_assoc _ _ _)
  rw [started]
  exact rows

/-- A decoder goes on where the bytes of others ended. -/
theorem Decodes.behind (decodes : view.Decodes decode source) (bytes : Nat → List UInt8)
    (resultOffset : Nat) (places : List KeyPlace) (vector : Vector)
    (wellFormed : ∀ place ∈ places, source.WellFormed place.row)
    (fresh : ∀ index < places.length, view.Fresh vector (resultOffset + index)) :
    ∃ decoded, decode resultOffset
        ((places.map (KeyPlace.behind bytes)).map (KeyPlace.start source.bytes)) vector =
        .ok (places.map (KeyPlace.finish fun row => bytes row ++ source.bytes row), decoded) ∧
      view.Written (places.map fun place => source.value place.row) resultOffset vector decoded := by
  obtain ⟨decoded, rows, written⟩ := decodes resultOffset (places.map (KeyPlace.behind bytes)) vector
    (List.forall_mem_map.mpr wellFormed) (fun index inside => fresh index (by simpa using inside))
  refine ⟨decoded, rows.trans ?_, by rwa [List.map_map] at written⟩
  rw [List.map_map]
  refine congrArg (fun states => Except.ok (states, decoded)) ?_
  exact List.map_congr_left fun place _ =>
    congrArg (between · place.after) (List.append_assoc _ _ _)

theorem Decodes.element (decodes : view.Decodes decodeChild source) :
    view.DecodesRow (decodeElement decodeChild) source := by
  intro resultIdx place vector wellFormed fresh
  obtain ⟨decoded, rows, written⟩ := decodes resultIdx [place] vector
    (fun other member => List.mem_singleton.mp member ▸ wellFormed)
    (fun index inside => by rwa [Nat.lt_one_iff.mp inside])
  refine ⟨decoded, ?_, written.holds 0 _ rfl, fun row different => written.keeps row ?_⟩
  · rw [decodeElement, show [place.start source.bytes] = [place].map (·.start source.bytes) from rfl,
      rows]
    rfl
  · rw [List.map_singleton, List.length_singleton]
    omega

/-- What the loops over elements rely on: no element begins with the delimiter. -/
def BeginsApart (source : KeySource) (delimiter : UInt8) : Prop :=
  ∀ row, ∃ byte rest, source.bytes row = byte :: rest ∧ byte ≠ delimiter

/-- The bytes of one element in front of those of the others. -/
theorem start_element (source : KeySource) (before : List UInt8) (row : Nat) (rest : List UInt8) :
    between before (source.bytes row ++ rest) =
      KeyPlace.start source.bytes ⟨row, before, rest⟩ :=
  rfl

/-- The loop over the elements of a list, for as many rounds as there are elements and more. -/
theorem Decodes.listElements (decodes : view.Decodes decodeChild source)
    (apart : BeginsApart source delimiter) (elements : List Nat) (before after : List UInt8)
    (rounds newListSize : Nat) (child : Vector) (enough : elements.length < rounds)
    (wellFormed : ∀ row ∈ elements, source.WellFormed row)
    (fresh : ∀ element, newListSize ≤ element → view.Fresh child element) :
    ∃ decoded, decodeListElements decodeChild delimiter rounds
        (between before (elements.flatMap source.bytes ++ delimiter :: after)) newListSize child =
      .ok (between (before ++ elements.flatMap source.bytes) (delimiter :: after),
        newListSize + elements.length, decoded) ∧
      view.Written (elements.map source.value) newListSize child decoded := by
  induction elements generalizing before rounds newListSize child with
  | nil =>
      obtain ⟨rounds, rfl⟩ := Nat.exists_eq_add_of_lt enough
      refine ⟨child, ?_, .nil newListSize child⟩
      simp [decodeListElements, bind, Except.bind]
  | cons row rest ih =>
      obtain ⟨rounds, rfl⟩ : ∃ left, rounds = left + 1 := ⟨rounds - 1, by omega⟩
      obtain ⟨first, others⟩ := List.forall_mem_cons.mp wellFormed
      obtain ⟨byte, bytes, starts, different⟩ := apart row
      obtain ⟨middle, element, holds, keeps⟩ := decodes.element newListSize
        ⟨row, before, rest.flatMap source.bytes ++ delimiter :: after⟩ child first
        (fresh newListSize le_rfl)
      obtain ⟨decoded, loop, written⟩ := ih (before ++ source.bytes row) rounds (newListSize + 1)
        middle (Nat.lt_of_succ_lt_succ enough) others
        fun other later => (keeps other (by omega)).1 (fresh other (by omega))
      refine ⟨decoded, ?_, .cons holds keeps written⟩
      have found : (between before ((row :: rest).flatMap source.bytes ++
          delimiter :: after)).byte = .ok byte := by
        rw [List.flatMap_cons, starts]
        exact byte_between _ _ _
      rw [decodeListElements, found]
      dsimp only [bind, Except.bind]
      rw [if_neg different, List.flatMap_cons, List.append_assoc, start_element source, element]
      dsimp only
      rw [KeyPlace.finish, loop, List.length_cons, List.append_assoc]
      congr 3
      omega

/-- The loop over the elements of an array, which has as many of them as may be found. -/
theorem Decodes.arrayElements (decodes : view.Decodes decodeChild source)
    (apart : BeginsApart source delimiter) (elements : List Nat) (before after : List UInt8)
    (childStart found : Nat) (child : Vector) (wellFormed : ∀ row ∈ elements, source.WellFormed row)
    (fresh : ∀ index < elements.length, view.Fresh child (childStart + found + index)) :
    ∃ decoded, decodeArrayElements decodeChild delimiter childStart elements.length
        (between before (elements.flatMap source.bytes ++ delimiter :: after)) found child =
      .ok (between (before ++ elements.flatMap source.bytes) (delimiter :: after),
        found + elements.length, decoded) ∧
      view.Written (elements.map source.value) (childStart + found) child decoded := by
  induction elements generalizing before found child with
  | nil =>
      refine ⟨child, ?_, .nil _ child⟩
      simp [decodeArrayElements, bind, Except.bind]
  | cons row rest ih =>
      obtain ⟨first, others⟩ := List.forall_mem_cons.mp wellFormed
      obtain ⟨byte, bytes, starts, different⟩ := apart row
      obtain ⟨middle, element, holds, keeps⟩ := decodes.element (childStart + found)
        ⟨row, before, rest.flatMap source.bytes ++ delimiter :: after⟩ child first
        (fresh 0 (Nat.succ_pos _))
      obtain ⟨decoded, loop, written⟩ := ih (before ++ source.bytes row) (found + 1) middle others
        fun index inside => by
          refine (keeps _ (by omega)).1 ?_
          rw [show childStart + (found + 1) + index = childStart + found + (index + 1) by omega]
          exact fresh (index + 1) (Nat.succ_lt_succ inside)
      refine ⟨decoded, ?_, .cons holds keeps written⟩
      have begins : (between before ((row :: rest).flatMap source.bytes ++
          delimiter :: after)).byte = .ok byte := by
        rw [List.flatMap_cons, starts]
        exact byte_between _ _ _
      rw [List.length_cons, decodeArrayElements, begins]
      dsimp only [bind, Except.bind]
      rw [if_neg different, List.flatMap_cons, List.append_assoc, start_element source, element]
      dsimp only
      rw [KeyPlace.finish, loop, List.append_assoc]
      congr 3
      omega

end RowView

end StatsRecommender
