import Mathlib.Tactic.Common

/-!
# Streams of numbered properties

Objects as sequences of properties with a number before each and a terminator behind the last
one, and readers that take a prefix of a stream and thread a state of their own.
-/

namespace StatsRecommender

/-- An entry of a stream: the number of a property, the size of a list, or a primitive value. -/
inductive Entry (Value : Type) where
  | field (id : Nat)
  | count (size : Nat)
  | value (value : Value)
  deriving DecidableEq, Repr

/-- `MESSAGE_TERMINATOR_FIELD_ID`. -/
def messageTerminatorFieldId : Nat := 65535

/-- A reader over a stream, with a state that outlives the stream. -/
abbrev Reader (State Value : Type) := StateT (State × List (Entry Value)) (Except String)

section Writer

variable {Value : Type}

/-- `WriteProperty`. -/
def writeProperty (id : Nat) (entries : List (Entry Value)) : List (Entry Value) :=
  .field id :: entries

/-- An object between `OnObjectBegin` and `OnObjectEnd`. -/
def writeObject (entries : List (Entry Value)) : List (Entry Value) :=
  entries ++ [.field messageTerminatorFieldId]

end Writer

namespace Reader

variable {State Value α β : Type} {next : α → Reader State Value β} {post' : β → Prop}

/-- `NextField`; the bytes of another kind of entry are no field. -/
def nextField : Reader State Value Nat
  | (state, .field id :: rest) => .ok (id, (state, rest))
  | _ => .error "Failed to deserialize: not enough data in buffer to fulfill read request"

/-- `ReadPrimitive`. -/
def value : Reader State Value Value
  | (state, .value value :: rest) => .ok (value, (state, rest))
  | _ => .error "Failed to deserialize: not enough data in buffer to fulfill read request"

/-- `OnListBegin`. -/
def listSize : Reader State Value Nat
  | (state, .count size :: rest) => .ok (size, (state, rest))
  | _ => .error "Failed to deserialize: not enough data in buffer to fulfill read request"

/-- A step on the state that leaves the stream alone. -/
def update (step : State → α × State) : Reader State Value α
  | (state, stream) => .ok ((step state).1, ((step state).2, stream))

/-- `ReadProperty`. -/
def property (id : Nat) (reader : Reader State Value α) : Reader State Value α := do
  let field ← nextField
  if field = id then reader
  else throw ("Failed to deserialize: field id mismatch, expected: " ++ toString id ++ ", got: " ++
    toString field)

/-- `ReadPropertyWithExplicitDefault`: the number is looked at before it is taken. -/
def propertyWithDefault (id : Nat) (fallback : α) (reader : Reader State Value α) :
    Reader State Value α
  | (state, stream) => do
      let (field, _) ← nextField (state, stream)
      if field = id then property id reader (state, stream) else pure (fallback, (state, stream))

/-- `ReadObject`. -/
def object (reader : Reader State Value α) : Reader State Value α := do
  let result ← reader
  let field ← nextField
  if field = messageTerminatorFieldId then pure result
  else throw ("Failed to deserialize: expected end of object, but found field id: " ++
    toString field)

/-- The reader takes exactly these entries, from any state and before any rest. -/
def Reads (reader : Reader State Value α) (entries : List (Entry Value)) (post : α → Prop) : Prop :=
  ∀ state rest, ∃ result state',
    reader (state, entries ++ rest) = .ok (result, (state', rest)) ∧ post result

variable {reader : Reader State Value α} {entries : List (Entry Value)} {post : α → Prop}

theorem Reads.pure {result : α} (holds : post result) :
    Reads (Pure.pure result : Reader State Value α) [] post :=
  fun state _ => ⟨result, state, rfl, holds⟩

/-- One reader behind another takes the entries of both. -/
theorem Reads.bind {more : List (Entry Value)} (first : Reads reader entries post)
    (second : ∀ result, post result → Reads (next result) more post') :
    Reads (reader >>= next) (entries ++ more) post' := by
  intro state rest
  obtain ⟨result, state', run, holds⟩ := first state (more ++ rest)
  obtain ⟨result', state'', run', holds'⟩ := second result holds state' rest
  refine ⟨result', state'', ?_, holds'⟩
  have step : (reader >>= next) (state, entries ++ more ++ rest) =
      (reader (state, entries ++ (more ++ rest))) >>= fun pair => next pair.1 pair.2 := by
    rw [List.append_assoc]
    rfl
  rw [step, run]
  exact run'

/-- A reader whose result is only repackaged. -/
theorem Reads.bind_pure {package : α → β} (first : Reads reader entries post)
    (implies : ∀ result, post result → post' (package result)) :
    Reads (reader >>= fun result => Pure.pure (package result)) entries post' := by
  rw [← List.append_nil entries]
  exact first.bind fun result holds => Reads.pure (implies result holds)

theorem Reads.nextField (id : Nat) :
    Reads (nextField : Reader State Value Nat) [.field id] (· = id) :=
  fun state _ => ⟨id, state, rfl, rfl⟩

theorem Reads.listSize (size : Nat) :
    Reads (listSize : Reader State Value Nat) [.count size] (· = size) :=
  fun state _ => ⟨size, state, rfl, rfl⟩

/-- A step on the state takes no entry. -/
theorem Reads.update_bind {step : State → α × State}
    (second : ∀ state, Reads (next (step state).1) entries post') :
    Reads (update step >>= next) entries post' :=
  fun state rest => second state (step state).2 rest

theorem Reads.property (id : Nat) (reads : Reads reader entries post) :
    Reads (property id reader) (writeProperty id entries) post := by
  change Reads (Reader.property id reader) ([.field id] ++ entries) post
  refine (Reads.nextField id).bind ?_
  rintro field rfl
  rw [if_pos rfl]
  exact reads

theorem Reads.propertyWithDefault (id : Nat) (fallback : α) (reads : Reads reader entries post) :
    Reads (propertyWithDefault id fallback reader) (writeProperty id entries) post := by
  intro state rest
  obtain ⟨result, state', run, holds⟩ := reads.property id state rest
  refine ⟨result, state', ?_, holds⟩
  change (if id = id then Reader.property id reader (state, writeProperty id entries ++ rest)
    else _) = _
  rw [if_pos rfl]
  exact run

theorem Reads.object (reads : Reads reader entries post) :
    Reads (object reader) (writeObject entries) post := by
  refine reads.bind ?_
  intro result holds
  rw [← List.append_nil [_]]
  refine (Reads.nextField messageTerminatorFieldId).bind ?_
  rintro field rfl
  rw [if_pos rfl]
  exact Reads.pure holds

end Reader

end StatsRecommender
