import Mathlib.Algebra.Order.Ring.Nat
import Mathlib.Data.Int.ConditionallyCompleteOrder

/-!
# First occurrences

Rows in an order, and keys on which rows agree.  One key after another marks the rows that
agree with an earlier row on it; a row takes part only until it has agreed with another one.
The rows that stay unmarked are compared with the rows that ought to stay: no two of these
are in conflict, and every other row is in conflict with an earlier one of them.
-/

namespace FirstOccurrences

variable {row : Nat} {conflict : Nat → Nat → Prop}

/-- The rows that agree on a key, and the rows for which an agreement is a conflict. -/
structure RowKey where
  same : Nat → Nat → Prop
  present : Nat → Prop
  same_symm : ∀ {first second}, same first second → same second first
  same_trans : ∀ {first second third}, same first second → same second third → same first third
  present_of_same : ∀ {first second}, same first second → present first → present second

namespace RowKey

/-- No earlier row agrees on the key. -/
def First (key : RowKey) (row : Nat) : Prop := ∀ earlier < row, ¬ key.same earlier row

theorem not_first_iff (key : RowKey) : ¬ key.First row ↔ ∃ earlier < row, key.same earlier row := by
  simp [First]

/-- Every row that is not the first agrees with a first one. -/
theorem exists_first (key : RowKey) {earlier : Nat} (before : earlier < row)
    (same : key.same earlier row) : ∃ first < row, key.same first row ∧ key.First first := by
  induction earlier using Nat.strongRecOn with
  | ind earlier ih =>
      by_cases first : key.First earlier
      · exact ⟨earlier, before, same, first⟩
      · obtain ⟨sooner, less, agrees⟩ := key.not_first_iff.mp first
        exact ih sooner less (less.trans before) (key.same_trans agrees same)

end RowKey

/-- Two rows are in conflict if they agree on a key for which this matters. -/
def Conflict (keys : List RowKey) (first second : Nat) : Prop :=
  ∃ key ∈ keys, key.same first second ∧ key.present first

/-- No earlier row agrees on any key. -/
def Root (keys : List RowKey) (row : Nat) : Prop := ∀ key ∈ keys, key.First row

theorem not_root_iff {keys : List RowKey} : ¬ Root keys row ↔ ∃ key ∈ keys, ¬ key.First row := by
  simp [Root]

/-! ## Passes -/

/-- The rows that still take part, and the rows that are marked. -/
structure Marks where
  valid : Nat → Prop
  marked : Nat → Prop

variable {marks : Marks} {key : RowKey}

namespace Marks

def start : Marks := ⟨fun _ => True, fun _ => False⟩

/-- What one key does to the rows below a size. -/
def pass (size : Nat) (marks : Marks) (key : RowKey) : Marks where
  valid := fun row => marks.valid row ∧ key.First row ∧
    ∀ later, row < later → later < size → key.same row later → ¬ marks.valid later
  marked := fun row => marks.marked row ∨ (marks.valid row ∧ ¬ key.First row)

/-- One key after another. -/
def passes (size : Nat) (keys : List RowKey) (marks : Marks) : Marks := keys.foldl (pass size) marks

variable {size : Nat}

theorem marked_passes (keys : List RowKey) (marked : marks.marked row) :
    (passes size keys marks).marked row := by
  induction keys generalizing marks with
  | nil => exact marked
  | cons key rest ih => exact ih (Or.inl marked)

/-- A row that does not take part any more is not marked either. -/
theorem not_marked_passes (keys : List RowKey) (invalid : ¬ marks.valid row)
    (unmarked : ¬ marks.marked row) : ¬ (passes size keys marks).marked row := by
  induction keys generalizing marks with
  | nil => exact unmarked
  | cons key rest ih =>
      apply ih
      · exact fun valid => invalid valid.1
      · rintro (marked | ⟨valid, -⟩)
        · exact unmarked marked
        · exact invalid valid

/-- The key that comes first marks all rows that agree with an earlier one on it. -/
theorem marked_of_not_first (rest : List RowKey) (later : ¬ key.First row) :
    (passes size (key :: rest) start).marked row :=
  marked_passes rest (Or.inr ⟨trivial, later⟩)

/-- The first of several rows that agree on the key that comes first stays. -/
theorem not_marked_of_first (rest : List RowKey) {later : Nat} (first : key.First row)
    (before : row < later) (inside : later < size) (same : key.same row later) :
    ¬ (passes size (key :: rest) start).marked row := by
  apply not_marked_passes rest
  · exact fun valid => valid.2.2 later before inside same trivial
  · rintro (marked | ⟨-, notFirst⟩)
    · exact marked
    · exact notFirst first

end Marks

/-! ## The rows that ought to stay -/

/-- No two rows that stay are in conflict, and every other row is in conflict with one. -/
structure KeepsFirst (size : Nat) (conflict : Nat → Nat → Prop) (kept : Nat → Prop) : Prop where
  apart : ∀ row < size, ∀ earlier < row, kept earlier → kept row → ¬ conflict earlier row
  covered : ∀ row < size, ¬ kept row → ∃ earlier < row, kept earlier ∧ conflict earlier row

/-- Only the rows below the size matter. -/
theorem KeepsFirst.congr {size : Nat} {kept other : Nat → Prop}
    (same : ∀ row < size, kept row ↔ other row) (keeps : KeepsFirst size conflict kept) :
    KeepsFirst size conflict other := by
  constructor
  · intro row inside earlier before stayed stays
    exact keeps.apart row inside earlier before ((same earlier (before.trans inside)).mpr stayed)
      ((same row inside).mpr stays)
  · intro row inside gone
    obtain ⟨earlier, before, stayed, found⟩ := keeps.covered row inside
      (fun stays => gone ((same row inside).mp stays))
    exact ⟨earlier, before, (same earlier (before.trans inside)).mp stayed, found⟩

/-- There is only one such set of rows. -/
theorem KeepsFirst.unique {size : Nat} {kept other : Nat → Prop}
    (keeps : KeepsFirst size conflict kept) (otherKeeps : KeepsFirst size conflict other)
    (inside : row < size) : kept row ↔ other row := by
  induction row using Nat.strongRecOn with
  | ind row ih =>
      have same : ∀ earlier < row, kept earlier ↔ other earlier :=
        fun earlier before => ih earlier before (before.trans inside)
      constructor
      · intro stays
        by_contra gone
        obtain ⟨earlier, before, stayed, conflict⟩ := otherKeeps.covered row inside gone
        exact keeps.apart row inside earlier before ((same earlier before).mpr stayed) stays
          conflict
      · intro stays
        by_contra gone
        obtain ⟨earlier, before, stayed, conflict⟩ := keeps.covered row inside gone
        exact otherKeeps.apart row inside earlier before ((same earlier before).mp stayed) stays
          conflict

/-- The first of several rows that agree on a key agrees with no earlier row on any key. -/
def StartsAtRoots (size : Nat) (keys : List RowKey) : Prop :=
  ∀ key ∈ keys, ∀ later < size, ∀ row < later, key.same row later → key.First row → Root keys row

/-- Every row that agrees with an earlier one on a key is in conflict with an earlier one. -/
def AgreementsConflict (size : Nat) (keys : List RowKey) : Prop :=
  ∀ row < size, ¬ Root keys row → ∃ earlier < row, Conflict keys earlier row

variable {size : Nat} {keys : List RowKey}

/-- The state between two passes, if the rows that are first somewhere are first everywhere. -/
theorem marked_iff_of_starts (starts : StartsAtRoots size keys) (processed rest : List RowKey)
    (split : ∀ key, key ∈ keys ↔ key ∈ processed ∨ key ∈ rest) (marks : Marks)
    (unmarked : ∀ row < size, marks.marked row → ¬ Root keys row)
    (touched : ∀ row < size, ¬ marks.valid row → ¬ Root keys row → marks.marked row)
    (reached : ∀ key ∈ processed, ∀ row < size, ¬ key.First row → marks.marked row)
    (inside : row < size) : (Marks.passes size rest marks).marked row ↔ ¬ Root keys row := by
  induction rest generalizing processed marks with
  | nil =>
      constructor
      · exact unmarked row inside
      · intro notRoot
        obtain ⟨key, member, notFirst⟩ := not_root_iff.mp notRoot
        have processedKey := ((split key).mp member).resolve_right List.not_mem_nil
        exact reached key processedKey row inside notFirst
  | cons key rest ih =>
      have member : key ∈ keys := (split key).mpr (Or.inr List.mem_cons_self)
      refine ih (key :: processed) ?_ (marks.pass size key) ?_ ?_ ?_
      · intro other
        rw [split other, List.mem_cons, List.mem_cons, or_left_comm, or_assoc]
      · rintro row inside (marked | ⟨-, notFirst⟩) root
        · exact unmarked row inside marked root
        · exact notFirst (root key member)
      · intro row inside invalid notRoot
        by_cases valid : marks.valid row
        · by_cases first : key.First row
          · -- a first row that leaves has a later row, so it is first for every key
            exfalso
            apply invalid
            refine ⟨valid, first, fun later before inside same _ => notRoot ?_⟩
            exact starts key member later inside row before same first
          · exact Or.inr ⟨valid, first⟩
        · exact Or.inl (touched row inside valid notRoot)
      · intro other otherMember row inside notFirst
        rcases List.mem_cons.mp otherMember with rfl | earlier
        · by_cases valid : marks.valid row
          · exact Or.inr ⟨valid, notFirst⟩
          · exact Or.inl (touched row inside valid fun root => notFirst (root other member))
        · exact Or.inl (reached other earlier row inside notFirst)

/-- The passes keep the right rows, in whatever order the keys come. -/
theorem keepsFirst_passes (starts : StartsAtRoots size keys)
    (conflicts : AgreementsConflict size keys) {order : List RowKey}
    (same : ∀ key, key ∈ keys ↔ key ∈ order) :
    KeepsFirst size (Conflict keys) fun row =>
      ¬ (Marks.passes size order Marks.start).marked row := by
  have marked : ∀ row < size,
      ¬ (Marks.passes size order Marks.start).marked row ↔ Root keys row := by
    intro row inside
    rw [marked_iff_of_starts starts [] order (fun key => by simpa using same key) Marks.start
      (fun _ _ marked => marked.elim) (fun _ _ invalid => (invalid trivial).elim)
      (fun _ member => (List.not_mem_nil member).elim) inside, not_not]
  constructor
  · intro row inside earlier before _ stays conflict
    obtain ⟨key, member, agrees, -⟩ := conflict
    exact (marked row inside).mp stays key member earlier before agrees
  · intro row inside gone
    obtain ⟨sooner, before, key, member, agrees, present⟩ :=
      conflicts row inside fun root => gone ((marked row inside).mpr root)
    obtain ⟨first, less, firstAgrees, isFirst⟩ := key.exists_first before agrees
    refine ⟨first, less, ?_, key, member, firstAgrees, ?_⟩
    · exact (marked first (less.trans inside)).mpr
        (starts key member row inside first less firstAgrees isFirst)
    · exact key.present_of_same (key.same_trans agrees (key.same_symm firstAgrees)) present

/-- If the right rows stay whichever key comes first, first rows are first for every key. -/
theorem starts_of_keepsFirst (kept : ∀ key ∈ keys, ∃ rest : List RowKey,
      KeepsFirst size (Conflict keys) fun row =>
        ¬ (Marks.passes size (key :: rest) Marks.start).marked row) :
    StartsAtRoots size keys ∧ AgreementsConflict size keys := by
  -- a row that stays in one order is the first for the key that comes first in another order
  have root_of_stays : ∀ key ∈ keys, ∀ rest, KeepsFirst size (Conflict keys) (fun row =>
      ¬ (Marks.passes size (key :: rest) Marks.start).marked row) → ∀ row < size,
      ¬ (Marks.passes size (key :: rest) Marks.start).marked row → Root keys row := by
    intro key _ rest keeps row inside stays other member
    by_contra notFirst
    obtain ⟨more, otherKeeps⟩ := kept other member
    exact ((keeps.unique otherKeeps inside).mp stays) (Marks.marked_of_not_first more notFirst)
  constructor
  · intro key member later inside row before same first
    obtain ⟨rest, keeps⟩ := kept key member
    exact root_of_stays key member rest keeps row (before.trans inside)
      (Marks.not_marked_of_first rest first before inside same)
  · intro row inside notRoot
    obtain ⟨key, member, notFirst⟩ := not_root_iff.mp notRoot
    obtain ⟨rest, keeps⟩ := kept key member
    obtain ⟨earlier, before, -, conflict⟩ := keeps.covered row inside
      (not_not.mpr (Marks.marked_of_not_first rest notFirst))
    exact ⟨earlier, before, conflict⟩

end FirstOccurrences
