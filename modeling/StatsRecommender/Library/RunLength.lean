import Mathlib.Data.List.Basic

/-!
# Run lengths

Values with counts, the list that they stand for, and positions in this list as places in
the runs.
-/

namespace StatsRecommender

variable {α : Type}

/-- A value and how often it stands. -/
structure Run (α : Type) where
  value : α
  count : Nat
  deriving DecidableEq, Repr

namespace Run

variable {runs : List (Run α)} {run : Run α} {entry offset position : Nat}

/-- The values that runs stand for. -/
def expand (runs : List (Run α)) : List α := runs.flatMap fun run => List.replicate run.count run.value

@[simp]
theorem expand_nil : expand ([] : List (Run α)) = [] := rfl

@[simp]
theorem expand_cons (run : Run α) (runs : List (Run α)) :
    expand (run :: runs) = List.replicate run.count run.value ++ expand runs := List.flatMap_cons

@[simp]
theorem expand_append (front back : List (Run α)) :
    expand (front ++ back) = expand front ++ expand back := List.flatMap_append

/-- All runs stand for something, but for the last one, which may be empty. -/
def Proper (runs : List (Run α)) : Prop := ∀ run ∈ runs.dropLast, 0 < run.count

theorem Proper.append_singleton (positive : ∀ run ∈ runs, 0 < run.count) (last : Run α) :
    Proper (runs ++ [last]) := by
  intro run member
  rw [List.dropLast_concat] at member
  exact positive run member

/--
The place `offset` in the run number `entry` is that of the value at `position`; behind the last
value it is any place without a value.
-/
structure At (runs : List (Run α)) (entry offset position : Nat) : Prop where
  place : (expand (runs.take entry)).length + offset = position
  inside : position < (expand runs).length → ∃ run, runs[entry]? = some run ∧ offset < run.count

/-- The values from the start of a run on. -/
theorem expand_take_append (found : runs[entry]? = some run) :
    expand runs = expand (runs.take entry) ++ (List.replicate run.count run.value ++
      expand (runs.drop (entry + 1))) := by
  obtain ⟨bound, rfl⟩ := List.getElem?_eq_some_iff.mp found
  rw [← expand_cons, ← List.drop_eq_getElem_cons bound, ← expand_append, List.take_append_drop]

/-- The values of the run that a position is in. -/
theorem At.getElem? (at_position : At runs entry offset position)
    (found : runs[entry]? = some run) {ahead : Nat} (short : offset + ahead < run.count) :
    (expand runs)[position + ahead]? = some run.value := by
  rw [expand_take_append found, ← at_position.place, List.getElem?_append_right (by omega),
    List.getElem?_append_left]
  · rw [List.getElem?_replicate, if_pos]
    omega
  · rw [List.length_replicate]
    omega

/-- Moving on in a run. -/
theorem At.stay (at_position : At runs entry offset position) (found : runs[entry]? = some run)
    {ahead : Nat} (short : offset + ahead < run.count) :
    At runs entry (offset + ahead) (position + ahead) := by
  constructor
  · rw [← at_position.place, Nat.add_assoc]
  · intro _
    exact ⟨run, found, short⟩

/-- Moving on behind a run. -/
theorem At.leave (at_position : At runs entry offset position) (proper : Proper runs)
    (found : runs[entry]? = some run) {ahead : Nat} (whole : offset + ahead = run.count) :
    At runs (entry + 1) 0 (position + ahead) := by
  have place : (expand (runs.take (entry + 1))).length = position + ahead := by
    rw [List.take_add_one, found, Option.toList_some, expand_append, List.length_append, expand_cons,
      expand_nil, List.append_nil, List.length_replicate, ← at_position.place]
    omega
  refine ⟨place, fun more => ?_⟩
  have rest : 0 < (expand (runs.drop (entry + 1))).length := by
    have total := congrArg (fun values => (expand values).length)
      (List.take_append_drop (entry + 1) runs)
    rw [expand_append, List.length_append, place] at total
    omega
  cases left : runs.drop (entry + 1) with
  | nil =>
      rw [left] at rest
      exact absurd rest (Nat.lt_irrefl 0)
  | cons next others =>
      have next_found : runs[entry + 1]? = some next := by
        rw [← List.head?_drop, left]
        rfl
      refine ⟨next, next_found, ?_⟩
      cases others with
      | nil =>
          rw [left, expand_cons, expand_nil, List.append_nil, List.length_replicate] at rest
          exact rest
      | cons another others =>
          -- the run is not the last one
          have behind : entry + 1 < runs.length - 1 := by
            have length := congrArg List.length left
            rw [List.length_drop, List.length_cons, List.length_cons] at length
            omega
          apply proper
          apply List.mem_of_getElem?
          rw [List.getElem?_dropLast, if_pos behind]
          exact next_found

/-- The first position. -/
theorem at_start (proper : Proper runs) : At runs 0 0 0 := by
  refine ⟨rfl, fun some_values => ?_⟩
  cases runs with
  | nil => exact absurd some_values (Nat.lt_irrefl 0)
  | cons first rest =>
      refine ⟨first, rfl, ?_⟩
      cases rest with
      | nil =>
          rw [expand_cons, expand_nil, List.append_nil, List.length_replicate] at some_values
          exact some_values
      | cons second rest => exact proper first List.mem_cons_self

end Run

end StatsRecommender
