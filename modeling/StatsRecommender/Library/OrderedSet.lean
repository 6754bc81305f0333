import Mathlib.Algebra.Order.Ring.Nat
import Mathlib.Data.Int.ConditionallyCompleteOrder
import Mathlib.Data.List.Nodup

/-!
# Ordered sets

Finite sets that are iterated in increasing order, with their elements in a list.
-/

namespace StatsRecommender

/-- A set whose elements are listed in increasing order. -/
structure OrderedSet (α : Type) [LinearOrder α] where
  elements : List α
  sorted : elements.Pairwise (· < ·)
  deriving DecidableEq

namespace OrderedSet

variable {α : Type} [LinearOrder α] {elements : List α}

/-- The place of a value in an increasing list. -/
def insertElement (value : α) : List α → List α
  | [] => [value]
  | first :: rest =>
      if value < first then value :: first :: rest
      else if first < value then first :: insertElement value rest
      else first :: rest

theorem mem_insertElement {value other : α} :
    other ∈ insertElement value elements ↔ other = value ∨ other ∈ elements := by
  induction elements with
  | nil => simp [insertElement]
  | cons first rest ih =>
      rw [insertElement]
      split
      · simp
      · split
        · simp [ih, or_left_comm]
        · rename_i before after
          obtain rfl : value = first := le_antisymm (not_lt.mp after) (not_lt.mp before)
          simp

theorem sorted_insertElement (value : α) (sorted : elements.Pairwise (· < ·)) :
    (insertElement value elements).Pairwise (· < ·) := by
  induction elements with
  | nil => exact List.pairwise_singleton ..
  | cons first rest ih =>
      obtain ⟨least, later⟩ := List.pairwise_cons.mp sorted
      rw [insertElement]
      split
      · rename_i before
        refine List.pairwise_cons.mpr ⟨?_, sorted⟩
        intro other member
        rcases List.mem_cons.mp member with rfl | member
        · exact before
        · exact before.trans (least other member)
      · split
        · rename_i after
          refine List.pairwise_cons.mpr ⟨?_, ih later⟩
          intro other member
          rcases mem_insertElement.mp member with rfl | member
          · exact after
          · exact least other member
        · exact sorted

instance : Membership α (OrderedSet α) := ⟨fun set value => value ∈ set.elements⟩

instance (value : α) (set : OrderedSet α) : Decidable (value ∈ set) :=
  inferInstanceAs (Decidable (value ∈ set.elements))

instance : EmptyCollection (OrderedSet α) := ⟨⟨[], List.Pairwise.nil⟩⟩

def insert (set : OrderedSet α) (value : α) : OrderedSet α :=
  ⟨insertElement value set.elements, sorted_insertElement value set.sorted⟩

/-- The set without its least element. -/
def eraseFirst (set : OrderedSet α) : OrderedSet α :=
  ⟨set.elements.tail, set.sorted.tail⟩

def erase (set : OrderedSet α) (value : α) : OrderedSet α :=
  ⟨set.elements.erase value, set.sorted.sublist List.erase_sublist⟩

/-- The set with more values. -/
def insertAll (set : OrderedSet α) (values : List α) : OrderedSet α := values.foldl insert set

def size (set : OrderedSet α) : Nat := set.elements.length

variable {set other : OrderedSet α} {value : α}

theorem mem_def : value ∈ set ↔ value ∈ set.elements := Iff.rfl

@[simp] theorem not_mem_empty : value ∉ (∅ : OrderedSet α) := List.not_mem_nil

@[simp] theorem mem_insert {new : α} : value ∈ set.insert new ↔ value = new ∨ value ∈ set :=
  mem_insertElement

theorem nodup (set : OrderedSet α) : set.elements.Nodup := set.sorted.imp ne_of_lt

theorem mem_eraseFirst {first : α} {rest : List α} (elements : set.elements = first :: rest) :
    value ∈ set.eraseFirst ↔ value ≠ first ∧ value ∈ set := by
  obtain ⟨_, sorted⟩ := set
  subst elements
  have nodup := nodup ⟨first :: rest, sorted⟩
  change value ∈ rest ↔ value ≠ first ∧ value ∈ first :: rest
  rw [List.mem_cons]
  constructor
  · intro member
    refine ⟨?_, Or.inr member⟩
    rintro rfl
    exact (List.nodup_cons.mp nodup).1 member
  · rintro ⟨different, same | member⟩
    · exact absurd same different
    · exact member

@[simp] theorem mem_insertAll {values : List α} :
    value ∈ set.insertAll values ↔ value ∈ values ∨ value ∈ set := by
  induction values generalizing set with
  | nil => simp [insertAll]
  | cons first rest ih =>
      refine ih.trans ?_
      simp [or_left_comm, or_assoc]

theorem length_insertElement_le (value : α) (elements : List α) :
    (insertElement value elements).length ≤ elements.length + 1 := by
  induction elements with
  | nil => exact Nat.le_refl _
  | cons first rest ih =>
      rw [insertElement]
      split
      · exact Nat.le_refl _
      · split
        · exact Nat.succ_le_succ ih
        · exact Nat.le_succ _

theorem size_insert_le (set : OrderedSet α) (value : α) : (set.insert value).size ≤ set.size + 1 :=
  length_insertElement_le value set.elements

theorem size_insertAll_le (set : OrderedSet α) (values : List α) :
    (set.insertAll values).size ≤ set.size + values.length := by
  induction values generalizing set with
  | nil => exact Nat.le_refl _
  | cons first rest ih =>
      have more := ih (set.insert first)
      have one := size_insert_le set first
      rw [List.length_cons]
      exact Nat.le_trans more (by omega)

/-- Sets with the same elements are the same. -/
theorem ext (same : ∀ value, value ∈ set ↔ value ∈ other) : set = other := by
  have perm : set.elements.Perm other.elements :=
    (List.perm_ext_iff_of_nodup set.nodup other.nodup).mpr same
  have equal := perm.eq_of_pairwise (fun first second _ _ less greater =>
    absurd (less.trans greater) (lt_irrefl first)) set.sorted other.sorted
  cases set
  cases other
  cases equal
  rfl

end OrderedSet

end StatsRecommender
