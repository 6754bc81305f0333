import Mathlib.Algebra.Order.Ring.Nat
import Mathlib.Data.Int.ConditionallyCompleteOrder
import Mathlib.Data.List.Basic
import Mathlib.Data.List.GetD
import Mathlib.Data.List.Pairwise

/-!
# Ordered block covers

A set of values in a linear order is summarised by a list of blocks, each a lower
and an upper bound.  When the blocks are ordered, one bisection decides whether a
point or a range misses all of them.  Values are compared through a key, so two
distinct values may share a position in the order.
-/

namespace BlockCover

variable {α K : Type*} [LinearOrder K] (key : α → K) {blocks : List (α × α)} {value : α}
  {first second : Nat} {data : List α}

/-- Blocks whose bounds are in order, each block and from one block to the next. -/
structure Ordered (blocks : List (α × α)) : Prop where
  bounded : ∀ block ∈ blocks, key block.1 ≤ key block.2
  chain : blocks.Pairwise fun left right =>
    key left.1 ≤ key right.1 ∧ key left.2 ≤ key right.2

/-- A value lies within one of the blocks. -/
def Covers (blocks : List (α × α)) (value : α) : Prop :=
  ∃ block ∈ blocks, key block.1 ≤ key value ∧ key value ≤ key block.2

variable {key}

theorem Covers.append_left (covered : Covers key blocks value) (more : List (α × α)) :
    Covers key (blocks ++ more) value := by
  obtain ⟨block, member, bounds⟩ := covered
  exact ⟨block, List.mem_append_left _ member, bounds⟩

theorem Covers.append_right (covered : Covers key blocks value) (more : List (α × α)) :
    Covers key (more ++ blocks) value := by
  obtain ⟨block, member, bounds⟩ := covered
  exact ⟨block, List.mem_append_right _ member, bounds⟩

namespace Ordered

variable {blocks : List (α × α)}

section

variable (ordered : Ordered key blocks)
include ordered

theorem lower_le (le : first ≤ second) (hfirst : first < blocks.length)
    (bound : second < blocks.length) : key blocks[first].1 ≤ key blocks[second].1 := by
  rcases Nat.lt_or_eq_of_le le with lt | rfl
  · exact (List.pairwise_iff_getElem.mp ordered.chain _ _ _ bound lt).1
  · exact le_rfl

theorem upper_le (le : first ≤ second) (hfirst : first < blocks.length)
    (bound : second < blocks.length) : key blocks[first].2 ≤ key blocks[second].2 := by
  rcases Nat.lt_or_eq_of_le le with lt | rfl
  · exact (List.pairwise_iff_getElem.mp ordered.chain _ _ _ bound lt).2
  · exact le_rfl

/-- A covered value is not before the first block. -/
theorem first_le (bound : 0 < blocks.length) (covered : Covers key blocks value) :
    key blocks[0].1 ≤ key value := by
  obtain ⟨block, member, lower, -⟩ := covered
  obtain ⟨index, hindex, rfl⟩ := List.getElem_of_mem member
  exact (ordered.lower_le (Nat.zero_le index) bound hindex).trans lower

/-- A covered value is not behind the last block. -/
theorem le_last {last : Nat} (bound : last < blocks.length) (hlast : last + 1 = blocks.length)
    (covered : Covers key blocks value) : key value ≤ key blocks[last].2 := by
  obtain ⟨block, member, -, upper⟩ := covered
  obtain ⟨index, hindex, rfl⟩ := List.getElem_of_mem member
  exact upper.trans (ordered.upper_le (by omega) hindex bound)

/--
If one block ends before `lower` and every later block starts behind `upper`, no
covered value lies between the two.
-/
theorem excluded {index : Nat} (bound : index < blocks.length) {lower upper : K}
    (before : key blocks[index].2 < lower)
    (behind : ∀ next, (hnext : next < blocks.length) → index < next → upper < key blocks[next].1)
    (covered : Covers key blocks value) : key value < lower ∨ upper < key value := by
  obtain ⟨block, member, hlower, hupper⟩ := covered
  obtain ⟨position, hposition, rfl⟩ := List.getElem_of_mem member
  rcases Nat.lt_or_ge index position with later | earlier
  · exact Or.inr ((behind position hposition later).trans_le hlower)
  · exact Or.inl ((hupper.trans (ordered.upper_le earlier hposition bound)).trans_lt before)

end

theorem nil : Ordered key ([] : List (α × α)) :=
  ⟨fun _ member => absurd member List.not_mem_nil, List.Pairwise.nil⟩

theorem singleton {low high : α} (le : key low ≤ key high) : Ordered key [(low, high)] :=
  ⟨fun block member => by rw [List.mem_singleton.mp member]; exact le, List.pairwise_singleton _ _⟩

theorem append {more : List (α × α)} (ordered : Ordered key blocks)
    (orderedMore : Ordered key more)
    (separated : ∀ left ∈ blocks, ∀ right ∈ more, key left.2 ≤ key right.1) :
    Ordered key (blocks ++ more) := by
  refine ⟨?_, List.pairwise_append.mpr ⟨ordered.chain, orderedMore.chain, ?_⟩⟩
  · intro block member
    rcases List.mem_append.mp member with first | second
    · exact ordered.bounded block first
    · exact orderedMore.bounded block second
  · intro left hleft right hright
    have step := separated left hleft right hright
    exact ⟨(ordered.bounded left hleft).trans step,
      step.trans (orderedMore.bounded right hright)⟩

theorem replicate (count : Nat) {low high : α} (le : key low ≤ key high) :
    Ordered key (List.replicate count (low, high)) :=
  ⟨fun block member => by rw [List.eq_of_mem_replicate member]; exact le,
    List.pairwise_replicate.mpr (Or.inr ⟨le_rfl, le_rfl⟩)⟩

/-- Repeating the last block keeps the blocks ordered. -/
theorem pad (ordered : Ordered key blocks) (nonempty : blocks ≠ []) (count : Nat) :
    Ordered key (blocks ++ List.replicate count (blocks.getLast nonempty)) := by
  have last := ordered.bounded _ (List.getLast_mem nonempty)
  refine ⟨?_, List.pairwise_append.mpr ⟨ordered.chain, (replicate count last).chain, ?_⟩⟩
  · intro block member
    rcases List.mem_append.mp member with first | second
    · exact ordered.bounded block first
    · exact (replicate count last).bounded block second
  · intro left hleft right hright
    rw [List.eq_of_mem_replicate hright]
    obtain ⟨index, hindex, rfl⟩ := List.getElem_of_mem hleft
    rw [List.getLast_eq_getElem nonempty]
    exact ⟨ordered.lower_le (by omega) hindex (by omega),
      ordered.upper_le (by omega) hindex (by omega)⟩

end Ordered

/-! ## Cutting a sorted vector into blocks -/

/--
The blocks of a vector that is cut behind each of the given positions, the first
block starting at `start`.
-/
def cut (data : List α) : α → List Nat → List (α × α)
  | start, [] => [(start, data.getLastD start)]
  | start, index :: rest =>
      (start, data.getD index start) :: cut data (data.getD (index + 1) start) rest

theorem length_cut (data : List α) (start : α) (cuts : List Nat) :
    (cut data start cuts).length = cuts.length + 1 := by
  induction cuts generalizing start with
  | nil => rfl
  | cons index rest ih => simp [cut, ih]

/-- Cut positions that ascend from `first` and leave an element behind each of them. -/
def Cuts (length : Nat) (first : Nat) (cuts : List Nat) : Prop :=
  cuts.Pairwise (· < ·) ∧ ∀ index ∈ cuts, first ≤ index ∧ index + 1 < length

theorem Cuts.tail {length index : Nat} {rest : List Nat}
    (cuts : Cuts length first (index :: rest)) : Cuts length (index + 1) rest := by
  obtain ⟨ascending, bounds⟩ := cuts
  rw [List.pairwise_cons] at ascending
  exact ⟨ascending.2, fun next member =>
    ⟨ascending.1 next member, (bounds next (List.mem_cons_of_mem _ member)).2⟩⟩

theorem sorted_le (sorted : data.Pairwise fun left right => key left ≤ key right)
    (le : first ≤ second) (hfirst : first < data.length) (bound : second < data.length) :
    key data[first] ≤ key data[second] := by
  rcases Nat.lt_or_eq_of_le le with lt | rfl
  · exact List.pairwise_iff_getElem.mp sorted _ _ _ bound lt
  · exact le_rfl

theorem cut_nil (bound : first < data.length) :
    cut data data[first] [] = [(data[first], data[data.length - 1])] := by
  have nonempty : data ≠ [] := List.ne_nil_of_length_pos (by omega)
  rw [cut, List.getLastD_eq_getLast?, List.getLast?_eq_some_getLast nonempty, Option.getD_some,
    List.getLast_eq_getElem]

theorem cut_cons {index : Nat} (next : index + 1 < data.length) (start : α) (rest : List Nat) :
    cut data start (index :: rest) = (start, data[index]) :: cut data data[index + 1] rest := by
  rw [cut, List.getD_eq_getElem _ _ next, List.getD_eq_getElem _ _ (by omega)]

/-- Every bound of a cut vector is one of its elements, not before the start. -/
theorem cut_bounds {data : List α} (sorted : data.Pairwise fun left right => key left ≤ key right)
    {first : Nat} (bound : first < data.length) {cuts : List Nat}
    (valid : Cuts data.length first cuts) :
    ∀ block ∈ cut data data[first] cuts,
      key data[first] ≤ key block.1 ∧ block.1 ∈ data ∧ block.2 ∈ data := by
  induction cuts generalizing first with
  | nil =>
      intro block member
      rw [cut_nil bound, List.mem_singleton] at member
      rw [member]
      exact ⟨le_rfl, List.getElem_mem _, List.getElem_mem _⟩
  | cons index rest ih =>
      obtain ⟨below, next⟩ := valid.2 index List.mem_cons_self
      intro block member
      rw [cut_cons next] at member
      rcases List.mem_cons.mp member with rfl | later
      · exact ⟨le_rfl, List.getElem_mem _, List.getElem_mem _⟩
      · obtain ⟨lower, members⟩ := ih next valid.tail block later
        exact ⟨(sorted_le sorted (by omega) bound next).trans lower, members⟩

theorem cut_ordered {data : List α} (sorted : data.Pairwise fun left right => key left ≤ key right)
    {first : Nat} (bound : first < data.length) {cuts : List Nat}
    (valid : Cuts data.length first cuts) :
    Ordered key (cut data data[first] cuts) := by
  induction cuts generalizing first with
  | nil =>
      rw [cut_nil bound]
      exact Ordered.singleton (sorted_le sorted (by omega) (by omega) (by omega))
  | cons index rest ih =>
      obtain ⟨below, next⟩ := valid.2 index List.mem_cons_self
      rw [cut_cons next]
      refine (Ordered.singleton (sorted_le sorted below bound (by omega))).append
        (ih next valid.tail) ?_
      intro left hleft right hright
      rw [List.mem_singleton.mp hleft]
      exact (sorted_le sorted (Nat.le_succ index) (by omega) next).trans
        (cut_bounds sorted next valid.tail right hright).1

/-- A cut vector covers every element from its start on. -/
theorem cut_covers (sorted : data.Pairwise fun left right => key left ≤ key right)
    (bound : first < data.length) {cuts : List Nat} (valid : Cuts data.length first cuts)
    {position : Nat} (from_first : first ≤ position) (hposition : position < data.length) :
    Covers key (cut data data[first] cuts) data[position] := by
  induction cuts generalizing first with
  | nil =>
      rw [cut_nil bound]
      exact ⟨_, List.mem_singleton.mpr rfl, sorted_le sorted from_first bound hposition,
        sorted_le sorted (by omega) (by omega) (by omega)⟩
  | cons index rest ih =>
      obtain ⟨-, next⟩ := valid.2 index List.mem_cons_self
      rw [cut_cons next]
      rcases Nat.lt_or_ge index position with later | earlier
      · exact (ih next valid.tail later).append_right [_]
      · exact ⟨_, List.mem_cons_self, sorted_le sorted from_first bound hposition,
          sorted_le sorted earlier hposition (by omega)⟩

end BlockCover
