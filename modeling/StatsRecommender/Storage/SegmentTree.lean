import Mathlib.Algebra.Order.Ring.Nat
import Mathlib.Data.Int.ConditionallyCompleteOrder
import Mathlib.Data.List.Basic

/-!
# Segment trees

`SegmentTree` as the list of its loaded nodes, with the binary search for the segment
that holds a row.
-/

namespace StatsRecommender

variable {start : Nat}

/-- `SegmentNode`: where a segment starts and how many rows it holds. -/
structure SegmentNode where
  rowStart : Nat
  count : Nat
  deriving DecidableEq, Repr

namespace SegmentNode

def stop (node : SegmentNode) : Nat := node.rowStart + node.count

/-- The row lies in the segment. -/
def Holds (node : SegmentNode) (row : Nat) : Prop := node.rowStart ≤ row ∧ row < node.stop

end SegmentNode

variable {before after node : SegmentNode} {full : List SegmentNode}

namespace SegmentTree

/-- The binary search of `TryGetSegmentIndex`; `fuel` bounds the number of probes. -/
def bisect (nodes : List SegmentNode) (rowNumber : Nat) :
    Nat → Nat → Nat → Except String (Option Nat)
  | 0, _, _ => .ok none
  | fuel + 1, lower, upper =>
      if lower ≤ upper then
        let index := (lower + upper) / 2
        match nodes[index]? with
        | none => .error "Segment tree index not found for row number"
        | some entry =>
            if rowNumber < entry.rowStart then
              -- `upper = index - 1` wraps around at 0, and the next probe is no node
              if index = 0 then .error "Segment tree index not found for row number"
              else bisect nodes rowNumber fuel lower (index - 1)
            else if entry.stop ≤ rowNumber then bisect nodes rowNumber fuel (index + 1) upper
            else .ok (some index)
      else .ok none

/-- `SegmentTree::TryGetSegmentIndex`. -/
def tryGetSegmentIndex (nodes : List SegmentNode) (rowNumber : Nat) :
    Except String (Option Nat) :=
  if nodes.isEmpty then .ok none
  else bisect nodes rowNumber (nodes.length + 1) 0 (nodes.length - 1)

/-- `SegmentTree::GetSegmentIndex`. -/
def getSegmentIndex (nodes : List SegmentNode) (rowNumber : Nat) : Except String Nat := do
  match ← tryGetSegmentIndex nodes rowNumber with
  | some index => pure index
  | none => throw "Could not find node in column segment tree!"

/-- Every segment ends before the next ones start. -/
def Sorted (nodes : List SegmentNode) : Prop :=
  nodes.Pairwise fun before after => before.stop ≤ after.rowStart

/-- The segments follow each other without a gap, from `start` on. -/
def Contiguous : Nat → List SegmentNode → Prop
  | _, [] => True
  | start, node :: rest => node.rowStart = start ∧ Contiguous node.stop rest

variable {nodes : List SegmentNode} {rowNumber : Nat}

theorem Sorted.stop_le (sorted : Sorted nodes) {first second : Nat} (order : first < second)
    (hbefore : nodes[first]? = some before) (hafter : nodes[second]? = some after) :
    before.stop ≤ after.rowStart := by
  obtain ⟨hfirst, rfl⟩ := List.getElem?_eq_some_iff.mp hbefore
  obtain ⟨hsecond, rfl⟩ := List.getElem?_eq_some_iff.mp hafter
  exact List.pairwise_iff_getElem.mp sorted first second hfirst hsecond order

/-- A row is in one segment only. -/
theorem Sorted.holds_unique (sorted : Sorted nodes) {first second : Nat}
    (hbefore : nodes[first]? = some before) (hafter : nodes[second]? = some after)
    (inFirst : before.Holds rowNumber) (inSecond : after.Holds rowNumber) : first = second := by
  rcases Nat.lt_trichotomy first second with less | equal | greater
  · have apart := sorted.stop_le less hbefore hafter
    exact absurd (Nat.lt_of_lt_of_le inFirst.2 apart) (Nat.not_lt.mpr inSecond.1)
  · exact equal
  · have apart := sorted.stop_le greater hafter hbefore
    exact absurd (Nat.lt_of_lt_of_le inSecond.2 apart) (Nat.not_lt.mpr inFirst.1)

/-- What the search comes to: the index of the segment that holds the row, if there is one. -/
def Found (nodes : List SegmentNode) (rowNumber : Nat) (result : Option Nat) : Prop :=
  ∀ index, result = some index ↔ ∃ node, nodes[index]? = some node ∧ node.Holds rowNumber

/-- No segment is left between limits that have crossed. -/
theorem found_none {lower upper : Nat} (crossed : upper < lower)
    (below : ∀ index < lower, ∀ node, nodes[index]? = some node → node.stop ≤ rowNumber)
    (above : ∀ index > upper, ∀ node, nodes[index]? = some node → rowNumber < node.rowStart) :
    Found nodes rowNumber none := by
  intro index
  refine iff_of_false (fun impossible => by cases impossible) ?_
  rintro ⟨node, hnode, holds⟩
  rcases Nat.lt_or_ge index lower with hlow | hlow
  · exact Nat.not_lt.mpr (below index hlow node hnode) holds.2
  · exact Nat.not_lt.mpr holds.1 (above index (Nat.lt_of_lt_of_le crossed hlow) node hnode)

/-- The search keeps every segment that can hold the row between its two limits. -/
theorem bisect_spec (sorted : Sorted nodes) (fuel lower upper : Nat)
    (enough : upper + 1 < lower + fuel) (inside : upper < nodes.length)
    (first : ∀ node, nodes[0]? = some node → node.rowStart ≤ rowNumber)
    (below : ∀ index < lower, ∀ node, nodes[index]? = some node → node.stop ≤ rowNumber)
    (above : ∀ index > upper, ∀ node, nodes[index]? = some node → rowNumber < node.rowStart) :
    ∃ result, bisect nodes rowNumber fuel lower upper = .ok result ∧
      Found nodes rowNumber result := by
  induction fuel generalizing lower upper with
  | zero => exact ⟨none, rfl, found_none (by omega) below above⟩
  | succ fuel ih =>
      rw [bisect]
      split
      · obtain ⟨probe, hprobe⟩ : ∃ probe, probe = (lower + upper) / 2 := ⟨_, rfl⟩
        have bound : probe < nodes.length := by omega
        obtain ⟨entry, hentry⟩ : ∃ entry, nodes[probe]? = some entry :=
          ⟨_, List.getElem?_eq_getElem bound⟩
        rw [← hprobe]
        dsimp only
        rw [hentry]
        dsimp only
        split
        · rename_i before
          have positive : probe ≠ 0 := by
            intro zero
            rw [zero] at hentry
            exact Nat.not_lt.mpr (first entry hentry) before
          rw [if_neg positive]
          refine ih lower (probe - 1) (by omega) (by omega) below ?_
          intro index hindex node hnode
          rcases Nat.lt_trichotomy index probe with less | equal | greater
          · omega
          · rw [equal, hentry] at hnode
            rwa [← Option.some.inj hnode]
          · have apart := sorted.stop_le greater hentry hnode
            rw [SegmentNode.stop] at apart
            omega
        · split
          · rename_i behind
            refine ih (probe + 1) upper (by omega) inside ?_ above
            intro index hindex node hnode
            rcases Nat.lt_trichotomy index probe with less | equal | greater
            · have apart := sorted.stop_le less hnode hentry
              rw [SegmentNode.stop] at behind
              omega
            · rw [equal, hentry] at hnode
              rwa [← Option.some.inj hnode]
            · omega
          · rename_i notBefore notBehind
            have here : entry.Holds rowNumber := ⟨Nat.not_lt.mp notBefore, Nat.not_le.mp notBehind⟩
            refine ⟨some probe, rfl, fun index => ⟨fun heq => ?_, ?_⟩⟩
            · rw [← Option.some.inj heq]
              exact ⟨entry, hentry, here⟩
            · rintro ⟨node, hnode, holds⟩
              exact congrArg some (sorted.holds_unique hentry hnode here holds)
      · exact ⟨none, rfl, found_none (by omega) below above⟩

/-- The search finds the segment of a row that is not before the first segment. -/
theorem tryGetSegmentIndex_spec (sorted : Sorted nodes)
    (first : ∀ node, nodes[0]? = some node → node.rowStart ≤ rowNumber) :
    ∃ result, tryGetSegmentIndex nodes rowNumber = .ok result ∧
      Found nodes rowNumber result := by
  rw [tryGetSegmentIndex]
  split
  · rename_i empty
    rw [List.isEmpty_iff] at empty
    exact ⟨none, rfl, by simp [Found, empty]⟩
  · rename_i nonempty
    have positive : 0 < nodes.length :=
      List.length_pos_iff.mpr (mt List.isEmpty_iff.mpr nonempty)
    apply bisect_spec sorted
    · omega
    · omega
    · exact first
    · intro index impossible
      omega
    · intro index outside node hnode
      have bound := (List.getElem?_eq_some_iff.mp hnode).1
      omega

theorem tryGetSegmentIndex_of_holds (sorted : Sorted nodes)
    (first : ∀ node, nodes[0]? = some node → node.rowStart ≤ rowNumber) {index : Nat}
    (hnode : nodes[index]? = some node) (holds : node.Holds rowNumber) :
    tryGetSegmentIndex nodes rowNumber = .ok (some index) := by
  obtain ⟨result, hresult, found⟩ := tryGetSegmentIndex_spec sorted first
  rw [hresult, (found index).mpr ⟨node, hnode, holds⟩]

theorem tryGetSegmentIndex_of_not_holds (sorted : Sorted nodes)
    (first : ∀ node, nodes[0]? = some node → node.rowStart ≤ rowNumber)
    (nowhere : ∀ node ∈ nodes, ¬ node.Holds rowNumber) :
    tryGetSegmentIndex nodes rowNumber = .ok none := by
  obtain ⟨result, hresult, found⟩ := tryGetSegmentIndex_spec sorted first
  cases result with
  | none => exact hresult
  | some index =>
      obtain ⟨node, hnode, holds⟩ := (found index).mp rfl
      exact absurd holds (nowhere node (List.mem_of_getElem? hnode))

/-! ## Segments without gaps -/

theorem Contiguous.le_rowStart (contiguous : Contiguous start nodes) :
    ∀ node ∈ nodes, start ≤ node.rowStart := by
  induction nodes generalizing start with
  | nil => simp
  | cons head rest ih =>
      obtain ⟨rfl, tail⟩ := contiguous
      intro node member
      rcases List.mem_cons.mp member with rfl | later
      · exact Nat.le_refl _
      · exact Nat.le_trans (Nat.le_add_right _ _) (ih tail node later)

theorem Contiguous.sorted (contiguous : Contiguous start nodes) : Sorted nodes := by
  induction nodes generalizing start with
  | nil => exact List.Pairwise.nil
  | cons head rest ih =>
      obtain ⟨-, tail⟩ := contiguous
      exact List.Pairwise.cons (fun node member => tail.le_rowStart node member) (ih tail)

/-- Segments that are cut short in their places stay in order. -/
theorem Contiguous.sorted_of_shorter (contiguous : Contiguous start full)
    (shorter : List.Forall₂ (fun node filled =>
      node.rowStart = filled.rowStart ∧ node.count ≤ filled.count) nodes full) :
    Sorted nodes ∧ ∀ node ∈ nodes, start ≤ node.rowStart := by
  induction shorter generalizing start with
  | nil => exact ⟨List.Pairwise.nil, by simp⟩
  | cons head tail ih =>
      obtain ⟨hstart, contiguous⟩ := contiguous
      obtain ⟨sorted, behind⟩ := ih contiguous
      refine ⟨List.Pairwise.cons (fun node member => ?_) sorted, fun node member => ?_⟩
      · refine Nat.le_trans ?_ (behind node member)
        rw [SegmentNode.stop, SegmentNode.stop, head.1]
        exact Nat.add_le_add_left head.2 _
      · rcases List.mem_cons.mp member with rfl | later
        · exact Nat.le_of_eq (head.1.trans hstart).symm
        · refine Nat.le_trans ?_ (behind node later)
          rw [← hstart]
          exact Nat.le_add_right _ _

/-- The first of them starts where the full ones do. -/
theorem Contiguous.first_of_shorter (contiguous : Contiguous start full)
    (shorter : List.Forall₂ (fun node filled =>
      node.rowStart = filled.rowStart ∧ node.count ≤ filled.count) nodes full)
    (first : nodes[0]? = some node) : node.rowStart = start := by
  cases shorter with
  | nil => cases first
  | cons head tail =>
      rw [← Option.some.inj first]
      exact head.1.trans contiguous.1

theorem contiguous_append {front back : List SegmentNode} :
    Contiguous start (front ++ back) ↔
      Contiguous start front ∧ Contiguous (start + (front.map SegmentNode.count).sum) back := by
  induction front generalizing start with
  | nil => simp [Contiguous]
  | cons head rest ih =>
      rw [List.cons_append, Contiguous, Contiguous, ih, List.map_cons, List.sum_cons, and_assoc]
      refine and_congr_right fun hstart => ?_
      rw [SegmentNode.stop, hstart, Nat.add_assoc]

/-- A row that lies within segments without gaps lies in one of them. -/
theorem Contiguous.exists_holds (contiguous : Contiguous start nodes) (low : start ≤ rowNumber)
    (high : rowNumber < start + (nodes.map SegmentNode.count).sum) :
    ∃ front node back, nodes = front ++ node :: back ∧ node.Holds rowNumber ∧
      node.rowStart = start + (front.map SegmentNode.count).sum := by
  induction nodes generalizing start with
  | nil =>
      rw [List.map_nil, List.sum_nil] at high
      omega
  | cons head rest ih =>
      obtain ⟨rfl, tail⟩ := contiguous
      rcases Nat.lt_or_ge rowNumber head.stop with inside | behind
      · exact ⟨[], head, rest, rfl, ⟨low, inside⟩, rfl⟩
      · rw [List.map_cons, List.sum_cons, ← Nat.add_assoc] at high
        obtain ⟨front, node, back, rfl, holds, hstart⟩ := ih tail behind high
        refine ⟨head :: front, node, back, rfl, holds, ?_⟩
        rw [hstart, List.map_cons, List.sum_cons, ← Nat.add_assoc]
        rfl

theorem Contiguous.rowStart_first (contiguous : Contiguous start nodes)
    (first : nodes[0]? = some node) : node.rowStart = start := by
  cases nodes with
  | nil => cases first
  | cons head rest =>
      rw [← Option.some.inj first]
      exact contiguous.1

/-- The search finds the segment of a row that lies within segments without gaps. -/
theorem Contiguous.getSegmentIndex {S : Type} {node : S → SegmentNode} {data : List S}
    (contiguous : Contiguous start (data.map node)) (low : start ≤ rowNumber)
    (high : rowNumber < start + ((data.map node).map SegmentNode.count).sum) :
    ∃ front segment back, data = front ++ segment :: back ∧ (node segment).Holds rowNumber ∧
      (node segment).rowStart = start + ((front.map node).map SegmentNode.count).sum ∧
      data[front.length]? = some segment ∧
      tryGetSegmentIndex (data.map node) rowNumber = .ok (some front.length) ∧
      SegmentTree.getSegmentIndex (data.map node) rowNumber = .ok front.length := by
  obtain ⟨_, _, _, split, holds, rowStart⟩ := contiguous.exists_holds low high
  obtain ⟨front, rest, rfl, rfl, hrest⟩ := List.map_eq_append_iff.mp split
  obtain ⟨segment, back, rfl, rfl, rfl⟩ := List.map_eq_cons_iff.mp hrest
  have here : (front ++ segment :: back)[front.length]? = some segment := by
    rw [List.getElem?_append_right (Nat.le_refl _), Nat.sub_self]
    rfl
  have found := tryGetSegmentIndex_of_holds contiguous.sorted
    (fun first hfirst => (contiguous.rowStart_first hfirst).trans_le low)
    ((List.getElem?_map ..).trans (congrArg (Option.map node) here)) holds
  refine ⟨front, segment, back, rfl, holds, rowStart, here, found, ?_⟩
  rw [SegmentTree.getSegmentIndex, found]
  rfl

end SegmentTree

end StatsRecommender
