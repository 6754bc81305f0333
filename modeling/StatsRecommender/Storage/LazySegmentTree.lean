import StatsRecommender.Storage.SegmentTree

/-!
# Segment trees that load their segments lazily

`TryGetSegmentIndex` loads segments until one of them ends behind the row, and searches the loaded
ones with unsigned limits.
-/

namespace StatsRecommender

variable {node : SegmentNode} {index : Nat}

/-- The number of values of `idx_t`. -/
def idxLimit : Nat := 2 ^ 64

/-- `SegmentTree`: the loaded nodes, and the segments that `LoadSegment` returns next. -/
structure LazySegmentTree where
  nodes : List SegmentNode
  unloaded : List SegmentNode
  finishedLoading : Bool
  deriving DecidableEq, Repr

variable {tree next : LazySegmentTree}

namespace LazySegmentTree

/-- `SegmentTree::LoadNextSegment`; a tree without lazy loading has finished. -/
def loadNextSegment (tree : LazySegmentTree) : LazySegmentTree × Bool :=
  if tree.finishedLoading then (tree, false)
  else
    match tree.unloaded with
    | [] => ({ tree with finishedLoading := true }, false)
    | segment :: rest => ({ tree with nodes := tree.nodes ++ [segment], unloaded := rest }, true)

/-- `row_start + count` of a node. -/
def stop (node : SegmentNode) : Nat := (node.rowStart + node.count) % idxLimit

/-- No loaded node ends behind the row, by the last one. -/
def endsBefore (nodes : List SegmentNode) (rowNumber : Nat) : Bool :=
  match nodes.getLast? with
  | none => true
  | some last => decide (stop last ≤ rowNumber)

theorem length_unloaded_loadNextSegment (loaded : tree.loadNextSegment = (next, true)) :
    next.unloaded.length < tree.unloaded.length := by
  rw [loadNextSegment] at loaded
  split at loaded
  · cases loaded
  · split at loaded
    · cases loaded
    · rename_i segment rest pending
      cases loaded
      rw [pending, List.length_cons]
      exact Nat.lt_succ_self _

/-- The loop that loads segments until the row number is within bounds. -/
def loadUntil (rowNumber : Nat) (tree : LazySegmentTree) : LazySegmentTree :=
  if endsBefore tree.nodes rowNumber then
    match loaded : tree.loadNextSegment with
    | (next, true) => loadUntil rowNumber next
    | (next, false) => next
  else tree
termination_by tree.unloaded.length
decreasing_by exact length_unloaded_loadNextSegment loaded

/-- The binary search in unsigned arithmetic; `none` when it is not done within `fuel` probes. -/
def search (nodes : List SegmentNode) (rowNumber : Nat) :
    Nat → Nat → Nat → Option (Except String (Option Nat))
  | 0, _, _ => none
  | fuel + 1, lower, upper =>
      if lower ≤ upper then
        let index := (lower + upper) % idxLimit / 2
        match nodes[index]? with
        | none => some (.error "Segment tree index not found for row number")
        | some entry =>
            if rowNumber < entry.rowStart then
              search nodes rowNumber fuel lower ((index + (idxLimit - 1)) % idxLimit)
            else if stop entry ≤ rowNumber then
              search nodes rowNumber fuel ((index + 1) % idxLimit) upper
            else some (.ok (some index))
      else some (.ok none)

/-- `SegmentTree::TryGetSegmentIndex`, with the tree as it leaves it. -/
def tryGetSegmentIndex (tree : LazySegmentTree) (rowNumber fuel : Nat) :
    Option (LazySegmentTree × Except String (Option Nat)) :=
  let loaded := tree.loadUntil rowNumber
  if loaded.nodes.isEmpty then some (loaded, .ok none)
  else (search loaded.nodes rowNumber fuel 0 (loaded.nodes.length - 1)).map (loaded, ·)

end LazySegmentTree

/-- A tree whose segments, loaded or not, tile a range of row numbers. -/
structure TiledSegmentTree extends LazySegmentTree where
  start : Nat
  tiles : SegmentTree.Contiguous start (nodes ++ unloaded)
  fits : start + ((nodes ++ unloaded).map SegmentNode.count).sum < idxLimit
  -- no vector holds more nodes
  small : (nodes ++ unloaded).length < 2 ^ 63
  finished : finishedLoading = true → unloaded = []

namespace TiledSegmentTree

/-- All segments of the tree. -/
def segments (tree : TiledSegmentTree) : List SegmentNode := tree.nodes ++ tree.unloaded

/-- The end of the row range. -/
def finish (tree : TiledSegmentTree) : Nat :=
  tree.start + (tree.segments.map SegmentNode.count).sum

/-- The segment that holds the row is found, without loading more than it takes to know. -/
structure Answers (tree : TiledSegmentTree) (rowNumber : Nat) (after : LazySegmentTree)
    (result : Option Nat) : Prop where
  found : ∀ index, result = some index ↔
    ∃ node, tree.segments[index]? = some node ∧ node.Holds rowNumber
  outside : result = none ↔ ¬ (tree.start ≤ rowNumber ∧ rowNumber < tree.finish)
  loaded : ∀ index, result = some index → index < after.nodes.length
  kept : ∃ count, after.nodes = tree.nodes ++ tree.unloaded.take count ∧
    after.unloaded = tree.unloaded.drop count ∧
    ∀ fewer < count, ∀ node ∈ tree.nodes ++ tree.unloaded.take fewer, node.stop ≤ rowNumber

/-- The search ends without an error and answers. -/
def Finds (tree : TiledSegmentTree) (rowNumber : Nat) : Prop :=
  ∃ bound, ∀ fuel, bound ≤ fuel → ∃ after result,
    tree.tryGetSegmentIndex rowNumber fuel = some (after, .ok result) ∧
      tree.Answers rowNumber after result

end TiledSegmentTree

/-! ## Loading -/

namespace SegmentTree

variable {start : Nat} {nodes : List SegmentNode}

theorem Contiguous.stop_le_total (contiguous : Contiguous start nodes) :
    ∀ node ∈ nodes, node.stop ≤ start + (nodes.map SegmentNode.count).sum := by
  induction nodes generalizing start with
  | nil => simp
  | cons head rest ih =>
      obtain ⟨rfl, tail⟩ := contiguous
      intro node member
      rw [List.map_cons, List.sum_cons, ← Nat.add_assoc]
      rcases List.mem_cons.mp member with rfl | later
      · exact Nat.le_add_right _ _
      · exact ih tail node later

/-- The last of some segments without gaps ends last. -/
theorem Contiguous.stop_le_last {last : SegmentNode} (contiguous : Contiguous start nodes)
    (ends : nodes.getLast? = some last) : ∀ node ∈ nodes, node.stop ≤ last.stop := by
  obtain ⟨front, rfl⟩ := List.getLast?_eq_some_iff.mp ends
  intro node member
  rw [List.mem_append, List.mem_singleton] at member
  rcases member with before | rfl
  · have order := (List.pairwise_append.mp contiguous.sorted).2.2 node before last
      (List.mem_singleton.mpr rfl)
    exact Nat.le_trans order (Nat.le_add_right _ _)
  · exact Nat.le_refl _

theorem Contiguous.append_left {back : List SegmentNode}
    (contiguous : Contiguous start (nodes ++ back)) : Contiguous start nodes :=
  (contiguous_append.mp contiguous).1

end SegmentTree

namespace LazySegmentTree

open SegmentTree (Contiguous)

variable {start rowNumber : Nat} {nodes back : List SegmentNode}

theorem stop_eq (contiguous : Contiguous start nodes)
    (fits : start + (nodes.map SegmentNode.count).sum < idxLimit) (member : node ∈ nodes) :
    stop node = node.stop :=
  Nat.mod_eq_of_lt (Nat.lt_of_le_of_lt (contiguous.stop_le_total node member) fits)

/-- The last loaded node tells whether any of them ends behind the row. -/
theorem endsBefore_iff (rowNumber : Nat) (contiguous : Contiguous start (nodes ++ back))
    (fits : start + ((nodes ++ back).map SegmentNode.count).sum < idxLimit) :
    endsBefore nodes rowNumber = true ↔ ∀ node ∈ nodes, node.stop ≤ rowNumber := by
  rw [endsBefore]
  cases ends : nodes.getLast? with
  | none =>
      rw [List.getLast?_eq_none_iff] at ends
      simp [ends]
  | some last =>
      have member : last ∈ nodes := List.mem_of_getLast? ends
      dsimp only
      rw [decide_eq_true_eq, stop_eq contiguous fits (List.mem_append_left _ member)]
      constructor
      · intro short node present
        exact Nat.le_trans (contiguous.append_left.stop_le_last ends node present) short
      · intro all
        exact all last member

theorem loadUntil_of_within (within : ¬ endsBefore tree.nodes rowNumber = true) :
    tree.loadUntil rowNumber = tree := by
  rw [loadUntil, if_neg within]

theorem loadUntil_of_loaded (needed : endsBefore tree.nodes rowNumber = true)
    (loaded : tree.loadNextSegment = (next, true)) :
    tree.loadUntil rowNumber = next.loadUntil rowNumber := by
  rw [loadUntil, if_pos needed]
  split
  · rename_i again
    rw [loaded] at again
    cases again
    rfl
  · rename_i again
    rw [loaded] at again
    cases again

theorem loadUntil_of_exhausted (needed : endsBefore tree.nodes rowNumber = true)
    (loaded : tree.loadNextSegment = (next, false)) : tree.loadUntil rowNumber = next := by
  rw [loadUntil, if_pos needed]
  split
  · rename_i again
    rw [loaded] at again
    cases again
  · rename_i again
    rw [loaded] at again
    cases again
    rfl

/-- Loading stops at the first segment that ends behind the row, or with the last segment. -/
theorem loadUntil_spec (rowNumber : Nat) (unloaded : List SegmentNode) (finished : Bool)
    (contiguous : Contiguous start (nodes ++ unloaded))
    (fits : start + ((nodes ++ unloaded).map SegmentNode.count).sum < idxLimit)
    (done : finished = true → unloaded = []) :
    ∃ count, (loadUntil rowNumber ⟨nodes, unloaded, finished⟩).nodes =
        nodes ++ unloaded.take count ∧
      (loadUntil rowNumber ⟨nodes, unloaded, finished⟩).unloaded = unloaded.drop count ∧
      (∀ fewer < count, ∀ node ∈ nodes ++ unloaded.take fewer, node.stop ≤ rowNumber) ∧
      ((∀ node ∈ nodes ++ unloaded.take count, node.stop ≤ rowNumber) →
        unloaded.drop count = []) := by
  have needed := endsBefore_iff rowNumber contiguous fits
  induction unloaded generalizing nodes with
  | nil =>
      have unchanged : (loadUntil rowNumber ⟨nodes, [], finished⟩).nodes = nodes ∧
          (loadUntil rowNumber ⟨nodes, [], finished⟩).unloaded = [] := by
        by_cases needs : endsBefore nodes rowNumber = true
        · cases finished with
          | true => rw [loadUntil_of_exhausted needs rfl]; exact ⟨rfl, rfl⟩
          | false => rw [loadUntil_of_exhausted needs rfl]; exact ⟨rfl, rfl⟩
        · rw [loadUntil_of_within needs]
          exact ⟨rfl, rfl⟩
      refine ⟨0, ?_, unchanged.2, fun _ impossible => absurd impossible (Nat.not_lt_zero _),
        fun _ => rfl⟩
      rw [List.take_zero, List.append_nil]
      exact unchanged.1
  | cons segment rest ih =>
      by_cases needs : endsBefore nodes rowNumber = true
      · have unfinished : finished = false := by
          cases finished with
          | true => exact nomatch done rfl
          | false => rfl
        subst unfinished
        have assoc : nodes ++ segment :: rest = nodes ++ [segment] ++ rest := by
          rw [List.append_assoc, List.singleton_append]
        rw [assoc] at contiguous fits
        obtain ⟨count, hnodes, hunloaded, before, last⟩ := ih contiguous fits
          (fun impossible => by cases impossible) (endsBefore_iff rowNumber contiguous fits)
        have taken : ∀ count, nodes ++ (segment :: rest).take (count + 1) =
            nodes ++ [segment] ++ rest.take count := by
          intro count
          rw [List.take_succ_cons, List.append_assoc, List.singleton_append]
        rw [loadUntil_of_loaded needs rfl]
        refine ⟨count + 1, ?_, hunloaded, ?_, ?_⟩
        · rw [taken]
          exact hnodes
        · intro fewer hfewer
          cases fewer with
          | zero =>
              rw [List.take_zero, List.append_nil]
              exact needed.mp needs
          | succ fewer =>
              rw [taken]
              exact before fewer (Nat.lt_of_succ_lt_succ hfewer)
        · rw [taken]
          exact last
      · rw [loadUntil_of_within needs]
        refine ⟨0, (List.append_nil _).symm, rfl,
          fun _ impossible => absurd impossible (Nat.not_lt_zero _), fun all => ?_⟩
        rw [List.take_zero, List.append_nil] at all
        exact absurd (needed.mpr all) needs

/-! ## Searching -/

/-- The upper limit that wraps around makes the next probe miss every node. -/
theorem search_wrapped (small : nodes.length < 2 ^ 63) (fuel : Nat) :
    search nodes rowNumber (fuel + 1) 0 (idxLimit - 1) =
      some (.error "Segment tree index not found for row number") := by
  have beyond : nodes[(0 + (idxLimit - 1)) % idxLimit / 2]? = none := by
    apply List.getElem?_eq_none
    rw [idxLimit]
    omega
  rw [search, if_pos (Nat.zero_le _)]
  dsimp only
  rw [beyond]

/-- While no limit wraps around, the search is the one over natural numbers. -/
theorem search_eq_bisect (small : nodes.length < 2 ^ 63)
    (exact : ∀ node ∈ nodes, stop node = node.stop) (fuel lower upper : Nat)
    (enough : upper + 1 < lower + fuel) (inside : upper < nodes.length)
    (below : lower ≤ nodes.length) :
    search nodes rowNumber (fuel + 1) lower upper =
      some (SegmentTree.bisect nodes rowNumber fuel lower upper) := by
  induction fuel generalizing lower upper with
  | zero =>
      rw [search, SegmentTree.bisect, if_neg (by omega)]
  | succ fuel ih =>
      rw [search, SegmentTree.bisect]
      by_cases crossed : lower ≤ upper
      · rw [if_pos crossed, if_pos crossed]
        have plain : (lower + upper) % idxLimit / 2 = (lower + upper) / 2 := by
          rw [Nat.mod_eq_of_lt]
          rw [idxLimit]
          omega
        dsimp only
        rw [plain]
        obtain ⟨index, hindex⟩ : ∃ index, index = (lower + upper) / 2 := ⟨_, rfl⟩
        rw [← hindex]
        have bound : index < nodes.length := by omega
        obtain ⟨entry, hentry⟩ : ∃ entry, nodes[index]? = some entry :=
          ⟨_, List.getElem?_eq_getElem bound⟩
        rw [hentry]
        dsimp only
        rw [exact entry (List.mem_of_getElem? hentry)]
        by_cases before : rowNumber < entry.rowStart
        · rw [if_pos before, if_pos before]
          by_cases zero : index = 0
          · -- the limit below zero is the largest number there is
            have lowest : lower = 0 := by omega
            have wrapped : (0 + (idxLimit - 1)) % idxLimit = idxLimit - 1 := by
              rw [Nat.zero_add]
              exact Nat.mod_eq_of_lt (by decide)
            rw [if_pos zero, zero, lowest, wrapped]
            exact search_wrapped small fuel
          · have less : (index + (idxLimit - 1)) % idxLimit = index - 1 := by
              rw [idxLimit]
              omega
            rw [if_neg zero, less]
            exact ih lower (index - 1) (by omega) (by omega) below
        · rw [if_neg before, if_neg before]
          by_cases behind : entry.stop ≤ rowNumber
          · have more : (index + 1) % idxLimit = index + 1 := by
              rw [Nat.mod_eq_of_lt]
              rw [idxLimit]
              omega
            rw [if_pos behind, if_pos behind, more]
            exact ih (index + 1) upper (by omega) inside (by omega)
          · rw [if_neg behind, if_neg behind]
      · rw [if_neg crossed, if_neg crossed]

/-- A row in front of all nodes leads the search below the first index. -/
theorem bisect_before (front : ∀ node ∈ nodes, rowNumber < node.rowStart) (fuel upper : Nat)
    (enough : upper < fuel) (inside : upper < nodes.length) :
    SegmentTree.bisect nodes rowNumber fuel 0 upper =
      .error "Segment tree index not found for row number" := by
  induction fuel generalizing upper with
  | zero => exact absurd enough (Nat.not_lt_zero _)
  | succ fuel ih =>
      rw [SegmentTree.bisect, if_pos (Nat.zero_le _)]
      obtain ⟨index, hindex⟩ : ∃ index, index = (0 + upper) / 2 := ⟨_, rfl⟩
      have bound : index < nodes.length := by omega
      dsimp only
      rw [← hindex, List.getElem?_eq_getElem bound]
      dsimp only
      rw [if_pos (front _ (List.getElem_mem bound))]
      by_cases zero : index = 0
      · rw [if_pos zero]
      · rw [if_neg zero]
        exact ih (index - 1) (by omega) (by omega)

end LazySegmentTree

namespace TiledSegmentTree

open LazySegmentTree

variable {tree : TiledSegmentTree} {rowNumber : Nat}

theorem holds_inside (member : node ∈ tree.segments) (holds : node.Holds rowNumber) :
    tree.start ≤ rowNumber ∧ rowNumber < tree.finish :=
  ⟨Nat.le_trans (tree.tiles.le_rowStart node member) holds.1,
    Nat.lt_of_lt_of_le holds.2 (tree.tiles.stop_le_total node member)⟩

theorem exists_holds (inside : tree.start ≤ rowNumber ∧ rowNumber < tree.finish) :
    ∃ (index : Nat) (node : SegmentNode), tree.segments[index]? = some node ∧
      node.Holds rowNumber := by
  obtain ⟨front, node, back, split, holds, -⟩ := tree.tiles.exists_holds inside.1 inside.2
  refine ⟨front.length, node, ?_, holds⟩
  rw [segments, split, List.getElem?_append_right (Nat.le_refl _), Nat.sub_self]
  rfl

/-- What loading for a row leaves: all that can hold the row is among the nodes. -/
structure Loaded (tree : TiledSegmentTree) (rowNumber count : Nat) (after : LazySegmentTree) :
    Prop where
  nodes : after.nodes = tree.nodes ++ tree.unloaded.take count
  unloaded : after.unloaded = tree.unloaded.drop count
  needed : ∀ fewer < count, ∀ node ∈ tree.nodes ++ tree.unloaded.take fewer,
    node.stop ≤ rowNumber
  enough : (∀ node ∈ after.nodes, node.stop ≤ rowNumber) → after.unloaded = []

theorem exists_loaded (tree : TiledSegmentTree) (rowNumber : Nat) :
    ∃ count, tree.Loaded rowNumber count (tree.loadUntil rowNumber) := by
  obtain ⟨count, hnodes, hunloaded, needed, enough⟩ := loadUntil_spec rowNumber
    tree.unloaded tree.finishedLoading tree.tiles tree.fits tree.finished
  refine ⟨count, hnodes, hunloaded, needed, fun all => ?_⟩
  rw [hnodes] at all
  exact hunloaded.trans (enough all)

variable {count : Nat} {after : LazySegmentTree}

section

variable (loaded : tree.Loaded rowNumber count after)
include loaded

theorem Loaded.segments_eq : tree.segments = after.nodes ++ after.unloaded := by
  rw [loaded.nodes, loaded.unloaded, List.append_assoc, List.take_append_drop, segments]

theorem Loaded.contiguous : SegmentTree.Contiguous tree.start (after.nodes ++ after.unloaded) := by
  rw [← loaded.segments_eq]
  exact tree.tiles

theorem Loaded.small : after.nodes.length < 2 ^ 63 := by
  have all := tree.small
  change tree.segments.length < _ at all
  rw [loaded.segments_eq, List.length_append] at all
  exact Nat.lt_of_le_of_lt (Nat.le_add_right _ _) all

theorem Loaded.stop_eq : ∀ node ∈ after.nodes, stop node = node.stop := by
  intro node member
  have present : node ∈ tree.segments := by
    rw [loaded.segments_eq]
    exact List.mem_append_left _ member
  exact LazySegmentTree.stop_eq tree.tiles tree.fits present

/-- A segment that holds the row is loaded. -/
theorem Loaded.lt_length (found : tree.segments[index]? = some node)
    (holds : node.Holds rowNumber) : index < after.nodes.length := by
  by_contra outside
  rw [loaded.segments_eq, List.getElem?_append_right (Nat.le_of_not_lt outside)] at found
  have pending : node ∈ after.unloaded := List.mem_of_getElem? found
  have order := (List.pairwise_append.mp loaded.contiguous.sorted).2.2
  have none_left := loaded.enough fun other member =>
    Nat.le_trans (order other member node pending) holds.1
  rw [none_left] at pending
  cases pending

theorem Loaded.found_iff :
    (∃ node, after.nodes[index]? = some node ∧ node.Holds rowNumber) ↔
      ∃ node, tree.segments[index]? = some node ∧ node.Holds rowNumber := by
  constructor
  · rintro ⟨node, hnode, holds⟩
    refine ⟨node, ?_, holds⟩
    rw [loaded.segments_eq,
      List.getElem?_append_left (List.getElem?_eq_some_iff.mp hnode).1, hnode]
  · rintro ⟨node, hnode, holds⟩
    refine ⟨node, ?_, holds⟩
    rw [← hnode, loaded.segments_eq, List.getElem?_append_left (loaded.lt_length hnode holds)]

/-- What the search over the loaded nodes finds answers for the tree. -/
theorem Loaded.answers {result : Option Nat}
    (found : SegmentTree.Found after.nodes rowNumber result) :
    tree.Answers rowNumber after result := by
  have foundAmongAll : ∀ index, result = some index ↔
      ∃ node, tree.segments[index]? = some node ∧ node.Holds rowNumber :=
    fun index => (found index).trans loaded.found_iff
  refine ⟨foundAmongAll, ?_, ?_, count, loaded.nodes, loaded.unloaded, loaded.needed⟩
  · constructor
    · intro none inside
      obtain ⟨index, node, hnode, holds⟩ := exists_holds inside
      rw [(foundAmongAll index).mpr ⟨node, hnode, holds⟩] at none
      cases none
    · intro outside
      cases result with
      | none => rfl
      | some index =>
          obtain ⟨node, hnode, holds⟩ := (foundAmongAll index).mp rfl
          exact absurd (holds_inside (List.mem_of_getElem? hnode) holds) outside
  · intro index equal
    obtain ⟨node, hnode, holds⟩ := (foundAmongAll index).mp equal
    exact loaded.lt_length hnode holds

/-- With enough probes the search over the loaded nodes is done. -/
theorem Loaded.search_eq (some_node : after.nodes ≠ []) {fuel : Nat}
    (enough : after.nodes.length + 2 ≤ fuel) :
    search after.nodes rowNumber fuel 0 (after.nodes.length - 1) =
      some (SegmentTree.bisect after.nodes rowNumber (fuel - 1) 0 (after.nodes.length - 1)) := by
  have positive := List.length_pos_iff.mpr some_node
  obtain ⟨probes, rfl⟩ := Nat.exists_eq_succ_of_ne_zero (show fuel ≠ 0 by omega)
  exact search_eq_bisect loaded.small loaded.stop_eq probes 0 _ (by omega) (by omega) (by omega)

end

/-- The index of a row is found exactly if there is no segment or the row is not in front. -/
theorem finds_iff (tree : TiledSegmentTree) (rowNumber : Nat) :
    tree.Finds rowNumber ↔ tree.segments = [] ∨ tree.start ≤ rowNumber := by
  obtain ⟨count, loaded⟩ := exists_loaded tree rowNumber
  obtain ⟨after, hafter⟩ : ∃ after, after = tree.loadUntil rowNumber := ⟨_, rfl⟩
  rw [← hafter] at loaded
  have outcome : ∀ fuel, tree.tryGetSegmentIndex rowNumber fuel =
      if after.nodes.isEmpty then some (after, .ok none)
      else (search after.nodes rowNumber fuel 0 (after.nodes.length - 1)).map (after, ·) := by
    intro fuel
    rw [tryGetSegmentIndex, hafter]
  by_cases empty : after.nodes = []
  · -- nothing is loaded only where there is nothing to load
    have none_left := loaded.enough (by simp [empty])
    have nothing : tree.segments = [] := by
      rw [loaded.segments_eq, empty, none_left]
      rfl
    refine iff_of_true ⟨0, fun fuel _ => ⟨after, none, ?_, loaded.answers ?_⟩⟩ (Or.inl nothing)
    · rw [outcome, if_pos (List.isEmpty_iff.mpr empty)]
    · simp [SegmentTree.Found, empty]
  · have nonempty : tree.segments ≠ [] := by
      rw [loaded.segments_eq]
      exact List.append_ne_nil_of_left_ne_nil empty _
    have positive := List.length_pos_iff.mpr empty
    constructor
    · rintro ⟨bound, finds⟩
      refine Or.inr (Nat.le_of_not_lt fun before => ?_)
      obtain ⟨other, result, ok, -⟩ := finds (max bound (after.nodes.length + 2))
        (Nat.le_max_left _ _)
      have front : ∀ node ∈ after.nodes, rowNumber < node.rowStart := fun node member =>
        Nat.lt_of_lt_of_le before
          (loaded.contiguous.le_rowStart node (List.mem_append_left _ member))
      rw [outcome, if_neg (mt List.isEmpty_iff.mp empty),
        loaded.search_eq empty (Nat.le_max_right _ _),
        bisect_before front _ _ (by omega) (by omega)] at ok
      cases ok
    · intro inside
      refine ⟨after.nodes.length + 2, fun fuel enough => ?_⟩
      obtain ⟨result, hresult, found⟩ : ∃ result,
          SegmentTree.bisect after.nodes rowNumber (fuel - 1) 0 (after.nodes.length - 1) =
            .ok result ∧ SegmentTree.Found after.nodes rowNumber result :=
        SegmentTree.bisect_spec loaded.contiguous.append_left.sorted _ _ _ (by omega) (by omega)
        (fun node first => by
          rw [loaded.contiguous.append_left.rowStart_first first]
          exact inside.resolve_left nonempty)
        (fun index impossible => absurd impossible (Nat.not_lt_zero _))
        (fun index behind node hnode => by
          have bound := (List.getElem?_eq_some_iff.mp hnode).1
          omega)
      refine ⟨after, result, ?_, loaded.answers found⟩
      rw [outcome, if_neg (mt List.isEmpty_iff.mp empty), loaded.search_eq empty enough, hresult]
      rfl

/-- A tree whose rows start with row 2048. -/
def laterRows : TiledSegmentTree where
  nodes := [⟨2048, 10⟩]
  unloaded := []
  finishedLoading := true
  start := 2048
  tiles := ⟨rfl, trivial⟩
  fits := by decide
  small := by decide
  finished := fun _ => rfl

/-- A row in front of the first segment raises an error. -/
theorem not_finds_row_in_front :
    ¬ laterRows.Finds 0 ∧
      laterRows.tryGetSegmentIndex 0 2 = some (laterRows.toLazySegmentTree,
        .error "Segment tree index not found for row number") := by
  have raises : ∀ fuel, laterRows.tryGetSegmentIndex 0 (fuel + 2) =
      some (laterRows.toLazySegmentTree,
        .error "Segment tree index not found for row number") := by
    intro fuel
    rw [tryGetSegmentIndex, loadUntil_of_within (by decide)]
    rfl
  refine ⟨?_, raises 0⟩
  rintro ⟨bound, finds⟩
  obtain ⟨after, result, ok, -⟩ := finds (bound + 2) (Nat.le_add_right _ _)
  rw [raises bound] at ok
  cases ok

end TiledSegmentTree

end StatsRecommender
