import StatsRecommender.Storage.CheckZonemap

/-!
# The zone map under reordered and extended filters

The children of an AND and the entries of a filter list have no order of their own.  The
checks of single entries respect that; the flag of the range step depends on which bounds
come first and on which range is asked for last.
-/

namespace StatsRecommender

variable {filter filter' child child' : TableFilter} {constant lower upper : Constant}
  {children : List TableFilter}

open Relation

namespace TableFilter

variable {filters before after : List TableFilter}

/-- One reordering of the children of one AND. -/
inductive Reorder : TableFilter → TableFilter → Prop
  | perm {children children' : List TableFilter} (order : children.Perm children') :
      Reorder (.conjunctionAnd children) (.conjunctionAnd children')
  | andChild (before after : List TableFilter) {child child' : TableFilter} :
      Reorder child child' →
      Reorder (.conjunctionAnd (before ++ child :: after))
        (.conjunctionAnd (before ++ child' :: after))
  | orChild (before after : List TableFilter) {child child' : TableFilter} :
      Reorder child child' →
      Reorder (.conjunctionOr (before ++ child :: after))
        (.conjunctionOr (before ++ child' :: after))
  | structExtract (index : Nat) (name : String) {child child' : TableFilter} :
      Reorder child child' → Reorder (.structExtract index name child)
        (.structExtract index name child')
  | optionalFilter {child child' : TableFilter} :
      Reorder child child' → Reorder (.optionalFilter child) (.optionalFilter child')

/-- One AND with one more child. -/
inductive Extends : TableFilter → TableFilter → Prop
  | addChild (before after : List TableFilter) (child : TableFilter) :
      Extends (.conjunctionAnd (before ++ after)) (.conjunctionAnd (before ++ child :: after))
  | andChild (before after : List TableFilter) {child child' : TableFilter} :
      Extends child child' →
      Extends (.conjunctionAnd (before ++ child :: after))
        (.conjunctionAnd (before ++ child' :: after))
  | orChild (before after : List TableFilter) {child child' : TableFilter} :
      Extends child child' →
      Extends (.conjunctionOr (before ++ child :: after))
        (.conjunctionOr (before ++ child' :: after))
  | structExtract (index : Nat) (name : String) {child child' : TableFilter} :
      Extends child child' → Extends (.structExtract index name child)
        (.structExtract index name child')
  | optionalFilter {child child' : TableFilter} :
      Extends child child' → Extends (.optionalFilter child) (.optionalFilter child')

theorem Reorder.symm (step : Reorder filter filter') : Reorder filter' filter := by
  induction step with
  | perm order => exact .perm order.symm
  | andChild before after _ ih => exact .andChild before after ih
  | orChild before after _ ih => exact .orChild before after ih
  | structExtract index name _ ih => exact .structExtract index name ih
  | optionalFilter _ ih => exact .optionalFilter ih

/-! ## The checks of single filters -/

section Check

variable (runtime : Runtime) (stats : BaseStatistics)

/-- An AND is answered by which answers its children give, whatever their order. -/
theorem checkAnd_congr {filters' : List TableFilter}
    (same : ∀ answer, (∃ filter ∈ filters, filter.checkStatistics runtime stats = answer) ↔
      ∃ filter ∈ filters', filter.checkStatistics runtime stats = answer) :
    checkAnd runtime filters .filterAlwaysTrue stats =
      checkAnd runtime filters' .filterAlwaysTrue stats := by
  have never := (checkAnd_false_iff runtime stats filters
    (FilterPropagateResult.noConfusion : FilterPropagateResult.filterAlwaysTrue ≠ _)).trans
    ((same .filterAlwaysFalse).trans (checkAnd_false_iff runtime stats filters'
      (FilterPropagateResult.noConfusion : FilterPropagateResult.filterAlwaysTrue ≠ _)).symm)
  have always : checkAnd runtime filters .filterAlwaysTrue stats = .filterAlwaysTrue ↔
      checkAnd runtime filters' .filterAlwaysTrue stats = .filterAlwaysTrue := by
    rw [checkAnd_true_iff, checkAnd_true_iff]
    constructor
    · intro all filter member
      obtain ⟨other, hother, heq⟩ := (same _).mpr ⟨filter, member, rfl⟩
      exact heq.symm.trans (all other hother)
    · intro all filter member
      obtain ⟨other, hother, heq⟩ := (same _).mp ⟨filter, member, rfl⟩
      exact heq.symm.trans (all other hother)
  rcases checkAnd_result runtime stats filters (Or.inl rfl) with answer | answer | answer
  · rw [answer, never.mp answer]
  · rw [answer, always.mp answer]
  · rcases checkAnd_result runtime stats filters' (Or.inl rfl) with other | other | other
    · rw [never.mpr other] at answer
      cases answer
    · rw [always.mpr other] at answer
      cases answer
    · rw [answer, other]

theorem checkOr_congr
    (same : filter.checkStatistics runtime stats = filter'.checkStatistics runtime stats) :
    checkOr runtime (before ++ filter :: after) stats =
      checkOr runtime (before ++ filter' :: after) stats := by
  induction before with
  | nil => rw [List.nil_append, List.nil_append, checkOr, checkOr, same]
  | cons head rest ih => rw [List.cons_append, List.cons_append, checkOr, checkOr, ih]

/-- The order of the children of an AND does not change the answer of a filter. -/
theorem Reorder.checkStatistics_eq (step : Reorder filter filter') :
    filter.checkStatistics runtime stats = filter'.checkStatistics runtime stats := by
  induction step generalizing stats with
  | perm order =>
      rw [checkStatistics, checkStatistics]
      apply checkAnd_congr
      intro answer
      simp only [order.mem_iff]
  | andChild before after _ ih =>
      rw [checkStatistics, checkStatistics]
      apply checkAnd_congr
      intro answer
      simp only [List.mem_append, List.mem_cons, or_and_right, exists_or, exists_eq_left, ih]
  | orChild before after _ ih =>
      rw [checkStatistics, checkStatistics]
      exact checkOr_congr runtime stats (ih stats)
  | structExtract index name _ ih =>
      rw [checkStatistics, checkStatistics]
      exact ih _
  | optionalFilter _ ih =>
      rw [checkStatistics, checkStatistics]
      exact ih stats

theorem checkAnd_ne_falseOrNull (filters : List TableFilter) :
    checkAnd runtime filters .filterAlwaysTrue stats ≠ .filterFalseOrNull := by
  intro answer
  rcases checkAnd_result runtime stats filters (Or.inl rfl) with other | other | other <;>
    rw [answer] at other <;> cases other

/-- A filter with an AND inside never answers "false or NULL". -/
theorem Extends.ne_falseOrNull (step : Extends filter filter') :
    filter.checkStatistics runtime stats ≠ .filterFalseOrNull := by
  induction step generalizing stats with
  | addChild | andChild =>
      rw [checkStatistics]
      exact checkAnd_ne_falseOrNull runtime stats _
  | orChild =>
      rw [checkStatistics]
      exact checkOr_ne_falseOrNull runtime stats _
  | structExtract index name _ ih =>
      rw [checkStatistics]
      exact ih _
  | optionalFilter _ ih =>
      rw [checkStatistics]
      exact ih stats

/-- A filter that excludes the column still does so with more conditions. -/
theorem Extends.checkStatistics_false (step : Extends filter filter')
    (excluded : filter.checkStatistics runtime stats = .filterAlwaysFalse) :
    filter'.checkStatistics runtime stats = .filterAlwaysFalse := by
  induction step generalizing stats with
  | addChild before after child =>
      rw [checkStatistics, checkAnd_false_iff _ _ _ (by decide)] at excluded ⊢
      obtain ⟨inner, member, hinner⟩ := excluded
      refine ⟨inner, ?_, hinner⟩
      rcases List.mem_append.mp member with hbefore | hafter
      · exact List.mem_append_left _ hbefore
      · exact List.mem_append_right _ (List.mem_cons_of_mem _ hafter)
  | andChild before after _ ih =>
      rw [checkStatistics, checkAnd_false_iff _ _ _ (by decide)] at excluded ⊢
      simp only [List.mem_append, List.mem_cons, or_and_right, exists_or, exists_eq_left]
        at excluded ⊢
      rcases excluded with hbefore | hchild | hafter
      · exact Or.inl hbefore
      · exact Or.inr (Or.inl (ih stats hchild))
      · exact Or.inr (Or.inr hafter)
  | @orChild before after child child' step ih =>
      rw [checkStatistics, checkOr_false_iff] at excluded ⊢
      have closed := excluded child (List.mem_append_right _ List.mem_cons_self)
      have hchild : child.checkStatistics runtime stats = .filterAlwaysFalse :=
        (child.checkStatistics_cases runtime stats closed.1 closed.2).resolve_right
          (step.ne_falseOrNull runtime stats)
      intro inner member
      rcases List.mem_append.mp member with hbefore | hrest
      · exact excluded inner (List.mem_append_left _ hbefore)
      · rcases List.mem_cons.mp hrest with rfl | hafter
        · rw [ih stats hchild]
          decide
        · exact excluded inner (List.mem_append_right _ (List.mem_cons_of_mem _ hafter))
  | structExtract index name _ ih =>
      rw [checkStatistics] at excluded ⊢
      exact ih _ excluded
  | optionalFilter _ ih =>
      rw [checkStatistics] at excluded ⊢
      exact ih stats excluded

end Check

/-! ## The bounds that an order can bring to the front -/

theorem mem_leavesAll {leaf : ComparisonType × Constant} :
    leaf ∈ leavesAll filters ↔ ∃ filter ∈ filters, leaf ∈ filter.leaves := by
  rw [leavesAll_eq, List.mem_flatMap]

theorem Reorder.leaves_perm (step : Reorder filter filter') :
    filter.leaves.Perm filter'.leaves := by
  induction step with
  | perm order =>
      rw [leaves, leaves, leavesAll_eq, leavesAll_eq]
      exact order.flatMap_right _
  | andChild before after _ ih =>
      rw [leaves, leaves, leavesAll_eq, leavesAll_eq, List.flatMap_append, List.flatMap_append,
        List.flatMap_cons, List.flatMap_cons]
      exact (ih.append_right _).append_left _
  | _ => exact .refl _

theorem Extends.leaves_subset (step : Extends filter filter') : filter.leaves ⊆ filter'.leaves := by
  induction step with
  | addChild before after child =>
      intro leaf member
      rw [leaves, mem_leavesAll] at member ⊢
      obtain ⟨filter, hfilter, hleaf⟩ := member
      refine ⟨filter, ?_, hleaf⟩
      rcases List.mem_append.mp hfilter with hbefore | hafter
      · exact List.mem_append_left _ hbefore
      · exact List.mem_append_right _ (List.mem_cons_of_mem _ hafter)
  | andChild before after _ ih =>
      intro leaf member
      rw [leaves, mem_leavesAll] at member ⊢
      simp only [List.mem_append, List.mem_cons, or_and_right, exists_or, exists_eq_left]
        at member ⊢
      rcases member with hbefore | hchild | hafter
      · exact Or.inl hbefore
      · exact Or.inr (Or.inl (ih hchild))
      · exact Or.inr (Or.inr hafter)
  | _ => exact List.Subset.refl _

theorem leaves_subset_of_extends (steps : ReflTransGen Extends filter filter') :
    filter.leaves ⊆ filter'.leaves := by
  induction steps with
  | refl => exact List.Subset.refl _
  | tail _ step ih => exact fun _ member => step.leaves_subset (ih member)

/-- The constant of some lower bound below the filter. -/
def LowerLeaf (filter : TableFilter) (constant : Constant) : Prop :=
  ∃ comparison : ComparisonType,
    comparison.isLowerBound = true ∧ (comparison, constant) ∈ filter.leaves

/-- The constant of some upper bound below the filter. -/
def UpperLeaf (filter : TableFilter) (constant : Constant) : Prop :=
  ∃ comparison : ComparisonType,
    comparison.isUpperBound = true ∧ (comparison, constant) ∈ filter.leaves

/--
A lower and an upper bound that some order of the children finds first: both below one
child, or below two children one of which has no bound of the other kind.
-/
inductive Selectable : TableFilter → Constant → Constant → Prop
  | inner {children : List TableFilter} {child : TableFilter} {lower upper : Constant}
      (member : child ∈ children) (inside : Selectable child lower upper) :
      Selectable (.conjunctionAnd children) lower upper
  | across {children rest : List TableFilter} {first second : TableFilter}
      {lower upper : Constant} (order : children.Perm (first :: second :: rest))
      (hlower : first.LowerLeaf lower) (hupper : second.UpperLeaf upper)
      (apart : (∀ constant, ¬ first.UpperLeaf constant) ∨
        ∀ constant, ¬ second.LowerLeaf constant) :
      Selectable (.conjunctionAnd children) lower upper

theorem Reorder.lowerLeaf_iff (step : Reorder filter filter') (constant : Constant) :
    filter.LowerLeaf constant ↔ filter'.LowerLeaf constant := by
  simp only [LowerLeaf, step.leaves_perm.mem_iff]

theorem Reorder.upperLeaf_iff (step : Reorder filter filter') (constant : Constant) :
    filter.UpperLeaf constant ↔ filter'.UpperLeaf constant := by
  simp only [UpperLeaf, step.leaves_perm.mem_iff]

theorem lowerLeaf_of_ofFilter (found : (Bounds.ofFilter filter).lower = some constant) :
    filter.LowerLeaf constant :=
  Bounds.mem_leaves_of_lower found

theorem upperLeaf_of_ofFilter (found : (Bounds.ofFilter filter).upper = some constant) :
    filter.UpperLeaf constant :=
  Bounds.mem_leaves_of_upper found

/-- The search finds a leaf of a kind exactly if there is one. -/
theorem find?_leaves_eq_none_iff {kind : ComparisonType → Bool} :
    (filter.leaves.find? fun leaf => kind leaf.1).map Prod.snd = none ↔
      ∀ constant, ¬ ∃ comparison : ComparisonType,
        kind comparison = true ∧ (comparison, constant) ∈ filter.leaves := by
  rw [Option.map_eq_none_iff, List.find?_eq_none]
  constructor
  · rintro absent constant ⟨comparison, isKind, member⟩
    exact absent _ member isKind
  · rintro absent ⟨comparison, constant⟩ member isKind
    exact absent constant ⟨comparison, isKind, member⟩

theorem lower_eq_none_iff (filter : TableFilter) :
    (Bounds.ofFilter filter).lower = none ↔ ∀ constant, ¬ filter.LowerLeaf constant := by
  rw [Bounds.lower_ofFilter, find?_leaves_eq_none_iff]
  rfl

theorem upper_eq_none_iff (filter : TableFilter) :
    (Bounds.ofFilter filter).upper = none ↔ ∀ constant, ¬ filter.UpperLeaf constant := by
  rw [Bounds.upper_ofFilter, find?_leaves_eq_none_iff]
  rfl

/-- The bounds of an AND are those of its first child, completed by the other children. -/
theorem lower_and_cons (child : TableFilter) (rest : List TableFilter) :
    (Bounds.ofFilter (.conjunctionAnd (child :: rest))).lower =
      (Bounds.ofFilter child).lower.or (Bounds.ofFilter (.conjunctionAnd rest)).lower := by
  simp only [Bounds.lower_ofFilter, leaves, leavesAll, List.find?_append, Option.map_or]

theorem upper_and_cons (child : TableFilter) (rest : List TableFilter) :
    (Bounds.ofFilter (.conjunctionAnd (child :: rest))).upper =
      (Bounds.ofFilter child).upper.or (Bounds.ofFilter (.conjunctionAnd rest)).upper := by
  simp only [Bounds.upper_ofFilter, leaves, leavesAll, List.find?_append, Option.map_or]

theorem Selectable.cons (selectable : Selectable (.conjunctionAnd children) lower upper)
    (child : TableFilter) : Selectable (.conjunctionAnd (child :: children)) lower upper := by
  cases selectable with
  | inner member inside => exact .inner (List.mem_cons_of_mem _ member) inside
  | @across _ rest first second _ _ order hlower hupper apart =>
      have moved : (child :: children).Perm (first :: second :: child :: rest) :=
        (order.cons child).trans ((List.Perm.swap first child _).trans
          ((List.Perm.swap second child rest).cons first))
      exact .across moved hlower hupper apart

/-- What the search finds can be brought to the front. -/
theorem selectable_of_ofFilter (hlower : (Bounds.ofFilter filter).lower = some lower)
    (hupper : (Bounds.ofFilter filter).upper = some upper) : Selectable filter lower upper := by
  induction filter using TableFilter.inductionOn with
  | constantComparison comparison constant =>
      cases comparison <;> cases hlower <;> cases hupper
  | conjunctionAnd children ih =>
      induction children with
      | nil => cases hlower
      | cons child rest ihrest =>
          rw [lower_and_cons] at hlower
          rw [upper_and_cons] at hupper
          cases childLower : (Bounds.ofFilter child).lower with
          | none =>
              have noLower := (lower_eq_none_iff child).mp childLower
              rw [childLower, Option.none_or] at hlower
              cases childUpper : (Bounds.ofFilter child).upper with
              | none =>
                  rw [childUpper, Option.none_or] at hupper
                  exact (ihrest (fun inner member => ih inner (List.mem_cons_of_mem _ member))
                    hlower hupper).cons child
              | some bound =>
                  rw [childUpper, Option.some_or] at hupper
                  obtain ⟨comparison, hcomparison, hleaf⟩ := lowerLeaf_of_ofFilter hlower
                  rw [leaves, mem_leavesAll] at hleaf
                  obtain ⟨first, hfirst, hleaf⟩ := hleaf
                  obtain ⟨front, back, rfl⟩ := List.append_of_mem hfirst
                  have order : (child :: (front ++ first :: back)).Perm
                      (first :: child :: (front ++ back)) :=
                    (List.perm_middle.cons child).trans (List.Perm.swap first child _)
                  exact .across order ⟨comparison, hcomparison, hleaf⟩
                    (upperLeaf_of_ofFilter (childUpper.trans hupper)) (Or.inr noLower)
          | some bound =>
              rw [childLower, Option.some_or] at hlower
              cases childUpper : (Bounds.ofFilter child).upper with
              | none =>
                  have noUpper := (upper_eq_none_iff child).mp childUpper
                  rw [childUpper, Option.none_or] at hupper
                  obtain ⟨comparison, hcomparison, hleaf⟩ := upperLeaf_of_ofFilter hupper
                  rw [leaves, mem_leavesAll] at hleaf
                  obtain ⟨second, hsecond, hleaf⟩ := hleaf
                  obtain ⟨front, back, rfl⟩ := List.append_of_mem hsecond
                  exact .across (List.perm_middle.cons child)
                    (lowerLeaf_of_ofFilter (childLower.trans hlower))
                    ⟨comparison, hcomparison, hleaf⟩ (Or.inl noUpper)
              | some bound' =>
                  rw [childUpper, Option.some_or] at hupper
                  exact .inner List.mem_cons_self (ih child List.mem_cons_self
                    (childLower.trans hlower) (childUpper.trans hupper))
  | _ => cases hlower

/-- The reordered child takes its place in every order of the children. -/
theorem replace_perm (child' : TableFilter) (order : (before ++ child :: after).Perm children) :
    ∃ front back, children = front ++ child :: back ∧
      (before ++ child' :: after).Perm (front ++ child' :: back) := by
  have member : child ∈ children :=
    order.mem_iff.mp (List.mem_append_right _ List.mem_cons_self)
  obtain ⟨front, back, rfl⟩ := List.append_of_mem member
  have others : (before ++ after).Perm (front ++ back) :=
    (List.perm_middle.symm.trans (order.trans List.perm_middle)).cons_inv
  exact ⟨front, back, rfl,
    List.perm_middle.trans ((others.cons child').trans List.perm_middle.symm)⟩

/-- Reordering does not change which bounds can be brought to the front. -/
theorem Reorder.selectable (step : Reorder filter filter')
    (selectable : Selectable filter lower upper) : Selectable filter' lower upper := by
  induction step with
  | perm order =>
      cases selectable with
      | inner member inside => exact .inner (order.mem_iff.mp member) inside
      | across inOrder hlower hupper apart =>
          exact .across (order.symm.trans inOrder) hlower hupper apart
  | @andChild before after child child' step ih =>
      cases selectable with
      | @inner _ inner _ _ member inside =>
          rcases List.mem_append.mp member with hbefore | hrest
          · exact .inner (List.mem_append_left _ hbefore) inside
          · rcases List.mem_cons.mp hrest with rfl | hafter
            · exact .inner (List.mem_append_right _ List.mem_cons_self) (ih inside)
            · exact .inner (List.mem_append_right _ (List.mem_cons_of_mem _ hafter)) inside
      | @across _ rest first second _ _ inOrder hlower hupper apart =>
          obtain ⟨front, back, heq, moved⟩ := replace_perm child' inOrder
          -- the place of the child: first, second, or behind both
          rcases front with _ | ⟨head, _ | ⟨next, tail⟩⟩
          · obtain ⟨rfl, rfl⟩ := List.cons.inj heq
            exact .across moved ((step.lowerLeaf_iff lower).mp hlower) hupper
              (apart.imp_left fun absent constant => mt (step.upperLeaf_iff constant).mpr
                (absent constant))
          · obtain ⟨rfl, htail⟩ := List.cons.inj heq
            obtain ⟨rfl, rfl⟩ := List.cons.inj htail
            exact .across moved hlower ((step.upperLeaf_iff upper).mp hupper)
              (apart.imp_right fun absent constant => mt (step.lowerLeaf_iff constant).mpr
                (absent constant))
          · obtain ⟨rfl, htail⟩ := List.cons.inj heq
            obtain ⟨rfl, -⟩ := List.cons.inj htail
            exact .across moved hlower hupper apart
  | _ => cases selectable

/-- Any number of reorderings. -/
abbrev Reorders : TableFilter → TableFilter → Prop := ReflTransGen Reorder

theorem Reorders.symm (steps : Reorders filter filter') : Reorders filter' filter := by
  induction steps with
  | refl => exact .refl
  | tail _ step ih => exact .head step.symm ih

theorem Reorders.selectable (steps : Reorders filter filter')
    (selectable : Selectable filter lower upper) : Selectable filter' lower upper := by
  induction steps with
  | refl => exact selectable
  | tail _ step ih => exact step.selectable ih

theorem Reorders.leaves_perm (steps : Reorders filter filter') :
    filter.leaves.Perm filter'.leaves := by
  induction steps with
  | refl => exact .refl _
  | tail _ step ih => exact ih.trans step.leaves_perm

theorem Reorders.checkStatistics_eq (runtime : Runtime) (stats : BaseStatistics)
    (steps : Reorders filter filter') :
    filter.checkStatistics runtime stats = filter'.checkStatistics runtime stats := by
  induction steps with
  | refl => rfl
  | tail _ step ih => exact ih.trans (step.checkStatistics_eq runtime stats)

theorem Reorders.andChild (before after : List TableFilter) (steps : Reorders child child') :
    Reorders (.conjunctionAnd (before ++ child :: after))
      (.conjunctionAnd (before ++ child' :: after)) := by
  refine ReflTransGen.lift (fun inner => conjunctionAnd (before ++ inner :: after)) ?_ _ _ steps
  intro _ _ step
  exact Reorder.andChild before after step

/-- The child of an AND that is moved to the front and reordered there. -/
theorem Reorders.moveFront {rest : List TableFilter} (order : children.Perm (child :: rest))
    (steps : Reorders child child') :
    Reorders (.conjunctionAnd children) (.conjunctionAnd (child' :: rest)) :=
  .head (.perm order) (steps.andChild [] rest)

/-- Every leaf can be made the first of its kind. -/
theorem exists_front {kind : ComparisonType → Bool} {comparison : ComparisonType}
    (isKind : kind comparison = true) {constant : Constant}
    (leaf : (comparison, constant) ∈ filter.leaves) :
    ∃ filter', Reorders filter filter' ∧
      (filter'.leaves.find? fun leaf => kind leaf.1).map Prod.snd = some constant := by
  induction filter using TableFilter.inductionOn with
  | constantComparison other value =>
      rw [leaves, List.mem_singleton] at leaf
      cases leaf
      exact ⟨_, .refl, by simp [leaves, isKind]⟩
  | conjunctionAnd children ih =>
      rw [leaves, mem_leavesAll] at leaf
      obtain ⟨child, hchild, hleaf⟩ := leaf
      obtain ⟨child', steps, found⟩ := ih child hchild hleaf
      obtain ⟨front, back, rfl⟩ := List.append_of_mem hchild
      refine ⟨_, .moveFront List.perm_middle steps, ?_⟩
      rw [leaves, leavesAll, List.find?_append, Option.map_or, found, Option.some_or]
  | _ => cases leaf

theorem exists_lower_front (leaf : filter.LowerLeaf lower) :
    ∃ filter', Reorders filter filter' ∧ (Bounds.ofFilter filter').lower = some lower := by
  obtain ⟨comparison, isLower, member⟩ := leaf
  simp only [Bounds.lower_ofFilter]
  exact exists_front isLower member

theorem exists_upper_front (leaf : filter.UpperLeaf upper) :
    ∃ filter', Reorders filter filter' ∧ (Bounds.ofFilter filter').upper = some upper := by
  obtain ⟨comparison, isUpper, member⟩ := leaf
  simp only [Bounds.upper_ofFilter]
  exact exists_front isUpper member

/-- The order that a selectable pair of bounds is found in. -/
theorem exists_ofFilter_of_selectable (selectable : Selectable filter lower upper) :
    ∃ filter', Reorders filter filter' ∧ (Bounds.ofFilter filter').lower = some lower ∧
      (Bounds.ofFilter filter').upper = some upper := by
  induction selectable with
  | inner member _ ih =>
      obtain ⟨child', steps, hlower, hupper⟩ := ih
      obtain ⟨front, back, rfl⟩ := List.append_of_mem member
      refine ⟨_, .moveFront List.perm_middle steps, ?_, ?_⟩
      · rw [lower_and_cons, hlower, Option.some_or]
      · rw [upper_and_cons, hupper, Option.some_or]
  | @across children rest first second lower upper order hlower hupper apart =>
      obtain ⟨first', firstSteps, foundLower⟩ := exists_lower_front hlower
      obtain ⟨second', secondSteps, foundUpper⟩ := exists_upper_front hupper
      rcases apart with noUpper | noLower
      · refine ⟨.conjunctionAnd (first' :: second' :: rest),
          (Reorders.moveFront order firstSteps).trans (secondSteps.andChild [first'] rest), ?_, ?_⟩
        · rw [lower_and_cons, foundLower, Option.some_or]
        · have absent : (Bounds.ofFilter first').upper = none := by
            rw [upper_eq_none_iff]
            rintro constant ⟨comparison, hcomparison, member⟩
            exact noUpper constant
              ⟨comparison, hcomparison, firstSteps.leaves_perm.mem_iff.mpr member⟩
          rw [upper_and_cons, absent, Option.none_or, upper_and_cons, foundUpper, Option.some_or]
      · refine ⟨.conjunctionAnd (second' :: first' :: rest),
          (Reorders.moveFront (order.trans (.swap second first rest)) secondSteps).trans
            (firstSteps.andChild [second'] rest), ?_, ?_⟩
        · have absent : (Bounds.ofFilter second').lower = none := by
            rw [lower_eq_none_iff]
            rintro constant ⟨comparison, hcomparison, member⟩
            exact noLower constant
              ⟨comparison, hcomparison, secondSteps.leaves_perm.mem_iff.mpr member⟩
          rw [lower_and_cons, absent, Option.none_or, lower_and_cons, foundLower, Option.some_or]
        · rw [upper_and_cons, foundUpper, Option.some_or]

end TableFilter

namespace ColumnStatistics

variable (runtime : Runtime) (column : ColumnStatistics)

theorem checkZonemap_false_iff (filter : TableFilter) :
    column.checkZonemap runtime filter = .filterAlwaysFalse ↔
      filter.checkStatistics runtime column.statistics = .filterAlwaysFalse ∧
        ∀ updateStats, column.updateStatistics = some updateStats →
          filter.checkStatistics runtime updateStats = .filterAlwaysFalse := by
  rw [checkZonemap]
  split
  · rename_i hopen
    simp [hopen]
  · split
    · rename_i hcolumn
      simp [hcolumn]
    · rename_i updateStats hcolumn
      split
      · rename_i agree
        simp [hcolumn, agree]
      · rename_i differ
        refine iff_of_false (by decide) fun both => differ ?_
        rw [both.1, both.2 updateStats hcolumn]

theorem checkZonemap_reorders (steps : TableFilter.Reorders filter filter') :
    column.checkZonemap runtime filter = column.checkZonemap runtime filter' := by
  simp only [checkZonemap, steps.checkStatistics_eq runtime]

theorem checkZonemap_extends (steps : ReflTransGen TableFilter.Extends filter filter')
    (excluded : column.checkZonemap runtime filter = .filterAlwaysFalse) :
    column.checkZonemap runtime filter' = .filterAlwaysFalse := by
  induction steps with
  | refl => exact excluded
  | tail _ step ih =>
      rw [checkZonemap_false_iff] at ih ⊢
      exact ⟨step.checkStatistics_false runtime _ ih.1,
        fun updateStats held => step.checkStatistics_false runtime _ (ih.2 updateStats held)⟩

end ColumnStatistics

/-! ## Filter lists -/

section FilterLists

variable {columnCount : Nat} {filters filters' : List (ScanFilter columnCount)}
  {entry' entry : ScanFilter columnCount}

/-- The entries in another order, or one AND below an entry with its children in another order. -/
inductive ReorderFilters : List (ScanFilter columnCount) → List (ScanFilter columnCount) → Prop
  | perm {filters filters' : List (ScanFilter columnCount)} (order : filters.Perm filters') :
      ReorderFilters filters filters'
  | entry (before after : List (ScanFilter columnCount)) (column : Fin columnCount)
      (alwaysTrue : Bool) {filter filter' : TableFilter} (step : filter.Reorder filter') :
      ReorderFilters (before ++ ⟨column, filter, alwaysTrue⟩ :: after)
        (before ++ ⟨column, filter', alwaysTrue⟩ :: after)

/-- One more entry, or one more child of an AND below an entry. -/
inductive ExtendFilters : List (ScanFilter columnCount) → List (ScanFilter columnCount) → Prop
  | addEntry (before after : List (ScanFilter columnCount)) (entry : ScanFilter columnCount) :
      ExtendFilters (before ++ after) (before ++ entry :: after)
  | entry (before after : List (ScanFilter columnCount)) (column : Fin columnCount)
      (alwaysTrue : Bool) {filter filter' : TableFilter} (step : filter.Extends filter') :
      ExtendFilters (before ++ ⟨column, filter, alwaysTrue⟩ :: after)
        (before ++ ⟨column, filter', alwaysTrue⟩ :: after)

theorem ReorderFilters.symm (step : ReorderFilters filters filters') :
    ReorderFilters filters' filters := by
  cases step with
  | perm order => exact .perm order.symm
  | entry before after column alwaysTrue step =>
      exact .entry before after column alwaysTrue step.symm

theorem ReorderFilters.exists_before (steps : ReflTransGen ReorderFilters filters filters')
    (member : entry' ∈ filters') :
    ∃ entry ∈ filters, entry.tableColumnIndex = entry'.tableColumnIndex ∧
      TableFilter.Reorders entry.filter entry'.filter := by
  induction steps generalizing entry' with
  | refl => exact ⟨entry', member, rfl, .refl⟩
  | tail _ step ih =>
      cases step with
      | perm order => exact ih (order.mem_iff.mpr member)
      | entry before after column alwaysTrue step =>
          rcases List.mem_append.mp member with hbefore | hrest
          · exact ih (List.mem_append_left _ hbefore)
          · rcases List.mem_cons.mp hrest with rfl | hafter
            · obtain ⟨entry, hentry, hcolumn, hsteps⟩ :=
                ih (List.mem_append_right _ List.mem_cons_self)
              exact ⟨entry, hentry, hcolumn, hsteps.tail step⟩
            · exact ih (List.mem_append_right _ (List.mem_cons_of_mem _ hafter))

theorem ReorderFilters.reverse (steps : ReflTransGen ReorderFilters filters filters') :
    ReflTransGen ReorderFilters filters' filters := by
  induction steps with
  | refl => exact .refl
  | tail _ step ih => exact .head step.symm ih

theorem ReorderFilters.exists_behind (steps : ReflTransGen ReorderFilters filters filters')
    (member : entry ∈ filters) :
    ∃ entry' ∈ filters', entry.tableColumnIndex = entry'.tableColumnIndex ∧
      TableFilter.Reorders entry.filter entry'.filter := by
  obtain ⟨entry', hentry', hcolumn, hsteps⟩ := exists_before (reverse steps) member
  exact ⟨entry', hentry', hcolumn.symm, hsteps.symm⟩

theorem ExtendFilters.exists_behind (steps : ReflTransGen ExtendFilters filters filters')
    (member : entry ∈ filters) :
    ∃ entry' ∈ filters', entry.tableColumnIndex = entry'.tableColumnIndex ∧
      ReflTransGen TableFilter.Extends entry.filter entry'.filter := by
  induction steps with
  | refl => exact ⟨entry, member, rfl, .refl⟩
  | tail _ step ih =>
      obtain ⟨middle, hmiddle, hcolumn, hsteps⟩ := ih
      cases step with
      | addEntry before after added =>
          refine ⟨middle, ?_, hcolumn, hsteps⟩
          rcases List.mem_append.mp hmiddle with hbefore | hafter
          · exact List.mem_append_left _ hbefore
          · exact List.mem_append_right _ (List.mem_cons_of_mem _ hafter)
      | entry before after column alwaysTrue step =>
          rcases List.mem_append.mp hmiddle with hbefore | hrest
          · exact ⟨middle, List.mem_append_left _ hbefore, hcolumn, hsteps⟩
          · rcases List.mem_cons.mp hrest with rfl | hafter
            · exact ⟨_, List.mem_append_right _ List.mem_cons_self, hcolumn, hsteps.tail step⟩
            · exact ⟨middle, List.mem_append_right _ (List.mem_cons_of_mem _ hafter), hcolumn,
                hsteps⟩

variable (runtime : Runtime) (columns : Fin columnCount → ColumnStatistics)

/-- The constants have the type of their column, as `ConstantFilter` asserts. -/
def ScanFilter.WellTyped (entry : ScanFilter columnCount) : Prop :=
  ∀ leaf ∈ entry.filter.leaves,
    leaf.2.type.id = (columns entry.tableColumnIndex).statistics.type.id

/-- The range query excludes the range between two constants. -/
def rangeExcluded (statistics : BaseStatistics) (lower upper : Constant) : Prop :=
  statistics.type.internalType.takesRange = true ∧
    statistics.rangeQueryAdditionalStats lower.payload upper.payload = .filterAlwaysFalse

/-- Some entry passes the check of its column and has a range that is not excluded. -/
def HasOpenRange : Prop :=
  ∃ entry : ScanFilter columnCount, entry.WellTyped columns ∧
    entry.check runtime columns ≠ .filterAlwaysFalse ∧ entry.rangeSkip columns = some false

/-- The range of a well-typed entry is asked for exactly if it has both bounds. -/
theorem rangeSkip_of_wellTyped (typed : entry.WellTyped columns)
    (hlower : (Bounds.ofFilter entry.filter).lower = some lower)
    (hupper : (Bounds.ofFilter entry.filter).upper = some upper) :
    entry.rangeSkip columns =
      if (columns entry.tableColumnIndex).statistics.type.internalType.takesRange then
        some ((columns entry.tableColumnIndex).statistics.rangeQueryAdditionalStats lower.payload
          upper.payload == .filterAlwaysFalse)
      else none := by
  obtain ⟨_, _, lowerLeaf⟩ := Bounds.mem_leaves_of_lower hlower
  obtain ⟨_, _, upperLeaf⟩ := Bounds.mem_leaves_of_upper hupper
  rw [ScanFilter.rangeSkip, StatsRecommender.rangeSkip, hlower, hupper]
  exact if_pos ⟨typed _ lowerLeaf, typed _ upperLeaf⟩

theorem rangeSkip_ne_none_iff (typed : entry.WellTyped columns) :
    entry.rangeSkip columns ≠ none ↔
      (columns entry.tableColumnIndex).statistics.type.internalType.takesRange = true ∧
        (∃ lower, entry.filter.LowerLeaf lower) ∧ ∃ upper, entry.filter.UpperLeaf upper := by
  cases hlower : (Bounds.ofFilter entry.filter).lower with
  | none =>
      refine iff_of_false (fun asked => asked ?_) ?_
      · rw [ScanFilter.rangeSkip, StatsRecommender.rangeSkip, hlower]
      · rintro ⟨_, ⟨lower, leaf⟩, _⟩
        exact (TableFilter.lower_eq_none_iff _).mp hlower lower leaf
  | some lower =>
      cases hupper : (Bounds.ofFilter entry.filter).upper with
      | none =>
          refine iff_of_false (fun asked => asked ?_) ?_
          · rw [ScanFilter.rangeSkip, StatsRecommender.rangeSkip, hlower, hupper]
          · rintro ⟨_, _, upper, leaf⟩
            exact (TableFilter.upper_eq_none_iff _).mp hupper upper leaf
      | some upper =>
          have leaves : (∃ lower, entry.filter.LowerLeaf lower) ∧
              ∃ upper, entry.filter.UpperLeaf upper :=
            ⟨⟨lower, TableFilter.lowerLeaf_of_ofFilter hlower⟩,
              ⟨upper, TableFilter.upperLeaf_of_ofFilter hupper⟩⟩
          rw [rangeSkip_of_wellTyped columns typed hlower hupper, and_iff_left leaves]
          split <;> simp [*]

theorem rangeSkip_true_iff (typed : entry.WellTyped columns) :
    entry.rangeSkip columns = some true ↔
      ∃ lower upper, (Bounds.ofFilter entry.filter).lower = some lower ∧
        (Bounds.ofFilter entry.filter).upper = some upper ∧
        rangeExcluded (columns entry.tableColumnIndex).statistics lower upper := by
  constructor
  · intro raised
    obtain ⟨lower, upper, hlower, hupper, hquery⟩ := rangeSkip_some raised
    have asked := (rangeSkip_ne_none_iff columns typed).mp
      (by rw [raised]; exact Option.some_ne_none _)
    exact ⟨lower, upper, hlower, hupper, asked.1, beq_iff_eq.mp hquery⟩
  · rintro ⟨lower, upper, hlower, hupper, hrange, hquery⟩
    rw [rangeSkip_of_wellTyped columns typed hlower hupper, if_pos hrange, hquery]
    rfl

/-- Every order of the filters gives the same decision. -/
def OrderIndependent (filters : List (ScanFilter columnCount)) : Prop :=
  ∀ filters', ReflTransGen ReorderFilters filters filters' →
    (checkZonemap runtime columns filters').1 = (checkZonemap runtime columns filters).1

/-- A row group that is skipped is skipped under every filter list with more conditions. -/
def MonotoneSkip (filters : List (ScanFilter columnCount)) : Prop :=
  (checkZonemap runtime columns filters).1 = false →
    ∀ filters', ReflTransGen ExtendFilters filters filters' →
      (∀ entry ∈ filters', entry.WellTyped columns) →
      (checkZonemap runtime columns filters').1 = false

variable {runtime columns}

theorem ScanFilter.WellTyped.reorder (typed : entry.WellTyped columns)
    (hcolumn : entry.tableColumnIndex = entry'.tableColumnIndex)
    (steps : TableFilter.Reorders entry.filter entry'.filter) : entry'.WellTyped columns := by
  intro leaf member
  rw [← hcolumn]
  exact typed leaf (steps.leaves_perm.mem_iff.mpr member)

theorem ScanFilter.check_reorder (hcolumn : entry.tableColumnIndex = entry'.tableColumnIndex)
    (steps : TableFilter.Reorders entry.filter entry'.filter) :
    entry.check runtime columns = entry'.check runtime columns := by
  rw [ScanFilter.check, ScanFilter.check, hcolumn]
  exact ColumnStatistics.checkZonemap_reorders runtime _ steps

theorem ScanFilter.check_extend (hcolumn : entry.tableColumnIndex = entry'.tableColumnIndex)
    (steps : ReflTransGen TableFilter.Extends entry.filter entry'.filter)
    (excluded : entry.check runtime columns = .filterAlwaysFalse) :
    entry'.check runtime columns = .filterAlwaysFalse := by
  rw [ScanFilter.check] at excluded ⊢
  rw [hcolumn] at excluded
  exact ColumnStatistics.checkZonemap_extends runtime _ steps excluded

/-- An entry that excludes the row group by itself decides under every order and extension. -/
theorem skip_of_check (member : entry ∈ filters)
    (excluded : entry.check runtime columns = .filterAlwaysFalse) :
    OrderIndependent runtime columns filters ∧ MonotoneSkip runtime columns filters := by
  constructor
  · intro filters' steps
    obtain ⟨entry', hentry', hcolumn, hsteps⟩ := ReorderFilters.exists_behind steps member
    rw [(checkZonemap_skip_iff runtime columns filters).mpr (Or.inl ⟨entry, member, excluded⟩),
      checkZonemap_skip_iff]
    exact Or.inl ⟨entry', hentry', (ScanFilter.check_reorder hcolumn hsteps).symm.trans excluded⟩
  · intro _ filters' steps _
    obtain ⟨entry', hentry', hcolumn, hsteps⟩ := ExtendFilters.exists_behind steps member
    rw [checkZonemap_skip_iff]
    exact Or.inl ⟨entry', hentry', ScanFilter.check_extend hcolumn hsteps excluded⟩

/-- Without a selectable pair of bounds that is excluded, no order puts the flag up. -/
theorem betweenSkip_of_reorder (typed : ∀ entry ∈ filters, entry.WellTyped columns)
    (notSelectable : ∀ entry ∈ filters, ∀ lower upper,
      TableFilter.Selectable entry.filter lower upper →
      ¬ rangeExcluded (columns entry.tableColumnIndex).statistics lower upper)
    (steps : ReflTransGen ReorderFilters filters filters') :
    betweenSkip columns filters' false = false := by
  rw [← Bool.not_eq_true]
  intro raised
  obtain ⟨entry', hentry', hskip⟩ := exists_of_betweenSkip columns raised
  obtain ⟨entry, hentry, hcolumn, hsteps⟩ := ReorderFilters.exists_before steps hentry'
  have typed' := (typed entry hentry).reorder hcolumn hsteps
  obtain ⟨lower, upper, hlower, hupper, excluded⟩ := (rangeSkip_true_iff columns typed').mp hskip
  have selectable := TableFilter.selectable_of_ofFilter hlower hupper
  rw [← hcolumn] at excluded
  exact notSelectable entry hentry lower upper (hsteps.symm.selectable selectable) excluded

/-- Without a range that is asked for and not excluded, the flag only ever goes up. -/
theorem betweenSkip_of_not_false (closed : ∀ entry ∈ filters, entry.rangeSkip columns ≠ some false)
    (start : Bool) :
    betweenSkip columns filters start = true ↔
      start = true ∨ ∃ entry ∈ filters, entry.rangeSkip columns ≠ none := by
  induction filters generalizing start with
  | nil => simp [betweenSkip]
  | cons entry rest ih =>
      obtain ⟨hentry, hrest⟩ := List.forall_mem_cons.mp closed
      rw [List.exists_mem_cons_iff]
      change betweenSkip columns rest ((entry.rangeSkip columns).getD start) = true ↔ _
      rw [ih hrest]
      cases hasked : entry.rangeSkip columns with
      | none => simp
      | some answer =>
          cases answer with
          | true => simp
          | false => exact absurd hasked hentry

/-- What skips a row group on which every range that is asked for is excluded. -/
theorem skip_iff_of_not_open (closed : ¬ HasOpenRange runtime columns)
    (typed : ∀ entry ∈ filters, entry.WellTyped columns) :
    (checkZonemap runtime columns filters).1 = false ↔
      ∃ entry ∈ filters, entry.check runtime columns = .filterAlwaysFalse ∨
        entry.rangeSkip columns ≠ none := by
  rw [checkZonemap_skip_iff]
  by_cases excluded : ∃ entry ∈ filters, entry.check runtime columns = .filterAlwaysFalse
  · obtain ⟨entry, member, hentry⟩ := excluded
    exact iff_of_true (Or.inl ⟨entry, member, hentry⟩) ⟨entry, member, Or.inl hentry⟩
  · have passes : ∀ entry ∈ filters, entry.check runtime columns ≠ .filterAlwaysFalse :=
      fun entry member hentry => excluded ⟨entry, member, hentry⟩
    have notFalse : ∀ entry ∈ filters, entry.rangeSkip columns ≠ some false :=
      fun entry member hskip => closed ⟨entry, typed entry member, passes entry member, hskip⟩
    rw [or_iff_right excluded, betweenSkip_of_not_false notFalse,
      or_iff_right Bool.false_ne_true]
    constructor
    · rintro ⟨entry, member, asked⟩
      exact ⟨entry, member, Or.inr asked⟩
    · rintro ⟨entry, member, hentry | asked⟩
      · exact absurd hentry (passes entry member)
      · exact ⟨entry, member, asked⟩

theorem asked_extend (typed : entry.WellTyped columns) (typed' : entry'.WellTyped columns)
    (hcolumn : entry.tableColumnIndex = entry'.tableColumnIndex)
    (subset : entry.filter.leaves ⊆ entry'.filter.leaves) (asked : entry.rangeSkip columns ≠ none) :
    entry'.rangeSkip columns ≠ none := by
  rw [rangeSkip_ne_none_iff columns typed, hcolumn] at asked
  rw [rangeSkip_ne_none_iff columns typed']
  obtain ⟨hrange, ⟨lower, lowerComparison, isLower, lowerLeaf⟩,
    upper, upperComparison, isUpper, upperLeaf⟩ := asked
  exact ⟨hrange, ⟨lower, lowerComparison, isLower, subset lowerLeaf⟩,
    upper, upperComparison, isUpper, subset upperLeaf⟩

/-- On such a row group the decision has no order and only grows. -/
theorem skip_of_not_open (closed : ¬ HasOpenRange runtime columns)
    (typed : ∀ entry ∈ filters, entry.WellTyped columns) :
    OrderIndependent runtime columns filters ∧ MonotoneSkip runtime columns filters := by
  constructor
  · intro filters' steps
    have typed' : ∀ entry ∈ filters', entry.WellTyped columns := by
      intro entry' member
      obtain ⟨entry, hentry, hcolumn, hsteps⟩ := ReorderFilters.exists_before steps member
      exact (typed entry hentry).reorder hcolumn hsteps
    have carry : ∀ {entry entry' : ScanFilter columnCount}, entry.WellTyped columns →
        entry'.WellTyped columns → entry.tableColumnIndex = entry'.tableColumnIndex →
        TableFilter.Reorders entry.filter entry'.filter →
        entry.check runtime columns = .filterAlwaysFalse ∨ entry.rangeSkip columns ≠ none →
        entry'.check runtime columns = .filterAlwaysFalse ∨ entry'.rangeSkip columns ≠ none := by
      intro entry entry' htyped htyped' hcolumn hsteps hskip
      exact hskip.imp (ScanFilter.check_reorder hcolumn hsteps).symm.trans
        (asked_extend htyped htyped' hcolumn hsteps.leaves_perm.subset)
    rw [Bool.eq_iff_iff, ← not_iff_not, Bool.not_eq_true, Bool.not_eq_true,
      skip_iff_of_not_open closed typed, skip_iff_of_not_open closed typed']
    constructor
    · rintro ⟨entry', member, hskip⟩
      obtain ⟨entry, hentry, hcolumn, hsteps⟩ := ReorderFilters.exists_before steps member
      exact ⟨entry, hentry,
        carry (typed' _ member) (typed _ hentry) hcolumn.symm hsteps.symm hskip⟩
    · rintro ⟨entry, member, hskip⟩
      obtain ⟨entry', hentry', hcolumn, hsteps⟩ := ReorderFilters.exists_behind steps member
      exact ⟨entry', hentry', carry (typed _ member) (typed' _ hentry') hcolumn hsteps hskip⟩
  · intro skipped filters' steps typed'
    obtain ⟨entry, member, hskip⟩ := (skip_iff_of_not_open closed typed).mp skipped
    obtain ⟨entry', hentry', hcolumn, hsteps⟩ := ExtendFilters.exists_behind steps member
    have subset := TableFilter.leaves_subset_of_extends hsteps
    refine (skip_iff_of_not_open closed typed').mpr ⟨entry', hentry', ?_⟩
    exact hskip.imp (ScanFilter.check_extend hcolumn hsteps)
      (asked_extend (typed _ member) (typed' _ hentry') hcolumn subset)

/--
The decision is independent of the order and monotone exactly if some entry excludes the
row group by itself, or no order brings an excluded range to the front of an entry, or no
entry on this row group could take the flag down again.
-/
theorem checkZonemap_order_iff {filters : List (ScanFilter columnCount)}
    (typed : ∀ entry ∈ filters, entry.WellTyped columns) :
    OrderIndependent runtime columns filters ∧ MonotoneSkip runtime columns filters ↔
      (∃ entry ∈ filters, entry.check runtime columns = .filterAlwaysFalse) ∨
      (∀ entry ∈ filters, ∀ lower upper, TableFilter.Selectable entry.filter lower upper →
        ¬ rangeExcluded (columns entry.tableColumnIndex).statistics lower upper) ∨
      ¬ HasOpenRange runtime columns := by
  constructor
  · rintro ⟨independent, monotone⟩
    by_contra failing
    rw [not_or, not_or, not_not] at failing
    obtain ⟨noneExcluded, someSelectable, opener, openerTyped, openerPasses, openerSkip⟩ := failing
    push Not at noneExcluded someSelectable
    obtain ⟨entry, member, lower, upper, selectable, excluded⟩ := someSelectable
    obtain ⟨filter', steps, hlower, hupper⟩ :=
      TableFilter.exists_ofFilter_of_selectable selectable
    -- the entry with its excluded range in front, moved behind all others
    obtain ⟨before, after, rfl⟩ := List.append_of_mem member
    let raised : ScanFilter columnCount := { entry with filter := filter' }
    have moved : ReflTransGen ReorderFilters (before ++ entry :: after)
        (before ++ after ++ [raised]) := by
      have toBack : (before ++ raised :: after).Perm (before ++ after ++ [raised]) :=
        List.perm_middle.trans (List.perm_append_singleton raised _).symm
      refine ReflTransGen.tail ?_ (.perm toBack)
      exact ReflTransGen.lift
        (fun filter => before ++ (⟨entry.tableColumnIndex, filter, entry.alwaysTrue⟩ :
          ScanFilter columnCount) :: after)
        (fun _ _ step => ReorderFilters.entry before after _ _ step) _ _ steps
    have raisedTyped : raised.WellTyped columns := (typed entry member).reorder rfl steps
    have raisedSkip : raised.rangeSkip columns = some true :=
      (rangeSkip_true_iff columns raisedTyped).mpr ⟨lower, upper, hlower, hupper, excluded⟩
    have skippedThere :
        (checkZonemap runtime columns (before ++ after ++ [raised])).1 = false := by
      refine (checkZonemap_skip_iff runtime columns _).mpr (Or.inr ?_)
      rw [betweenSkip, List.foldl_append, List.foldl_cons, raisedSkip]
      rfl
    have skippedHere := (independent _ moved).symm.trans skippedThere
    -- one more entry behind takes the flag down
    have extended : ReflTransGen ExtendFilters (before ++ entry :: after)
        (before ++ entry :: after ++ [opener]) := by
      have added := ExtendFilters.addEntry (before ++ entry :: after) [] opener
      rw [List.append_nil] at added
      exact .single added
    have stillSkipped := monotone skippedHere _ extended fun other hother =>
      (List.mem_append.mp hother).elim (typed other)
        fun last => List.mem_singleton.mp last ▸ openerTyped
    rcases (checkZonemap_skip_iff runtime columns _).mp stillSkipped with
      ⟨other, hother, hfalse⟩ | between
    · rcases List.mem_append.mp hother with old | last
      · exact noneExcluded other old hfalse
      · rw [List.mem_singleton.mp last] at hfalse
        exact openerPasses hfalse
    · rw [betweenSkip, List.foldl_append, List.foldl_cons, openerSkip] at between
      cases between
  · rintro (⟨entry, member, excluded⟩ | notSelectable | closed)
    · exact skip_of_check member excluded
    · by_cases someFalse : ∃ entry ∈ filters, entry.check runtime columns = .filterAlwaysFalse
      · obtain ⟨entry, member, excluded⟩ := someFalse
        exact skip_of_check member excluded
      · have kept : ∀ filters', ReflTransGen ReorderFilters filters filters' →
            (checkZonemap runtime columns filters').1 = true := by
          intro filters' steps
          rw [checkZonemap_keep_iff]
          refine ⟨fun entry' member excluded => ?_,
            betweenSkip_of_reorder typed notSelectable steps⟩
          obtain ⟨entry, hentry, hcolumn, hsteps⟩ := ReorderFilters.exists_before steps member
          exact someFalse
            ⟨entry, hentry, (ScanFilter.check_reorder hcolumn hsteps).trans excluded⟩
        refine ⟨fun filters' steps => (kept filters' steps).trans (kept filters .refl).symm, ?_⟩
        intro skipped
        rw [kept filters .refl] at skipped
        cases skipped
    · exact skip_of_not_open closed typed

/-- A filter list whose comparison the clusters of a column without NULLs rule out. -/
theorem checkZonemap_order_iff_excluded :
    let columns : Fin 1 → ColumnStatistics := fun _ =>
      ⟨.builtOver .identityHash .integer [some (.integer 1), some (.integer 9)] .minMax, none⟩
    let filters : List (ScanFilter 1) :=
      [⟨0, .conjunctionAnd [.constantComparison .compareLessThan ⟨.integer, .integer 50⟩,
        .constantComparison .compareGreaterThan ⟨.integer, .integer 20⟩], false⟩]
    OrderIndependent .identityHash columns filters ∧ MonotoneSkip .identityHash columns filters := by
  intro columns filters
  have typed : ∀ entry ∈ filters, entry.WellTyped columns := by
    intro entry member
    rw [List.mem_singleton.mp member]
    unfold ScanFilter.WellTyped
    decide
  exact (checkZonemap_order_iff typed).mpr (Or.inl ⟨_, List.mem_singleton_self _, by decide⟩)

/-- A range that is not excluded, listed last or added, puts the row group back into the scan. -/
theorem checkZonemap_order_overwritten :
    let columns : Fin 2 → ColumnStatistics := fun column =>
      if column = 0 then
        ⟨.builtOver .identityHash .integer [some (.integer 1), some (.integer 9)] .clusterSmall, none⟩
      else
        ⟨.builtOver .identityHash .integer [some (.integer 4), some (.integer 5)] .minMax, none⟩
    let range (column : Fin 2) (lower upper : Int) : ScanFilter 2 :=
      ⟨column, .conjunctionAnd
        [.constantComparison .compareGreaterThanOrEqualTo ⟨.integer, .integer lower⟩,
          .constantComparison .compareLessThanOrEqualTo ⟨.integer, .integer upper⟩], false⟩
    ¬ OrderIndependent .identityHash columns [range 1 4 5, range 0 2 7] ∧
      ¬ MonotoneSkip .identityHash columns [range 0 2 7] := by
  intro columns range
  have gapLast : (checkZonemap .identityHash columns [range 1 4 5, range 0 2 7]).1 = false := by
    decide
  have gapFirst : (checkZonemap .identityHash columns [range 0 2 7, range 1 4 5]).1 = true := by
    decide
  have gapOnly : (checkZonemap .identityHash columns [range 0 2 7]).1 = false := by
    decide
  constructor
  · intro independent
    have same := independent _ (.single (.perm (List.Perm.swap _ _ [])))
    rw [gapFirst, gapLast] at same
    cases same
  · intro monotone
    have typed : ∀ entry ∈ [range 0 2 7, range 1 4 5], entry.WellTyped columns := by
      intro entry member
      rcases List.mem_cons.mp member with rfl | last
      · unfold ScanFilter.WellTyped
        decide
      · rw [List.mem_singleton.mp last]
        unfold ScanFilter.WellTyped
        decide
    have kept := monotone gapOnly _ (.single (.addEntry [range 0 2 7] [] (range 1 4 5))) typed
    rw [List.singleton_append, gapFirst] at kept
    cases kept

end FilterLists

end StatsRecommender
