import StatsRecommender.Transaction.UndoState

/-!
# Changes of index lists

Whatever commits, reverts and rollbacks do to the indexes of a table, some are removed by their
names and the others keep some of their entries.  Two such outcomes are compared.
-/

namespace StatsRecommender

namespace TableIndex

variable {Row Key : Type}

/-- Removes the first index of each name. -/
def removeNames (names : List String) (indexes : List (TableIndex Row Key)) :
    List (TableIndex Row Key) :=
  names.foldl (fun left name => left.eraseP fun index => index.name == name) indexes

/-- The indexes without those of some names, with the entries that are kept. -/
def changed (names : List String) (keep : TableIndex Row Key → Key × Nat → Bool)
    (indexes : List (TableIndex Row Key)) : List (TableIndex Row Key) :=
  (removeNames names indexes).map fun index => index.restrict (keep index)

/-- What a deletion of rows keeps. -/
def keepsRows [DecidableEq Key] (rowAt : Nat → Row) (rows : List Nat) (index : TableIndex Row Key)
    (entry : Key × Nat) : Bool :=
  !index.bound || !(rows.map fun row => (index.key (rowAt row), row)).contains entry

variable {names others : List String} {keep keep' : TableIndex Row Key → Key × Nat → Bool}
  {indexes : List (TableIndex Row Key)} {index : TableIndex Row Key}

@[simp]
theorem restrict_true (index : TableIndex Row Key) : (index.restrict fun _ => true) = index := by
  rw [restrict, List.filter_true]

@[simp]
theorem changed_nil : changed [] (fun _ _ => true) indexes = indexes :=
  (List.map_congr_left fun index _ => restrict_true index).trans (List.map_id _)

theorem restrict_restrict (first second : Key × Nat → Bool) :
    (index.restrict first).restrict second =
      index.restrict fun entry => first entry && second entry := by
  change TableIndex.mk _ _ _ _ = TableIndex.mk _ _ _ _
  congr 1
  change (index.entries.filter first).filter second = _
  rw [List.filter_filter]
  refine List.filter_congr fun entry _ => ?_
  exact Bool.and_comm _ _

theorem restrict_congr {first second : Key × Nat → Bool} :
    index.restrict first = index.restrict second ↔
      ∀ entry ∈ index.entries, first entry = second entry := by
  constructor
  · intro same entry member
    have entries : index.entries.filter first = index.entries.filter second :=
      congrArg TableIndex.entries same
    have kept := List.mem_filter.symm.trans
      ((iff_of_eq (congrArg (entry ∈ ·) entries)).trans List.mem_filter)
    rw [and_iff_right member, and_iff_right member] at kept
    exact Bool.eq_iff_iff.mpr kept
  · intro same
    rw [restrict, restrict, List.filter_congr same]

theorem commitDrop_eq (index : TableIndex Row Key) :
    index.commitDrop = index.restrict fun _ => false := by
  rw [commitDrop, restrict, List.filter_false]

theorem delete_eq [DecidableEq Key] (rowAt : Nat → Row) (rows : List Nat) :
    index.delete rowAt rows = index.restrict (keepsRows rowAt rows index) := by
  rw [delete]
  cases hbound : index.bound with
  | true =>
      refine restrict_congr.mpr fun entry _ => ?_
      rw [keepsRows, hbound]
      rfl
  | false =>
      refine (restrict_true index).symm.trans (restrict_congr.mpr fun entry _ => ?_)
      rw [keepsRows, hbound]
      rfl

/-- Two changes of the kept entries after each other. -/
theorem map_changed (next : TableIndex Row Key → Key × Nat → Bool)
    (static : ∀ index keep, next (restrict index keep) = next index) :
    (changed names keep indexes).map (fun index => index.restrict (next index)) =
      changed names (fun index entry => keep index entry && next index entry) indexes := by
  rw [changed, List.map_map]
  refine List.map_congr_left fun index _ => ?_
  change (index.restrict (keep index)).restrict (next (index.restrict (keep index))) = _
  rw [static, restrict_restrict]

/-- The removal of one more index. -/
theorem eraseP_changed (name : String) :
    (changed names keep indexes).eraseP (fun index => index.name == name) =
      changed (names ++ [name]) keep indexes := by
  rw [changed, List.eraseP_map, changed, removeNames, removeNames, List.foldl_append]
  rfl

/-- The removal of more indexes. -/
theorem removeNames_changed :
    removeNames others (changed names keep indexes) = changed (names ++ others) keep indexes := by
  induction others generalizing names with
  | nil => rw [List.append_nil, removeNames, List.foldl_nil]
  | cons name rest ih =>
      rw [removeNames, List.foldl_cons, eraseP_changed]
      refine Eq.trans ih ?_
      rw [List.append_assoc, List.singleton_append]

/-- Two changes after each other. -/
theorem changed_changed
    (static : ∀ index keep, keep' (restrict index keep) = keep' index) :
    changed others keep' (changed names keep indexes) =
      changed (names ++ others) (fun index entry => keep index entry && keep' index entry)
        indexes := by
  rw [← map_changed keep' static, ← removeNames_changed, changed]

theorem eraseP_eq (name : String) :
    (indexes.eraseP fun index => index.name == name) =
      changed [name] (fun _ _ => true) indexes := by
  have erased : (changed [] (fun _ _ => true) indexes).eraseP (fun index => index.name == name) =
      changed [name] (fun _ _ => true) indexes := eraseP_changed name
  rw [changed_nil] at erased
  exact erased

theorem changed_congr
    (same : ∀ index ∈ removeNames names indexes, ∀ entry ∈ index.entries,
      keep index entry = keep' index entry) :
    changed names keep indexes = changed names keep' indexes :=
  List.map_congr_left fun index member => restrict_congr.mpr (same index member)

/-- An index that is cleared before it is removed is removed. -/
theorem eraseP_modify (name : String) {position : Nat}
    (found : (indexes.findIdx? fun index => index.name == name) = some position) :
    (indexes.modify position commitDrop).eraseP (fun index => index.name == name) =
      indexes.eraseP fun index => index.name == name := by
  induction indexes generalizing position with
  | nil => cases found
  | cons index rest ih =>
      rw [List.findIdx?_cons] at found
      cases named : index.name == name with
      | true =>
          rw [named, if_pos rfl] at found
          cases found
          rw [List.modify_zero_cons, List.eraseP_cons_of_pos, List.eraseP_cons_of_pos]
          · exact named
          · exact named
      | false =>
          rw [named, if_neg Bool.false_ne_true] at found
          obtain ⟨later, hlater, rfl⟩ := Option.map_eq_some_iff.mp found
          rw [List.modify_succ_cons, List.eraseP_cons_of_neg, List.eraseP_cons_of_neg, ih hlater]
          · exact Bool.eq_false_iff.mp named
          · exact Bool.eq_false_iff.mp named

/-! ## Names that are removed -/

/-- Names that no index has remove nothing. -/
theorem removeNames_of_absent (absent : ∀ index ∈ indexes, index.name ∉ names) :
    removeNames names indexes = indexes := by
  induction names with
  | nil => rfl
  | cons name rest ih =>
      change removeNames rest (indexes.eraseP fun index => index.name == name) = indexes
      rw [List.eraseP_of_forall_not]
      · exact ih fun index member named => absent index member (List.mem_cons_of_mem _ named)
      · intro index member named
        exact absent index member (List.mem_cons.mpr (.inl (beq_iff_eq.mp named)))

/-- Names that some index has leave fewer indexes. -/
theorem length_removeNames_lt (member : index ∈ indexes) (named : index.name ∈ names) :
    (removeNames names indexes).length < indexes.length := by
  have shorter : ∀ (names : List String) (indexes : List (TableIndex Row Key)),
      (removeNames names indexes).length ≤ indexes.length := by
    intro names
    induction names with
    | nil => exact fun indexes => Nat.le_refl _
    | cons name rest ih => exact fun indexes => (ih _).trans (List.length_eraseP_le)
  induction names generalizing indexes with
  | nil => exact absurd named List.not_mem_nil
  | cons name rest ih =>
      change (removeNames rest (indexes.eraseP fun index => index.name == name)).length < _
      by_cases here : index.name = name
      · have fewer := List.length_eraseP_of_mem (p := fun index => index.name == name) member
          (beq_iff_eq.mpr here)
        have positive := List.length_pos_of_mem member
        have bound := shorter rest (indexes.eraseP fun index => index.name == name)
        omega
      · have stays : index ∈ indexes.eraseP fun index => index.name == name := by
          refine (List.mem_eraseP_of_neg fun other => here ?_).mpr member
          exact beq_iff_eq.mp other
        have less := ih stays ((List.mem_cons.mp named).resolve_left here)
        have bound := List.length_eraseP_le (p := fun index => index.name == name) (l := indexes)
        omega

theorem eraseP_name_comm (first second : String) (indexes : List (TableIndex Row Key)) :
    (indexes.eraseP fun index => index.name == first).eraseP (fun index => index.name == second) =
      (indexes.eraseP fun index => index.name == second).eraseP
        fun index => index.name == first := by
  by_cases same : first = second
  · rw [same]
  · refine List.eraseP_comm fun index _ => ?_
    by_cases named : index.name = first
    · refine .inr fun other => same ?_
      exact named.symm.trans (beq_iff_eq.mp other)
    · exact .inl fun other => named (beq_iff_eq.mp other)

/-- The order of the names does not matter. -/
theorem removeNames_append_comm (names others : List String)
    (indexes : List (TableIndex Row Key)) :
    removeNames (names ++ others) indexes = removeNames names (removeNames others indexes) := by
  have swapped : removeNames (names ++ others) indexes = removeNames (others ++ names) indexes :=
    List.Perm.foldl_eq' List.perm_append_comm
      (fun first _ second _ left => eraseP_name_comm first second left) indexes
  rw [swapped, removeNames, List.foldl_append]
  rfl

/--
Two outcomes compared: indexes that were removed in addition must be gone anyway, and what is
left must keep the same entries.
-/
theorem changed_append_eq_iff :
    changed (names ++ others) keep indexes = changed others keep' indexes ↔
      ∀ index ∈ removeNames others indexes, index.name ∉ names ∧
        ∀ entry ∈ index.entries, keep index entry = keep' index entry := by
  rw [changed, changed, removeNames_append_comm]
  constructor
  · intro equal
    have absent : ∀ index ∈ removeNames others indexes, index.name ∉ names := by
      intro index member named
      have less := length_removeNames_lt member named
      have lengths := congrArg List.length equal
      rw [List.length_map, List.length_map] at lengths
      omega
    rw [removeNames_of_absent absent, List.map_inj_left] at equal
    exact fun index member => ⟨absent index member, restrict_congr.mp (equal index member)⟩
  · intro holds
    rw [removeNames_of_absent fun index member => (holds index member).1, List.map_inj_left]
    exact fun index member => restrict_congr.mpr (holds index member).2

end TableIndex

end StatsRecommender
