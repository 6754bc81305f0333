import StatsRecommender.Planner.TableFilter
import StatsRecommender.Statistics.QueryCongruence

/-!
# Equality of table filters

`TableFilter::Equals` and `TableFilter::Copy`, as the virtual methods of the kinds of filters:
a kind without an `Equals` of its own is compared by its tag only.
-/

namespace StatsRecommender

variable {filter filter' : TableFilter}

/-- `TableFilterType`. -/
inductive TableFilterType where
  | constantComparison
  | isNull
  | isNotNull
  | conjunctionOr
  | conjunctionAnd
  | structExtract
  | optionalFilter
  | inFilter
  | dynamicFilter
  | expressionFilter
  deriving DecidableEq, Repr

/-- What filters use of expressions and of values of different types. -/
structure Expressions (Expr : Type) where
  /-- The value of an expression for a value of the column. -/
  eval : Expr → Option Payload → Option Bool
  /-- `Expression::Equals`. -/
  equals : Expr → Expr → Bool
  /-- `Expression::Copy`. -/
  copy : Expr → Expr
  equals_comm : ∀ left right, equals left right = equals right left
  equals_copy : ∀ expr, equals (copy expr) expr = true
  /-- `ValueOperations::Equals` of values that are cast to a common type first. -/
  castEquals : Constant → Constant → Bool
  castEquals_comm : ∀ left right, castEquals left right = castEquals right left

/-- A `TableFilter` as an object: expressions have an identity, dynamic filters share their data. -/
inductive FilterObject (Expr : Type) where
  | constantComparison (comparisonType : ComparisonType) (constant : Constant)
  | isNull
  | isNotNull
  | conjunctionOr (childFilters : List (FilterObject Expr))
  | conjunctionAnd (childFilters : List (FilterObject Expr))
  | structExtract (childIdx : Nat) (childName : String) (childFilter : FilterObject Expr)
  | optionalFilter (childFilter : FilterObject Expr)
  | inFilter (first : Constant) (rest : List Constant)
  | dynamicFilter (filterData : Option Nat)
  | expressionFilter (expr : Expr)

/-- `Value::operator==`. -/
def Expressions.valueEquals {Expr : Type} (expressions : Expressions Expr)
    (left right : Constant) : Bool :=
  if left.type = right.type then StatsRecommender.equals left.payload right.payload
  else expressions.castEquals left right

/-- `operator==` of two vectors of values. -/
def Expressions.valuesEqual {Expr : Type} (expressions : Expressions Expr) :
    List Constant → List Constant → Bool
  | [], [] => true
  | left :: lefts, right :: rights =>
      expressions.valueEquals left right && valuesEqual expressions lefts rights
  | _, _ => false

namespace FilterObject

variable {Expr : Type}

def filterType : FilterObject Expr → TableFilterType
  | .constantComparison _ _ => .constantComparison
  | .isNull => .isNull
  | .isNotNull => .isNotNull
  | .conjunctionOr _ => .conjunctionOr
  | .conjunctionAnd _ => .conjunctionAnd
  | .structExtract _ _ _ => .structExtract
  | .optionalFilter _ => .optionalFilter
  | .inFilter _ _ => .inFilter
  | .dynamicFilter _ => .dynamicFilter
  | .expressionFilter _ => .expressionFilter

mutual

/--
`this.Equals(other)`: the tags are compared by `TableFilter::Equals`, and the rest by the kinds
that override it; NULL tests and optional filters do not.
-/
def equals (expressions : Expressions Expr) (this other : FilterObject Expr) : Bool :=
  this.filterType == other.filterType &&
    match this, other with
    | .constantComparison comparison constant, .constantComparison comparison' constant' =>
        comparison' == comparison && expressions.valueEquals constant' constant
    | .conjunctionOr children, .conjunctionOr children' =>
        children'.length == children.length && equalsAll expressions children children'
    | .conjunctionAnd children, .conjunctionAnd children' =>
        children'.length == children.length && equalsAll expressions children children'
    | .structExtract index _ child, .structExtract index' _ child' =>
        index' == index && equals expressions child' child
    | .inFilter first rest, .inFilter first' rest' =>
        expressions.valuesEqual (first' :: rest') (first :: rest)
    | .dynamicFilter data, .dynamicFilter data' => data' == data
    | .expressionFilter expr, .expressionFilter expr' => expressions.equals expr' expr
    | _, _ => true
termination_by sizeOf this + sizeOf other

/-- The loop over the children of a conjunction. -/
def equalsAll (expressions : Expressions Expr) (these others : List (FilterObject Expr)) : Bool :=
  match these, others with
  | this :: these, other :: others =>
      equals expressions this other && equalsAll expressions these others
  | _, _ => true
termination_by sizeOf these + sizeOf others

end

mutual

/-- `Copy`. -/
def copy (expressions : Expressions Expr) : FilterObject Expr → FilterObject Expr
  | .constantComparison comparison constant => .constantComparison comparison constant
  | .isNull => .isNull
  | .isNotNull => .isNotNull
  | .conjunctionOr children => .conjunctionOr (copyAll expressions children)
  | .conjunctionAnd children => .conjunctionAnd (copyAll expressions children)
  | .structExtract index name child => .structExtract index name (copy expressions child)
  | .optionalFilter child => .optionalFilter (copy expressions child)
  | .inFilter first rest => .inFilter first rest
  | .dynamicFilter data => .dynamicFilter data
  | .expressionFilter expr => .expressionFilter (expressions.copy expr)

def copyAll (expressions : Expressions Expr) : List (FilterObject Expr) → List (FilterObject Expr)
  | [] => []
  | filter :: rest => copy expressions filter :: copyAll expressions rest

end

mutual

/-- What an object means, with the data of dynamic filters at their addresses. -/
def meaning (expressions : Expressions Expr) (heap : Nat → DynamicFilterData) :
    FilterObject Expr → TableFilter
  | .constantComparison comparison constant => .constantComparison comparison constant
  | .isNull => .isNull
  | .isNotNull => .isNotNull
  | .conjunctionOr children => .conjunctionOr (meaningAll expressions heap children)
  | .conjunctionAnd children => .conjunctionAnd (meaningAll expressions heap children)
  | .structExtract index name child => .structExtract index name (meaning expressions heap child)
  | .optionalFilter child => .optionalFilter (meaning expressions heap child)
  | .inFilter first rest => .inFilter first rest
  | .dynamicFilter data => .dynamicFilter (data.map heap)
  | .expressionFilter expr => .expressionFilter (expressions.eval expr)

def meaningAll (expressions : Expressions Expr) (heap : Nat → DynamicFilterData) :
    List (FilterObject Expr) → List TableFilter
  | [] => []
  | filter :: rest => meaning expressions heap filter :: meaningAll expressions heap rest

end

/-- Induction over a filter object, with the hypothesis for every child of a conjunction. -/
@[elab_as_elim]
theorem inductionOn {motive : FilterObject Expr → Prop} (filter : FilterObject Expr)
    (constantComparison : ∀ comparison constant, motive (.constantComparison comparison constant))
    (isNull : motive .isNull)
    (isNotNull : motive .isNotNull)
    (conjunctionOr : ∀ children, (∀ child ∈ children, motive child) →
      motive (.conjunctionOr children))
    (conjunctionAnd : ∀ children, (∀ child ∈ children, motive child) →
      motive (.conjunctionAnd children))
    (structExtract : ∀ index name child, motive child → motive (.structExtract index name child))
    (optionalFilter : ∀ child, motive child → motive (.optionalFilter child))
    (inFilter : ∀ first rest, motive (.inFilter first rest))
    (dynamicFilter : ∀ data, motive (.dynamicFilter data))
    (expressionFilter : ∀ expr, motive (.expressionFilter expr)) : motive filter :=
  @FilterObject.rec Expr motive (fun children => ∀ child ∈ children, motive child)
    constantComparison isNull isNotNull conjunctionOr conjunctionAnd structExtract optionalFilter
    inFilter dynamicFilter expressionFilter
    (fun _ member => absurd member List.not_mem_nil)
    (fun _ _ hhead htail => List.forall_mem_cons.mpr ⟨hhead, htail⟩) filter

variable {expressions : Expressions Expr} {heap : Nat → DynamicFilterData}

theorem copyAll_eq (filters : List (FilterObject Expr)) :
    copyAll expressions filters = filters.map (copy expressions) := by
  induction filters with
  | nil => rfl
  | cons filter rest ih => rw [copyAll, ih, List.map_cons]

/-- Conjunctions are equal where their children are, one by one. -/
theorem equalsAll_iff {these others : List (FilterObject Expr)} :
    (others.length == these.length && equalsAll expressions these others) = true ↔
      List.Forall₂ (fun this other => this.equals expressions other = true) these others := by
  induction these generalizing others with
  | nil =>
      cases others with
      | nil => simp [equalsAll]
      | cons other others => simp
  | cons this these ih =>
      cases others with
      | nil => simp
      | cons other others =>
          rw [List.forall₂_cons, ← ih, equalsAll]
          simp only [List.length_cons, Bool.and_eq_true, beq_iff_eq, Nat.add_right_cancel_iff]
          tauto

/-- What `Equals` compares, kind by kind. -/
def Compared (expressions : Expressions Expr) : FilterObject Expr → FilterObject Expr → Prop
  | .constantComparison comparison constant, other => ∃ constant',
      other = .constantComparison comparison constant' ∧
        expressions.valueEquals constant' constant = true
  | .isNull, other => other = .isNull
  | .isNotNull, other => other = .isNotNull
  | .conjunctionOr children, other => ∃ children', other = .conjunctionOr children' ∧
      List.Forall₂ (fun child child' => child.equals expressions child' = true) children children'
  | .conjunctionAnd children, other => ∃ children', other = .conjunctionAnd children' ∧
      List.Forall₂ (fun child child' => child.equals expressions child' = true) children children'
  | .structExtract index _ child, other => ∃ name' child',
      other = .structExtract index name' child' ∧ child'.equals expressions child = true
  | .optionalFilter _, other => ∃ child', other = .optionalFilter child'
  | .inFilter first rest, other => ∃ first' rest', other = .inFilter first' rest' ∧
      expressions.valuesEqual (first' :: rest') (first :: rest) = true
  | .dynamicFilter data, other => other = .dynamicFilter data
  | .expressionFilter expr, other => ∃ expr', other = .expressionFilter expr' ∧
      expressions.equals expr' expr = true

theorem equals_iff_compared {this other : FilterObject Expr} :
    this.equals expressions other = true ↔ Compared expressions this other := by
  cases this <;> cases other <;>
    simp [equals, filterType, Compared, ← equalsAll_iff]

/-! ## Values -/

theorem payloadEquals_comm (left right : Payload) :
    StatsRecommender.equals left right = StatsRecommender.equals right left := by
  rw [Bool.eq_iff_iff, equals_iff, equals_iff, eq_comm]

theorem valueEquals_comm (left right : Constant) :
    expressions.valueEquals left right = expressions.valueEquals right left := by
  rw [Expressions.valueEquals, Expressions.valueEquals]
  by_cases same : left.type = right.type
  · rw [if_pos same, if_pos same.symm, payloadEquals_comm]
  · rw [if_neg same, if_neg (Ne.symm same), expressions.castEquals_comm]

theorem valueEquals_self (constant : Constant) :
    expressions.valueEquals constant constant = true := by
  rw [Expressions.valueEquals, if_pos rfl, equals_iff]

theorem valuesEqual_iff {lefts rights : List Constant} :
    expressions.valuesEqual lefts rights = true ↔
      List.Forall₂ (fun left right => expressions.valueEquals left right = true) lefts rights := by
  induction lefts generalizing rights with
  | nil => cases rights <;> simp [Expressions.valuesEqual]
  | cons left lefts ih =>
      cases rights with
      | nil => simp [Expressions.valuesEqual]
      | cons right rights =>
          rw [Expressions.valuesEqual, List.forall₂_cons, ← ih, Bool.and_eq_true]

theorem valuesEqual_comm (lefts rights : List Constant) :
    expressions.valuesEqual lefts rights = expressions.valuesEqual rights lefts := by
  induction lefts generalizing rights with
  | nil => cases rights <;> rfl
  | cons left lefts ih =>
      cases rights with
      | nil => rfl
      | cons right rights =>
          rw [Expressions.valuesEqual, Expressions.valuesEqual, valueEquals_comm, ih]

/-- It does not matter which of two filters is asked. -/
theorem equals_comm (this : FilterObject Expr) : ∀ other : FilterObject Expr,
    this.equals expressions other = true ↔ other.equals expressions this = true := by
  have forall₂_comm : ∀ {children : List (FilterObject Expr)},
      (∀ child ∈ children, ∀ other : FilterObject Expr,
        child.equals expressions other = true ↔ other.equals expressions child = true) →
      ∀ {others : List (FilterObject Expr)},
      List.Forall₂ (fun child child' => child.equals expressions child' = true) children others ↔
        List.Forall₂ (fun child child' => child.equals expressions child' = true) others children := by
    intro children
    induction children with
    | nil =>
        intro _ others
        cases others <;> simp
    | cons child rest ih =>
        intro comm others
        cases others with
        | nil => simp
        | cons other others =>
            rw [List.forall₂_cons, List.forall₂_cons, comm child List.mem_cons_self other,
              ih fun child' member => comm child' (List.mem_cons_of_mem _ member)]
  induction this using inductionOn with
  | constantComparison comparison constant =>
      intro other
      rw [equals_iff_compared, equals_iff_compared]
      constructor
      · rintro ⟨constant', rfl, same⟩
        exact ⟨constant, rfl, by rw [valueEquals_comm]; exact same⟩
      · intro same
        cases other <;> simp [Compared] at same
        rename_i constant'
        exact ⟨constant', by rw [same.1], by rw [valueEquals_comm]; exact same.2⟩
  | isNull =>
      intro other
      rw [equals_iff_compared, equals_iff_compared]
      cases other <;> simp [Compared]
  | isNotNull =>
      intro other
      rw [equals_iff_compared, equals_iff_compared]
      cases other <;> simp [Compared]
  | conjunctionOr children ih =>
      intro other
      rw [equals_iff_compared, equals_iff_compared]
      cases other <;> simp [Compared]
      exact forall₂_comm ih
  | conjunctionAnd children ih =>
      intro other
      rw [equals_iff_compared, equals_iff_compared]
      cases other <;> simp [Compared]
      exact forall₂_comm ih
  | structExtract index name child ih =>
      intro other
      rw [equals_iff_compared, equals_iff_compared]
      cases other <;> simp [Compared]
      rw [eq_comm, ih]
  | optionalFilter child =>
      intro other
      rw [equals_iff_compared, equals_iff_compared]
      cases other <;> simp [Compared]
  | inFilter first rest =>
      intro other
      rw [equals_iff_compared, equals_iff_compared]
      cases other <;> simp [Compared]
      rw [valuesEqual_comm]
  | dynamicFilter data =>
      intro other
      rw [equals_iff_compared, equals_iff_compared]
      cases other <;> simp [Compared]
      exact eq_comm
  | expressionFilter expr =>
      intro other
      rw [equals_iff_compared, equals_iff_compared]
      cases other <;> simp [Compared]
      rw [expressions.equals_comm]

/-- A filter is equal to its copy. -/
theorem equals_copy (filter : FilterObject Expr) :
    filter.equals expressions (filter.copy expressions) = true := by
  induction filter using inductionOn with
  | constantComparison comparison constant =>
      exact equals_iff_compared.mpr ⟨constant, rfl, valueEquals_self constant⟩
  | isNull => exact equals_iff_compared.mpr rfl
  | isNotNull => exact equals_iff_compared.mpr rfl
  | conjunctionOr children ih =>
      refine equals_iff_compared.mpr ⟨copyAll expressions children, rfl, ?_⟩
      rw [copyAll_eq, List.forall₂_map_right_iff, List.forall₂_same]
      exact ih
  | conjunctionAnd children ih =>
      refine equals_iff_compared.mpr ⟨copyAll expressions children, rfl, ?_⟩
      rw [copyAll_eq, List.forall₂_map_right_iff, List.forall₂_same]
      exact ih
  | structExtract index name child ih =>
      exact equals_iff_compared.mpr ⟨name, child.copy expressions, rfl, (equals_comm child _).mp ih⟩
  | optionalFilter child => exact equals_iff_compared.mpr ⟨child.copy expressions, rfl⟩
  | inFilter first rest =>
      refine equals_iff_compared.mpr ⟨first, rest, rfl, ?_⟩
      rw [valuesEqual_iff, List.forall₂_same]
      exact fun constant _ => valueEquals_self constant
  | dynamicFilter data => exact equals_iff_compared.mpr rfl
  | expressionFilter expr =>
      exact equals_iff_compared.mpr ⟨expressions.copy expr, rfl, expressions.equals_copy expr⟩

end FilterObject

/-! ## Filters with one meaning -/

/-- Two filters that no statistics and no value tell apart. -/
structure SameFilter (filter filter' : TableFilter) : Prop where
  check : ∀ runtime stats,
    filter.checkStatistics runtime stats = filter'.checkStatistics runtime stats
  accept : ∀ value, filter.eval value = some true ↔ filter'.eval value = some true

namespace SameFilter

theorem refl (filter : TableFilter) : SameFilter filter filter :=
  ⟨fun _ _ => rfl, fun _ => Iff.rfl⟩

theorem structExtract (same : SameFilter filter filter') (index : Nat) (name name' : String) :
    SameFilter (.structExtract index name filter) (.structExtract index name' filter') where
  check runtime stats := by
    rw [TableFilter.checkStatistics, TableFilter.checkStatistics]
    exact same.check runtime _
  accept value := by
    rw [TableFilter.eval, TableFilter.eval]
    exact same.accept _

theorem optionalFilter (same : SameFilter filter filter') :
    SameFilter (.optionalFilter filter) (.optionalFilter filter') where
  check runtime stats := by
    rw [TableFilter.checkStatistics, TableFilter.checkStatistics]
    exact same.check runtime stats
  accept value := by
    rw [TableFilter.eval, TableFilter.eval]
    exact same.accept value

variable {filters filters' : List TableFilter}

theorem conjunctionOr (same : List.Forall₂ SameFilter filters filters') :
    SameFilter (.conjunctionOr filters) (.conjunctionOr filters') where
  check runtime stats := by
    rw [TableFilter.checkStatistics, TableFilter.checkStatistics]
    induction same with
    | nil => rfl
    | cons head _ ih => rw [TableFilter.checkOr, TableFilter.checkOr, head.check, ih]
  accept value := by
    rw [TableFilter.eval, TableFilter.eval, TableFilter.evalAny_eq_true_iff,
      TableFilter.evalAny_eq_true_iff]
    induction same with
    | nil => simp
    | cons head _ ih => rw [List.exists_mem_cons_iff, List.exists_mem_cons_iff, head.accept, ih]

theorem conjunctionAnd (same : List.Forall₂ SameFilter filters filters') :
    SameFilter (.conjunctionAnd filters) (.conjunctionAnd filters') where
  check runtime stats := by
    rw [TableFilter.checkStatistics, TableFilter.checkStatistics]
    generalize FilterPropagateResult.filterAlwaysTrue = result
    induction same generalizing result with
    | nil => rfl
    | cons head _ ih =>
        rw [TableFilter.checkAnd, TableFilter.checkAnd, head.check]
        simp only [ih]
  accept value := by
    rw [TableFilter.eval, TableFilter.eval, TableFilter.evalAll_eq_true_iff,
      TableFilter.evalAll_eq_true_iff]
    induction same with
    | nil => simp
    | cons head _ ih => rw [List.forall_mem_cons, List.forall_mem_cons, head.accept, ih]

/-- Constants in one place of the order make one filter, unless a Bloom filter hashes a NaN. -/
theorem constantComparison {comparison : ComparisonType} {constant constant' : Constant}
    (type : constant.type = constant'.type)
    (same : constant.payload.key = constant'.payload.key)
    (plain : constant.payload.isNaN = false ∨ comparison.isEquality = false) :
    SameFilter (.constantComparison comparison constant)
      (.constantComparison comparison constant') where
  check runtime stats := by
    have query : stats.queryAdditionalStats runtime comparison constant.payload =
        stats.queryAdditionalStats runtime comparison constant'.payload := by
      rw [BaseStatistics.queryAdditionalStats, BaseStatistics.queryAdditionalStats]
      split
      · rfl
      · exact AdditionalStats.query_congr same runtime _ plain
    rw [TableFilter.checkStatistics, TableFilter.checkStatistics, TableFilter.checkConstant,
      TableFilter.checkConstant, query, type]
  accept value := by
    rw [TableFilter.eval, TableFilter.eval]
    cases value with
    | none => exact Iff.rfl
    | some payload =>
        rw [ComparisonType.eval, ComparisonType.eval, comparison.holds_congr same]

theorem inFilter {first first' : Constant} {rest rest' : List Constant}
    (type : first.type = first'.type)
    (same : List.Forall₂ (fun constant constant' : Constant =>
      constant.payload.key = constant'.payload.key) (first :: rest) (first' :: rest')) :
    SameFilter (.inFilter first rest) (.inFilter first' rest') where
  check runtime stats := by
    rw [TableFilter.checkStatistics, TableFilter.checkStatistics, TableFilter.checkIn,
      TableFilter.checkIn, type]
    rfl
  accept value := by
    rw [TableFilter.eval, TableFilter.eval]
    cases value with
    | none => exact Iff.rfl
    | some payload =>
        rw [TableFilter.evalIn, TableFilter.evalIn]
        have any_eq : ∀ {constants constants' : List Constant},
            List.Forall₂ (fun constant constant' : Constant =>
              constant.payload.key = constant'.payload.key) constants constants' →
            (constants.any fun constant => equals payload constant.payload) =
              constants'.any fun constant => equals payload constant.payload := by
          intro constants constants' same
          induction same with
          | nil => rfl
          | cons head _ ih =>
              rw [List.any_cons, List.any_cons, ih, equals_congr_right head]
        rw [any_eq same]

end SameFilter

/-! ## The filters of a column -/

namespace FilterObject

variable {Expr : Type} {expressions : Expressions Expr} {heap : Nat → DynamicFilterData}

/-- A filter over a column of a type: its constants have that type. -/
inductive Over : ColumnType → FilterObject Expr → Prop where
  | constantComparison {column : ColumnType} {comparison : ComparisonType} {constant : Constant}
      (type : constant.type = column.type)
      (typed : constant.payload.hasType column.type.internalType = true) :
      Over column (.constantComparison comparison constant)
  | isNull {column : ColumnType} : Over column .isNull
  | isNotNull {column : ColumnType} : Over column .isNotNull
  | conjunctionOr {column : ColumnType} {children : List (FilterObject Expr)}
      (typed : ∀ child ∈ children, Over column child) : Over column (.conjunctionOr children)
  | conjunctionAnd {column : ColumnType} {children : List (FilterObject Expr)}
      (typed : ∀ child ∈ children, Over column child) : Over column (.conjunctionAnd children)
  | structExtract {column child : ColumnType} {index : Nat} {name : String}
      {filter : FilterObject Expr} (found : column.children[index]? = some child)
      (typed : Over child filter) : Over column (.structExtract index name filter)
  | optionalFilter {column : ColumnType} {child : FilterObject Expr} (typed : Over column child) :
      Over column (.optionalFilter child)
  | inFilter {column : ColumnType} {first : Constant} {rest : List Constant}
      (type : ∀ constant ∈ first :: rest, constant.type = column.type) :
      Over column (.inFilter first rest)
  | dynamicFilter {column : ColumnType} {data : Option Nat} : Over column (.dynamicFilter data)
  | expressionFilter {column : ColumnType} {expr : Expr} : Over column (.expressionFilter expr)

mutual

/--
`Equals` compares all that tells the filters apart: the children of optional filters are equal,
though it passes them by, NaNs that are looked up have the same bits, and expressions that it
identifies accept the same values.
-/
def ComparedInFull (expressions : Expressions Expr) :
    FilterObject Expr → FilterObject Expr → Prop
  | .constantComparison comparison constant, .constantComparison _ constant' =>
      comparison.isEquality = true → constant.payload.isNaN = true →
        constant'.payload = constant.payload
  | .conjunctionOr children, .conjunctionOr children' =>
      AllComparedInFull expressions children children'
  | .conjunctionAnd children, .conjunctionAnd children' =>
      AllComparedInFull expressions children children'
  | .structExtract _ _ child, .structExtract _ _ child' => ComparedInFull expressions child child'
  | .optionalFilter child, .optionalFilter child' =>
      child.equals expressions child' = true ∧ ComparedInFull expressions child child'
  | .expressionFilter expr, .expressionFilter expr' =>
      ∀ value, expressions.eval expr value = some true ↔ expressions.eval expr' value = some true
  | _, _ => True

/-- The children of two conjunctions, one by one. -/
def AllComparedInFull (expressions : Expressions Expr) :
    List (FilterObject Expr) → List (FilterObject Expr) → Prop
  | child :: rest, child' :: rest' =>
      ComparedInFull expressions child child' ∧ AllComparedInFull expressions rest rest'
  | _, _ => True

end

theorem forall₂_imp_of_mem {α β : Type} {first second : α → β → Prop} {left : List α}
    {right : List β} (related : List.Forall₂ first left right)
    (imp : ∀ a b, a ∈ left → b ∈ right → first a b → second a b) :
    List.Forall₂ second left right := by
  induction related with
  | nil => exact .nil
  | cons head tail ih =>
      refine .cons (imp _ _ List.mem_cons_self List.mem_cons_self head) (ih fun a b inside inside' =>
        imp a b (List.mem_cons_of_mem _ inside) (List.mem_cons_of_mem _ inside'))

/-- Children that are equal and compared in full have one meaning if each pair of them has. -/
theorem AllComparedInFull.forall₂ {column : ColumnType} {children children' : List (FilterObject Expr)}
    (each : List.Forall₂ (fun child child' => child.equals expressions child' = true)
      children children')
    (typed : ∀ child ∈ children, child.Over column)
    (typed' : ∀ child ∈ children', child.Over column)
    (inFull : AllComparedInFull expressions children children')
    (same : ∀ child ∈ children, ∀ child', child.Over column → child'.Over column →
      ComparedInFull expressions child child' → child.equals expressions child' = true →
        SameFilter (child.meaning expressions heap) (child'.meaning expressions heap)) :
    List.Forall₂ SameFilter (meaningAll expressions heap children)
      (meaningAll expressions heap children') := by
  induction each with
  | nil => exact .nil
  | @cons child child' rest rest' equal _ ih =>
      obtain ⟨head, tail⟩ := inFull
      refine .cons (same child List.mem_cons_self child' (typed child List.mem_cons_self)
        (typed' child' List.mem_cons_self) head equal) ?_
      exact ih (fun other member => typed other (List.mem_cons_of_mem _ member))
        (fun other member => typed' other (List.mem_cons_of_mem _ member)) tail
        fun other member => same other (List.mem_cons_of_mem _ member)

/-- Equal filters have one meaning where `Equals` compares all that tells them apart. -/
theorem same_of_equals (filter : FilterObject Expr) :
    ∀ {column : ColumnType} {other : FilterObject Expr}, filter.Over column → other.Over column →
      ComparedInFull expressions filter other → filter.equals expressions other = true →
        SameFilter (filter.meaning expressions heap) (other.meaning expressions heap) := by
  induction filter using inductionOn with
  | constantComparison comparison constant =>
      intro column other typed typed' inFull same
      obtain ⟨constant', rfl, equal⟩ := equals_iff_compared.mp same
      cases typed with
      | constantComparison type _ =>
          cases typed' with
          | constantComparison type' _ =>
              by_cases lookup : comparison.isEquality = true ∧ constant.payload.isNaN = true
              · -- one NaN, bit by bit
                have payload := inFull lookup.1 lookup.2
                have one : constant' = constant := by
                  cases constant
                  cases constant'
                  exact congrArg₂ Constant.mk (type'.trans type.symm) payload
                rw [one]
                exact .refl _
              · rw [Expressions.valueEquals, if_pos (type'.trans type.symm), equals_iff] at equal
                refine .constantComparison (type.trans type'.symm) equal.symm ?_
                rw [not_and_or, Bool.not_eq_true, Bool.not_eq_true] at lookup
                exact lookup.symm
  | isNull =>
      intro _ other _ _ _ same
      rw [equals_iff_compared.mp same]
      exact .refl _
  | isNotNull =>
      intro _ other _ _ _ same
      rw [equals_iff_compared.mp same]
      exact .refl _
  | conjunctionOr children ih =>
      intro column other typed typed' inFull same
      obtain ⟨children', rfl, each⟩ := equals_iff_compared.mp same
      cases typed with
      | conjunctionOr typed =>
          cases typed' with
          | conjunctionOr typed' =>
              exact .conjunctionOr (AllComparedInFull.forall₂ each typed typed' inFull
                fun child member _ => ih child member)
  | conjunctionAnd children ih =>
      intro column other typed typed' inFull same
      obtain ⟨children', rfl, each⟩ := equals_iff_compared.mp same
      cases typed with
      | conjunctionAnd typed =>
          cases typed' with
          | conjunctionAnd typed' =>
              exact .conjunctionAnd (AllComparedInFull.forall₂ each typed typed' inFull
                fun child member _ => ih child member)
  | structExtract index name child ih =>
      intro column other typed typed' inFull same
      obtain ⟨name', child', rfl, equal⟩ := equals_iff_compared.mp same
      cases typed with
      | structExtract found typed =>
          cases typed' with
          | structExtract found' typed' =>
              rw [found] at found'
              cases found'
              have inner := ih typed typed' inFull ((equals_comm child' child).mp equal)
              exact inner.structExtract index name name'
  | optionalFilter child ih =>
      intro column other typed typed' inFull same
      obtain ⟨child', rfl⟩ := equals_iff_compared.mp same
      cases typed with
      | optionalFilter typed =>
          cases typed' with
          | optionalFilter typed' => exact (ih typed typed' inFull.2 inFull.1).optionalFilter
  | inFilter first rest =>
      intro column other typed typed' _ same
      obtain ⟨first', rest', rfl, equal⟩ := equals_iff_compared.mp same
      cases typed with
      | inFilter type =>
          cases typed' with
          | inFilter type' =>
              have types : first.type = first'.type :=
                (type first List.mem_cons_self).trans (type' first' List.mem_cons_self).symm
              refine .inFilter types ?_
              rw [valuesEqual_comm, valuesEqual_iff] at equal
              refine forall₂_imp_of_mem equal fun constant constant' member member' equal' => ?_
              rwa [Expressions.valueEquals,
                if_pos ((type constant member).trans (type' constant' member').symm),
                equals_iff] at equal'
  | dynamicFilter data =>
      intro _ other _ _ _ same
      rw [equals_iff_compared.mp same]
      exact .refl _
  | expressionFilter expr =>
      intro column other _ _ inFull same
      obtain ⟨expr', rfl, -⟩ := equals_iff_compared.mp same
      refine ⟨fun runtime stats => rfl, fun value => ?_⟩
      rw [meaning, meaning, TableFilter.eval, TableFilter.eval]
      exact inFull value

/--
A filter is equal to its copy, and another one that it is equal to has the same meaning, where
`Equals` compares all that tells the two apart.
-/
theorem equals_sound {column : ColumnType} {filter other : FilterObject Expr}
    (typed : filter.Over column) (typed' : other.Over column)
    (inFull : ComparedInFull expressions filter other) :
    filter.equals expressions (filter.copy expressions) = true ∧
      (filter.equals expressions other = true →
        SameFilter (filter.meaning expressions heap) (other.meaning expressions heap)) :=
  ⟨equals_copy filter, same_of_equals filter typed typed' inFull⟩

/-- Filters without expressions, over values of one type. -/
def noExpressions : Expressions Empty where
  eval := nofun
  equals := nofun
  copy := nofun
  equals_comm := nofun
  equals_copy := nofun
  castEquals _ _ := false
  castEquals_comm _ _ := rfl

/-- A comparison with an optional one behind it. -/
def optionalRange : FilterObject Empty :=
  .conjunctionAnd
    [.constantComparison .compareGreaterThan ⟨.integer, .integer 1⟩,
      .optionalFilter (.constantComparison .compareEqual ⟨.integer, .integer 5⟩)]

/-- The children of the optional filters are equal, too. -/
theorem equals_sound_copied :
    optionalRange.equals noExpressions (optionalRange.copy noExpressions) = true ∧
      SameFilter (optionalRange.meaning noExpressions
          fun _ => ⟨.compareEqual, ⟨.integer, .integer 0⟩, false⟩)
        ((optionalRange.copy noExpressions).meaning noExpressions
          fun _ => ⟨.compareEqual, ⟨.integer, .integer 0⟩, false⟩) := by
  have typed : optionalRange.Over (.mk .integer []) := by
    refine .conjunctionAnd fun child member => ?_
    rcases List.mem_cons.mp member with rfl | later
    · exact .constantComparison rfl rfl
    · rw [List.mem_singleton.mp later]
      exact .optionalFilter (.constantComparison rfl rfl)
  have children := @equals_copy Empty noExpressions
    (.constantComparison .compareEqual ⟨.integer, .integer 5⟩)
  obtain ⟨copied, same⟩ := @equals_sound Empty noExpressions _ _ optionalRange
    (optionalRange.copy noExpressions) typed typed
    ⟨fun lookup => (by cases lookup), ⟨children, fun _ nan => by cases nan⟩, trivial⟩
  exact ⟨copied, same copied⟩

/-- Two optional comparisons with different constants are equal. -/
theorem equals_optional :
    (FilterObject.optionalFilter
      (.constantComparison .compareEqual ⟨.integer, .integer 1⟩)).equals noExpressions
        (.optionalFilter (.constantComparison .compareEqual ⟨.integer, .integer 2⟩)) = true ∧
    (TableFilter.optionalFilter
      (.constantComparison .compareEqual ⟨.integer, .integer 1⟩)).checkStatistics .identityHash
        (BaseStatistics.builtOver .identityHash .integer [some (.integer 1)] .minMax) ≠
      (TableFilter.optionalFilter
        (.constantComparison .compareEqual ⟨.integer, .integer 2⟩)).checkStatistics .identityHash
          (BaseStatistics.builtOver .identityHash .integer [some (.integer 1)] .minMax) ∧
    (TableFilter.optionalFilter
      (.constantComparison .compareEqual ⟨.integer, .integer 1⟩)).eval (some (.integer 1)) =
        some true ∧
    (TableFilter.optionalFilter
      (.constantComparison .compareEqual ⟨.integer, .integer 2⟩)).eval (some (.integer 1)) ≠
        some true := by
  refine ⟨equals_iff_compared.mpr ⟨_, rfl⟩, ?_, ?_, ?_⟩
  · decide +kernel
  · decide +kernel
  · decide +kernel

end FilterObject

end StatsRecommender
