import StatsRecommender.Statistics.StatisticsSerialization

/-!
# Statistics survive storage

What an object of statistics means is the same after it is written and read back, or copied: a
round trip drops only what its type does not use, and bounds that are not there.
-/

namespace StatsRecommender

variable {type : PhysicalType} {value : Payload} {childStats : List StatisticsObject}

/-- A type with the children that its constructor takes, and children like it. -/
inductive ColumnType.Valid : ColumnType → Prop where
  | mk {type : LogicalType} {children : List ColumnType}
      (oneChild : type.statsType = .list ∨ type.statsType = .array → children.length = 1)
      (valid : ∀ child ∈ (ColumnType.mk type children).childTypes, ColumnType.Valid child) :
      ColumnType.Valid (.mk type children)

/-- The bounds that are there are numbers of the type. -/
structure NumericStatsData.Typed (type : PhysicalType) (data : NumericStatsData) : Prop where
  min : data.hasMin = true → data.min.hasType type = true
  max : data.hasMax = true → data.max.hasType type = true

/-- The same bounds are there, with the same values. -/
structure NumericStatsData.Same (data other : NumericStatsData) : Prop where
  hasMin : other.hasMin = data.hasMin
  hasMax : other.hasMax = data.hasMax
  min : data.hasMin = true → other.min = data.min
  max : data.hasMax = true → other.max = data.max

/-- The same information on strings; the reserved bounds are no information. -/
structure StringStatsData.Same (data other : StringStatsData) : Prop where
  hasUnicode : other.hasUnicode = data.hasUnicode
  hasMaxStringLength : other.hasMaxStringLength = data.hasMaxStringLength
  maxStringLength : other.maxStringLength = data.maxStringLength

/-! ### What the readers take -/

open Reader (Reads)

theorem StatisticsReader.reads_bool (value : Bool) :
    Reads StatisticsReader.bool [.value (.bool value)] (· = value) :=
  fun state _ => ⟨value, state, rfl, rfl⟩

theorem StatisticsReader.reads_unsigned (value : Nat) :
    Reads StatisticsReader.unsigned [.value (.unsigned value)] (· = value) :=
  fun state _ => ⟨value, state, rfl, rfl⟩

theorem StatisticsReader.reads_number (typed : value.hasType type = true) :
    Reads (StatisticsReader.number type) [.value (.number value)] (· = value) := by
  intro state rest
  refine ⟨value, state, ?_, rfl⟩
  change (if value.hasType type = true then pure value else _ : StatisticsReader Payload)
    (state, rest) = _
  rw [if_pos typed]
  rfl

theorem StatisticsReader.reads_data (size : Nat) :
    Reads (StatisticsReader.data size) [.value (.data (List.replicate size 0))]
      fun _ => True := by
  intro state rest
  refine ⟨List.replicate size 0, state, ?_, trivial⟩
  change (if (List.replicate size (0 : UInt8)).length = size then pure (List.replicate size 0)
    else _ : StatisticsReader (List UInt8)) (state, rest) = _
  rw [if_pos List.length_replicate]
  rfl

/-- A bound that is there is read back; one that is not, is not. -/
theorem NumericStats.reads_value {hasValue : Bool}
    (typed : hasValue = true → value.hasType type = true) :
    Reads (deserializeNumericStatsValue type) (serializeNumericStatsValue value hasValue)
      fun result => result.1 = hasValue ∧ (hasValue = true → result.2 = value) := by
  refine ((StatisticsReader.reads_bool hasValue).property 100).bind ?_
  rintro has rfl
  cases has with
  | false => exact Reads.pure ⟨rfl, nofun⟩
  | true =>
      refine ((StatisticsReader.reads_number (typed rfl)).property 101).bind_pure ?_
      rintro _ rfl
      exact ⟨rfl, fun _ => rfl⟩

theorem NumericStats.reads {data : NumericStatsData} (typed : data.Typed type) :
    Reads (deserialize type) (serialize data) data.Same := by
  refine ((reads_value typed.max).object.property 200).bind ?_
  rintro ⟨hasMax, max⟩ ⟨rfl, sameMax⟩
  refine ((reads_value typed.min).object.property 201).bind_pure ?_
  rintro ⟨hasMin, min⟩ ⟨rfl, sameMin⟩
  exact ⟨rfl, rfl, sameMin, sameMax⟩

theorem StringStats.reads (data into : StringStatsData) :
    Reads (deserialize into) (serialize data) data.Same := by
  refine ((StatisticsReader.reads_data maxStringMinmaxSize).property 200).bind fun _ _ => ?_
  refine ((StatisticsReader.reads_data maxStringMinmaxSize).property 201).bind fun _ _ => ?_
  refine ((StatisticsReader.reads_bool data.hasUnicode).property 202).bind ?_
  rintro hasUnicode rfl
  refine ((StatisticsReader.reads_bool data.hasMaxStringLength).property 203).bind ?_
  rintro hasMaxStringLength rfl
  refine ((StatisticsReader.reads_unsigned data.maxStringLength).property 204).bind_pure ?_
  rintro maxStringLength rfl
  exact ⟨rfl, rfl, rfl⟩

namespace StatisticsObject

mutual

/-- An object as its constructor builds it: one child object for each child type. -/
def WellFormed : StatisticsObject → Prop
  | ⟨type, _, _, _, numeric, _, childStats, _, _⟩ =>
      (type.type.statsType = .list ∨ type.type.statsType = .array → type.children.length = 1) ∧
        (type.type.statsType = .numeric → numeric.Typed type.type.internalType) ∧
        WellFormedAll type.childTypes childStats

def WellFormedAll : List ColumnType → List StatisticsObject → Prop
  | [], [] => True
  | type :: types, child :: rest => child.type = type ∧ child.WellFormed ∧ WellFormedAll types rest
  | _, _ => False

end

/-- The same members, but for the children. -/
structure SameMembers (stats other : StatisticsObject) : Prop where
  type : other.type = stats.type
  hasNull : other.hasNull = stats.hasNull
  hasNoNull : other.hasNoNull = stats.hasNoNull
  distinctCount : other.distinctCount = stats.distinctCount
  id : other.id = stats.id
  additionalStats : other.additionalStats = stats.additionalStats
  numeric : stats.statsType = .numeric → stats.numericData.Same other.numericData
  string : stats.statsType = .string → stats.stringData.Same other.stringData

mutual

/-- The same statistics, down to the children of children. -/
def Same : StatisticsObject → StatisticsObject → Prop
  | ⟨type, hasNull, hasNoNull, distinctCount, numeric, string, childStats, id, additional⟩, other =>
      SameMembers ⟨type, hasNull, hasNoNull, distinctCount, numeric, string, [], id, additional⟩
        other ∧ SameAll childStats other.childStats

def SameAll : List StatisticsObject → List StatisticsObject → Prop
  | [], [] => True
  | child :: rest, other :: others => child.Same other ∧ SameAll rest others
  | _, _ => False

end

variable {stats other : StatisticsObject}

theorem same_iff : stats.Same other ↔
    stats.SameMembers other ∧ SameAll stats.childStats other.childStats := by
  obtain ⟨_, _, _, _, _, _, _, _, _⟩ := stats
  rw [Same]
  refine and_congr_left fun _ => ⟨fun same => ?_, fun same => ?_⟩ <;>
    exact ⟨same.type, same.hasNull, same.hasNoNull, same.distinctCount, same.id,
      same.additionalStats, same.numeric, same.string⟩

theorem wellFormed_iff : stats.WellFormed ↔
    (stats.statsType = .list ∨ stats.statsType = .array → stats.type.children.length = 1) ∧
      (stats.statsType = .numeric → stats.numericData.Typed stats.type.type.internalType) ∧
      WellFormedAll stats.type.childTypes stats.childStats := by
  obtain ⟨_, _, _, _, _, _, _, _, _⟩ := stats
  rw [WellFormed]
  exact Iff.rfl

theorem WellFormedAll.length_eq {types : List ColumnType}
    (wellFormed : WellFormedAll types childStats) : childStats.length = types.length := by
  induction types generalizing childStats with
  | nil =>
      cases childStats with
      | nil => rfl
      | cons child rest => simp [WellFormedAll] at wellFormed
  | cons type types ih =>
      cases childStats with
      | nil => simp [WellFormedAll] at wellFormed
      | cons child rest =>
          rw [WellFormedAll] at wellFormed
          simpa using ih wellFormed.2.2

theorem WellFormedAll.sameAll_nil {others : List StatisticsObject}
    (wellFormed : WellFormedAll [] childStats) (wellFormed' : WellFormedAll [] others) :
    SameAll childStats others := by
  rw [List.length_eq_zero_iff.mp wellFormed.length_eq,
    List.length_eq_zero_iff.mp wellFormed'.length_eq]
  trivial

/-! ### Constructed objects -/

theorem construct_type (type : ColumnType) (counter : Nat) :
    (construct type counter).1.type = type := by
  obtain ⟨type, children⟩ := type
  rw [construct]
  cases type.statsType <;> rfl

mutual

/-- A new object has the children that its type asks for. -/
theorem construct_wellFormed (type : ColumnType) (valid : type.Valid) (counter : Nat) :
    (construct type counter).1.WellFormed := by
  match type, valid with
  | .mk type children, .mk oneChild valid =>
      have absent : NumericStatsData.Typed type.internalType
          ⟨false, false, type.internalType.zero, type.internalType.zero⟩ := ⟨nofun, nofun⟩
      rw [construct, wellFormed_iff]
      cases kind : type.statsType with
      | numeric | string | base =>
          refine ⟨?_, fun _ => absent, ?_⟩
          · simp [statsType, blank, ColumnType.type, kind]
          · simp [blank, ColumnType.childTypes, ColumnType.type, kind, WellFormedAll]
      | list | struct | array =>
          have types : (ColumnType.mk type children).childTypes = children := by
            simp [ColumnType.childTypes, ColumnType.type, kind, ColumnType.children]
          rw [types] at valid
          refine ⟨fun one => oneChild one, fun _ => absent, ?_⟩
          simpa [blank, types] using constructChildren_wellFormed children valid (counter + 1)

theorem constructChildren_wellFormed (types : List ColumnType) (valid : ∀ type ∈ types, type.Valid)
    (counter : Nat) : WellFormedAll types (constructChildren types counter).1 := by
  match types with
  | [] => simp [constructChildren, WellFormedAll]
  | type :: types =>
      rw [constructChildren, WellFormedAll]
      exact ⟨construct_type type counter,
        construct_wellFormed type (valid type List.mem_cons_self) counter,
        constructChildren_wellFormed types
          (fun type member => valid type (List.mem_cons_of_mem _ member)) _⟩

end

/-! ### Copies -/

theorem copyFrom_members (stats other : StatisticsObject) (type : stats.type = other.type) :
    SameMembers other (stats.copyFrom other) := by
  obtain ⟨_, _, _, _, _, _, _, _, _⟩ := stats
  rw [copyFrom]
  exact ⟨type, rfl, rfl, rfl, rfl, rfl, fun _ => ⟨rfl, rfl, fun _ => rfl, fun _ => rfl⟩,
    fun _ => ⟨rfl, rfl, rfl⟩⟩

mutual

/-- A copy over an object of the type is the same statistics, children included. -/
theorem copyFrom_same (stats other : StatisticsObject) (type : stats.type = other.type)
    (wellFormed : stats.WellFormed) (wellFormed' : other.WellFormed) :
    other.Same (stats.copyFrom other) := by
  rw [same_iff]
  refine ⟨copyFrom_members stats other type, ?_⟩
  match stats with
  | ⟨statsType, _, _, _, _, _, childStats, _, _⟩ =>
      have children : WellFormedAll statsType.childTypes childStats := wellFormed.2.2
      have children' := (wellFormed_iff.mp wellFormed').2.2
      rw [← type] at children'
      have copied := copyChildren_same childStats other.childStats children children'
      rw [copyFrom]
      unfold ColumnType.childTypes at children children'
      cases kind : statsType.type.statsType with
      | list | struct | array => exact copied
      | numeric | string | base =>
          rw [kind] at children children'
          exact children'.sameAll_nil children

theorem copyChildren_same (childStats others : List StatisticsObject) {types : List ColumnType}
    (wellFormed : WellFormedAll types childStats) (wellFormed' : WellFormedAll types others) :
    SameAll others (copyChildren childStats others) := by
  match types, childStats, others with
  | [], [], [] => trivial
  | type :: types, child :: rest, other :: others =>
      rw [WellFormedAll] at wellFormed wellFormed'
      rw [copyChildren, SameAll]
      exact ⟨copyFrom_same child other (wellFormed.1.trans wellFormed'.1.symm) wellFormed.2.1
        wellFormed'.2.1, copyChildren_same rest others wellFormed.2.2 wellFormed'.2.2⟩

end

theorem SameMembers.trans {third : StatisticsObject} (first : stats.SameMembers other)
    (second : other.SameMembers third) : stats.SameMembers third := by
  have kind : other.statsType = stats.statsType := by rw [statsType, statsType, first.type]
  refine ⟨second.type.trans first.type, second.hasNull.trans first.hasNull,
    second.hasNoNull.trans first.hasNoNull, second.distinctCount.trans first.distinctCount,
    second.id.trans first.id, second.additionalStats.trans first.additionalStats, ?_, ?_⟩
  · intro numeric
    have left := first.numeric numeric
    have right := second.numeric (kind.trans numeric)
    exact ⟨right.hasMin.trans left.hasMin, right.hasMax.trans left.hasMax,
      fun bound => (right.min (left.hasMin.trans bound)).trans (left.min bound),
      fun bound => (right.max (left.hasMax.trans bound)).trans (left.max bound)⟩
  · intro string
    have left := first.string string
    have right := second.string (kind.trans string)
    exact ⟨right.hasUnicode.trans left.hasUnicode,
      right.hasMaxStringLength.trans left.hasMaxStringLength,
      right.maxStringLength.trans left.maxStringLength⟩

mutual

theorem Same.trans (stats : StatisticsObject) {other third : StatisticsObject}
    (first : stats.Same other) (second : other.Same third) : stats.Same third := by
  rw [same_iff] at first second ⊢
  match stats with
  | ⟨_, _, _, _, _, _, childStats, _, _⟩ =>
      exact ⟨first.1.trans second.1, SameAll.trans childStats first.2 second.2⟩

theorem SameAll.trans (childStats : List StatisticsObject) {others thirds : List StatisticsObject}
    (first : SameAll childStats others) (second : SameAll others thirds) :
    SameAll childStats thirds := by
  match childStats, others, thirds with
  | [], [], [] => trivial
  | child :: rest, other :: others, third :: thirds =>
      rw [SameAll] at first second ⊢
      exact ⟨Same.trans child first.1 second.1, SameAll.trans rest first.2 second.2⟩

end

mutual

theorem Same.refl (stats : StatisticsObject) : stats.Same stats := by
  rw [same_iff]
  refine ⟨⟨rfl, rfl, rfl, rfl, rfl, rfl, fun _ => ⟨rfl, rfl, fun _ => rfl, fun _ => rfl⟩,
    fun _ => ⟨rfl, rfl, rfl⟩⟩, ?_⟩
  match stats with
  | ⟨_, _, _, _, _, _, childStats, _, _⟩ => exact SameAll.refl childStats

theorem SameAll.refl (childStats : List StatisticsObject) : SameAll childStats childStats := by
  match childStats with
  | [] => trivial
  | child :: rest =>
      rw [SameAll]
      exact ⟨Same.refl child, SameAll.refl rest⟩

end

mutual

theorem Same.wellFormed (stats : StatisticsObject) {other : StatisticsObject}
    (same : stats.Same other) (wellFormed : stats.WellFormed) : other.WellFormed := by
  rw [same_iff] at same
  rw [wellFormed_iff] at wellFormed ⊢
  obtain ⟨members, children⟩ := same
  have kind : other.statsType = stats.statsType := by rw [statsType, statsType, members.type]
  rw [kind, members.type]
  refine ⟨wellFormed.1, ?_, ?_⟩
  · intro numeric
    have typed := wellFormed.2.1 numeric
    have bounds := members.numeric numeric
    constructor
    · intro bound
      rw [bounds.hasMin] at bound
      rw [bounds.min bound]
      exact typed.min bound
    · intro bound
      rw [bounds.hasMax] at bound
      rw [bounds.max bound]
      exact typed.max bound
  · match stats with
    | ⟨_, _, _, _, _, _, childStats, _, _⟩ =>
        exact SameAll.wellFormed childStats children wellFormed.2.2

theorem SameAll.wellFormed (childStats : List StatisticsObject) {others : List StatisticsObject}
    {types : List ColumnType} (same : SameAll childStats others)
    (wellFormed : WellFormedAll types childStats) : WellFormedAll types others := by
  match types, childStats, others with
  | [], [], [] => trivial
  | type :: types, child :: rest, other :: others =>
      rw [SameAll] at same
      rw [WellFormedAll] at wellFormed ⊢
      exact ⟨(same_iff.mp same.1).1.type.trans wellFormed.1, Same.wellFormed child same.1
        wellFormed.2.1, SameAll.wellFormed rest same.2 wellFormed.2.2⟩

end

mutual

/-- An object of the type can be constructed anew. -/
theorem WellFormed.valid (stats : StatisticsObject) (wellFormed : stats.WellFormed) :
    stats.type.Valid := by
  match stats with
  | ⟨.mk type children, _, _, _, _, _, childStats, _, _⟩ =>
      exact .mk wellFormed.1 (WellFormedAll.valid childStats wellFormed.2.2)

theorem WellFormedAll.valid (childStats : List StatisticsObject) {types : List ColumnType}
    (wellFormed : WellFormedAll types childStats) : ∀ type ∈ types, type.Valid := by
  match types, childStats with
  | [], _ => simp
  | type :: types, child :: rest =>
      rw [WellFormedAll] at wellFormed
      rw [List.forall_mem_cons, ← wellFormed.1]
      exact ⟨WellFormed.valid child wellFormed.2.1, WellFormedAll.valid rest wellFormed.2.2⟩

end

/-- The value of an old constant segment depends on nothing that a round trip drops. -/
theorem Same.storageConstant (same : stats.Same other) (numeric : stats.statsType = .numeric) :
    other.storageConstant = stats.storageConstant := by
  obtain ⟨members, -⟩ := same_iff.mp same
  have bounds := members.numeric numeric
  simp only [StatisticsObject.storageConstant]
  rw [bounds.hasMin, bounds.hasMax, members.type, members.hasNoNull]
  cases hasMin : stats.numericData.hasMin with
  | false => rfl
  | true =>
      cases hasMax : stats.numericData.hasMax with
      | false => rfl
      | true => rw [bounds.min hasMin, bounds.max hasMax]

/-! ### Round trips -/

mutual

/-- What was written is read back, from any counter and before any rest of the stream. -/
theorem reads (stats : StatisticsObject) (wellFormed : stats.WellFormed) :
    Reads (deserialize stats.type) stats.serialize stats.Same := by
  have constructed := construct_wellFormed stats.type (WellFormed.valid stats wellFormed)
  match stats, wellFormed with
  | ⟨.mk type children, hasNull, hasNoNull, distinctCount, numeric, string, childStats, id,
      additional⟩, ⟨oneChild, typed, childrenFormed⟩ =>
      rw [deserialize, serialize]
      refine ((StatisticsReader.reads_bool hasNull).property 100).bind ?_
      rintro hasNull rfl
      refine ((StatisticsReader.reads_bool hasNoNull).property 101).bind ?_
      rintro hasNoNull rfl
      refine ((StatisticsReader.reads_unsigned distinctCount).property 102).bind ?_
      rintro distinctCount rfl
      refine Reads.update_bind fun counter => ?_
      have intoType := construct_type (.mk type children) counter
      have intoChildren := (wellFormed_iff.mp (constructed counter)).2.2
      generalize (construct (.mk type children) counter).1 = into at intoType intoChildren ⊢
      rw [intoType] at intoChildren
      refine (Reads.property 103 (Reads.object (?body : Reads _ _ fun result =>
        ∃ numericData stringData children', result =
          { into with hasNull, hasNoNull, distinctCount, numericData, stringData,
                      childStats := children' } ∧
          (type.statsType = .numeric → numeric.Same numericData) ∧
          (type.statsType = .string → string.Same stringData) ∧
          SameAll childStats children'))).bind ?rest
      case body =>
        dsimp only [ColumnType.type]
        unfold ColumnType.childTypes at intoChildren childrenFormed
        dsimp only [ColumnType.type, ColumnType.children] at intoChildren childrenFormed
        cases kind : type.statsType with
        | numeric =>
            refine (NumericStats.reads (typed kind)).bind_pure fun data same => ?_
            rw [kind] at intoChildren childrenFormed
            exact ⟨data, into.stringData, into.childStats, rfl, fun _ => same, nofun,
              childrenFormed.sameAll_nil intoChildren⟩
        | string =>
            refine (StringStats.reads string into.stringData).bind_pure fun data same => ?_
            rw [kind] at intoChildren childrenFormed
            exact ⟨into.numericData, data, into.childStats, rfl, nofun, fun _ => same,
              childrenFormed.sameAll_nil intoChildren⟩
        | list | array =>
            rw [kind] at intoChildren childrenFormed
            have one : children.length = 1 := oneChild (by simp [ColumnType.type, kind])
            have inner := readsChildren childStats childrenFormed intoChildren
            rw [one] at inner
            refine (inner.property 200).bind_pure fun children' sames => ?_
            exact ⟨into.numericData, into.stringData, children', rfl, nofun, nofun, sames⟩
        | struct =>
            rw [kind] at intoChildren childrenFormed
            have inner := readsChildren childStats childrenFormed intoChildren
            have counted : Reads (do
                let size ← Reader.listSize
                deserializeChildren children size into.childStats)
                ([.count children.length] ++ serializeChildren childStats) (SameAll childStats) := by
              refine (Reads.listSize children.length).bind ?_
              rintro _ rfl
              exact inner
            refine (counted.property 200).bind_pure fun children' sames => ?_
            exact ⟨into.numericData, into.stringData, children', rfl, nofun, nofun, sames⟩
        | base =>
            rw [kind] at intoChildren childrenFormed
            exact Reads.pure ⟨into.numericData, into.stringData, into.childStats, rfl, nofun, nofun,
              childrenFormed.sameAll_nil intoChildren⟩
      case rest =>
        rintro _ ⟨numericData, stringData, children', rfl, sameNumeric, sameString, sames⟩
        refine ((StatisticsReader.reads_unsigned id).propertyWithDefault 104 _).bind ?_
        rintro _ rfl
        refine ((StatisticsReader.reads_unsigned additional).propertyWithDefault 105 _).bind_pure ?_
        rintro _ rfl
        exact ⟨⟨intoType, rfl, rfl, rfl, rfl, rfl, sameNumeric, sameString⟩, sames⟩

theorem readsChildren (childStats : List StatisticsObject) {types : List ColumnType}
    {constructed : List StatisticsObject} (wellFormed : WellFormedAll types childStats)
    (wellFormed' : WellFormedAll types constructed) :
    Reads (deserializeChildren types types.length constructed) (serializeChildren childStats)
      (SameAll childStats) := by
  match types, childStats, constructed with
  | [], [], [] => exact Reads.pure trivial
  | type :: types, child :: rest, into :: others =>
      rw [WellFormedAll] at wellFormed wellFormed'
      obtain ⟨rfl, formed, formedAll⟩ := wellFormed
      obtain ⟨intoType, intoFormed, intoAll⟩ := wellFormed'
      rw [List.length_cons, deserializeChildren, serializeChildren]
      refine (reads child formed).object.bind fun stat same => ?_
      refine (readsChildren rest formedAll intoAll).bind_pure fun others sames => ?_
      have copied := copyFrom_same into stat
        (intoType.trans (same_iff.mp same).1.type.symm) intoFormed
        (Same.wellFormed child same formed)
      rw [SameAll]
      exact ⟨Same.trans child same copied, sames⟩

end

/-- One way in which an object arises from another: through storage, or as a copy. -/
inductive Step (stats : StatisticsObject) : StatisticsObject → Prop where
  | roundTrip {result : StatisticsObject} {counter counter' : Nat}
      (read : deserialize stats.type (counter, stats.serialize) = .ok (result, (counter', []))) :
      Step stats result
  | copy (counter : Nat) : Step stats (stats.copy counter).1
  | copyOver {target : StatisticsObject} (wellFormed : target.WellFormed)
      (type : target.type = stats.type) : Step stats (target.copyFrom stats)

/-- A whole stream of an object is read back, with nothing left. -/
theorem exists_deserialize (wellFormed : stats.WellFormed) (counter : Nat) :
    ∃ result counter', deserialize stats.type (counter, stats.serialize) =
      .ok (result, (counter', [])) ∧ stats.Same result := by
  obtain ⟨result, counter', run, same⟩ := reads stats wellFormed counter []
  rw [List.append_nil] at run
  exact ⟨result, counter', run, same⟩

theorem Step.same (step : stats.Step other) (wellFormed : stats.WellFormed) : stats.Same other := by
  cases step with
  | @roundTrip _ counter _ read =>
      obtain ⟨result, counter', run, same⟩ := exists_deserialize wellFormed counter
      cases run.symm.trans read
      exact same
  | copy counter =>
      exact copyFrom_same _ stats (construct_type _ counter)
        (construct_wellFormed _ (WellFormed.valid stats wellFormed) counter) wellFormed
  | copyOver targetFormed type => exact copyFrom_same _ stats type targetFormed wellFormed

/-- Any number of round trips and copies. -/
theorem same_of_steps (wellFormed : stats.WellFormed)
    (steps : Relation.ReflTransGen Step stats other) : stats.Same other := by
  induction steps with
  | refl => exact Same.refl stats
  | tail _ step ih => exact Same.trans stats ih (step.same (Same.wellFormed stats ih wellFormed))

/--
An object without an additional statistic is read back as the same statistics, and no number of
round trips and copies changes them or the value that an old constant segment is decoded to.
-/
theorem deserialize_serialize_same (stats : StatisticsObject) (wellFormed : stats.WellFormed)
    (null : stats.additionalStats = 0) :
    (∀ counter, ∃ result counter', deserialize stats.type (counter, stats.serialize) =
      .ok (result, (counter', [])) ∧ stats.Same result ∧ result.additionalStats = 0) ∧
    ∀ result, Relation.ReflTransGen Step stats result →
      stats.Same result ∧ result.additionalStats = 0 ∧
        (stats.statsType = .numeric → result.storageConstant = stats.storageConstant) := by
  have still {result : StatisticsObject} (same : stats.Same result) : result.additionalStats = 0 :=
    (same_iff.mp same).1.additionalStats.trans null
  constructor
  · intro counter
    obtain ⟨result, counter', run, same⟩ := exists_deserialize wellFormed counter
    exact ⟨result, counter', run, same, still same⟩
  · intro result steps
    have same := same_of_steps wellFormed steps
    exact ⟨same, still same, same.storageConstant⟩

/-- Statistics of `STRUCT(key INTEGER, names VARCHAR[])`, the key from an old constant segment. -/
def legacyStruct : StatisticsObject :=
  let key : ColumnType := .mk .integer []
  let name : ColumnType := .mk .varchar []
  let names : ColumnType := .mk ⟨.list, .list⟩ [name]
  let constant : NumericStatsData := ⟨true, true, .integer 7, .integer 7⟩
  { blank (.mk ⟨.struct, .struct⟩ [key, names]) 1
      [{ blank key 2 [] with hasNoNull := true, numericData := constant },
        { blank names 3 [{ blank name 4 [] with hasNull := true }] with hasNull := true }] with
    hasNoNull := true }

theorem legacyStruct_wellFormed : legacyStruct.WellFormed := by
  have bounds : NumericStatsData.Typed .int32 ⟨true, true, .integer 7, .integer 7⟩ :=
    ⟨fun _ => by decide, fun _ => by decide⟩
  simp [legacyStruct, blank, WellFormed, WellFormedAll, ColumnType.type, ColumnType.childTypes,
    ColumnType.children, LogicalType.statsType, LogicalType.integer, LogicalType.varchar, bounds]

theorem deserialize_serialize_same_legacyStruct :
    ∃ result counter', deserialize legacyStruct.type (5, legacyStruct.serialize) =
      .ok (result, (counter', [])) ∧ legacyStruct.Same result ∧ result.additionalStats = 0 :=
  (deserialize_serialize_same legacyStruct legacyStruct_wellFormed rfl).1 5

end StatisticsObject

end StatsRecommender
