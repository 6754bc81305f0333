import Mathlib.Data.Finset.Dedup
import Mathlib.Data.Finset.Order
import Mathlib.Data.List.Induction
import StatsRecommender.Assigners.Greedy

/-!
# Runs of the greedy assigner

A ratio in the heap that was computed for what its partition had at some time never
underestimates the ratio that it has now, and the ratios that the heap was filled with are all
below those that were taken out once.
-/

namespace StatsRecommender

namespace Greedy

variable {other : Item} {mapping : List (Partition × Int)} {partition : Partition} {statistic : Int}
  {line : Line} {before lines : List Line} {state next : State} {item : Item} {rest : List Item}
  {total : Int} {threshold : ℚ}

/-! ## Ratios -/

/-- An item of the heap that was read from a line. -/
def Item.Of (item : Item) (line : Line) : Prop :=
  item.pruningPower = line.pruningPower ∧ item.partition = line.partition ∧
    item.statistic = line.statistic ∧ item.size = line.size

/-- The ratio of an item to what its partition has. -/
def ratio (state : State) (item : Item) : ℚ :=
  (item.pruningPower - state.currentPruningPower item.partition) /
    ((item.size - state.currentSize item.partition : Int) : ℚ)

/-- The ratio that the heap was filled with. -/
def Item.filled (item : Item) : ℚ := item.pruningPower / item.size

/--
An item brings less than what its partition has, or is larger; and it has the ratio it was filled
with, below a threshold, or was taken out already, with a ratio that does not underestimate it.
-/
structure Settled (threshold : ℚ) (state : State) (item : Item) : Prop where
  positive : 0 < item.size
  larger : item.pruningPower ≤ state.currentPruningPower item.partition ∨
    state.currentSize item.partition < item.size
  estimate : (-item.val = item.filled ∧ item.filled ≤ threshold) ∨
    (threshold ≤ item.filled ∧
      (item.pruningPower ≤ state.currentPruningPower item.partition ∨
        ratio state item ≤ -item.val))

/-- The threshold can be lowered to the item that is taken out. -/
theorem exists_threshold (settled : ∀ other ∈ state.pq, Settled threshold state other)
    (member : item ∈ state.pq) (least : ∀ other ∈ state.pq, item.val ≤ other.val) :
    ∃ lowered ≤ item.filled, ∀ other ∈ state.pq, Settled lowered state other := by
  rcases (settled item member).estimate with ⟨filled, below⟩ | ⟨above, estimate⟩
  · refine ⟨item.filled, le_rfl, fun other inside => ?_⟩
    obtain ⟨positive, larger, ⟨filled', -⟩ | ⟨above, estimate⟩⟩ := settled other inside
    · refine ⟨positive, larger, .inl ⟨filled', ?_⟩⟩
      rw [← filled', ← filled]
      exact neg_le_neg (least other inside)
    · exact ⟨positive, larger, .inr ⟨below.trans above, estimate⟩⟩
  · exact ⟨threshold, above, settled⟩

/-- Where the slope to a later point is less than the one to an earlier point, so is the one between. -/
theorem slope_le {power power' size size' ratio ratio' : ℚ} (positive : 0 < size)
    (later : size < size') (slope : power = ratio * size) (slope' : power' = ratio' * size')
    (less : ratio' ≤ ratio) : (power' - power) / (size' - size) ≤ ratio' := by
  rw [div_le_iff₀ (sub_pos.mpr later)]
  nlinarith

/-- Another item of a partition when one is chosen from the heap. -/
theorem Settled.choose (settled : Settled threshold state other)
    (chosen : Settled threshold state item) (least : item.val ≤ other.val)
    (better : state.currentPruningPower item.partition < item.pruningPower)
    (nonnegative : 0 ≤ state.currentPruningPower item.partition) (looked : threshold ≤ item.filled)
    (upToDate : -item.val = ratio state item) (same : other.partition = item.partition) :
    Settled threshold { state with
      currentPruningPower :=
        Function.update state.currentPruningPower item.partition item.pruningPower
      currentSize := Function.update state.currentSize item.partition item.size } other := by
  have grown := chosen.larger.resolve_left (not_le.mpr better)
  have grown' : (0 : ℚ) < ((item.size - state.currentSize item.partition : Int) : ℚ) := by
    exact_mod_cast Int.sub_pos.mpr grown
  obtain ⟨positive, larger, estimate⟩ := settled
  have power : item.pruningPower - state.currentPruningPower item.partition =
      -item.val * ((item.size - state.currentSize item.partition : Int) : ℚ) := by
    rw [upToDate, ratio, div_mul_cancel₀ _ (ne_of_gt grown')]
  have size : (0 : ℚ) < item.size := by
    exact_mod_cast chosen.positive
  have size' : (0 : ℚ) < other.size := by
    exact_mod_cast positive
  rcases estimate with ⟨filled, below⟩ | ⟨above, estimate⟩
  · refine ⟨positive, ?_, .inl ⟨filled, below⟩⟩
    dsimp only
    rw [same, Function.update_self, Function.update_self]
    by_contra neither
    obtain ⟨more, smaller⟩ := not_or.mp neither
    have ratios := below.trans looked
    rw [Item.filled, Item.filled, div_le_div_iff₀ size' size] at ratios
    have smaller' : (other.size : ℚ) ≤ item.size := by
      exact_mod_cast not_lt.mp smaller
    nlinarith [not_le.mp more]
  · have worse_of : other.pruningPower ≤ item.pruningPower → Settled threshold { state with
        currentPruningPower :=
          Function.update state.currentPruningPower item.partition item.pruningPower
        currentSize := Function.update state.currentSize item.partition item.size } other := by
      intro worse
      have still : other.pruningPower ≤ Function.update state.currentPruningPower item.partition
          item.pruningPower other.partition := by
        rw [same, Function.update_self]
        exact worse
      exact ⟨positive, .inl still, .inr ⟨above, .inl still⟩⟩
    rcases estimate with worse | estimate
    · rw [same] at worse
      exact worse_of (worse.trans (le_of_lt better))
    · by_cases worse : other.pruningPower ≤ state.currentPruningPower other.partition
      · have worse' : other.pruningPower ≤ item.pruningPower := by
          rw [same] at worse
          exact worse.trans (le_of_lt better)
        exact worse_of worse'
      · have beyond := larger.resolve_left worse
        have outgrown : (0 : ℚ) < ((other.size - state.currentSize item.partition : Int) : ℚ) := by
          rw [same] at beyond
          exact_mod_cast Int.sub_pos.mpr beyond
        have power' : other.pruningPower - state.currentPruningPower item.partition =
            ratio state other * ((other.size - state.currentSize item.partition : Int) : ℚ) := by
          rw [ratio, same, div_mul_cancel₀ _ (ne_of_gt outgrown)]
        have less : ratio state other ≤ -item.val := estimate.trans (neg_le_neg least)
        rcases lt_or_ge item.size other.size with later | earlier
        · have later' : ((item.size - state.currentSize item.partition : Int) : ℚ) <
              ((other.size - state.currentSize item.partition : Int) : ℚ) := by
            exact_mod_cast Int.sub_lt_sub_right later _
          have slope := slope_le grown' later' power power' less
          refine ⟨positive, .inr ?_, .inr ⟨above, .inr (le_trans (le_of_eq ?_) (slope.trans estimate))⟩⟩
          · rw [same]
            dsimp only
            rw [Function.update_self]
            exact later
          · rw [ratio, same]
            dsimp only
            rw [Function.update_self, Function.update_self]
            push_cast
            congr 1
            · ring
            · ring
        · have earlier' : ((other.size - state.currentSize item.partition : Int) : ℚ) ≤
              ((item.size - state.currentSize item.partition : Int) : ℚ) := by
            exact_mod_cast Int.sub_le_sub_right earlier _
          refine worse_of ?_
          have steep : 0 < -item.val := by
            rw [upToDate, ratio]
            exact div_pos (sub_pos.mpr better) grown'
          nlinarith

/-! ## The heap loop -/

/-- What holds between two rounds of the heap loop. -/
structure Invariant (lines : List Line) (total : Int) (state : State) : Prop where
  keys : state.mapping.map Prod.fst = (baselines lines).map Line.partition
  chosen : ∀ entry ∈ state.mapping, ∃ line ∈ lines, line.partition = entry.1 ∧
    line.statistic = entry.2 ∧ state.currentSize entry.1 = line.size ∧
    state.currentPruningPower entry.1 = line.benefit
  spent : state.budget + (((baselines lines).map Line.partition).map state.currentSize).sum = total
  items : ∀ item ∈ state.pq, ∃ line ∈ lines, line.statistic ≠ 0 ∧ item.Of line
  resolved : ∀ line ∈ lines, line.statistic ≠ 0 → (∃ item ∈ state.pq, item.Of line) ∨
    line.pruningPower ≤ state.currentPruningPower line.partition ∨
    state.budget < line.size - state.currentSize line.partition
  nonnegative : ∀ partition, 0 ≤ state.currentPruningPower partition
  settled : ∃ threshold, ∀ item ∈ state.pq, Settled threshold state item

/-- The items whose ratio is outdated. -/
def outdated (state : State) : Nat := state.pq.countP fun item => item.val != -ratio state item

/-- What each round of the loop decreases. -/
def work (state : State) : Nat := state.pq.length * (state.pq.length + 1) + outdated state

theorem outdated_le (state : State) : outdated state ≤ state.pq.length := List.countP_le_length

/-- A shorter heap leaves less work. -/
theorem work_lt_of_length (shorter : next.pq.length + 1 = state.pq.length) :
    work next < work state := by
  have few := outdated_le next
  rw [work, work, ← shorter]
  nlinarith

theorem length_of_heappop (popped : heappop state.pq = some (item, rest)) :
    rest.length + 1 = state.pq.length := by
  obtain ⟨member, rfl, -⟩ := heappop_some popped
  have positive := List.length_pos_of_mem member
  rw [List.length_erase_of_mem member]
  omega

theorem mem_of_mem_rest (popped : heappop state.pq = some (item, rest)) (member : other ∈ rest) :
    other ∈ state.pq := by
  obtain ⟨-, rfl, -⟩ := heappop_some popped
  exact List.mem_of_mem_erase member

namespace Invariant

/-- An item that does not fit or brings nothing is dropped. -/
theorem drop (invariant : Invariant lines total state)
    (popped : heappop state.pq = some (item, rest))
    (useless : item.size - state.currentSize item.partition > state.budget ∨
      item.pruningPower ≤ state.currentPruningPower item.partition) :
    Invariant lines total { state with pq := rest } where
  keys := invariant.keys
  chosen := invariant.chosen
  spent := invariant.spent
  items := fun other member => invariant.items other (mem_of_mem_rest popped member)
  resolved := fun line member other => by
    rcases invariant.resolved line member other with ⟨held, inside, power, same, statistic, size⟩ | done
    · by_cases here : held = item
      · right
        rw [← power, ← same, ← size, here]
        exact useless.symm
      · exact .inl ⟨held, mem_of_heappop popped inside here, power, same, statistic, size⟩
    · exact .inr done
  nonnegative := invariant.nonnegative
  settled := by
    obtain ⟨threshold, settled⟩ := invariant.settled
    refine ⟨threshold, fun other member => ?_⟩
    obtain ⟨positive, larger, estimate⟩ := settled other (mem_of_mem_rest popped member)
    exact ⟨positive, larger, estimate⟩

/-- An item with an outdated ratio is put back with its ratio. -/
theorem requeue (invariant : Invariant lines total state)
    (popped : heappop state.pq = some (item, rest)) :
    Invariant lines total
      { state with pq := { item with val := -ratio state item } :: rest } where
  keys := invariant.keys
  chosen := invariant.chosen
  spent := invariant.spent
  items := fun other member => by
    rcases List.mem_cons.mp member with rfl | before
    · exact invariant.items item (heappop_some popped).1
    · exact invariant.items other (mem_of_mem_rest popped before)
  resolved := fun line member other => by
    rcases invariant.resolved line member other with ⟨held, inside, facts⟩ | done
    · by_cases here : held = item
      · rw [here] at facts
        exact .inl ⟨_, List.mem_cons_self, facts⟩
      · exact .inl ⟨held, List.mem_cons_of_mem _ (mem_of_heappop popped inside here), facts⟩
    · exact .inr done
  nonnegative := invariant.nonnegative
  settled := by
    obtain ⟨member, -, least⟩ := heappop_some popped
    obtain ⟨threshold, settled⟩ := invariant.settled
    obtain ⟨lowered, looked, settled⟩ := exists_threshold settled member least
    refine ⟨lowered, fun other inside => ?_⟩
    rcases List.mem_cons.mp inside with rfl | before
    · obtain ⟨positive, larger, -⟩ := settled item member
      exact ⟨positive, larger, .inr ⟨looked, .inr (le_of_eq (neg_neg _).symm)⟩⟩
    · obtain ⟨positive, larger, estimate⟩ := settled other (mem_of_mem_rest popped before)
      exact ⟨positive, larger, estimate⟩

theorem mem_setItem {entry : Partition × Int}
    (member : entry ∈ setItem mapping partition statistic) :
    entry = (partition, statistic) ∨ entry ∈ mapping ∧ entry.1 ≠ partition := by
  rw [setItem] at member
  split at member
  · obtain ⟨before, inside, rfl⟩ := List.mem_map.mp member
    split
    · exact .inl rfl
    · rename_i different
      exact .inr ⟨inside, different⟩
  · rename_i absent
    rcases List.mem_append.mp member with inside | here
    · exact .inr ⟨inside, fun same => absent (List.mem_map.mpr ⟨entry, inside, same⟩)⟩
    · exact .inl (List.mem_singleton.mp here)

theorem keys_setItem (present : partition ∈ mapping.map Prod.fst) :
    (setItem mapping partition statistic).map Prod.fst = mapping.map Prod.fst := by
  rw [setItem, if_pos present, List.map_map]
  refine List.map_congr_left fun entry _ => ?_
  dsimp only [Function.comp]
  split
  · rename_i same
    exact same.symm
  · rfl

theorem sum_update {partitions : List Partition} (once : partitions.Nodup)
    (member : partition ∈ partitions) (size : Partition → Int) (new : Int) :
    (partitions.map (Function.update size partition new)).sum =
      (partitions.map size).sum + (new - size partition) := by
  induction partitions with
  | nil => exact absurd member List.not_mem_nil
  | cons first rest ih =>
      obtain ⟨fresh, once⟩ := List.nodup_cons.mp once
      rw [List.map_cons, List.sum_cons, List.map_cons, List.sum_cons]
      rcases List.mem_cons.mp member with rfl | later
      · have others : rest.map (Function.update size partition new) = rest.map size :=
          List.map_congr_left fun other inside =>
            Function.update_of_ne (fun same : other = partition => fresh (same ▸ inside)) _ _
        rw [Function.update_self, others]
        ring
      · rw [ih once later, Function.update_of_ne fun same : first = partition => fresh (same ▸ later)]
        ring

/-- The item with the best ratio that is not outdated is chosen. -/
theorem take (measured : Measured lines) (invariant : Invariant lines total state)
    (popped : heappop state.pq = some (item, rest))
    (better : state.currentPruningPower item.partition < item.pruningPower)
    (upToDate : -item.val = ratio state item) :
    Invariant lines total
      { budget := state.budget - (item.size - state.currentSize item.partition)
        mapping := setItem state.mapping item.partition item.statistic
        currentPruningPower :=
          Function.update state.currentPruningPower item.partition item.pruningPower
        currentSize := Function.update state.currentSize item.partition item.size
        pq := rest } := by
  obtain ⟨member, -, least⟩ := heappop_some popped
  obtain ⟨threshold, settled⟩ := invariant.settled
  obtain ⟨lowered, looked, settled⟩ := exists_threshold settled member least
  obtain ⟨source, inLines, other, power, partition, statistic, size⟩ := invariant.items item member
  have present : item.partition ∈ (baselines lines).map Line.partition := by
    rw [partition]
    exact measured.baseline source inLines
  have grown : state.currentSize item.partition < item.size :=
    (settled item member).larger.resolve_left (not_le.mpr better)
  refine ⟨?_, fun entry inside => ?_, ?_, fun held inside => ?_, fun line inside notBase => ?_,
    fun other => ?_, lowered, fun held inside => ?_⟩
  · rw [keys_setItem (invariant.keys ▸ present)]
    exact invariant.keys
  · rcases mem_setItem inside with rfl | ⟨before, different⟩
    · refine ⟨source, inLines, partition.symm, statistic.symm, ?_, ?_⟩
      · dsimp only
        rw [Function.update_self, size]
      · dsimp only
        rw [Function.update_self, power, Line.benefit, if_neg other]
    · obtain ⟨line, held, facts⟩ := invariant.chosen entry before
      dsimp only
      rw [Function.update_of_ne different, Function.update_of_ne different]
      exact ⟨line, held, facts⟩
  · dsimp only
    rw [sum_update measured.once present]
    have spent := invariant.spent
    omega
  · exact invariant.items held (mem_of_mem_rest popped inside)
  · rcases invariant.resolved line inside notBase with ⟨held, before, facts⟩ | done | tooLarge
    · by_cases here : held = item
      · obtain ⟨power', partition', -, -⟩ := facts
        refine .inr (.inl ?_)
        dsimp only
        rw [← power', ← partition', here, Function.update_self]
      · exact .inl ⟨held, mem_of_heappop popped before here, facts⟩
    · refine .inr (.inl ?_)
      dsimp only
      by_cases here : line.partition = item.partition
      · rw [here] at done ⊢
        rw [Function.update_self]
        exact done.trans (le_of_lt better)
      · rw [Function.update_of_ne here]
        exact done
    · refine .inr (.inr ?_)
      dsimp only
      by_cases here : line.partition = item.partition
      · rw [here] at tooLarge ⊢
        rw [Function.update_self]
        omega
      · rw [Function.update_of_ne here]
        omega
  · dsimp only
    by_cases here : other = item.partition
    · rw [here, Function.update_self]
      exact (invariant.nonnegative _).trans (le_of_lt better)
    · rw [Function.update_of_ne here]
      exact invariant.nonnegative other
  · have before := settled held (mem_of_mem_rest popped inside)
    by_cases here : held.partition = item.partition
    · obtain ⟨positive, larger, estimate⟩ := before.choose (settled item member)
        (least held (mem_of_mem_rest popped inside)) better (invariant.nonnegative _) looked
        upToDate here
      exact ⟨positive, larger, estimate⟩
    · obtain ⟨positive, larger, estimate⟩ := before
      refine ⟨positive, ?_, ?_⟩
      · dsimp only
        rw [Function.update_of_ne here, Function.update_of_ne here]
        exact larger
      · rw [ratio] at estimate ⊢
        dsimp only
        rw [Function.update_of_ne here, Function.update_of_ne here]
        exact estimate

/-- Every round of the loop keeps the invariant, lowers no benefit and leaves less work. -/
theorem step (measured : Measured lines) (invariant : Invariant lines total state) :
    ∃ next, step state = .ok next ∧ Invariant lines total next ∧
      (∀ partition, state.currentPruningPower partition ≤ next.currentPruningPower partition) ∧
      (0 ≤ state.budget → 0 ≤ next.budget) ∧ (state.pq ≠ [] → work next < work state) := by
  rw [Greedy.step]
  cases popped : heappop state.pq with
  | none =>
      refine ⟨state, rfl, invariant, fun _ => le_rfl, id, fun some_left => ?_⟩
      exact absurd (heappop_none.mp popped) some_left
  | some pair =>
      obtain ⟨item, rest⟩ := pair
      obtain ⟨member, erased, -⟩ := heappop_some popped
      have shorter := length_of_heappop popped
      dsimp only
      split
      · rename_i useless
        exact ⟨_, rfl, invariant.drop popped useless, fun _ => le_rfl, id, fun _ =>
          work_lt_of_length shorter⟩
      · rename_i useful
        obtain ⟨-, better⟩ := not_or.mp useful
        obtain ⟨threshold, settled⟩ := invariant.settled
        have grown := (settled item member).larger.resolve_left better
        have divided : divide (-(item.pruningPower - state.currentPruningPower item.partition))
            (item.size - state.currentSize item.partition) = .ok (-ratio state item) := by
          rw [divide, if_neg (by omega), neg_div]
          rfl
        rw [divided]
        dsimp only [bind, Except.bind, pure, Except.pure]
        split
        · rename_i different
          refine ⟨_, rfl, invariant.requeue popped, fun _ => le_rfl, id, fun _ => ?_⟩
          have counted : outdated state = rest.countP (fun other => other.val != -ratio state other) +
              1 := by
            rw [outdated, (List.perm_cons_erase member).countP_eq, ← erased, List.countP_cons_of_pos]
            exact bne_iff_ne.mpr different
          have fresh : outdated { state with pq := { item with val := -ratio state item } :: rest } =
              rest.countP fun other => other.val != -ratio state other := by
            rw [outdated, List.countP_cons_of_neg]
            · rfl
            · intro impossible
              exact bne_iff_ne.mp impossible rfl
          rw [work, work, counted, fresh]
          dsimp only
          rw [List.length_cons, shorter]
          omega
        · rename_i same
          refine ⟨_, rfl, invariant.take measured popped (not_le.mp better) ?_,
            fun partition => ?_, fun _ => ?_, fun _ => work_lt_of_length shorter⟩
          · rw [not_not.mp same, neg_neg]
          · dsimp only
            by_cases here : partition = item.partition
            · rw [here, Function.update_self]
              exact le_of_lt (not_le.mp better)
            · rw [Function.update_of_ne here]
          · dsimp only
            omega

end Invariant

/-! ## The initial assignment -/

theorem baselines_append (before after : List Line) :
    baselines (before ++ after) = baselines before ++ baselines after :=
  List.filter_append _ _

theorem mem_baselines : line ∈ baselines lines ↔ line ∈ lines ∧ line.statistic = 0 := by
  rw [baselines, List.mem_filter, beq_iff_eq]

/-- A line of the statistic 0 is entered. -/
theorem loaded_baseline (budget : Int) (base : line.statistic = 0)
    (fresh : line.partition ∉ (baselines before).map Line.partition) :
    readLine (loaded budget before) line = .ok (loaded budget (before ++ [line])) := by
  have one : baselines [line] = [line] := by
    simp [baselines, base]
  have none_else : ([line].filter fun line => line.statistic != 0) = [] := by
    simp [base]
  have absent : line.partition ∉ (loaded budget before).mapping.map Prod.fst := by
    simpa [loaded] using fresh
  rw [readLine, if_pos base, setItem, if_neg absent]
  simp only [loaded, baselines_append, one, List.filter_append, none_else, List.append_nil,
    List.map_append, List.map_cons, List.map_nil, List.sum_append, List.sum_cons, List.sum_nil,
    List.foldl_append, List.foldl_cons, List.foldl_nil, add_zero, Int.sub_sub]

/-- Any other line goes to the heap. -/
theorem loaded_other (budget : Int) (other : line.statistic ≠ 0) (positive : line.size ≠ 0) :
    readLine (loaded budget before) line = .ok (loaded budget (before ++ [line])) := by
  have none_base : baselines [line] = [] := by
    simp [baselines, other]
  have one : ([line].filter fun line => line.statistic != 0) = [line] := by
    simp [other]
  rw [readLine, if_neg other, divide, if_neg positive]
  simp only [bind, Except.bind, pure, Except.pure, loaded, baselines_append, none_base, one,
    List.append_nil, List.filter_append, List.map_append, List.map_cons, List.map_nil, Line.item]

/-- Reading all lines succeeds. -/
theorem load_eq (budget : Int) (lines : List Line)
    (once : ((baselines lines).map Line.partition).Nodup)
    (positive : ∀ line ∈ lines, line.statistic ≠ 0 → line.size ≠ 0) :
    load budget lines = .ok (loaded budget lines) := by
  induction lines using List.reverseRecOn with
  | nil =>
      rw [load, List.foldlM_nil]
      simp [loaded, baselines]
      rfl
  | append_singleton before line ih =>
      rw [baselines_append, List.map_append] at once
      have read := ih once.of_append_left fun earlier inside =>
        positive earlier (List.mem_append_left _ inside)
      rw [load] at read ⊢
      rw [List.foldlM_append, read]
      dsimp only [bind, Except.bind]
      rw [List.foldlM_cons]
      by_cases base : line.statistic = 0
      · have fresh : line.partition ∉ (baselines before).map Line.partition := by
          intro present
          refine (List.nodup_append.mp once).2.2 _ present line.partition ?_ rfl
          exact List.mem_map_of_mem (mem_baselines.mpr ⟨List.mem_singleton_self line, base⟩)
        rw [loaded_baseline budget base fresh]
        rfl
      · have nonzero := positive line (List.mem_append_right _ (List.mem_singleton_self line)) base
        rw [loaded_other budget base nonzero]
        rfl

/-- The sizes of the statistics 0. -/
theorem loaded_size (bases : List Line) (once : (bases.map Line.partition).Nodup)
    (sizes : Partition → Int) {base : Line} (member : base ∈ bases) :
    bases.foldl (fun sizes line => Function.update sizes line.partition line.size) sizes
      base.partition = base.size := by
  induction bases using List.reverseRecOn with
  | nil => exact absurd member List.not_mem_nil
  | append_singleton before line ih =>
      rw [List.foldl_append, List.foldl_cons, List.foldl_nil]
      rw [List.map_append] at once
      rcases List.mem_append.mp member with earlier | last
      · have different : base.partition ≠ line.partition :=
          (List.nodup_append.mp once).2.2 _ (List.mem_map_of_mem earlier) _
            (List.mem_singleton_self _)
        rw [Function.update_of_ne different]
        exact ih once.of_append_left earlier
      · rw [List.mem_singleton.mp last, Function.update_self]

/-- The loop starts with the invariant. -/
theorem loaded_invariant (measured : Measured lines) (budget : Int) :
    Invariant lines budget (loaded budget lines) := by
  have size_eq : ∀ base ∈ baselines lines,
      (loaded budget lines).currentSize base.partition = base.size := fun base member =>
    loaded_size _ measured.once _ member
  have base_of : ∀ line ∈ lines, ∃ base ∈ baselines lines, base.partition = line.partition := by
    intro line inside
    obtain ⟨base, member, same⟩ := List.mem_map.mp (measured.baseline line inside)
    exact ⟨base, member, same⟩
  refine ⟨?_, fun entry inside => ?_, ?_, fun item inside => ?_, fun line inside other => ?_,
    fun _ => le_rfl, ?_⟩
  · rw [loaded, List.map_map]
    rfl
  · obtain ⟨base, member, rfl⟩ := List.mem_map.mp inside
    obtain ⟨held, zero⟩ := mem_baselines.mp member
    refine ⟨base, held, rfl, rfl, size_eq base member, ?_⟩
    rw [Line.benefit, if_pos zero]
    rfl
  · have sizes : ((baselines lines).map Line.partition).map (loaded budget lines).currentSize =
        (baselines lines).map Line.size := by
      rw [List.map_map]
      exact List.map_congr_left size_eq
    rw [sizes]
    exact Int.sub_add_cancel _ _
  · obtain ⟨line, member, rfl⟩ := List.mem_map.mp inside
    obtain ⟨held, other⟩ := List.mem_filter.mp member
    exact ⟨line, held, bne_iff_ne.mp other, rfl, rfl, rfl, rfl⟩
  · refine .inl ⟨line.item, List.mem_map_of_mem ?_, rfl, rfl, rfl, rfl⟩
    exact List.mem_filter.mpr ⟨inside, bne_iff_ne.mpr other⟩
  · obtain ⟨threshold, above⟩ : ∃ threshold, ∀ item ∈ (loaded budget lines).pq,
        item.filled ≤ threshold := by
      obtain ⟨threshold, above⟩ :=
        ((loaded budget lines).pq.map Item.filled).toFinset.exists_le
      refine ⟨threshold, fun item member => above _ ?_⟩
      exact List.mem_toFinset.mpr (List.mem_map_of_mem member)
    refine ⟨threshold, fun item member => ?_⟩
    have below := above item member
    obtain ⟨line, found, rfl⟩ := List.mem_map.mp member
    obtain ⟨held, other⟩ := List.mem_filter.mp found
    obtain ⟨base, isBase, same⟩ := base_of line held
    obtain ⟨baseHeld, zero⟩ := mem_baselines.mp isBase
    obtain ⟨larger, positive⟩ :=
      measured.larger base baseHeld line held same zero (bne_iff_ne.mp other)
    refine ⟨positive, .inr ?_, .inl ⟨?_, below⟩⟩
    · have size := size_eq base isBase
      rw [same] at size
      exact lt_of_eq_of_lt size larger
    · rw [Line.item, Item.filled, neg_div, neg_neg]

/-! ## Runs -/

/-- Any number of rounds is carried out. -/
theorem run_ok (measured : Measured lines) (rounds : Nat)
    (invariant : Invariant lines total state) :
    ∃ final, run rounds state = .ok final ∧ Invariant lines total final ∧
      (0 ≤ state.budget → 0 ≤ final.budget) := by
  induction rounds generalizing state with
  | zero => exact ⟨state, rfl, invariant, id⟩
  | succ rounds ih =>
      obtain ⟨next, stepped, kept, -, within, -⟩ := invariant.step measured
      obtain ⟨final, ran, still, within'⟩ := ih kept
      refine ⟨final, ?_, still, within' ∘ within⟩
      rw [run, stepped]
      exact ran

/-- The heap is empty after some rounds. -/
theorem run_terminates (measured : Measured lines) (invariant : Invariant lines total state) :
    ∃ rounds final, run rounds state = .ok final ∧ final.pq = [] := by
  induction left : work state using Nat.strong_induction_on generalizing state with
  | _ left_work ih =>
      by_cases emptied : state.pq = []
      · exact ⟨0, state, rfl, emptied⟩
      · obtain ⟨next, stepped, kept, -, -, less⟩ := invariant.step measured
        obtain ⟨rounds, final, ran, done⟩ := ih _ (left ▸ less emptied) kept rfl
        refine ⟨rounds + 1, final, ?_, done⟩
        rw [run, stepped]
        exact ran

/-- Every partition has one of its statistics, with the size and benefit that are kept for it. -/
structure Assigned (lines : List Line) (state : State) : Prop where
  once : (state.mapping.map Prod.fst).Nodup
  all : ∀ line ∈ lines, line.partition ∈ state.mapping.map Prod.fst
  chosen : ∀ entry ∈ state.mapping, ∃ line ∈ lines, line.partition = entry.1 ∧
    line.statistic = entry.2 ∧ state.currentSize entry.1 = line.size ∧
    state.currentPruningPower entry.1 = line.benefit

/-- No partition can be switched to a larger statistic with a higher benefit. -/
def Maximal (budget : Int) (lines : List Line) (state : State) : Prop :=
  ∀ line ∈ lines, state.currentSize line.partition < line.size →
    state.currentPruningPower line.partition < line.benefit →
    budget < state.total + (line.size - state.currentSize line.partition)

namespace Invariant

theorem total_eq (invariant : Invariant lines total state) : state.budget + state.total = total := by
  rw [State.total, invariant.keys]
  exact invariant.spent

theorem assigned (measured : Measured lines) (invariant : Invariant lines total state) :
    Assigned lines state where
  once := invariant.keys ▸ measured.once
  all := invariant.keys ▸ measured.baseline
  chosen := invariant.chosen

/-- With an empty heap everything left was looked at. -/
theorem maximal (invariant : Invariant lines total state) (emptied : state.pq = []) :
    Maximal total lines state := by
  intro line member larger better
  by_cases base : line.statistic = 0
  · rw [Line.benefit, if_pos base] at better
    exact absurd (invariant.nonnegative line.partition) (not_le.mpr better)
  · rw [Line.benefit, if_neg base] at better
    have spent := invariant.total_eq
    rcases invariant.resolved line member base with ⟨item, inside, -⟩ | worse | tooLarge
    · rw [emptied] at inside
      exact absurd inside List.not_mem_nil
    · exact absurd better (not_lt.mpr worse)
    · omega

end Invariant

/--
The heap loop divides by no zero, ends, and always has one statistic for every partition: within
the budget where the initial assignment is, with benefits that only grow, and maximal at its end.
-/
theorem heapLoop_maximal (lines : List Line) (budget : Int) (measured : Measured lines) :
    ∃ start, load budget lines = .ok start ∧
      (∃ rounds final, run rounds start = .ok final ∧ final.pq = []) ∧
      ∀ rounds, ∃ state, run rounds start = .ok state ∧ Assigned lines state ∧
        (start.total ≤ budget → state.total ≤ budget) ∧
        (∃ next, step state = .ok next ∧ ∀ partition,
          state.currentPruningPower partition ≤ next.currentPruningPower partition) ∧
        (state.pq = [] → Maximal budget lines state) := by
  have invariant := loaded_invariant measured budget
  have positive : ∀ line ∈ lines, line.statistic ≠ 0 → line.size ≠ 0 := by
    intro line held other
    obtain ⟨base, isBase, same⟩ := List.mem_map.mp (measured.baseline line held)
    obtain ⟨baseHeld, zero⟩ := mem_baselines.mp isBase
    exact ne_of_gt (measured.larger base baseHeld line held same zero other).2
  refine ⟨loaded budget lines, load_eq budget lines measured.once positive,
    run_terminates measured invariant, fun rounds => ?_⟩
  obtain ⟨state, ran, kept, within⟩ := run_ok measured rounds invariant
  obtain ⟨next, stepped, -, grows, -, -⟩ := kept.step measured
  refine ⟨state, ran, kept.assigned measured, fun start => ?_, ⟨next, stepped, grows⟩, kept.maximal⟩
  have spent := kept.total_eq
  have spent' := invariant.total_eq
  omega

/-- Two columns of one row group, the second with a statistic that outgrows another. -/
theorem heapLoop_maximal_columns :
    ∃ start, load 40 [⟨("t", 0, 0), 0, 8, 0⟩, ⟨("t", 0, 0), 2, 24, 3⟩, ⟨("t", 0, 1), 0, 8, 0⟩,
        ⟨("t", 0, 1), 1, 10, 1⟩, ⟨("t", 0, 1), 5, 20, 5 / 2⟩] = .ok start ∧
      ∃ rounds final, run rounds start = .ok final ∧ final.pq = [] := by
  have measured : Measured [⟨("t", 0, 0), 0, 8, 0⟩, ⟨("t", 0, 0), 2, 24, 3⟩,
      ⟨("t", 0, 1), 0, 8, 0⟩, ⟨("t", 0, 1), 1, 10, 1⟩, ⟨("t", 0, 1), 5, 20, 5 / 2⟩] := by
    constructor
    · decide
    · decide
    · decide
  obtain ⟨start, read, ends, -⟩ := heapLoop_maximal _ 40 measured
  exact ⟨start, read, ends⟩

end Greedy

end StatsRecommender
