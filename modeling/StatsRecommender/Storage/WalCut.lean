import StatsRecommender.Storage.WalEntries

/-!
# Replaying a cut log

A log that is cut at any byte is replayed up to the last flush in front of the cut.
-/

namespace StatsRecommender

open ByteReader

variable {Change Target Contents : Type} {records : ChangeRecords Change Target}
  {database written : DatabaseFile Contents} {deserializeOnly : Bool} {fileSize : Nat}
  {entry : WalEntry Change} {state state' : ReplayState Target} {position size : Nat}
  {before after : Contents} {changes : List Change} {progress : ReplayProgress Target}

/-! ## One entry -/

def WalEntry.isFlush : WalEntry Change → Bool
  | change _ => false
  | checkpoint _ => false
  | flush => true

/-- What replaying an entry does to a state. -/
inductive WalEntry.Replays (records : ChangeRecords Change Target) :
    Bool → WalEntry Change → ReplayState Target → ReplayState Target → Prop
  | skipped {record : Change} {state : ReplayState Target}
      (other : records.walType record ≠ .createType) :
      Replays records true (change record) state state
  | replayed {record : Change} {state : ReplayState Target} {target : Target}
      (ran : records.replay record state.target = .ok target) :
      Replays records false (change record) state { state with target }
  | checkpoint {deserializeOnly : Bool} {metaBlock : MetaBlockPointer} {state : ReplayState Target}
      (fits : metaBlock.Fits) :
      Replays records deserializeOnly (checkpoint metaBlock) state
        { state with checkpointId := metaBlock }
  | flush {deserializeOnly : Bool} {state : ReplayState Target} :
      Replays records deserializeOnly flush state state

theorem WalEntry.Replays.walVersion (replays : entry.Replays records deserializeOnly state state') :
    state'.walVersion = state.walVersion := by
  cases replays with
  | skipped other => rfl
  | replayed ran => rfl
  | checkpoint fits => rfl
  | flush => rfl

theorem WalEntry.Replays.replayEntry (lawful : records.Lawful)
    (replays : entry.Replays records deserializeOnly state state') :
    replayEntry records database endOfBuffer deserializeOnly state (entry.payload records) =
      (state', .ok (entry.isFlush, [])) := by
  rw [← List.append_nil (entry.payload records)]
  cases replays with
  | skipped other =>
      exact replayEntry_change lawful torn_endOfBuffer _ (fun h => by cases h)
        (fun _ => ⟨other, rfl⟩) []
  | replayed ran =>
      exact replayEntry_change lawful torn_endOfBuffer _ (fun _ => ran) (fun h => by cases h) []
  | checkpoint fits => exact replayEntry_checkpoint torn_endOfBuffer fits []
  | flush => exact replayEntry_flush torn_endOfBuffer []

/-- An entry of the file is replayed. -/
theorem WalEntry.Replays.replayNext {entry : WalEntry Change} {state state' : ReplayState Target}
    (lawful : records.Lawful) (replays : entry.Replays records deserializeOnly state state')
    (version : state.walVersion = walVersionNumber) {rest : List UInt8}
    (inside : (entry.bytes records ++ rest).length ≤ fileSize) (small : fileSize < 2 ^ 64) :
    replayNext records database fileSize deserializeOnly state (entry.bytes records ++ rest) =
      (state', .ok (entry.isFlush, rest)) := by
  rw [StatsRecommender.replayNext, version, if_neg (by decide),
    if_pos (show walVersionNumber = 2 from rfl), readBuffer_bytes entry inside small]
  dsimp only
  rw [replays.replayEntry lawful]
  rfl

/-- The first bytes of an entry are no entry. -/
theorem replayNext_torn {state : ReplayState Target} (version : state.walVersion = walVersionNumber)
    (entry : WalEntry Change) {size : Nat} (below : size < (entry.bytes records).length)
    (inside : size ≤ fileSize) (small : fileSize + (entry.bytes records).length < 2 ^ 64) :
    ∃ exception, replayNext records database fileSize deserializeOnly state
      ((entry.bytes records).take size) = (state, .error exception) ∧ Torn exception := by
  obtain ⟨exception, failed, torn⟩ := readBuffer_torn entry below inside small
  refine ⟨exception, ?_, torn⟩
  rw [StatsRecommender.replayNext, version, if_neg (by decide),
    if_pos (show walVersionNumber = 2 from rfl), failed]

/-! ## All entries -/

/-- The progress of the loop behind an entry that ends at a position. -/
def ReplayProgress.behind (records : ChangeRecords Change Target) (deserializeOnly : Bool)
    (position : Nat) (progress : ReplayProgress Target) (state : ReplayState Target)
    (entry : WalEntry Change) : ReplayProgress Target :=
  if entry.isFlush && !deserializeOnly then
    ⟨{ state with target := records.commit state.target }, records.commit state.target, position⟩
  else { progress with state }

theorem ReplayProgress.flushed_eq (flush : entry.isFlush = true) (progress : ReplayProgress Target)
    (state : ReplayState Target) {rest : List UInt8} (here : fileSize - rest.length = position) :
    progress.flushed records fileSize deserializeOnly state rest =
      progress.behind records deserializeOnly position state entry := by
  rw [ReplayProgress.flushed, behind, flush, here]
  cases deserializeOnly with
  | true => rfl
  | false => rfl

theorem ReplayProgress.behind_other (other : entry.isFlush = false) (position : Nat)
    (progress : ReplayProgress Target) (state : ReplayState Target) :
    progress.behind records deserializeOnly position state entry = { progress with state } := by
  rw [behind, other]
  rfl

/-- The bytes of some entries. -/
def entryBytes (records : ChangeRecords Change Target) (entries : List (WalEntry Change)) :
    List UInt8 :=
  entries.flatMap fun entry => entry.bytes records

/-- Entries from one position to another, with the progress of the loop at both. -/
inductive ReplaysAll (records : ChangeRecords Change Target) (deserializeOnly : Bool) :
    Nat → ReplayProgress Target → List (WalEntry Change) → Nat → ReplayProgress Target → Prop
  | nil {position : Nat} {progress : ReplayProgress Target} :
      ReplaysAll records deserializeOnly position progress [] position progress
  | cons {position position' : Nat} {progress progress' : ReplayProgress Target}
      {entry : WalEntry Change} {entries : List (WalEntry Change)} {state : ReplayState Target}
      (first : entry.Replays records deserializeOnly progress.state state)
      (rest : ReplaysAll records deserializeOnly (position + (entry.bytes records).length)
        (progress.behind records deserializeOnly (position + (entry.bytes records).length) state
          entry) entries position' progress') :
      ReplaysAll records deserializeOnly position progress (entry :: entries) position' progress'

theorem length_flush_bytes : ((WalEntry.flush : WalEntry Change).bytes records).length = 21 := by
  rw [WalEntry.bytes, WalEntry.payload]
  decide

theorem bytes_ne_nil (entry : WalEntry Change) : entry.bytes records ≠ [] := by
  have length : (entry.bytes records).length = 16 + (entry.payload records).length := by
    rw [WalEntry.bytes]
    simp only [List.length_append, ByteOrder.length_littleEndianBytes]
    omega
  rintro nothing
  rw [nothing, List.length_nil] at length
  omega

/-- The loop replays the entries that are there, up to a cut. -/
theorem replayLoop_spec (lawful : records.Lawful) {position position' rounds : Nat}
    {progress progress' : ReplayProgress Target} {entries : List (WalEntry Change)}
    (replays : ReplaysAll records deserializeOnly position progress entries position' progress')
    (version : progress.state.walVersion = walVersionNumber) (torn : WalEntry Change) {size : Nat}
    (cut : size < (torn.bytes records).length)
    (fileSize_eq : fileSize = position + (entryBytes records entries).length + size)
    (small : fileSize + (torn.bytes records).length < 2 ^ 64)
    (enough : entries.length < rounds) :
    ∃ exception, replayLoop records database fileSize deserializeOnly rounds progress
        (entryBytes records entries ++ (torn.bytes records).take size) = ⟨progress', exception⟩ ∧
      (∀ raised ∈ exception, Torn raised) ∧
      (exception = none ↔ size = 0 ∧ (entries.getLast?.any WalEntry.isFlush) = true) := by
  induction replays generalizing rounds with
  | nil =>
      cases rounds with
      | zero => exact absurd enough (Nat.not_lt_zero _)
      | succ rounds =>
          obtain ⟨exception, failed, is_torn⟩ := @replayNext_torn _ _ _ records database
            deserializeOnly fileSize _ version torn size cut (by omega) small
          rw [entryBytes, List.flatMap_nil, List.nil_append, replayLoop, failed]
          refine ⟨some exception, rfl, fun raised same => ?_, ?_⟩
          · rw [← Option.some.inj same]
            exact is_torn
          · simp
  | @cons position position' progress progress' entry entries state first rest ih =>
      cases rounds with
      | zero => exact absurd enough (Nat.not_lt_zero _)
      | succ rounds =>
          have tail_length : ((torn.bytes records).take size).length = size :=
            List.length_take_of_le cut.le
          have total : (entryBytes records (entry :: entries)).length =
              (entry.bytes records).length + (entryBytes records entries).length := by
            rw [entryBytes, List.flatMap_cons, List.length_append]
            rfl
          have stream : entryBytes records (entry :: entries) ++ (torn.bytes records).take size =
              entry.bytes records ++
                (entryBytes records entries ++ (torn.bytes records).take size) := by
            rw [entryBytes, List.flatMap_cons, List.append_assoc]
            rfl
          have next := @WalEntry.Replays.replayNext _ _ _ records database deserializeOnly fileSize
            entry progress.state state lawful first version
            (entryBytes records entries ++ (torn.bytes records).take size) (by
              rw [List.length_append, List.length_append, tail_length]
              omega) (by omega)
          obtain ⟨exception, ran, raised, ended⟩ := ih
            (show (progress.behind records deserializeOnly _ state entry).state.walVersion = _ by
              have kept := first.walVersion.trans version
              rw [ReplayProgress.behind]
              split
              · exact kept
              · exact kept) (by omega) (Nat.lt_of_succ_lt_succ enough)
          rw [stream, replayLoop, next]
          cases flush : entry.isFlush with
          | false =>
              rw [ReplayProgress.behind_other flush] at ran
              refine ⟨exception, ran, raised, ended.trans ?_⟩
              cases entries with
              | nil => simp [flush]
              | cons second entries => rw [List.getLast?_cons_cons]
          | true =>
              dsimp only
              rw [if_pos rfl, ReplayProgress.flushed_eq flush progress state
                (show fileSize - (entryBytes records entries ++
                    (torn.bytes records).take size).length =
                    position + (entry.bytes records).length by
                  rw [List.length_append, tail_length]
                  omega)]
              by_cases last : (entryBytes records entries ++
                  (torn.bytes records).take size).isEmpty = true
              · rw [if_pos last]
                rw [List.isEmpty_iff, List.append_eq_nil_iff] at last
                have no_size : size = 0 := by
                  rw [← tail_length, last.2, List.length_nil]
                cases entries with
                | nil =>
                    cases rest with
                    | nil => exact ⟨none, rfl, fun _ none => (by cases none), by simp [no_size, flush]⟩
                | cons second entries =>
                    rw [entryBytes, List.flatMap_cons, List.append_eq_nil_iff] at last
                    exact absurd last.1.1 (bytes_ne_nil second)
              · rw [if_neg last]
                refine ⟨exception, ran, raised, ended.trans ?_⟩
                cases entries with
                | nil =>
                    have some_size : size ≠ 0 := by
                      rintro rfl
                      exact last rfl
                    simp [some_size]
                | cons second entries => rw [List.getLast?_cons_cons]

/-! ## The first reading -/

/-- The last checkpoint of some entries. -/
def lastCheckpoint (checkpointId : MetaBlockPointer) : List (WalEntry Change) → MetaBlockPointer
  | [] => checkpointId
  | .checkpoint metaBlock :: entries => lastCheckpoint metaBlock entries
  | .change _ :: entries => lastCheckpoint checkpointId entries
  | .flush :: entries => lastCheckpoint checkpointId entries

/-- An entry that the first reading passes by. -/
def WalEntry.Passed (records : ChangeRecords Change Target) : WalEntry Change → Prop
  | change record => records.walType record ≠ .createType
  | checkpoint metaBlock => metaBlock.Fits
  | flush => True

theorem behind_true (position : Nat) (progress : ReplayProgress Target)
    (state : ReplayState Target) (entry : WalEntry Change) :
    progress.behind records true position state entry = { progress with state } := by
  rw [ReplayProgress.behind, Bool.not_true, Bool.and_false, if_neg Bool.false_ne_true]

/-- The first reading looks for the last checkpoint. -/
theorem replaysAll_true {entries : List (WalEntry Change)}
    (passed : ∀ entry ∈ entries, entry.Passed records) (position : Nat)
    (progress : ReplayProgress Target) :
    ReplaysAll records true position progress entries
      (position + (entryBytes records entries).length)
      { progress with
        state :=
          { progress.state with
            checkpointId := lastCheckpoint progress.state.checkpointId entries } } := by
  induction entries generalizing position progress with
  | nil => exact .nil
  | cons entry entries ih =>
      have here := passed entry List.mem_cons_self
      have ends : position + (entryBytes records (entry :: entries)).length =
          position + (entry.bytes records).length + (entryBytes records entries).length := by
        rw [entryBytes, List.flatMap_cons, List.length_append, Nat.add_assoc]
        rfl
      rw [ends]
      have rest := fun progress => ih (fun other member =>
        passed other (List.mem_cons_of_mem _ member)) (position + (entry.bytes records).length)
          progress
      cases entry with
      | change record =>
          refine .cons (.skipped here) ?_
          rw [behind_true]
          exact rest _
      | checkpoint metaBlock =>
          refine .cons (.checkpoint here) ?_
          rw [behind_true]
          exact rest _
      | flush =>
          refine .cons .flush ?_
          rw [behind_true]
          exact rest _

theorem mem_lastCheckpoint {entries : List (WalEntry Change)} (checkpointId : MetaBlockPointer) :
    lastCheckpoint checkpointId entries = checkpointId ∨
      .checkpoint (lastCheckpoint checkpointId entries) ∈ entries := by
  induction entries generalizing checkpointId with
  | nil => exact .inl rfl
  | cons entry entries ih =>
      cases entry with
      | change record => exact (ih checkpointId).imp_right (List.mem_cons_of_mem _)
      | flush => exact (ih checkpointId).imp_right (List.mem_cons_of_mem _)
      | checkpoint metaBlock =>
          rcases ih metaBlock with last | later
          · refine .inr ?_
            rw [lastCheckpoint, last]
            exact List.mem_cons_self
          · exact .inr (List.mem_cons_of_mem _ later)

theorem lastCheckpoint_append (checkpointId : MetaBlockPointer)
    (entries entries' : List (WalEntry Change)) :
    lastCheckpoint checkpointId (entries ++ entries') =
      lastCheckpoint (lastCheckpoint checkpointId entries) entries' := by
  induction entries generalizing checkpointId with
  | nil => rfl
  | cons entry entries ih =>
      cases entry with
      | change record => exact ih checkpointId
      | flush => exact ih checkpointId
      | checkpoint metaBlock => exact ih metaBlock

/-! ## The second reading -/

/-- What a database contains, of which the replay only sees a target. -/
structure TargetContents (records : ChangeRecords Change Target) (Contents : Type) where
  /-- The database that a checkpoint leaves, as it is loaded. -/
  start : Contents → Target
  contents : Target → Contents
  contents_start : ∀ contents', contents (start contents') = contents'
  contents_commit : ∀ target, contents (records.commit target) = contents target

/-- Changes that lead from some contents to others, however these came about. -/
def Effect (view : TargetContents records Contents) (before : Contents) (changes : List Change)
    (after : Contents) : Prop :=
  ∀ target, view.contents target = before →
    ∃ target', changes.foldlM (fun target change => records.replay change target) target =
      .ok target' ∧ view.contents target' = after

/-- What a log is made of: transactions, and checkpoints that were announced. -/
inductive LogUnit (Change : Type) where
  | transaction (changes : List Change)
  | checkpoint (metaBlock : MetaBlockPointer)

variable {view : TargetContents records Contents}

theorem Effect.functional {after' : Contents} (effect : Effect view before changes after)
    (effect' : Effect view before changes after') : after = after' := by
  obtain ⟨target, replayed, contents⟩ := effect _ (view.contents_start before)
  obtain ⟨target', replayed', contents'⟩ := effect' _ (view.contents_start before)
  obtain rfl : target = target' := Except.ok.inj (replayed.symm.trans replayed')
  exact contents.symm.trans contents'

theorem effect_nil (view : TargetContents records Contents) (contents : Contents) :
    Effect view contents [] contents := fun target same => ⟨target, rfl, same⟩

variable {units units' : List (LogUnit Change)}

namespace LogUnit

def entries : LogUnit Change → List (WalEntry Change)
  | transaction changes => changes.map WalEntry.change ++ [.flush]
  | checkpoint metaBlock => [.checkpoint metaBlock, .flush]

/-- The units of a log lead from some contents to others. -/
inductive Chain (view : TargetContents records Contents) :
    Contents → List (LogUnit Change) → Contents → Prop
  | nil {contents : Contents} : Chain view contents [] contents
  | transaction {before middle after : Contents} {changes : List Change}
      {units : List (LogUnit Change)} (effect : Effect view before changes middle)
      (types : ∀ record ∈ changes, records.walType record ≠ .createType)
      (rest : Chain view middle units after) :
      Chain view before (transaction changes :: units) after
  | checkpoint {before after : Contents} {metaBlock : MetaBlockPointer}
      {units : List (LogUnit Change)} (fits : metaBlock.Fits) (rest : Chain view before units after) :
      Chain view before (checkpoint metaBlock :: units) after

theorem Chain.append {middle : Contents} (first : Chain view before units middle)
    (second : Chain view middle units' after) : Chain view before (units ++ units') after := by
  induction first with
  | nil => exact second
  | transaction effect types rest ih => exact .transaction effect types (ih second)
  | checkpoint fits rest ih => exact .checkpoint fits (ih second)

theorem Chain.split (chain : Chain view before (units ++ units') after) :
    ∃ middle, Chain view before units middle ∧ Chain view middle units' after := by
  induction units generalizing before with
  | nil => exact ⟨before, .nil, chain⟩
  | cons unit units ih =>
      cases chain with
      | transaction effect types rest =>
          obtain ⟨middle, front, back⟩ := ih rest
          exact ⟨middle, .transaction effect types front, back⟩
      | checkpoint fits rest =>
          obtain ⟨middle, front, back⟩ := ih rest
          exact ⟨middle, .checkpoint fits front, back⟩

theorem Chain.functional {after' : Contents} (chain : Chain view before units after)
    (chain' : Chain view before units after') : after = after' := by
  induction chain with
  | nil =>
      cases chain' with
      | nil => rfl
  | transaction effect types rest ih =>
      cases chain' with
      | transaction effect' types' rest' =>
          obtain rfl := effect.functional effect'
          exact ih rest'
  | checkpoint fits rest ih =>
      cases chain' with
      | checkpoint fits' rest' => exact ih rest'

/-- A unit ends with its only flush. -/
theorem entries_eq (unit : LogUnit Change) :
    ∃ front, unit.entries = front ++ [.flush] ∧ ∀ entry ∈ front, entry.isFlush = false := by
  cases unit with
  | transaction changes =>
      refine ⟨_, rfl, fun entry member => ?_⟩
      obtain ⟨record, -, rfl⟩ := List.mem_map.mp member
      rfl
  | checkpoint metaBlock =>
      refine ⟨[.checkpoint metaBlock], rfl, fun entry member => ?_⟩
      rw [List.mem_singleton.mp member]
      rfl

/-- The first entries of a log are those of whole units, and some of the next one. -/
theorem prefix_units {whole rest : List (WalEntry Change)} {torn : WalEntry Change}
    (split : units.flatMap entries = whole ++ torn :: rest) :
    ∃ (done : List (LogUnit Change)) (unit : LogUnit Change) (left : List (LogUnit Change))
      (part tail : List (WalEntry Change)),
      units = done ++ unit :: left ∧ whole = done.flatMap entries ++ part ∧
        unit.entries = part ++ torn :: tail ∧ ∀ entry ∈ part, entry.isFlush = false := by
  induction units generalizing whole with
  | nil => exact absurd split.symm (List.append_ne_nil_of_right_ne_nil _ (List.cons_ne_nil _ _))
  | cons unit units ih =>
      rw [List.flatMap_cons] at split
      rcases List.append_eq_append_iff.mp split with ⟨middle, inside, behind⟩ | ⟨middle, inside, behind⟩
      · -- all of the unit is there
        obtain ⟨done, next, left, part, tail, same, parts, entries, flushes⟩ := ih behind
        refine ⟨unit :: done, next, left, part, tail, by rw [same]; rfl, ?_, entries, flushes⟩
        rw [inside, parts, List.flatMap_cons, List.append_assoc]
      · cases middle with
        | nil =>
            rw [List.append_nil] at inside
            obtain ⟨done, next, left, part, tail, same, parts, entries, flushes⟩ :=
              @ih [] behind.symm
            refine ⟨unit :: done, next, left, part, tail, by rw [same]; rfl, ?_, entries, flushes⟩
            rw [List.flatMap_cons, List.append_assoc, ← parts, List.append_nil, inside]
        | cons entry middle =>
            rw [List.cons_append] at behind
            obtain ⟨rfl, -⟩ := List.cons.inj behind
            refine ⟨[], unit, units, whole, middle, rfl, rfl, inside, ?_⟩
            obtain ⟨front, entries, flushes⟩ := unit.entries_eq
            have last : front ++ [WalEntry.flush] = whole ++ torn :: middle :=
              entries.symm.trans inside
            intro other member
            rcases List.append_eq_append_iff.mp last with
              ⟨between, front_eq, single⟩ | ⟨between, front_eq, -⟩
            · cases between with
              | nil =>
                  rw [List.append_nil] at front_eq
                  exact flushes other (front_eq ▸ member)
              | cons first between =>
                  have lengths := congrArg List.length single
                  simp only [List.length_append, List.length_cons, List.length_nil] at lengths
                  omega
            · exact flushes other (front_eq ▸ List.mem_append_left _ member)

end LogUnit

/-! ## The cut -/

theorem entryBytes_cons (entry : WalEntry Change) (entries : List (WalEntry Change)) :
    entryBytes records (entry :: entries) = entry.bytes records ++ entryBytes records entries := rfl

theorem entryBytes_append (entries entries' : List (WalEntry Change)) :
    entryBytes records (entries ++ entries') =
      entryBytes records entries ++ entryBytes records entries' := List.flatMap_append

/-- A cut in the bytes of some entries is a cut in one of them. -/
theorem entryBytes_take (entries : List (WalEntry Change))
    (below : size < (entryBytes records entries).length) :
    ∃ (whole : List (WalEntry Change)) (torn : WalEntry Change) (rest : List (WalEntry Change))
      (cut : Nat), entries = whole ++ torn :: rest ∧ cut < (torn.bytes records).length ∧
        size = (entryBytes records whole).length + cut ∧
        (entryBytes records entries).take size =
          entryBytes records whole ++ (torn.bytes records).take cut := by
  induction entries generalizing size with
  | nil => exact absurd below (Nat.not_lt_zero _)
  | cons entry entries ih =>
      rw [entryBytes_cons, List.length_append] at below
      by_cases inside : size < (entry.bytes records).length
      · refine ⟨[], entry, entries, size, rfl, inside, (Nat.zero_add size).symm, ?_⟩
        rw [entryBytes_cons, List.take_append_of_le_length inside.le]
        rfl
      · obtain ⟨whole, torn, rest, cut, split, small, size_eq, taken⟩ :=
          @ih (size - (entry.bytes records).length) (by omega)
        refine ⟨entry :: whole, torn, rest, cut, by rw [split]; rfl, small, ?_, ?_⟩
        · rw [entryBytes_cons, List.length_append]
          omega
        · rw [entryBytes_cons, List.take_append, List.take_of_length_le (Nat.le_of_not_lt inside),
            taken, entryBytes_cons, List.append_assoc]

/-! ## What a whole log comes to -/

namespace ReplaysAll

variable {position position' : Nat} {progress progress' : ReplayProgress Target}
  {entries entries' : List (WalEntry Change)}

theorem position_eq
    (replays : ReplaysAll records deserializeOnly position progress entries position' progress') :
    position' = position + (entryBytes records entries).length := by
  induction replays with
  | nil => rfl
  | cons first rest ih => rw [ih, entryBytes_cons, List.length_append, Nat.add_assoc]

theorem append {position'' : Nat} {progress'' : ReplayProgress Target}
    (first : ReplaysAll records deserializeOnly position progress entries position' progress')
    (second : ReplaysAll records deserializeOnly position' progress' entries' position''
      progress'') :
    ReplaysAll records deserializeOnly position progress (entries ++ entries') position''
      progress'' := by
  induction first with
  | nil => exact second
  | cons head rest ih => exact .cons head (ih second)

theorem split
    (replays : ReplaysAll records deserializeOnly position progress (entries ++ entries') position'
      progress') :
    ∃ between middle, ReplaysAll records deserializeOnly position progress entries between middle ∧
      ReplaysAll records deserializeOnly between middle entries' position' progress' := by
  induction entries generalizing position progress with
  | nil => exact ⟨position, progress, .nil, replays⟩
  | cons entry entries ih =>
      cases replays with
      | cons first rest =>
          obtain ⟨between, middle, front, back⟩ := ih rest
          exact ⟨between, middle, .cons first front, back⟩

/-- Nothing is committed without a flush. -/
theorem kept
    (replays : ReplaysAll records deserializeOnly position progress entries position' progress')
    (no_flush : ∀ entry ∈ entries, entry.isFlush = false) :
    progress'.committed = progress.committed ∧
      progress'.successfulOffset = progress.successfulOffset := by
  induction replays with
  | nil => exact ⟨rfl, rfl⟩
  | cons first rest ih =>
      have kept := ih fun entry member => no_flush entry (List.mem_cons_of_mem _ member)
      rw [ReplayProgress.behind_other (no_flush _ List.mem_cons_self)] at kept
      exact kept

end ReplaysAll

theorem replaysAll_changes {target : Target}
    (replayed : changes.foldlM (fun target change => records.replay change target)
      progress.state.target = .ok target) :
    ReplaysAll records false position progress (changes.map WalEntry.change)
      (position + (entryBytes records (changes.map WalEntry.change)).length)
      { progress with state := { progress.state with target } } := by
  induction changes generalizing position progress with
  | nil =>
      rw [List.foldlM_nil] at replayed
      obtain rfl : progress.state.target = target := Except.ok.inj replayed
      exact .nil
  | cons change changes ih =>
      rw [List.foldlM_cons] at replayed
      cases first : records.replay change progress.state.target with
      | error exception =>
          rw [first] at replayed
          cases replayed
      | ok middle =>
          rw [first] at replayed
          have rest := @ih (position + ((WalEntry.change change).bytes records).length)
            { progress with state := { progress.state with target := middle } } replayed
          rw [List.map_cons, entryBytes_cons, List.length_append, ← Nat.add_assoc]
          refine .cons (.replayed first) ?_
          rw [ReplayProgress.behind_other rfl]
          exact rest

/-- The progress behind some units that lead to some contents. -/
structure ReplayProgress.Reached (view : TargetContents records Contents) (after : Contents)
    (offset : Nat) (progress : ReplayProgress Target) : Prop where
  target : view.contents progress.state.target = after
  committed : view.contents progress.committed = after
  successfulOffset : progress.successfulOffset = offset

namespace LogUnit

/-- The bytes of some units. -/
def bytes (records : ChangeRecords Change Target) (units : List (LogUnit Change)) : List UInt8 :=
  entryBytes records (units.flatMap entries)

theorem bytes_cons (unit : LogUnit Change) (units : List (LogUnit Change)) :
    bytes records (unit :: units) = entryBytes records unit.entries ++ bytes records units := by
  rw [bytes, List.flatMap_cons, entryBytes_append]
  rfl

theorem bytes_append (units units' : List (LogUnit Change)) :
    bytes records (units ++ units') = bytes records units ++ bytes records units' := by
  rw [bytes, List.flatMap_append, entryBytes_append]
  rfl

/-- A flush behind entries that are replayed. -/
theorem reached_flush {view : TargetContents records Contents} {after : Contents}
    {position between : Nat} {progress middle : ReplayProgress Target}
    {front : List (WalEntry Change)}
    (replays : ReplaysAll records false position progress front between middle)
    (target : view.contents middle.state.target = after) :
    ∃ progress', ReplaysAll records false position progress (front ++ [.flush])
        (position + (entryBytes records (front ++ [.flush])).length) progress' ∧
      progress'.Reached view after (position + (entryBytes records (front ++ [.flush])).length) := by
  have flushed : view.contents (records.commit middle.state.target) = after :=
    (view.contents_commit _).trans target
  have ends : position + (entryBytes records (front ++ [.flush])).length =
      between + ((WalEntry.flush : WalEntry Change).bytes records).length := by
    rw [replays.position_eq, entryBytes_append, List.length_append, Nat.add_assoc]
    simp [entryBytes]
  rw [ends]
  exact ⟨_, replays.append (.cons .flush .nil), flushed, flushed, rfl⟩

/-- The second reading of some units. -/
theorem Chain.replaysAll (chain : Chain view before units after) (position : Nat) {offset : Nat}
    (reached : progress.Reached view before offset) :
    ∃ progress', ReplaysAll records false position progress (units.flatMap entries)
        (position + (bytes records units).length) progress' ∧
      progress'.Reached view after
        (if units.isEmpty then offset else position + (bytes records units).length) := by
  induction chain generalizing position progress offset with
  | nil => exact ⟨progress, .nil, reached⟩
  | @transaction before middle after changes units effect types rest ih =>
      obtain ⟨target, replayed, target_contents⟩ := effect _ reached.target
      have changed : ReplaysAll records false position progress (changes.map WalEntry.change) _ _ :=
        replaysAll_changes replayed
      obtain ⟨flushed, front, there⟩ := reached_flush changed target_contents
      obtain ⟨progress', back, ended⟩ := ih _ there
      refine ⟨progress', ?_, ?_⟩
      · rw [bytes_cons, List.length_append, ← Nat.add_assoc]
        exact front.append back
      · rw [bytes_cons, List.length_append, ← Nat.add_assoc]
        cases units with
        | nil => exact ended
        | cons unit units => exact ended
  | @checkpoint before after metaBlock units fits rest ih =>
      obtain ⟨flushed, front, there⟩ := @reached_flush _ _ _ records view before position _ progress _
        [.checkpoint metaBlock] (.cons (.checkpoint fits) .nil) reached.target
      obtain ⟨progress', back, ended⟩ := ih _ there
      refine ⟨progress', ?_, ?_⟩
      · rw [bytes_cons, List.length_append, ← Nat.add_assoc]
        exact front.append back
      · rw [bytes_cons, List.length_append, ← Nat.add_assoc]
        cases units with
        | nil => exact ended
        | cons unit units => exact ended

/-- A cut in the bytes of some units is a cut in one of their entries. -/
theorem take_bytes (units : List (LogUnit Change)) (below : size < (bytes records units).length) :
    ∃ (done : List (LogUnit Change)) (unit : LogUnit Change) (left : List (LogUnit Change))
      (part tail : List (WalEntry Change)) (torn : WalEntry Change) (cut : Nat),
      units = done ++ unit :: left ∧ unit.entries = part ++ torn :: tail ∧
        (∀ entry ∈ part, entry.isFlush = false) ∧ cut < (torn.bytes records).length ∧
        size = (entryBytes records (done.flatMap entries ++ part)).length + cut ∧
        (bytes records units).take size =
          entryBytes records (done.flatMap entries ++ part) ++ (torn.bytes records).take cut := by
  obtain ⟨whole, torn, rest, cut, split, small, size_eq, taken⟩ := entryBytes_take _ below
  obtain ⟨done, unit, left, part, tail, units_eq, rfl, unit_eq, no_flush⟩ := prefix_units split
  exact ⟨done, unit, left, part, tail, torn, cut, units_eq, unit_eq, no_flush, small, size_eq, taken⟩

/-- The first reading passes by the units of a log. -/
theorem Chain.passed (chain : Chain view before units after) :
    ∀ entry ∈ units.flatMap entries, entry.Passed records := by
  induction chain with
  | nil => simp
  | transaction effect types rest ih =>
      intro entry member
      rw [List.flatMap_cons, List.mem_append] at member
      rcases member with here | later
      · rcases List.mem_append.mp here with change | flush
        · obtain ⟨record, is_change, rfl⟩ := List.mem_map.mp change
          exact types record is_change
        · rw [List.mem_singleton.mp flush]
          exact True.intro
      · exact ih entry later
  | checkpoint fits rest ih =>
      intro entry member
      rw [List.flatMap_cons, List.mem_append] at member
      rcases member with here | later
      · rcases List.mem_cons.mp here with rfl | flush
        · exact fits
        · rw [List.mem_singleton.mp flush]
          exact True.intro
      · exact ih entry later

/-- The checkpoints that some units announce. -/
theorem mem_entries_checkpoint {metaBlock : MetaBlockPointer}
    (member : WalEntry.checkpoint metaBlock ∈ units.flatMap entries) :
    LogUnit.checkpoint metaBlock ∈ units := by
  obtain ⟨unit, is_unit, here⟩ := List.mem_flatMap.mp member
  cases unit with
  | transaction changes => simp [entries] at here
  | checkpoint other =>
      simp only [entries, List.mem_cons, WalEntry.checkpoint.injEq, List.not_mem_nil, or_false,
        reduceCtorEq] at here
      rwa [here]

end LogUnit

end StatsRecommender
