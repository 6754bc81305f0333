import Mathlib.Data.List.Pairwise
import Mathlib.Tactic.Common

/-!
# Version chains

A value that is changed in place, with a chain of the values it had before each change.  Readers who
must not see a change take it back from the newest one on.
-/

namespace VersionChain

variable {W I V : Type} {move : W → W} {current : V} {settled' : I → Prop}

/--
The value that the newest version gives; where there is no version, it is one that the value may
have had before all of them.
-/
def Shows (base : V → Prop) (value : W → V) : List W → V → Prop
  | [], shown => base shown
  | version :: _, shown => shown = value version

/--
The chain goes back through the history, newest first.  From a settled version on nobody goes
further back, and the chain may have lost entries.
-/
inductive Traces (base : V → Prop) (value : W → V) (id : W → I) (settled : I → Prop) :
    List W → List (I × V) → Prop
  | settled {history : List W} {chain : List (I × V)}
      (head : ∀ version ∈ history.head?, settled (id version))
      (all : ∀ entry ∈ chain, settled entry.1) : Traces base value id settled history chain
  | undo {version : W} {old : V} {history : List W} {chain : List (I × V)}
      (shows : Shows base value history old) (rest : Traces base value id settled history chain) :
      Traces base value id settled (version :: history) ((id version, old) :: chain)

/-- Take back what applies, from the newest change on. -/
def takeBack (applies : I → Bool) (current : V) (chain : List (I × V)) : V :=
  chain.foldl (fun value entry => if applies entry.1 then entry.2 else value) current

/-- Where a version applies, so do all newer ones. -/
def Closed (id : W → I) (applies : I → Bool) (history : List W) : Prop :=
  history.Pairwise fun newer older => applies (id older) = true → applies (id newer) = true

variable {base : V → Prop} {value : W → V} {id : W → I} {settled : I → Prop} {history : List W}
  {chain : List (I × V)} {applies : I → Bool}

theorem Shows.map {shown : V} (shows : Shows base value history shown)
    (same : ∀ version, value (move version) = value version) :
    Shows base value (history.map move) shown := by
  cases history with
  | nil => exact shows
  | cons version history => exact shows.trans (same version).symm

theorem takeBack_of_none (none : ∀ entry ∈ chain, applies entry.1 = false) :
    takeBack applies current chain = current := by
  induction chain with
  | nil => rfl
  | cons entry chain ih =>
      have first : applies entry.1 = false := none entry List.mem_cons_self
      rw [takeBack, List.foldl_cons, first]
      exact ih fun later member => none later (List.mem_cons_of_mem _ member)

namespace Traces

/-- More may be settled. -/
theorem mono (traces : Traces base value id settled history chain)
    (weaker : ∀ id, settled id → settled' id) : Traces base value id settled' history chain := by
  induction traces with
  | settled head all =>
      exact .settled (fun version member => weaker _ (head version member))
        fun entry member => weaker _ (all entry member)
  | undo shows _ ih => exact .undo shows ih

/-- An unsettled version has an entry in the chain. -/
theorem exists_undo {version : W}
    (traces : Traces base value id settled (version :: history) chain)
    (unsettled : ¬settled (id version)) :
    ∃ old rest, chain = (id version, old) :: rest ∧ Shows base value history old ∧
      Traces base value id settled history rest := by
  cases traces with
  | settled head _ => exact absurd (head version rfl) unsettled
  | undo shows rest => exact ⟨_, _, rfl, shows, rest⟩

/-- An unsettled version may change its value. -/
theorem replace {version version' : W}
    (traces : Traces base value id settled (version :: history) chain)
    (unsettled : ¬settled (id version)) (same : id version' = id version) :
    Traces base value id settled (version' :: history) chain := by
  obtain ⟨old, rest, rfl, shows, older⟩ := traces.exists_undo unsettled
  rw [← same]
  exact .undo shows older

section

variable (traces : Traces base value id settled history chain)
include traces

/-- What the chain holds is settled or belongs to a version. -/
theorem settled_or_mem :
    ∀ entry ∈ chain, settled entry.1 ∨ ∃ version ∈ history, id version = entry.1 := by
  induction traces with
  | settled _ all => exact fun entry member => .inl (all entry member)
  | @undo version old history chain _ _ ih =>
      intro entry member
      rcases List.mem_cons.mp member with rfl | later
      · exact .inr ⟨version, List.mem_cons_self, rfl⟩
      · rcases ih entry later with settled | ⟨found, older, same⟩
        · exact .inl settled
        · exact .inr ⟨found, List.mem_cons_of_mem _ older, same⟩

/-- Versions may be renamed, together with their entries. -/
theorem rename {moveId : I → I} (sameValue : ∀ version, value (move version) = value version)
    (sameId : ∀ version ∈ history, id (move version) = moveId (id version))
    (kept : ∀ id, settled id → settled' (moveId id)) :
    Traces base value id settled' (history.map move)
      (chain.map fun entry => (moveId entry.1, entry.2)) := by
  induction traces with
  | settled head all =>
      refine .settled (fun version member => ?_) fun entry member => ?_
      · rw [List.head?_map, Option.mem_def, Option.map_eq_some_iff] at member
        obtain ⟨original, first, rfl⟩ := member
        rw [sameId original (List.mem_of_mem_head? first)]
        exact kept _ (head original first)
      · obtain ⟨original, there, rfl⟩ := List.mem_map.mp member
        exact kept _ (all original there)
  | @undo version old history chain shows _ ih =>
      rw [List.map_cons, List.map_cons, ← sameId version List.mem_cons_self]
      exact .undo (shows.map sameValue)
        (ih fun older member => sameId older (List.mem_cons_of_mem _ member))

/-- A settled entry may be dropped. -/
theorem drop [DecidableEq I] {gone : I} (done : settled gone)
    (older : history.Pairwise fun newer older => settled (id newer) → settled (id older)) :
    Traces base value id settled history (chain.filter fun entry => decide (entry.1 ≠ gone)) := by
  induction traces with
  | settled head all =>
      exact .settled head fun entry member => all entry (List.mem_filter.mp member).1
  | @undo version old history chain shows rest ih =>
      obtain ⟨settles, older⟩ := List.pairwise_cons.mp older
      by_cases same : id version = gone
      · refine .settled (fun first is_first => ?_) fun entry member => ?_
        · cases is_first
          rw [same]
          exact done
        · rw [List.filter_cons_of_neg (by simpa using same)] at member
          rcases rest.settled_or_mem entry (List.mem_filter.mp member).1 with
            settled | ⟨found, member, same_id⟩
          · exact settled
          · rw [← same_id]
            exact settles found member (by rw [same]; exact done)
      · rw [List.filter_cons_of_pos (by simpa using same)]
        exact .undo shows (ih older)

/-- A reader is shown the newest version that does not apply. -/
theorem shows_takeBack (shows : Shows base value history current)
    (unsettled : ∀ id, settled id → applies id = false) (closed : Closed id applies history) :
    Shows base value (history.filter fun version => !applies (id version))
      (takeBack applies current chain) := by
  induction traces generalizing current with
  | @settled history chain head all =>
      rw [takeBack_of_none fun entry member => unsettled _ (all entry member)]
      cases history with
      | nil => exact shows
      | cons version history =>
          rw [List.filter_cons_of_pos (by rw [unsettled _ (head version rfl)]; rfl)]
          exact shows
  | @undo version old history chain older rest ih =>
      obtain ⟨newer, closed⟩ := List.pairwise_cons.mp closed
      rw [takeBack, List.foldl_cons]
      cases applied : applies (id version) with
      | true =>
          rw [List.filter_cons_of_neg (by rw [applied]; decide), if_pos rfl]
          exact ih older closed
      | false =>
          have rest_none : ∀ entry ∈ chain, applies entry.1 = false := by
            intro entry member
            rcases rest.settled_or_mem entry member with settled | ⟨found, member, same⟩
            · exact unsettled _ settled
            · cases applied' : applies entry.1 with
              | false => rfl
              | true =>
                  rw [← same] at applied'
                  rw [newer found member applied'] at applied
                  cases applied
          rw [List.filter_cons_of_pos (by rw [applied]; rfl)]
          exact (takeBack_of_none rest_none).trans shows

/-- An entry applies exactly if the newest version does. -/
theorem applies_iff (unsettled : ∀ id, settled id → applies id = false)
    (closed : Closed id applies history) :
    (∃ entry ∈ chain, applies entry.1 = true) ↔
      ∃ version ∈ history.head?, applies (id version) = true := by
  constructor
  · rintro ⟨entry, member, applied⟩
    rcases traces.settled_or_mem entry member with settled | ⟨found, member, same⟩
    · rw [unsettled _ settled] at applied
      cases applied
    · rw [← same] at applied
      cases history with
      | nil => cases member
      | cons version history =>
          refine ⟨version, rfl, ?_⟩
          rcases List.mem_cons.mp member with rfl | older
          · exact applied
          · exact (List.pairwise_cons.mp closed).1 found older applied
  · rintro ⟨version, first, applied⟩
    cases history with
    | nil => cases first
    | cons newest history =>
        cases first
        have open_version : ¬settled (id version) := by
          intro settled
          rw [unsettled _ settled] at applied
          cases applied
        obtain ⟨old, rest, rfl, -, -⟩ := traces.exists_undo open_version
        exact ⟨_, List.mem_cons_self, applied⟩

end

end Traces

end VersionChain
