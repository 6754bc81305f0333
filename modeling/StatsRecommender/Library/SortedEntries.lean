import Mathlib.Data.List.Pairwise
import Mathlib.Data.List.TakeWhile
import Mathlib.Order.Lattice
import Mathlib.Tactic.Common

/-!
# Sorted entries

Association lists whose keys increase: looking keys up, merging two of them, and finding out whether
they have a key in common.
-/

namespace SortedEntries

variable {K V : Type} [LinearOrder K] {entry : K × V} {entries others : List (K × V)} {key row : K}
  {value : V} {keys : List K}

/-- The keys of the entries increase. -/
def Sorted (entries : List (K × V)) : Prop :=
  entries.Pairwise fun first second => first.1 < second.1

/-- The value of a key. -/
def lookup (key : K) : List (K × V) → Option V
  | [] => none
  | entry :: entries => if entry.1 = key then some entry.2 else lookup key entries

theorem lookup_cons (key : K) (entry : K × V) (entries : List (K × V)) :
    lookup key (entry :: entries) =
      if entry.1 = key then some entry.2 else lookup key entries := rfl

/-- A first entry hides what comes behind. -/
theorem lookup_cons_or (key : K) (entry : K × V) (entries : List (K × V)) (other : Option V) :
    (lookup key (entry :: entries)).or other =
      if entry.1 = key then some entry.2 else (lookup key entries).or other := by
  rw [lookup_cons]
  split
  · rfl
  · rfl

theorem Sorted.tail (sorted : Sorted (entry :: entries)) :
    Sorted entries := (List.pairwise_cons.mp sorted).2

theorem Sorted.head {other : K × V} (sorted : Sorted (entry :: entries))
    (member : other ∈ entries) : entry.1 < other.1 :=
  (List.pairwise_cons.mp sorted).1 other member

theorem Sorted.cons {entry : K × V} {entries : List (K × V)} (sorted : Sorted entries)
    (least : ∀ other ∈ entries, entry.1 < other.1) : Sorted (entry :: entries) :=
  List.pairwise_cons.mpr ⟨least, sorted⟩

theorem lookup_append (key : K) (entries entries' : List (K × V)) :
    lookup key (entries ++ entries') = (lookup key entries).or (lookup key entries') := by
  induction entries with
  | nil => rfl
  | cons entry entries ih =>
      rw [List.cons_append, lookup, lookup]
      split
      · rfl
      · exact ih

theorem lookup_eq_none : lookup key entries = none ↔ ∀ entry ∈ entries, entry.1 ≠ key := by
  induction entries with
  | nil => simp [lookup]
  | cons entry entries ih =>
      rw [lookup]
      split
      · simp_all
      · simp_all

theorem lookup_ne_none : lookup key entries ≠ none ↔ key ∈ entries.map Prod.fst := by
  rw [ne_eq, lookup_eq_none]
  simp

theorem mem_of_lookup (found : lookup key entries = some value) : (key, value) ∈ entries := by
  induction entries with
  | nil => cases found
  | cons entry entries ih =>
      rw [lookup] at found
      split at found
      · rename_i same
        cases found
        subst same
        exact List.mem_cons_self
      · exact List.mem_cons_of_mem _ (ih found)

theorem lookup_of_mem (sorted : Sorted entries) (member : (key, value) ∈ entries) :
    lookup key entries = some value := by
  induction entries with
  | nil => cases member
  | cons entry entries ih =>
      rw [lookup]
      rcases List.mem_cons.mp member with rfl | later
      · rw [if_pos rfl]
      · rw [if_neg (sorted.head later).ne]
        exact ih sorted.tail later

/-- A key in front of all entries is not there. -/
theorem lookup_of_lt (least : ∀ entry ∈ entries, key < entry.1) : lookup key entries = none :=
  lookup_eq_none.mpr fun entry member => (least entry member).ne'

/-! ## The entries around a key -/

/-- The entries in front of a key. -/
def before (key : K) (entries : List (K × V)) : List (K × V) :=
  entries.takeWhile fun entry => decide (entry.1 < key)

/-- The entries from a key on. -/
def startingAt (key : K) (entries : List (K × V)) : List (K × V) :=
  entries.dropWhile fun entry => decide (entry.1 < key)

/-- The first value, if it is that of a key. -/
def first (key : K) : List (K × V) → Option V
  | [] => none
  | entry :: _ => if entry.1 = key then some entry.2 else none

theorem before_append_startingAt (key : K) (entries : List (K × V)) :
    before key entries ++ startingAt key entries = entries := List.takeWhile_append_dropWhile

theorem lt_of_mem_before (member : entry ∈ before key entries) : entry.1 < key := by
  simpa using List.mem_takeWhile_imp member

theorem Sorted.before (sorted : Sorted entries) (key : K) :
    Sorted (before key entries) := sorted.sublist (List.takeWhile_sublist _)

theorem Sorted.startingAt (sorted : Sorted entries) (key : K) :
    Sorted (startingAt key entries) := sorted.sublist (List.dropWhile_sublist _)

theorem Sorted.le_of_mem_startingAt (sorted : Sorted entries)
    (member : entry ∈ SortedEntries.startingAt key entries) : key ≤ entry.1 := by
  induction entries with
  | nil => cases member
  | cons head entries ih =>
      rw [SortedEntries.startingAt, List.dropWhile_cons] at member
      split at member
      · exact ih sorted.tail member
      · rename_i behind
        have least : key ≤ head.1 := by simpa using behind
        rcases List.mem_cons.mp member with rfl | later
        · exact least
        · exact least.trans (sorted.head later).le

theorem lookup_before_of_le (behind : key ≤ row) :
    lookup row (before key entries) = none :=
  lookup_eq_none.mpr fun _ member => ((lt_of_mem_before member).trans_le behind).ne

/-- A key behind another one is looked up behind it. -/
theorem lookup_startingAt (entries : List (K × V)) (behind : key ≤ row) :
    lookup row (startingAt key entries) = lookup row entries := by
  have split := congrArg (lookup row) (before_append_startingAt key entries)
  rw [lookup_append, lookup_before_of_le behind, Option.none_or] at split
  exact split

section

variable (sorted : Sorted entries)
include sorted

theorem Sorted.lookup_before (front : row < key) :
    lookup row (SortedEntries.before key entries) = lookup row entries := by
  have split := congrArg (lookup row) (before_append_startingAt key entries)
  have absent : lookup row (SortedEntries.startingAt key entries) = none :=
    lookup_of_lt fun entry member => front.trans_le (sorted.le_of_mem_startingAt member)
  rw [lookup_append, absent, Option.or_none] at split
  exact split

theorem Sorted.first_eq (behind : ∀ entry ∈ entries, key ≤ entry.1) :
    first key entries = lookup key entries := by
  cases entries with
  | nil => rfl
  | cons entry entries =>
      rw [first, lookup]
      split
      · rfl
      · rename_i other
        have less : key < entry.1 :=
          lt_of_le_of_ne (behind entry List.mem_cons_self) (Ne.symm other)
        exact (lookup_of_lt fun later member => less.trans (sorted.head member)).symm

/-- The value that is found from a key on is its value. -/
theorem Sorted.first_startingAt (key : K) :
    first key (SortedEntries.startingAt key entries) = lookup key entries :=
  ((sorted.startingAt key).first_eq fun _ member => sorted.le_of_mem_startingAt member).trans
    (lookup_startingAt entries le_rfl)

/-- Entries from a key on, put behind those in front of the key. -/
theorem Sorted.before_append {rest : List (K × V)} (sorted_rest : Sorted rest)
    (least : ∀ entry ∈ rest, key ≤ entry.1) :
    Sorted (SortedEntries.before key entries ++ rest) :=
  List.pairwise_append.mpr ⟨sorted.before key, sorted_rest, fun _ member other member' =>
    (lt_of_mem_before member).trans_le (least other member')⟩

theorem Sorted.lookup_before_append {rest : List (K × V)} (least : ∀ entry ∈ rest, key ≤ entry.1)
    (row : K) :
    lookup row (SortedEntries.before key entries ++ rest) =
      if row < key then lookup row entries else lookup row rest := by
  rw [lookup_append]
  split
  · rename_i less
    have absent : lookup row rest = none :=
      lookup_of_lt fun entry member => less.trans_le (least entry member)
    rw [absent, Option.or_none, sorted.lookup_before less]
  · rename_i behind
    rw [lookup_before_of_le (not_lt.mp behind), Option.none_or]

/-- From a key that has a value on, its entry is the first one. -/
theorem Sorted.startingAt_of_some (found : lookup key entries = some value) :
    ∃ behind, SortedEntries.startingAt key entries = (key, value) :: behind ∧ Sorted behind ∧
      ∀ entry ∈ behind, key < entry.1 := by
  have is_first := (sorted.first_startingAt key).trans found
  have sorted_rest := sorted.startingAt key
  cases rest : SortedEntries.startingAt key entries with
  | nil =>
      rw [rest] at is_first
      cases is_first
  | cons entry behind =>
      rw [rest] at is_first sorted_rest
      rw [first] at is_first
      split at is_first
      · rename_i same
        cases is_first
        subst same
        exact ⟨behind, rfl, sorted_rest.tail, fun later member => sorted_rest.head member⟩
      · cases is_first

/-- From a key that has no value on, all entries lie behind it. -/
theorem Sorted.lt_of_none (absent : lookup key entries = none) :
    ∀ entry ∈ SortedEntries.startingAt key entries, key < entry.1 := by
  intro entry member
  refine lt_of_le_of_ne (sorted.le_of_mem_startingAt member) fun same => ?_
  exact lookup_eq_none.mp absent entry ((List.dropWhile_sublist _).subset member) same.symm

end

/-! ## Merging -/

/-- An entry among others that are merged with the rest behind it; it replaces an equal key. -/
def mergeEntry (entry : K × V) (rest : List (K × V) → List (K × V)) :
    List (K × V) → List (K × V)
  | [] => entry :: rest []
  | other :: others =>
      if entry.1 = other.1 then entry :: rest others
      else if entry.1 < other.1 then entry :: rest (other :: others)
      else other :: mergeEntry entry rest others

/-- The entries of both lists; those of the first one replace those of the second one. -/
def merge : List (K × V) → List (K × V) → List (K × V)
  | [] => id
  | entry :: entries => mergeEntry entry (merge entries)

/-- What merging two lists comes to. -/
structure Merged (entries others merged : List (K × V)) : Prop where
  sorted : Sorted merged
  lookup : ∀ key, lookup key merged = (lookup key entries).or (lookup key others)

theorem Merged.least {merged : List (K × V)} (is_merged : Merged entries others merged)
    (first : ∀ entry ∈ entries, key < entry.1) (second : ∀ entry ∈ others, key < entry.1) :
    ∀ entry ∈ merged, key < entry.1 := by
  intro entry member
  have found := lookup_of_mem is_merged.sorted member
  rw [is_merged.lookup] at found
  rcases Option.or_eq_some_iff.mp found with here | ⟨-, there⟩
  · exact first _ (mem_of_lookup here)
  · exact second _ (mem_of_lookup there)

theorem mergeEntry_merged {rest : List (K × V) → List (K × V)} (sorted : Sorted (entry :: entries))
    (merges : ∀ others, Sorted others → Merged entries others (rest others))
    (sorted_others : Sorted others) :
    Merged (entry :: entries) others (mergeEntry entry rest others) := by
  have least : ∀ other ∈ entries, entry.1 < other.1 := fun other member => sorted.head member
  induction others with
  | nil =>
      have merged := merges [] sorted_others
      refine ⟨merged.sorted.cons (merged.least least (by simp)), fun key => ?_⟩
      rw [mergeEntry, lookup_cons, lookup_cons_or, merged.lookup]
  | cons other others ih =>
      rw [mergeEntry]
      split
      · rename_i same
        have merged := merges others sorted_others.tail
        refine ⟨merged.sorted.cons (merged.least least fun later member => ?_), fun key => ?_⟩
        · rw [same]
          exact sorted_others.head member
        · rw [lookup_cons, lookup_cons_or, merged.lookup, lookup_cons, ← same]
          split
          · rfl
          · rfl
      · rename_i differ
        split
        · rename_i front
          have merged := merges (other :: others) sorted_others
          refine ⟨merged.sorted.cons (merged.least least fun later member => ?_), fun key => ?_⟩
          · rcases List.mem_cons.mp member with rfl | later
            · exact front
            · exact front.trans (sorted_others.head later)
          · rw [lookup_cons, lookup_cons_or, merged.lookup]
        · rename_i behind
          have after : other.1 < entry.1 := lt_of_le_of_ne (not_lt.mp behind) (Ne.symm differ)
          have merged := ih sorted_others.tail
          refine ⟨merged.sorted.cons (merged.least (fun later member => ?_) fun later member =>
            sorted_others.head member), fun key => ?_⟩
          · rcases List.mem_cons.mp member with rfl | later
            · exact after
            · exact after.trans (sorted.head later)
          · rw [lookup_cons, merged.lookup]
            split
            · rename_i same
              have absent : lookup key (entry :: entries) = none := by
                refine lookup_of_lt fun later member => ?_
                rw [← same]
                rcases List.mem_cons.mp member with rfl | later
                · exact after
                · exact after.trans (sorted.head later)
              rw [absent, lookup_cons, if_pos same, Option.none_or]
            · rename_i other_key
              rw [lookup_cons key other, if_neg other_key]

/-- Merging two lists takes the values of the first one where both have a key. -/
theorem merge_merged (sorted : Sorted entries) (sorted_others : Sorted others) :
    Merged entries others (merge entries others) := by
  induction entries generalizing others with
  | nil => exact ⟨sorted_others, fun key => (Option.none_or).symm⟩
  | cons entry entries ih =>
      exact mergeEntry_merged sorted (fun rest sorted_rest => ih sorted.tail sorted_rest)
        sorted_others

/-! ## Common keys -/

/-- Whether a key is among others, or keys behind it are. -/
def meetsKey (key : K) (rest : List K → Bool) : List K → Bool
  | [] => false
  | other :: others =>
      if key = other then true
      else if key < other then rest (other :: others)
      else meetsKey key rest others

/-- Whether two increasing lists of keys have one in common. -/
def meets : List K → List K → Bool
  | [] => fun _ => false
  | key :: keys => meetsKey key (meets keys)

theorem meetsKey_iff {rest : List K → Bool} (sorted : (key :: keys).Pairwise (· < ·))
    (rest_iff : ∀ others : List K, others.Pairwise (· < ·) →
      (rest others = true ↔ ∃ common ∈ keys, common ∈ others)) {others : List K}
    (sorted_others : others.Pairwise (· < ·)) :
    meetsKey key rest others = true ↔ ∃ common ∈ key :: keys, common ∈ others := by
  obtain ⟨least, -⟩ := List.pairwise_cons.mp sorted
  induction others with
  | nil => simp [meetsKey]
  | cons other others ih =>
      obtain ⟨least_other, sorted_rest⟩ := List.pairwise_cons.mp sorted_others
      rw [meetsKey]
      split
      · rename_i same
        simp [same]
      · rename_i differ
        split
        · rename_i front
          rw [rest_iff _ sorted_others]
          have absent : key ∉ other :: others := by
            intro member
            rcases List.mem_cons.mp member with rfl | later
            · exact lt_irrefl _ front
            · exact lt_asymm front (least_other key later)
          constructor
          · rintro ⟨common, member, there⟩
            exact ⟨common, List.mem_cons_of_mem _ member, there⟩
          · rintro ⟨common, member, there⟩
            rcases List.mem_cons.mp member with rfl | deep
            · exact absurd there absent
            · exact ⟨common, deep, there⟩
        · rename_i behind
          have after : other < key := lt_of_le_of_ne (not_lt.mp behind) (Ne.symm differ)
          rw [ih sorted_rest]
          constructor
          · rintro ⟨common, member, there⟩
            exact ⟨common, member, List.mem_cons_of_mem _ there⟩
          · rintro ⟨common, member, there⟩
            rcases List.mem_cons.mp there with rfl | later
            · rcases List.mem_cons.mp member with rfl | deep
              · exact absurd after (lt_irrefl _)
              · exact absurd (least common deep) (lt_asymm after)
            · exact ⟨common, member, later⟩

/-- Two increasing lists meet in a common key. -/
theorem meets_iff {others : List K} (sorted : keys.Pairwise (· < ·))
    (sorted_others : others.Pairwise (· < ·)) :
    meets keys others = true ↔ ∃ common ∈ keys, common ∈ others := by
  induction keys generalizing others with
  | nil => simp [meets]
  | cons key keys ih =>
      exact meetsKey_iff sorted (fun rest sorted_rest => ih (List.pairwise_cons.mp sorted).2
        sorted_rest) sorted_others

end SortedEntries
