import Mathlib.Algebra.Order.Ring.Nat
import Mathlib.Data.Int.ConditionallyCompleteOrder

/-!
# UTF-8

Code points as bytes.  The bytewise order of two texts is the order of their code points, so the
texts with a common beginning lie between two bounds.
-/

namespace Utf8

variable {other codepoint : Nat} {codepoints : List Nat} {bytes : List UInt8}

/-! ## Lists in their lexicographic order -/

section Lexicographic

variable {α : Type} [LT α] [irrefl : Std.Irrefl fun x y : α => x < y]

theorem append_lt_append_left_iff (stem left right : List α) :
    stem ++ left < stem ++ right ↔ left < right := by
  induction stem with
  | nil => exact Iff.rfl
  | cons first rest ih =>
      rw [List.cons_append, List.cons_append, List.cons_lt_cons_iff, ih]
      constructor
      · rintro (less | ⟨_, less⟩)
        · exact absurd less (irrefl.irrefl first)
        · exact less
      · exact fun less => Or.inr ⟨rfl, less⟩

/-- A list is not before its beginning. -/
theorem not_append_lt (stem rest : List α) : ¬ stem ++ rest < stem := by
  intro less
  have short := (append_lt_append_left_iff stem rest []).mp ((List.append_nil stem).symm ▸ less)
  exact List.not_lt_nil _ short

theorem append_cons_lt_append_cons (stem left right : List α) {first other : α}
    (less : first < other) : stem ++ first :: left < stem ++ other :: right :=
  (append_lt_append_left_iff stem _ _).mpr (List.cons_lt_cons_iff.mpr (Or.inl less))

/-- What begins with a list is at it or behind, and before what has a greater last element. -/
theorem between_of_prefix {stem list : List α} {last next : α} (less : last < next)
    (starts : stem ++ [last] <+: list) :
    ¬ list < stem ++ [last] ∧ list < stem ++ [next] := by
  obtain ⟨rest, rfl⟩ := starts
  constructor
  · exact not_append_lt _ _
  · rw [List.append_assoc]
    exact append_cons_lt_append_cons stem rest [] less

end Lexicographic

/-- Where no element lies between the two, the bounds tell which lists begin so. -/
theorem prefix_iff_between {α : Type} [LinearOrder α] {stem list : List α} {last next : α}
    (less : last < next) (gap : ∀ a ∈ list, a ≤ last ∨ next ≤ a) :
    stem ++ [last] <+: list ↔ ¬ list < stem ++ [last] ∧ list < stem ++ [next] := by
  constructor
  · exact between_of_prefix less
  · rintro ⟨low, high⟩
    induction stem generalizing list with
    | nil =>
        cases list with
        | nil => exact absurd List.Lex.nil low
        | cons first rest =>
            simp only [List.nil_append, List.cons_lt_cons_iff, List.not_lt_nil, and_false,
              or_false] at low high
            have same : first = last := by
              rcases gap first List.mem_cons_self with at_most | at_least
              · exact le_antisymm at_most (not_lt.mp low)
              · exact absurd (lt_of_lt_of_le high at_least) (lt_irrefl _)
            exact ⟨rest, by rw [same]; rfl⟩
    | cons head stem ih =>
        cases list with
        | nil => exact absurd List.Lex.nil low
        | cons first rest =>
            rw [List.cons_append, List.cons_lt_cons_iff] at low high
            have same : first = head := by
              rcases high with before | ⟨same, _⟩
              · exact absurd (Or.inl before) low
              · exact same
            subst same
            rw [List.cons_append, List.cons_prefix_cons]
            refine ⟨rfl, ih (fun a member => gap a (List.mem_cons_of_mem _ member)) ?_ ?_⟩
            · exact fun before => low (Or.inr ⟨rfl, before⟩)
            · rcases high with before | ⟨_, before⟩
              · exact absurd before (lt_irrefl _)
              · exact before

/-! ## Code points -/

/-- A code point that is not a surrogate. -/
def Scalar (codepoint : Nat) : Prop :=
  codepoint < 0xD800 ∨ 0xE000 ≤ codepoint ∧ codepoint ≤ 0x10FFFF

instance : DecidablePred Scalar := fun codepoint =>
  inferInstanceAs (Decidable (codepoint < 0xD800 ∨ 0xE000 ≤ codepoint ∧ codepoint ≤ 0x10FFFF))

theorem Scalar.le (scalar : Scalar codepoint) : codepoint ≤ 0x10FFFF := by
  rcases scalar with low | ⟨_, high⟩
  · omega
  · exact high

/-- The number of bytes behind the first one. -/
def extraBytes (codepoint : Nat) : Nat :=
  if codepoint ≤ 0x7F then 0 else if codepoint ≤ 0x7FF then 1 else if codepoint ≤ 0xFFFF then 2 else 3

/-- The least first byte before a number of extra bytes. -/
def firstByte : Nat → Nat
  | 0 => 0
  | 1 => 192
  | 2 => 224
  | _ + 3 => 240

/-- The extra bytes, of six bits each. -/
def trail : Nat → Nat → List UInt8
  | 0, _ => []
  | extra + 1, codepoint => .ofNat (codepoint / 64 ^ extra % 64 + 128) :: trail extra codepoint

/-- The bytes of a code point. -/
def encode (codepoint : Nat) : List UInt8 :=
  .ofNat (codepoint / 64 ^ extraBytes codepoint + firstByte (extraBytes codepoint)) ::
    trail (extraBytes codepoint) codepoint

/-- The bytes of a text. -/
def encodeAll (codepoints : List Nat) : List UInt8 := codepoints.flatMap encode

/-- The bytes are those of a text. -/
def Valid (bytes : List UInt8) : Prop :=
  ∃ codepoints, (∀ codepoint ∈ codepoints, Scalar codepoint) ∧ encodeAll codepoints = bytes

theorem extraBytes_cases (codepoint : Nat) :
    codepoint ≤ 0x7F ∧ extraBytes codepoint = 0 ∨
      (0x7F < codepoint ∧ codepoint ≤ 0x7FF) ∧ extraBytes codepoint = 1 ∨
      (0x7FF < codepoint ∧ codepoint ≤ 0xFFFF) ∧ extraBytes codepoint = 2 ∨
      0xFFFF < codepoint ∧ extraBytes codepoint = 3 := by
  rw [extraBytes]
  split_ifs <;> omega

/-! ## The order of the encodings -/

theorem ofNat_cons_lt {first : Nat} {left right : List UInt8} (small : other < 256)
    (less : first < other ∨ first = other ∧ left < right) :
    UInt8.ofNat first :: left < UInt8.ofNat other :: right := by
  rw [List.cons_lt_cons_iff]
  rcases less with less | ⟨rfl, less⟩
  · left
    rw [UInt8.lt_iff_toNat_lt, UInt8.toNat_ofNat', UInt8.toNat_ofNat']
    omega
  · exact Or.inr ⟨rfl, less⟩

/-- Below a common quotient the extra bytes decide. -/
theorem trail_append_lt {extra : Nat} (less : codepoint < other)
    (common : codepoint / 64 ^ extra = other / 64 ^ extra) (left right : List UInt8) :
    trail extra codepoint ++ left < trail extra other ++ right := by
  induction extra with
  | zero =>
      rw [Nat.pow_zero, Nat.div_one, Nat.div_one] at common
      omega
  | succ extra ih =>
      rw [Nat.pow_succ, ← Nat.div_div_eq_div_mul, ← Nat.div_div_eq_div_mul] at common
      have ordered : codepoint / 64 ^ extra ≤ other / 64 ^ extra :=
        Nat.div_le_div_right (Nat.le_of_lt less)
      refine ofNat_cons_lt (by omega) ?_
      rcases Nat.lt_or_eq_of_le ordered with differs | same
      · left
        omega
      · exact Or.inr ⟨by rw [same], ih same⟩

/-- The bytes of a greater code point are greater, whatever follows. -/
theorem encode_append_lt (bound : other ≤ 0x10FFFF) (less : codepoint < other)
    (left right : List UInt8) : encode codepoint ++ left < encode other ++ right := by
  rw [encode, encode, List.cons_append, List.cons_append]
  have first_le : other / 64 ^ extraBytes other + firstByte (extraBytes other) < 256 := by
    rcases extraBytes_cases other with ⟨_, same⟩ | ⟨_, same⟩ | ⟨_, same⟩ | ⟨_, same⟩ <;>
      · rw [same]
        simp only [firstByte]
        omega
  refine ofNat_cons_lt first_le ?_
  by_cases same : extraBytes codepoint = extraBytes other
  · have ordered : codepoint / 64 ^ extraBytes other ≤ other / 64 ^ extraBytes other :=
      Nat.div_le_div_right (Nat.le_of_lt less)
    rw [same]
    rcases Nat.lt_or_eq_of_le ordered with differs | common
    · left
      omega
    · exact Or.inr ⟨by rw [common], trail_append_lt less common left right⟩
  · left
    rcases extraBytes_cases codepoint with ⟨_, size⟩ | ⟨_, size⟩ | ⟨_, size⟩ | ⟨_, size⟩ <;>
      rcases extraBytes_cases other with ⟨_, size'⟩ | ⟨_, size'⟩ | ⟨_, size'⟩ | ⟨_, size'⟩ <;>
      · rw [size, size'] at same ⊢
        simp only [firstByte]
        omega

theorem encode_append_inj (scalar : Scalar codepoint) (scalar' : Scalar other)
    {left right : List UInt8} (same : encode codepoint ++ left = encode other ++ right) :
    codepoint = other ∧ left = right := by
  rcases Nat.lt_trichotomy codepoint other with less | rfl | greater
  · have before := encode_append_lt scalar'.le less left right
    rw [same] at before
    exact absurd before (List.lt_irrefl _)
  · exact ⟨rfl, List.append_cancel_left same⟩
  · have before := encode_append_lt scalar.le greater right left
    rw [same] at before
    exact absurd before (List.lt_irrefl _)

/-! ## Texts -/

theorem encodeAll_cons (codepoint : Nat) (rest : List Nat) :
    encodeAll (codepoint :: rest) = encode codepoint ++ encodeAll rest := List.flatMap_cons

theorem encodeAll_append (left right : List Nat) :
    encodeAll (left ++ right) = encodeAll left ++ encodeAll right := List.flatMap_append

theorem encodeAll_singleton (codepoint : Nat) : encodeAll [codepoint] = encode codepoint :=
  List.append_nil _

/-- The bytewise order is the order of the code points. -/
theorem encodeAll_lt_iff {left right : List Nat} (scalars : ∀ codepoint ∈ left, Scalar codepoint)
    (scalars' : ∀ codepoint ∈ right, Scalar codepoint) :
    encodeAll left < encodeAll right ↔ left < right := by
  induction left generalizing right with
  | nil =>
      cases right with
      | nil => exact iff_of_false (List.lt_irrefl _) (List.lt_irrefl _)
      | cons other rights =>
          rw [encodeAll_cons, encode]
          exact iff_of_true List.Lex.nil List.Lex.nil
  | cons codepoint lefts ih =>
      cases right with
      | nil => exact iff_of_false (List.not_lt_nil _) (List.not_lt_nil _)
      | cons other rights =>
          have rest := ih (fun c member => scalars c (List.mem_cons_of_mem _ member))
            (fun c member => scalars' c (List.mem_cons_of_mem _ member))
          rw [encodeAll_cons, encodeAll_cons, List.cons_lt_cons_iff]
          rcases Nat.lt_trichotomy codepoint other with less | rfl | greater
          · have bound := (scalars' other List.mem_cons_self).le
            exact iff_of_true (encode_append_lt bound less _ _) (Or.inl less)
          · rw [append_lt_append_left_iff, rest]
            simp
          · have bound := (scalars codepoint List.mem_cons_self).le
            refine iff_of_false (List.lt_asymm (encode_append_lt bound greater _ _)) ?_
            rintro (less | ⟨same, _⟩)
            · exact Nat.lt_asymm less greater
            · exact Nat.ne_of_gt greater same

/-- A text begins with another bytewise when it does so in its code points. -/
theorem encodeAll_prefix_iff {left right : List Nat}
    (scalars : ∀ codepoint ∈ left, Scalar codepoint)
    (scalars' : ∀ codepoint ∈ right, Scalar codepoint) :
    encodeAll left <+: encodeAll right ↔ left <+: right := by
  constructor
  · intro starts
    induction left generalizing right with
    | nil => exact List.nil_prefix
    | cons codepoint lefts ih =>
        obtain ⟨rest, bytes⟩ := starts
        cases right with
        | nil =>
            rw [encodeAll_cons, encode] at bytes
            cases bytes
        | cons other rights =>
            rw [encodeAll_cons, encodeAll_cons, List.append_assoc] at bytes
            obtain ⟨rfl, same⟩ := encode_append_inj (scalars codepoint List.mem_cons_self)
              (scalars' other List.mem_cons_self) bytes
            rw [List.cons_prefix_cons]
            refine ⟨rfl, ih (fun c member => scalars c (List.mem_cons_of_mem _ member))
              (fun c member => scalars' c (List.mem_cons_of_mem _ member)) ⟨rest, same⟩⟩
  · rintro ⟨rest, rfl⟩
    rw [encodeAll_append]
    exact ⟨encodeAll rest, rfl⟩

theorem Valid.nil : Valid [] := ⟨[], List.forall_mem_nil _, rfl⟩

theorem valid_encodeAll (scalars : ∀ codepoint ∈ codepoints, Scalar codepoint) :
    Valid (encodeAll codepoints) :=
  ⟨codepoints, scalars, rfl⟩

/-- Behind a text the bytes are those of a text when they are so altogether. -/
theorem valid_encodeAll_append_iff (scalars : ∀ codepoint ∈ codepoints, Scalar codepoint)
    (rest : List UInt8) : Valid (encodeAll codepoints ++ rest) ↔ Valid rest := by
  constructor
  · rintro ⟨whole, scalars', bytes⟩
    obtain ⟨others, rfl⟩ := (encodeAll_prefix_iff scalars scalars').mp ⟨rest, bytes.symm⟩
    refine ⟨others, fun c member => scalars' c (List.mem_append_right _ member), ?_⟩
    rw [encodeAll_append] at bytes
    exact List.append_cancel_left bytes
  · rintro ⟨others, scalars', rfl⟩
    rw [← encodeAll_append]
    refine valid_encodeAll fun c member => ?_
    rcases List.mem_append.mp member with before | behind
    · exact scalars c before
    · exact scalars' c behind

theorem valid_encode_append_iff (scalar : Scalar codepoint) (rest : List UInt8) :
    Valid (encode codepoint ++ rest) ↔ Valid rest := by
  have one := valid_encodeAll_append_iff (List.forall_mem_singleton.mpr scalar) rest
  rwa [encodeAll_singleton] at one

/-- A text that is not empty, with its last code point. -/
theorem Valid.exists_last (valid : Valid bytes) (ne : bytes ≠ []) :
    ∃ codepoints last, (∀ codepoint ∈ codepoints, Scalar codepoint) ∧ Scalar last ∧
      bytes = encodeAll codepoints ++ encode last := by
  obtain ⟨codepoints, scalars, rfl⟩ := valid
  rcases codepoints.eq_nil_or_concat with rfl | ⟨front, last, rfl⟩
  · exact absurd rfl ne
  · rw [List.concat_eq_append] at scalars ⊢
    rw [List.forall_mem_append, List.forall_mem_singleton] at scalars
    refine ⟨front, last, scalars.1, scalars.2, ?_⟩
    rw [encodeAll_append, encodeAll_singleton]

/-- The texts with a common beginning lie between it and the next text of its length. -/
theorem prefix_iff_between_texts {last next : Nat}
    (scalars : ∀ codepoint ∈ codepoints, Scalar codepoint) (scalar : Scalar last)
    (scalar' : Scalar next) (less : last < next)
    (gap : ∀ codepoint, Scalar codepoint → codepoint ≤ last ∨ next ≤ codepoint)
    (valid : Valid bytes) :
    encodeAll codepoints ++ encode last <+: bytes ↔
      ¬ bytes < encodeAll codepoints ++ encode last ∧
        bytes < encodeAll codepoints ++ encode next := by
  obtain ⟨others, scalars', rfl⟩ := valid
  have all : ∀ c, Scalar c → ∀ codepoint ∈ codepoints ++ [c], Scalar codepoint := by
    intro c scalar
    rw [List.forall_mem_append, List.forall_mem_singleton]
    exact ⟨scalars, scalar⟩
  rw [← encodeAll_singleton last, ← encodeAll_singleton next, ← encodeAll_append,
    ← encodeAll_append, encodeAll_prefix_iff (all last scalar) scalars',
    encodeAll_lt_iff scalars' (all last scalar), encodeAll_lt_iff scalars' (all next scalar')]
  exact prefix_iff_between less fun codepoint member => gap codepoint (scalars' codepoint member)

/-! ## The last byte -/

theorem trail_succ (extra codepoint : Nat) :
    trail (extra + 1) codepoint =
      trail extra (codepoint / 64) ++ [.ofNat (codepoint % 64 + 128)] := by
  induction extra with
  | zero => simp [trail]
  | succ extra ih =>
      rw [trail, ih, trail, List.cons_append, Nat.div_div_eq_div_mul, Nat.pow_succ, Nat.mul_comm]

/-- The last byte of a code point, and what comes of it when it is increased. -/
theorem encode_last (scalar : Scalar codepoint) :
    ∃ front last, encode codepoint = front ++ [UInt8.ofNat last] ∧ last < 192 ∧
      (last = 0x7F → front = []) ∧
      (last ≠ 0x7F → last ≠ 0xBF →
        Scalar (codepoint + 1) ∧ encode (codepoint + 1) = front ++ [UInt8.ofNat (last + 1)]) := by
  by_cases one : codepoint ≤ 0x7F
  · have none : extraBytes codepoint = 0 := if_pos one
    refine ⟨[], codepoint, ?_, by omega, fun _ => rfl, fun ascii _ => ⟨Or.inl (by omega), ?_⟩⟩
    · rw [encode, none]
      simp [firstByte, trail]
    · have none' : extraBytes (codepoint + 1) = 0 := if_pos (by omega)
      rw [encode, none']
      simp [firstByte, trail]
  · obtain ⟨extra, size⟩ : ∃ extra, extraBytes codepoint = extra + 1 := by
      rcases extraBytes_cases codepoint with ⟨low, _⟩ | ⟨_, size⟩ | ⟨_, size⟩ | ⟨_, size⟩
      · exact absurd low one
      · exact ⟨0, size⟩
      · exact ⟨1, size⟩
      · exact ⟨2, size⟩
    refine ⟨.ofNat (codepoint / 64 ^ (extra + 1) + firstByte (extra + 1)) ::
      trail extra (codepoint / 64), codepoint % 64 + 128, ?_, by omega, by omega, ?_⟩
    · rw [encode, size, trail_succ, List.cons_append]
    · intro _ inside
      have same : (codepoint + 1) / 64 = codepoint / 64 := by omega
      have place : (codepoint + 1) % 64 = codepoint % 64 + 1 := by omega
      have size' : extraBytes (codepoint + 1) = extra + 1 := by
        rw [← size]
        rcases extraBytes_cases codepoint with ⟨_, _⟩ | ⟨_, _⟩ | ⟨_, _⟩ | ⟨_, _⟩ <;>
          rcases extraBytes_cases (codepoint + 1) with ⟨_, _⟩ | ⟨_, _⟩ | ⟨_, _⟩ | ⟨_, _⟩ <;> omega
      constructor
      · rcases scalar with low | ⟨low, high⟩
        · exact Or.inl (by omega)
        · exact Or.inr ⟨by omega, by omega⟩
      · have quotient : (codepoint + 1) / 64 ^ (extra + 1) = codepoint / 64 ^ (extra + 1) := by
          rw [Nat.pow_succ', ← Nat.div_div_eq_div_mul, same, Nat.div_div_eq_div_mul]
        rw [encode, size', quotient, trail_succ, same, place, List.cons_append]

end Utf8
