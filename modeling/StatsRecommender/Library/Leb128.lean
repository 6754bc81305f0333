import StatsRecommender.Library.ByteReader

/-!
# Little-endian numbers in groups of seven bits

Every byte but the last of a number has its highest bit set.  A number is read up to the first byte
without that bit, and at most a given number of bytes.
-/

namespace Leb128

variable {Error : Type} {torn : Error → Prop}

/-- A number that fits into a number of groups. -/
def encode : Nat → Nat → List UInt8
  | 0, _ => []
  | groups + 1, number =>
      if number / 128 = 0 then [UInt8.ofNat number]
      else UInt8.ofNat (128 + number % 128) :: encode groups (number / 128)

/-- The bytes of a number, up to the first one without the highest bit. -/
def readGroups (byte : ByteReader Error UInt8) : Nat → ByteReader Error (List UInt8)
  | 0 => pure []
  | limit + 1 => do
      let first ← byte
      if first.toNat < 128 then pure [first]
      else do
        let rest ← readGroups byte limit
        pure (first :: rest)

/-- The number of some groups. -/
def decode : List UInt8 → Nat
  | [] => 0
  | byte :: rest => byte.toNat % 128 + 128 * decode rest

theorem decode_encode {groups number : Nat} (fits : number < 128 ^ groups) :
    decode (encode groups number) = number := by
  induction groups generalizing number with
  | zero => exact (Nat.lt_one_iff.mp fits).symm
  | succ groups ih =>
      rw [Nat.pow_succ] at fits
      rw [encode]
      split
      · rename_i last
        rw [decode, decode, UInt8.toNat_ofNat']
        omega
      · rw [decode, ih (Nat.div_lt_of_lt_mul (by omega)), UInt8.toNat_ofNat']
        omega

theorem length_encode_le (groups number : Nat) : (encode groups number).length ≤ groups := by
  induction groups generalizing number with
  | zero => exact le_refl _
  | succ groups ih =>
      rw [encode]
      split
      · simp
      · exact Nat.succ_le_succ (ih _)

/-- The groups of a number are read. -/
theorem takes_readGroups {byte : ByteReader Error UInt8}
    (reads : ∀ value, ByteReader.Takes torn byte [value] value) {groups limit number : Nat}
    (fits : number < 128 ^ groups) (positive : 0 < groups) (room : groups ≤ limit) :
    ByteReader.Takes torn (readGroups byte limit) (encode groups number)
      (encode groups number) := by
  induction groups generalizing number limit with
  | zero => exact absurd positive (Nat.lt_irrefl _)
  | succ groups ih =>
      cases limit with
      | zero => exact absurd room (Nat.not_succ_le_zero _)
      | succ limit =>
          rw [Nat.pow_succ] at fits
          rw [encode]
          split
          · rename_i last
            refine (reads _).bind ?_
            rw [if_pos (by
              rw [UInt8.toNat_ofNat']
              omega)]
            exact .pure _
          · rename_i more
            refine (reads _).bind ?_
            rw [if_neg (by
              rw [UInt8.toNat_ofNat']
              omega)]
            have next : 0 < groups := by
              rcases Nat.eq_zero_or_pos groups with rfl | next
              · omega
              · exact next
            exact (ih (Nat.div_lt_of_lt_mul (by omega)) next
              (Nat.le_of_succ_le_succ room)).bind_pure

end Leb128
