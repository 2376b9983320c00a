import Nullness.Number.Literal
import Mathlib.Data.Nat.Digits.Defs

/-!
# Decimal numerals are read back

A number written in decimal is read back as the same number.  The digits are
written from the lowest one up and read from the highest one down, so the proof
takes off the last digit, as the writer does.

What a numeral consists of matters for the rest of a line: digits and a minus
sign, none of which separates fields, cases or labels.
-/

namespace Nullness

namespace Number

theorem digit?_digitChar {d : Nat} (h : d < 10) :
    digit? (byte (Nat.digitChar d)) = some d := by
  decide +revert

theorem natural?_eq_some_iff {digits : Text} {n : Nat} :
    natural? digits = some n ↔
      digits ≠ [] ∧
        digits.foldlM (fun n b => (digit? b).map (n * 10 + ·)) 0 = some n := by
  cases digits <;> simp [natural?]

end Number

namespace Text

theorem ofNat_of_lt {n : Nat} (h : n < 10) :
    ofNat n = [byte (Nat.digitChar n)] := by
  rw [ofNat, Nat.toDigits_of_lt_base h, List.map_singleton]

theorem ofNat_of_le {n : Nat} (h : 10 ≤ n) :
    ofNat n = ofNat (n / 10) ++ [byte (Nat.digitChar (n % 10))] := by
  rw [ofNat, Nat.toDigits_of_base_le (by decide) h, List.map_append,
    List.map_singleton, ofNat]

theorem ofNat_ne_nil (n : Nat) : ofNat n ≠ [] := by
  simp [ofNat, Nat.toDigits_ne_nil]

/-- The decimal digits. -/
def digits : Text := text "0123456789"

theorem byte_digitChar_mem_digits {d : Nat} (h : d < 10) :
    byte (Nat.digitChar d) ∈ digits := by
  decide +revert

theorem mem_digits_of_mem_ofNat {n : Nat} {b : UInt8} (h : b ∈ ofNat n) :
    b ∈ digits := by
  induction n using Nat.strongRecOn with
  | ind n ih =>
      rcases Nat.lt_or_ge n 10 with hn | hn
      · rw [ofNat_of_lt hn, List.mem_singleton] at h
        exact h ▸ byte_digitChar_mem_digits hn
      · rw [ofNat_of_le hn, List.mem_append, List.mem_singleton] at h
        rcases h with h | rfl
        · exact ih (n / 10) (by omega) h
        · exact byte_digitChar_mem_digits (Nat.mod_lt n (by decide))

theorem mem_of_mem_ofInt {i : Int} {b : UInt8} (h : b ∈ ofInt i) :
    b ∈ byte '-' :: digits := by
  cases i with
  | ofNat n => exact List.mem_cons_of_mem _ (mem_digits_of_mem_ofNat h)
  | negSucc n =>
      rcases List.mem_cons.mp h with rfl | h
      · exact List.mem_cons_self
      · exact List.mem_cons_of_mem _ (mem_digits_of_mem_ofNat h)

theorem ofInt_ne_nil (i : Int) : ofInt i ≠ [] := by
  cases i with
  | ofNat n => exact ofNat_ne_nil n
  | negSucc n => exact List.cons_ne_nil _ _

end Text

namespace Number

open Text

theorem natural?_ofNat (n : Nat) : natural? (ofNat n) = some n := by
  refine natural?_eq_some_iff.mpr ⟨ofNat_ne_nil n, ?_⟩
  induction n using Nat.strongRecOn with
  | ind n ih =>
      rcases Nat.lt_or_ge n 10 with hn | hn
      · simp [ofNat_of_lt hn, digit?_digitChar hn]
      · have hlast : digit? (byte (Nat.digitChar (n % 10))) = some (n % 10) :=
          digit?_digitChar (Nat.mod_lt n (by decide))
        rw [ofNat_of_le hn, List.foldlM_append, ih (n / 10) (by omega)]
        simp [hlast]
        omega

/-- A numeral without a sign starts with a digit, so nothing is taken off. -/
theorem signed_ofNat (n : Nat) : signed (ofNat n) = (false, ofNat n) := by
  cases h : ofNat n with
  | nil => exact absurd h (ofNat_ne_nil n)
  | cons b rest =>
      have hb : b ∈ digits := mem_digits_of_mem_ofNat (n := n) (by simp [h])
      have hminus : b ≠ byte '-' := ne_of_mem_of_not_mem hb (by decide)
      have hplus : b ≠ byte '+' := ne_of_mem_of_not_mem hb (by decide)
      simp [signed, hminus, hplus]

theorem decimal?_ofInt {i : Int} {n : Int64} (h : word? i = some n) :
    decimal? (ofInt i) = some n := by
  cases i with
  | ofNat k => simpa [ofInt, decimal?, signed_ofNat, natural?_ofNat] using h
  | negSucc k =>
      have hsigned : signed (ofInt (.negSucc k)) = (true, ofNat (k + 1)) := rfl
      have hvalue : -((k + 1 : Nat) : Int) = .negSucc k := rfl
      rw [decimal?, hsigned]
      change (natural? (ofNat (k + 1))).bind (fun m => word? (-m)) = some n
      rw [natural?_ofNat, Option.bind_some, hvalue, h]

theorem word?_toInt (n : Int64) : word? n.toInt = some n := by
  rw [word?, if_pos ⟨Int64.le_toInt n, Int64.toInt_le n⟩, Int64.ofInt_toInt]

theorem word?_natCast {k : Nat} (h : k < 2 ^ 63) :
    word? k = some (Int64.ofNat k) := by
  have hk : (Int64.ofNat k).toInt = k := Int64.toInt_ofNat_of_lt h
  rw [← hk, word?_toInt]

end Number
end Nullness
