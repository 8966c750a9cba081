/-
DldDriver/Tools/EncodeColor.lean

The packet boundary of the panel exerciser (`encode_color` of
`tools/exercise_panels.py`): three bytes within the power budget become one
OPC message, and everything else is refused.
-/
import DldDriver.Abi

namespace Dld

/-- A Python value: an `int`, or a value of any other type. -/
inductive PyValue
  | int (n : Int)
  | other
  deriving DecidableEq

/-- `type(value) is int and 0 <= value <= 255` -/
def PyValue.isByte : PyValue → Bool
  | .int n => decide (0 ≤ n ∧ n ≤ 255)
  | .other => false

/-- The number of a byte. -/
def PyValue.toNat : PyValue → Nat
  | .int n => n.toNat
  | .other => 0

/-- The text of the `ValueError`. -/
def encodeColorError : String := "RGB must contain three integer bytes with sum <= 255"

/-- `struct.pack("!BBHBBB", 0, 0, 3, *rgb)`: channel, command, the payload
length in network order, and the payload. -/
def packMessage (rgb : List Nat) : List UInt8 := [0, 0, 0, 3] ++ rgb.map UInt8.ofNat

def encodeColor (rgb : List PyValue) : Except String (List UInt8) :=
  if rgb.length ≠ 3 ∨ rgb.any (!·.isByte) ∨ (rgb.map PyValue.toNat).sum > 255 then
    .error encodeColorError
  else .ok (packMessage (rgb.map PyValue.toNat))

/-- Three bytes with a sum within the budget. -/
def WithinBudget (rgb : List PyValue) (r g b : Nat) : Prop :=
  rgb = [.int r, .int g, .int b] ∧ r ≤ 255 ∧ g ≤ 255 ∧ b ≤ 255 ∧ r + g + b ≤ 255

theorem isByte_iff (v : PyValue) : v.isByte = true ↔ ∃ n : Nat, v = .int n ∧ n ≤ 255 := by
  cases v with
  | other => simp [PyValue.isByte]
  | int n =>
    simp only [PyValue.isByte, decide_eq_true_eq, PyValue.int.injEq]
    constructor
    · rintro ⟨hpos, hle⟩
      exact ⟨n.toNat, (Int.toNat_of_nonneg hpos).symm, by omega⟩
    · rintro ⟨m, rfl, hm⟩
      omega

/-- What is accepted is packed. -/
theorem encodeColor_ok {rgb : List PyValue} {r g b : Nat} (h : WithinBudget rgb r g b) :
    encodeColor rgb = .ok [0, 0, 0, 3, UInt8.ofNat r, UInt8.ofNat g, UInt8.ofNat b] := by
  obtain ⟨rfl, hr, hg, hb, hsum⟩ := h
  have hbyte {n : Nat} (hn : n ≤ 255) : (PyValue.int n).isByte = true :=
    (isByte_iff _).mpr ⟨n, rfl, hn⟩
  rw [encodeColor, if_neg ?_]
  · rfl
  · simp [hbyte hr, hbyte hg, hbyte hb, PyValue.toNat]
    omega

/-- **What is accepted**: three bytes within the budget, and nothing else. -/
theorem encodeColor_isOk_iff (rgb : List PyValue) :
    (∃ packet, encodeColor rgb = .ok packet) ↔ ∃ r g b, WithinBudget rgb r g b := by
  constructor
  · rintro ⟨packet, h⟩
    have hnot : ¬ (rgb.length ≠ 3 ∨ rgb.any (!·.isByte) ∨ (rgb.map PyValue.toNat).sum > 255) := by
      intro hrefuse
      rw [encodeColor, if_pos hrefuse] at h
      cases h
    obtain ⟨hlength, hrest⟩ := not_or.mp hnot
    obtain ⟨hany, hsum⟩ := not_or.mp hrest
    obtain ⟨x, y, z, rfl⟩ := List.length_eq_three.mp (not_not.mp hlength)
    have hall : ∀ v ∈ [x, y, z], v.isByte = true := by
      intro v hv
      by_contra hbyte
      exact hany (List.any_eq_true.mpr ⟨v, hv, by simpa using hbyte⟩)
    obtain ⟨r, rfl, hr⟩ := (isByte_iff x).mp (hall x (by simp))
    obtain ⟨g, rfl, hg⟩ := (isByte_iff y).mp (hall y (by simp))
    obtain ⟨b, rfl, hb⟩ := (isByte_iff z).mp (hall z (by simp))
    refine ⟨r, g, b, rfl, hr, hg, hb, ?_⟩
    have hle : r + (g + (b + 0)) ≤ 255 := not_lt.mp hsum
    omega
  · rintro ⟨r, g, b, h⟩
    exact ⟨_, encodeColor_ok h⟩

end Dld
