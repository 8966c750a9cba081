/-
DldDriver/Capture/Wire.lean

A line of the firmware as the checker measures it.

The edges of a stream are counted in cycles of the PRU, the checker measures
highs and lows in nanoseconds.  A stretch of a capture is a fragment of a
line if every width it shows is that of the line, up to less than half of
what separates a one from a zero.  Nothing else is asked of it: the bits that
the checker reads, the gaps that it does not take for resets and the
boundaries that it finds all follow from the widths.
-/
import DldDriver.Capture.Bursts
import DldDriver.Firmware.Waveform

namespace Dld

namespace Capture

/-! ### The line -/

/-- The edges of a line that sends `bits`, in cycles: one pulse for each bit,
in order. -/
def sentEdges (tm : Pru.Timing) (bits : List Bool) : List (Nat × Bool) :=
  bits.zipIdx.flatMap fun (one, k) => Pru.pulse tm one (k * tm.bit.toNat)

/-- A cycle of the PRU, in nanoseconds. -/
def cycleNs : ℚ := 10 ^ 9 / pruHz

/-- The time of edge `i` of a line. -/
def edgeNs (sent : List (Nat × Bool)) (i : Nat) : ℚ := ((sent.getD i (0, false)).1 : ℚ) * cycleNs

/-- The high of pulse `k` of a line, and the low up to the next one. -/
def sentHigh (sent : List (Nat × Bool)) (k : Nat) : ℚ :=
  edgeNs sent (2 * k + 1) - edgeNs sent (2 * k)
def sentLow (sent : List (Nat × Bool)) (k : Nat) : ℚ :=
  edgeNs sent (2 * k + 2) - edgeNs sent (2 * k + 1)

/-- Entries two by two, by induction over the list. -/
theorem getElem?_flatMap_pair {α β : Type} (f g : α → β) (l : List α) (k : Nat) :
    (l.flatMap fun a => [f a, g a])[2 * k]? = (l[k]?).map f ∧
      (l.flatMap fun a => [f a, g a])[2 * k + 1]? = (l[k]?).map g := by
  induction l generalizing k with
  | nil => exact ⟨rfl, rfl⟩
  | cons a l ih =>
    rw [List.flatMap_cons]
    cases k with
    | zero => exact ⟨rfl, rfl⟩
    | succ k => exact ih k

section Edges

variable {bits : List Bool} {k : Nat}

theorem length_sentEdges (tm : Pru.Timing) (bits : List Bool) :
    (sentEdges tm bits).length = 2 * bits.length := by
  simp [sentEdges, Pru.pulse, List.length_flatMap, Nat.mul_comm]

/-- The two edges of a bit. -/
theorem edgeNs_sentEdges (tm : Pru.Timing) (hk : k < bits.length) :
    edgeNs (sentEdges tm bits) (2 * k) = ((k * tm.bit.toNat + 1 : Nat) : ℚ) * cycleNs ∧
      edgeNs (sentEdges tm bits) (2 * k + 1) =
        ((k * tm.bit.toNat + 1 + tm.high (bits.getD k false) : Nat) : ℚ) * cycleNs := by
  have hpair := getElem?_flatMap_pair
    (fun bit : Bool × Nat => (bit.2 * tm.bit.toNat + 1, true))
    (fun bit => (bit.2 * tm.bit.toNat + 1 + tm.high bit.1, false)) bits.zipIdx k
  have hbit : bits.zipIdx[k]? = some (bits.getD k false, k) := by
    rw [List.getElem?_zipIdx, List.getElem?_eq_getElem hk, List.getD_eq_getElem _ _ hk]
    simp
  rw [hbit] at hpair
  have hsent : sentEdges tm bits = bits.zipIdx.flatMap fun bit =>
      [(bit.2 * tm.bit.toNat + 1, true), (bit.2 * tm.bit.toNat + 1 + tm.high bit.1, false)] := rfl
  rw [edgeNs, edgeNs, List.getD_eq_getElem?_getD, List.getD_eq_getElem?_getD, hsent, hpair.1,
    hpair.2]
  exact ⟨rfl, rfl⟩

/-- The times of the profile: T1H is 140 cycles, T0H is 70, and a bit is 240. -/
theorem high_profile (one : Bool) :
    (Pru.profileTiming.high one : ℚ) * cycleNs = if one then 700 else 350 := by
  have hone : Pru.profileTiming.high true = 140 := rfl
  have hzero : Pru.profileTiming.high false = 70 := rfl
  cases one
  · rw [hzero, cycleNs]
    norm_num
  · rw [hone, cycleNs]
    norm_num

theorem bit_profile : (Pru.profileTiming.bit.toNat : ℚ) * cycleNs = 1200 := by
  have hbit : Pru.profileTiming.bit.toNat = 240 := rfl
  rw [hbit, cycleNs]
  norm_num

theorem sentHigh_eq (hk : k < bits.length) :
    sentHigh (sentEdges Pru.profileTiming bits) k = if bits.getD k false then 700 else 350 := by
  obtain ⟨hset, hclear⟩ := edgeNs_sentEdges Pru.profileTiming hk
  rw [sentHigh, hset, hclear, ← high_profile]
  push_cast
  ring

theorem sentLow_eq (hk : k + 1 < bits.length) :
    sentLow (sentEdges Pru.profileTiming bits) k =
      1200 - if bits.getD k false then 700 else 350 := by
  obtain ⟨-, hclear⟩ := edgeNs_sentEdges Pru.profileTiming (Nat.lt_of_succ_lt hk)
  obtain ⟨hset, -⟩ := edgeNs_sentEdges Pru.profileTiming hk
  rw [sentLow, hclear, ← high_profile, ← bit_profile]
  show edgeNs _ (2 * (k + 1)) - _ = _
  rw [hset]
  push_cast
  ring

theorem sentLow_le (hk : k + 1 < bits.length) :
    sentLow (sentEdges Pru.profileTiming bits) k ≤ 850 := by
  rw [sentLow_eq hk]
  split <;> norm_num

end Edges

/-! ### Fragments -/

/-- Half of what separates the high of a one from that of a zero.  Every
tolerance that the options accept is below it. -/
def widthMargin : ℚ := 175

namespace Digital

variable (data : Digital)

/-- What is seen of the low before rise `start`. -/
def lowBefore (start : Nat) : ℚ :=
  if start = 0 then (data.rise 0 - data.firstLowStart) * 10 ^ 9 else data.low (start - 1)

/-- What is seen of the low after the fall of pulse `stop - 1`. -/
def lowAfter (stop : Nat) : ℚ :=
  if stop < data.riseCount then data.low (stop - 1)
  else (data.endS - data.fall (stop - 1)) * 10 ^ 9

end Digital

/-- The rises from `start` up to `stop` are those of a line, from pulse `pos`
on.  The lows around them are no longer than those of the line, where it goes
on; and the timestamps are fine enough to tell its widths. -/
structure Fragment (data : Digital) (start stop : Nat) (sent : List (Nat × Bool)) (pos : Nat) :
    Prop where
  fits : 2 * (pos + (stop - start)) ≤ sent.length
  high : ∀ i < min stop data.completePulses - start,
    |data.high (start + i) - sentHigh sent (pos + i)| < widthMargin
  low : ∀ i < stop - start - 1, |data.low (start + i) - sentLow sent (pos + i)| < widthMargin
  before : 0 < pos → data.lowBefore start < sentLow sent (pos - 1) + widthMargin
  after : 2 * (pos + (stop - start)) < sent.length → stop ≤ data.completePulses →
    data.lowAfter stop < sentLow sent (pos + (stop - start) - 1) + widthMargin
  resolution : data.epsilonNs ≤ widthMargin

instance (data : Digital) (start stop : Nat) (sent : List (Nat × Bool)) (pos : Nat) :
    Decidable (Fragment data start stop sent pos) :=
  decidable_of_iff
    (2 * (pos + (stop - start)) ≤ sent.length ∧
      (∀ i < min stop data.completePulses - start,
        |data.high (start + i) - sentHigh sent (pos + i)| < widthMargin) ∧
      (∀ i < stop - start - 1, |data.low (start + i) - sentLow sent (pos + i)| < widthMargin) ∧
      (0 < pos → data.lowBefore start < sentLow sent (pos - 1) + widthMargin) ∧
      (2 * (pos + (stop - start)) < sent.length → stop ≤ data.completePulses →
        data.lowAfter stop < sentLow sent (pos + (stop - start) - 1) + widthMargin) ∧
      data.epsilonNs ≤ widthMargin)
    ⟨fun ⟨h₁, h₂, h₃, h₄, h₅, h₆⟩ => ⟨h₁, h₂, h₃, h₄, h₅, h₆⟩,
      fun ⟨h₁, h₂, h₃, h₄, h₅, h₆⟩ => ⟨h₁, h₂, h₃, h₄, h₅, h₆⟩⟩

/-- What `main` checks of the two reset times: a reset is longer than a bit. -/
structure Args.Separating (args : Args) : Prop where
  bit : 1200 < args.resetSeparatorUs * 1000
  reset : args.resetSeparatorUs ≤ args.minResetUs

section Widths

variable {data : Digital} {args : Args} {start stop pos : Nat} {bits : List Bool}

/-- **The bits are those of the line.** -/
theorem Fragment.bit (h : Fragment data start stop (sentEdges Pru.profileTiming bits) pos) {i : Nat}
    (hi : i < min stop data.completePulses - start) :
    data.bit (start + i) = bits.getD (pos + i) false := by
  have hfits := h.fits
  rw [length_sentEdges] at hfits
  have hhigh := abs_lt.mp (h.high i hi)
  rw [sentHigh_eq (by omega), widthMargin] at hhigh
  rcases hbit : bits.getD (pos + i) false with - | -
  · rw [hbit, if_neg Bool.false_ne_true] at hhigh
    have hlt : data.high (start + i) < 525 := by linarith
    exact decide_eq_false (not_le.mpr hlt)
  · rw [hbit, if_pos rfl] at hhigh
    have hle : 525 ≤ data.high (start + i) := by linarith
    exact decide_eq_true hle

/-- No low of the line is as long as a reset. -/
theorem Args.Separating.not_reset (hargs : args.Separating) (heps : data.epsilonNs ≤ widthMargin)
    (low : ℚ) (hlow : low < 850 + widthMargin) :
    low < args.resetSeparatorUs * 1000 - data.epsilonNs ∧
      low < args.minResetUs * 1000 - data.epsilonNs := by
  have hbit := hargs.bit
  have hreset := hargs.reset
  rw [widthMargin] at heps hlow
  constructor <;> linarith

/-- Inside a fragment nothing is taken for a reset. -/
theorem Fragment.reset (h : Fragment data start stop (sentEdges Pru.profileTiming bits) pos)
    (hargs : args.Separating) {i : Nat} (hi : i < stop - start - 1) :
    data.reset args (start + i) = false := by
  have hfits := h.fits
  rw [length_sentEdges] at hfits
  have hlow := (abs_lt.mp (h.low i hi)).2
  have hsent : sentLow (sentEdges Pru.profileTiming bits) (pos + i) ≤ 850 :=
    sentLow_le (by omega)
  have hshort := (hargs.not_reset h.resolution (data.low (start + i)) (by linarith)).1
  exact decide_eq_false (not_le.mpr hshort)

/-- A reset before a fragment is the begin of the line. -/
theorem Fragment.begins (h : Fragment data start stop (sentEdges Pru.profileTiming bits) pos)
    (hargs : args.Separating) (hburst : IsBurst data args start stop)
    (hleading : data.leadingReset args start = true) : pos = 0 := by
  by_contra hpos
  have hfits := h.fits
  rw [length_sentEdges] at hfits
  have hnonempty := hburst.nonempty
  have hbefore := h.before (Nat.pos_of_ne_zero hpos)
  have hsent : sentLow (sentEdges Pru.profileTiming bits) (pos - 1) ≤ 850 :=
    sentLow_le (by omega)
  obtain ⟨hseparator, hminimum⟩ := hargs.not_reset h.resolution (data.lowBefore start)
    (by linarith)
  rw [Digital.lowBefore] at hseparator hminimum
  rcases Nat.eq_zero_or_pos start with rfl | hstart
  · -- the low before the first rise is a reset by its length
    rw [if_pos rfl] at hminimum
    rw [Digital.leadingReset] at hleading
    have hlong := of_decide_eq_true ((Bool.or_eq_true_iff.mp hleading).resolve_left (by simp))
    linarith
  · -- any other burst begins after a separating low
    rw [if_neg hstart.ne'] at hseparator
    have hreset := hburst.opens.resolve_left hstart.ne'
    have hlong : data.low (start - 1) ≥ _ := of_decide_eq_true hreset
    linarith

/-- A reset after a fragment is the end of the line. -/
theorem Fragment.ends (h : Fragment data start stop (sentEdges Pru.profileTiming bits) pos)
    (hargs : args.Separating) (hburst : IsBurst data args start stop)
    (htrailing : data.trailingReset args stop = true) : pos + (stop - start) = bits.length := by
  by_contra hend
  have hfits := h.fits
  rw [length_sentEdges] at hfits
  have hnonempty := hburst.nonempty
  have hfall : stop ≤ data.completePulses := of_decide_eq_true (hasFall_of_trailing htrailing)
  have hafter := h.after (by rw [length_sentEdges]; omega) hfall
  have hsent : sentLow (sentEdges Pru.profileTiming bits) (pos + (stop - start) - 1) ≤ 850 :=
    sentLow_le (by omega)
  obtain ⟨hseparator, hminimum⟩ := hargs.not_reset h.resolution (data.lowAfter stop)
    (by linarith)
  rw [Digital.lowAfter] at hseparator hminimum
  rcases Nat.lt_or_ge stop data.riseCount with hmore | hlast
  · -- the burst ends with a separating low
    rw [if_pos hmore] at hseparator
    have hreset := hburst.closes.resolve_left hmore.ne
    have hlong : data.low (stop - 1) ≥ _ := of_decide_eq_true hreset
    linarith
  · -- the low up to the end of the capture is a reset by its length
    rw [if_neg (not_lt.mpr hlast)] at hminimum
    rw [Digital.trailingReset] at htrailing
    have hlong := (Bool.or_eq_true_iff.mp htrailing).resolve_left
      (by simpa using hlast)
    have hlong := of_decide_eq_true (Bool.and_eq_true_iff.mp hlong).2
    rw [Digital.lastFall, if_pos (hasFall_of_trailing htrailing)] at hlong
    linarith

end Widths

end Capture

end Dld
