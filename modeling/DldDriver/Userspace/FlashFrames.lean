/-
DldDriver/Userspace/FlashFrames.lean

The frames of one flash (`src/dld_flash.c`), over every sequence of
timestamps.  The state after the calls at the times `before` is

    flashAfter color start before

and the frame of the next call is selected from it.  `dldFlashNext_kind`
says which of four kinds a frame is, in natural numbers; the invariant of a
run is that the full colour has been sent only at a time half a second
after the start.
-/
import DldDriver.Userspace.Flash
import Mathlib.Data.List.Pairwise
import Mathlib.Data.Rat.Floor
import Mathlib.Tactic.FieldSimp
import Mathlib.Tactic.Ring

namespace Dld

/-! ### Channels -/

/-- The shifts of the loop in `scale_color`. -/
def channelShifts : List Nat := [0, 8, 16]

/-- The channel of a colour at a shift. -/
def channel (rgb : Word) (shift : Nat) : Nat := rgb.toNat / 2 ^ shift % 256

/-- A channel in 256ths of the half second, rounded to the nearest. -/
def scaled (c w : Nat) : Nat := (c * w + 250000000) / 500000000

theorem channel_le (rgb : Word) (shift : Nat) : channel rgb shift ≤ 255 :=
  Nat.le_of_lt_succ (Nat.mod_lt _ (by decide))

theorem channel_zero (shift : Nat) : channel 0 shift = 0 := by
  simp [channel]

/-- A weight of at most one half second does not brighten. -/
theorem scaled_le {c w : Nat} (hw : w ≤ 500000000) : scaled c w ≤ c := by
  have hprod : c * w ≤ c * 500000000 := Nat.mul_le_mul_left c hw
  rw [scaled]
  omega

theorem scaled_mono {c w w' : Nat} (h : w ≤ w') : scaled c w ≤ scaled c w' := by
  have hprod : c * w ≤ c * w' := Nat.mul_le_mul_left c h
  apply Nat.div_le_div_right
  omega

/-- The rounding is the floor of the exact quotient plus one half. -/
theorem scaled_eq_floor (c w : Nat) : (scaled c w : ℤ) = ⌊(c * w : ℚ) / 500000000 + 1 / 2⌋ := by
  have hsum : (c * w : ℚ) / 500000000 + 1 / 2 = ((c * w + 250000000 : ℕ) : ℚ) / (500000000 : ℕ) := by
    push_cast
    ring
  rw [hsum, Rat.floor_natCast_div_natCast]
  rfl

/-! ### No wrap -/

theorem toNat_flashHalf : flashHalfNs.toNat = 500000000 := rfl

/-- The product and the sum of `scale_color` stay below 2^64. -/
theorem toNat_product {c w : Word64} (hc : c.toNat ≤ 255) (hw : w.toNat ≤ 500000000) :
    (c * w).toNat = c.toNat * w.toNat ∧
      (c * w + flashHalfNs / 2).toNat = c.toNat * w.toNat + 250000000 := by
  have hprod : c.toNat * w.toNat ≤ 255 * 500000000 := Nat.mul_le_mul hc hw
  have hmul : (c * w).toNat = c.toNat * w.toNat := by
    rw [BitVec.toNat_mul]
    exact Nat.mod_eq_of_lt (by omega)
  refine ⟨hmul, ?_⟩
  rw [BitVec.toNat_add, hmul, show (flashHalfNs / 2).toNat = 250000000 from rfl]
  exact Nat.mod_eq_of_lt (by omega)

theorem toNat_scaleChannel {c w : Word64} (hc : c.toNat ≤ 255) (hw : w.toNat ≤ 500000000) :
    (scaleChannel c w).toNat = scaled c.toNat w.toNat := by
  have hle : scaled c.toNat w.toNat ≤ c.toNat := scaled_le hw
  rw [scaleChannel, BitVec.toNat_setWidth, BitVec.toNat_udiv, (toNat_product hc hw).2, toNat_flashHalf]
  exact Nat.mod_eq_of_lt (by rw [scaled] at hle; omega)

/-- The channel as the code extracts it. -/
theorem toNat_extract (color : Word) (shift : Nat) :
    (((color >>> shift) &&& 0xff).setWidth 64 : Word64).toNat = channel color shift := by
  have hand : ((color >>> shift) &&& 0xff).toNat = channel color shift := by
    rw [BitVec.toNat_and, BitVec.toNat_ushiftRight, Nat.shiftRight_eq_div_pow,
      show (0xff : Word).toNat = 2 ^ 8 - 1 from rfl, Nat.and_two_pow_sub_one_eq_mod]
    rfl
  rw [BitVec.toNat_setWidth, hand]
  exact Nat.mod_eq_of_lt (by have := channel_le color shift; omega)

/-- **Scaling a colour** scales each of its channels. -/
theorem channel_scaleColor {color : Word} {w : Word64} (hw : w.toNat ≤ 500000000) {shift : Nat}
    (hshift : shift ∈ channelShifts) :
    channel (scaleColor color w) shift = scaled (channel color shift) w.toNat := by
  have hscale (shift : Nat) :
      (scaleChannel (((color >>> shift) &&& 0xff).setWidth 64) w).toNat =
        scaled (channel color shift) w.toNat := by
    have hc : (((color >>> shift) &&& 0xff).setWidth 64 : Word64).toNat ≤ 255 := by
      rw [toNat_extract]
      exact channel_le color shift
    rw [toNat_scaleChannel hc hw, toNat_extract]
  have hlt (shift : Nat) : scaled (channel color shift) w.toNat < 256 :=
    Nat.lt_succ_of_le ((scaled_le hw).trans (channel_le color shift))
  have hcolor : (scaleColor color w).toNat = scaled (channel color 0) w.toNat +
      scaled (channel color 8) w.toNat * 256 + scaled (channel color 16) w.toNat * 65536 := by
    rw [← hscale 0, ← hscale 8, ← hscale 16]
    apply toNat_bytes <;> rw [hscale] <;> exact hlt _
  have h0 := hlt 0
  have h8 := hlt 8
  have h16 := hlt 16
  rw [channel, hcolor]
  rcases List.mem_cons.mp hshift with rfl | hshift
  · omega
  · rcases List.mem_cons.mp hshift with rfl | hshift
    · omega
    · obtain rfl := List.mem_singleton.mp hshift
      omega

/-! ### One frame -/

/-- `elapsed` of `dld_flash_next` -/
def flashElapsed (flash : DldFlash) (now : Word64) : Word64 :=
  if now ≥ flash.startedNs then now - flash.startedNs else 0

/-- `weight` of `dld_flash_next` -/
def flashWeight (elapsed : Word64) : Word64 :=
  if elapsed ≤ flashHalfNs then elapsed else flashDurationNs - elapsed

/-- The calls of `dld_flash_next` that get to `scale_color`. -/
structure Scales (flash : DldFlash) (now : Word64) : Prop where
  started : flash.initialSent = true
  notPeak : ¬ (flash.peakSent = false ∧ flashElapsed flash now ≥ flashHalfNs)
  notFinal : ¬ (flash.peakSent = true ∧ flashElapsed flash now ≥ flashDurationNs)

/-- The time since the start, in numbers; none if the clock is behind. -/
theorem toNat_flashElapsed (flash : DldFlash) (now : Word64) :
    (flashElapsed flash now).toNat = now.toNat - flash.startedNs.toNat := by
  unfold flashElapsed
  split
  · rename_i h
    exact BitVec.toNat_sub_of_le h
  · rename_i h
    have hlt : now.toNat < flash.startedNs.toNat := BitVec.lt_def.mp (BitVec.not_le.mp h)
    show 0 = _
    omega

/-- The falling edge does not wrap: past the half second the peak has been
sent, and the second is not over. -/
theorem Scales.falling {flash : DldFlash} {now : Word64} (h : Scales flash now)
    (hlate : ¬ flashElapsed flash now ≤ flashHalfNs) :
    flash.peakSent = true ∧ (flashElapsed flash now).toNat < 1000000000 ∧
      (flashDurationNs - flashElapsed flash now).toNat =
        1000000000 - (flashElapsed flash now).toNat := by
  have hhalf : flashElapsed flash now ≥ flashHalfNs := by
    have hlt := BitVec.lt_def.mp (BitVec.not_le.mp hlate)
    exact BitVec.le_def.mpr (Nat.le_of_lt hlt)
  have hpeak : flash.peakSent = true := by
    by_contra hnot
    exact h.notPeak ⟨Bool.eq_false_iff.mpr hnot, hhalf⟩
  have hlt : (flashElapsed flash now).toNat < flashDurationNs.toNat :=
    BitVec.lt_def.mp (BitVec.not_le.mp fun hend => h.notFinal ⟨hpeak, hend⟩)
  refine ⟨hpeak, hlt, ?_⟩
  exact BitVec.toNat_sub_of_le (BitVec.le_def.mpr (Nat.le_of_lt hlt))

/-- The triangular weight of an elapsed time. -/
def triangle (e : Nat) : Nat := min e (1000000000 - e)

theorem triangle_le (e : Nat) : triangle e ≤ 500000000 := by
  rw [triangle]
  omega

theorem Scales.weight {flash : DldFlash} {now : Word64} (h : Scales flash now) :
    (flashWeight (flashElapsed flash now)).toNat = triangle (flashElapsed flash now).toNat := by
  by_cases hearly : flashElapsed flash now ≤ flashHalfNs
  · have hle : (flashElapsed flash now).toNat ≤ 500000000 := BitVec.le_def.mp hearly
    rw [flashWeight, if_pos hearly, triangle]
    omega
  · have hlt : 500000000 < (flashElapsed flash now).toNat :=
      BitVec.lt_def.mp (BitVec.not_le.mp hearly)
    obtain ⟨-, -, hsub⟩ := h.falling hearly
    rw [flashWeight, if_neg hearly, triangle, hsub]
    omega

/-- The four kinds of frames. -/
theorem dldFlashNext_kind (flash : DldFlash) (now : Word64) :
    (flash.initialSent = false ∧
      dldFlashNext flash now = ({ flash with initialSent := true }, 0, false)) ∨
    (flash.initialSent = true ∧ flash.peakSent = false ∧
      500000000 ≤ (flashElapsed flash now).toNat ∧
      dldFlashNext flash now = ({ flash with peakSent := true }, flash.color, false)) ∨
    (flash.initialSent = true ∧ flash.peakSent = true ∧
      1000000000 ≤ (flashElapsed flash now).toNat ∧ dldFlashNext flash now = (flash, 0, true)) ∨
    (Scales flash now ∧ dldFlashNext flash now =
      (flash, scaleColor flash.color (flashWeight (flashElapsed flash now)), false)) := by
  have hnext : dldFlashNext flash now =
      if flash.initialSent = false then ({ flash with initialSent := true }, 0, false)
      else if flash.peakSent = false ∧ flashElapsed flash now ≥ flashHalfNs then
        ({ flash with peakSent := true }, flash.color, false)
      else if flash.peakSent = true ∧ flashElapsed flash now ≥ flashDurationNs then (flash, 0, true)
      else (flash, scaleColor flash.color (flashWeight (flashElapsed flash now)), false) := rfl
  by_cases hinitial : flash.initialSent = false
  · rw [if_pos hinitial] at hnext
    exact .inl ⟨hinitial, hnext⟩
  · have hstarted : flash.initialSent = true := Bool.not_eq_false _ ▸ hinitial
    rw [if_neg hinitial] at hnext
    by_cases hpeak : flash.peakSent = false ∧ flashElapsed flash now ≥ flashHalfNs
    · rw [if_pos hpeak] at hnext
      exact .inr (.inl ⟨hstarted, hpeak.1, BitVec.le_def.mp hpeak.2, hnext⟩)
    · rw [if_neg hpeak] at hnext
      by_cases hfinal : flash.peakSent = true ∧ flashElapsed flash now ≥ flashDurationNs
      · rw [if_pos hfinal] at hnext
        exact .inr (.inr (.inl ⟨hstarted, hfinal.1, BitVec.le_def.mp hfinal.2, hnext⟩))
      · rw [if_neg hfinal] at hnext
        exact .inr (.inr (.inr ⟨⟨hstarted, hpeak, hfinal⟩, hnext⟩))

/-! ### The run -/

section Run

variable (color : Word) (start : Word64)

/-- The state after the calls at the times `before`. -/
def flashAfter (before : List Word64) : DldFlash :=
  before.foldl (fun flash now => (dldFlashNext flash now).1) (dldFlashStart color start)

/-- The frame of the call at `now`, and whether it is the last. -/
def flashFrame (before : List Word64) (now : Word64) : Word × Bool :=
  (dldFlashNext (flashAfter color start before) now).2

/-- The call at `now` is the one that gives the full colour. -/
def FullFrame (before : List Word64) (now : Word64) : Prop :=
  (flashAfter color start before).peakSent = false ∧
    (flashAfter color start (before ++ [now])).peakSent = true

variable {color start}

theorem flashAfter_append (before : List Word64) (now : Word64) :
    flashAfter color start (before ++ [now]) =
      (dldFlashNext (flashAfter color start before) now).1 := by
  rw [flashAfter, List.foldl_append]
  rfl

/-- What one call keeps. -/
theorem dldFlashNext_keeps (flash : DldFlash) (now : Word64) :
    (dldFlashNext flash now).1.startedNs = flash.startedNs ∧
      (dldFlashNext flash now).1.color = flash.color ∧
      (dldFlashNext flash now).1.initialSent = true ∧
      (flash.peakSent = true → (dldFlashNext flash now).1.peakSent = true) := by
  rcases dldFlashNext_kind flash now with ⟨-, h⟩ | ⟨hs, -, -, h⟩ | ⟨hs, hp, -, h⟩ | ⟨hs, h⟩
  · rw [h]
    exact ⟨rfl, rfl, rfl, id⟩
  · rw [h]
    exact ⟨rfl, rfl, hs, fun _ => rfl⟩
  · rw [h]
    exact ⟨rfl, rfl, hs, id⟩
  · rw [h]
    exact ⟨rfl, rfl, hs.started, id⟩

/-- **The invariant of a run.**  The start and the colour stay; the first
black has been sent after one call; and the full colour has been sent only
in a call half a second after the start. -/
theorem flashAfter_invariant (color : Word) (start : Word64) (before : List Word64) :
    (flashAfter color start before).startedNs = start ∧
      (flashAfter color start before).color = color ∧
      ((flashAfter color start before).initialSent = true ↔ before ≠ []) ∧
      ((flashAfter color start before).peakSent = true → ∃ earlier now,
        earlier ++ [now] <+: before ∧ flashFrame color start earlier now = (color, false) ∧
          500000000 ≤ now.toNat - start.toNat) := by
  induction before using List.reverseRecOn with
  | nil => exact ⟨rfl, rfl, ⟨nofun, fun h => absurd rfl h⟩, nofun⟩
  | append_singleton before now ih =>
    obtain ⟨hstart, hcolor, -, hpeak⟩ := ih
    obtain ⟨hs, hc, hi, -⟩ := dldFlashNext_keeps (flashAfter color start before) now
    rw [flashAfter_append]
    refine ⟨hs.trans hstart, hc.trans hcolor, iff_of_true hi (by simp), fun hsent => ?_⟩
    by_cases hbefore : (flashAfter color start before).peakSent = true
    · obtain ⟨earlier, t, hprefix, hframe⟩ := hpeak hbefore
      exact ⟨earlier, t, hprefix.trans (List.prefix_append _ _), hframe⟩
    · -- the call at `now` sends it
      have hclear : (flashAfter color start before).peakSent = false := Bool.eq_false_iff.mpr hbefore
      refine ⟨before, now, List.prefix_rfl, ?_⟩
      rcases dldFlashNext_kind (flashAfter color start before) now with
        ⟨-, h⟩ | ⟨-, -, he, h⟩ | ⟨-, hp, -, -⟩ | ⟨-, h⟩
      · rw [h] at hsent
        exact absurd (hclear.symm.trans hsent) (by decide)
      · rw [toNat_flashElapsed, hstart] at he
        refine ⟨?_, he⟩
        rw [flashFrame, h, hcolor]
      · exact absurd hp hbefore
      · rw [h] at hsent
        exact absurd hsent hbefore

theorem flashAfter_peak {before : List Word64} (more : List Word64)
    (h : (flashAfter color start before).peakSent = true) :
    (flashAfter color start (before ++ more)).peakSent = true := by
  induction more using List.reverseRecOn with
  | nil => rwa [List.append_nil]
  | append_singleton more now ih =>
    rw [← List.append_assoc, flashAfter_append]
    exact (dldFlashNext_keeps _ now).2.2.2 ih

/-- The elapsed time of a call, in numbers. -/
theorem toNat_elapsed (before : List Word64) (now : Word64) :
    (flashElapsed (flashAfter color start before) now).toNat = now.toNat - start.toNat := by
  rw [toNat_flashElapsed, (flashAfter_invariant _ _ before).1]

/-- A frame that is scaled, channel by channel. -/
theorem channel_flashFrame {before : List Word64} {now : Word64}
    (h : Scales (flashAfter color start before) now)
    (hframe : dldFlashNext (flashAfter color start before) now =
      (flashAfter color start before, scaleColor (flashAfter color start before).color
        (flashWeight (flashElapsed (flashAfter color start before) now)), false))
    {shift : Nat} (hshift : shift ∈ channelShifts) :
    channel (flashFrame color start before now).1 shift =
      scaled (channel color shift) (triangle (now.toNat - start.toNat)) := by
  have hle : (flashWeight (flashElapsed (flashAfter color start before) now)).toNat ≤ 500000000 := by
    rw [h.weight]
    exact triangle_le _
  rw [flashFrame, hframe]
  show channel (scaleColor _ _) shift = _
  rw [channel_scaleColor hle hshift, h.weight, toNat_elapsed, (flashAfter_invariant _ _ before).2.1]

/-- No frame is brighter than the colour. -/
theorem channel_flashFrame_le (before : List Word64) (now : Word64) {shift : Nat}
    (hshift : shift ∈ channelShifts) :
    channel (flashFrame color start before now).1 shift ≤ channel color shift := by
  have hblack : channel 0 shift ≤ channel color shift := by
    rw [channel_zero]
    exact Nat.zero_le _
  rcases dldFlashNext_kind (flashAfter color start before) now with
    ⟨-, h⟩ | ⟨-, -, -, h⟩ | ⟨-, -, -, h⟩ | ⟨hs, h⟩
  · rw [flashFrame, h]
    exact hblack
  · rw [flashFrame, h, (flashAfter_invariant _ _ before).2.1]
  · rw [flashFrame, h]
    exact hblack
  · rw [channel_flashFrame hs h hshift]
    exact scaled_le (triangle_le _)

/-- After the full colour, once the second is over, the flash ends. -/
theorem flashFrame_ends {before : List Word64} {now : Word64}
    (hpeak : (flashAfter color start before).peakSent = true)
    (hover : 1000000000 ≤ now.toNat - start.toNat) : flashFrame color start before now = (0, true) := by
  obtain ⟨-, -, hsent, hfull⟩ := flashAfter_invariant color start before
  obtain ⟨earlier, t, hprefix, -⟩ := hfull hpeak
  have hne : before ≠ [] := by
    rintro rfl
    exact absurd (List.prefix_nil.mp hprefix) (by simp)
  rcases dldFlashNext_kind (flashAfter color start before) now with
    ⟨hi, -⟩ | ⟨-, hp, -, -⟩ | ⟨-, -, -, h⟩ | ⟨hs, -⟩
  · exact absurd (hi.symm.trans (hsent.mpr hne)) (by decide)
  · exact absurd (hp.symm.trans hpeak) (by decide)
  · rw [flashFrame, h]
  · refine absurd ⟨hpeak, BitVec.le_def.mpr ?_⟩ hs.notFinal
    rw [toNat_elapsed]
    exact hover

/-! ### Brightening and dimming -/

section Sorted

variable {before between : List Word64} {now later : Word64} {shift : Nat}

theorem now_le_later (h : (before ++ now :: between ++ [later]).Pairwise (· ≤ ·)) :
    now.toNat ≤ later.toNat := by
  rw [List.append_assoc, List.cons_append] at h
  have hnow := (List.pairwise_cons.mp (List.pairwise_append.mp h).2.1).1
  exact BitVec.le_def.mp (hnow later (by simp))

/-- Up to the full colour each channel grows. -/
theorem flashFrame_brightens (h : (before ++ now :: between ++ [later]).Pairwise (· ≤ ·))
    (hpeak : (flashAfter color start (before ++ now :: between)).peakSent = false)
    (hshift : shift ∈ channelShifts) :
    channel (flashFrame color start before now).1 shift ≤
      channel (flashFrame color start (before ++ now :: between) later).1 shift := by
  have hle := now_le_later h
  have hclear : ¬ (flashAfter color start (before ++ [now])).peakSent = true := by
    intro hsent
    have hlast := flashAfter_peak between hsent
    rw [List.append_assoc] at hlast
    exact absurd (hpeak.symm.trans hlast) (by decide)
  have hbefore : ¬ (flashAfter color start before).peakSent = true := fun hsent =>
    hclear (flashAfter_peak [now] hsent)
  rcases dldFlashNext_kind (flashAfter color start before) now with
    ⟨-, h₁⟩ | ⟨-, -, -, h₁⟩ | ⟨-, hp, -, -⟩ | ⟨hs, h₁⟩
  · rw [flashFrame, h₁, channel_zero]
    exact Nat.zero_le _
  · rw [flashAfter_append, h₁] at hclear
    exact absurd rfl hclear
  · exact absurd hp hbefore
  · rw [channel_flashFrame hs h₁ hshift]
    rcases dldFlashNext_kind (flashAfter color start (before ++ now :: between)) later with
      ⟨hi, -⟩ | ⟨-, -, -, h₂⟩ | ⟨-, hp, -, -⟩ | ⟨hs', h₂⟩
    · have hsent := (flashAfter_invariant color start
        (before ++ now :: between)).2.2.1.mpr (by simp)
      exact absurd (hi.symm.trans hsent) (by decide)
    · -- the full colour
      rw [flashFrame, h₂, (flashAfter_invariant _ _ _).2.1]
      exact scaled_le (triangle_le _)
    · exact absurd (hpeak.symm.trans hp) (by decide)
    · -- both on the rising edge
      have hearly : ¬ 500000000 ≤ later.toNat - start.toNat := by
        intro hhalf
        refine hs'.notPeak ⟨hpeak, BitVec.le_def.mpr ?_⟩
        rw [toNat_elapsed]
        exact hhalf
      rw [channel_flashFrame hs' h₂ hshift]
      apply scaled_mono
      rw [triangle, triangle]
      omega

/-- From the full colour on each channel shrinks. -/
theorem flashFrame_dims (h : (before ++ now :: between ++ [later]).Pairwise (· ≤ ·))
    (hpeak : (flashAfter color start (before ++ [now])).peakSent = true)
    (hshift : shift ∈ channelShifts) :
    channel (flashFrame color start (before ++ now :: between) later).1 shift ≤
      channel (flashFrame color start before now).1 shift := by
  have hle := now_le_later h
  have hsent : (flashAfter color start (before ++ now :: between)).peakSent = true := by
    have hlast := flashAfter_peak between hpeak
    rwa [List.append_assoc] at hlast
  obtain ⟨-, -, hinitial, hfull⟩ := flashAfter_invariant color start before
  rcases dldFlashNext_kind (flashAfter color start before) now with
    ⟨hi, h₁⟩ | ⟨-, -, -, h₁⟩ | ⟨-, hp, hover, h₁⟩ | ⟨hs, h₁⟩
  · -- the first black is not after the full colour
    have hnil : before = [] := by
      by_contra hne
      exact absurd (hi.symm.trans (hinitial.mpr hne)) (by decide)
    subst hnil
    rw [flashAfter_append, h₁] at hpeak
    cases hpeak
  · rw [show flashFrame color start before now = (color, false) by
      rw [flashFrame, h₁, (flashAfter_invariant _ _ before).2.1]]
    exact channel_flashFrame_le _ _ hshift
  · rw [toNat_elapsed] at hover
    rw [flashFrame_ends hsent (by omega), channel_zero]
    exact Nat.zero_le _
  · -- the falling edge
    have hp : (flashAfter color start before).peakSent = true := by
      rw [flashAfter_append, h₁] at hpeak
      exact hpeak
    obtain ⟨earlier, t, hprefix, -, hhalf⟩ := hfull hp
    have ht : t.toNat ≤ now.toNat := by
      rw [List.append_assoc] at h
      have hmem : t ∈ before := hprefix.subset (by simp)
      exact BitVec.le_def.mp ((List.pairwise_append.mp h).2.2 t hmem now (by simp))
    rw [channel_flashFrame hs h₁ hshift]
    rcases dldFlashNext_kind (flashAfter color start (before ++ now :: between)) later with
      ⟨hi, -⟩ | ⟨-, hp', -, -⟩ | ⟨-, -, -, h₂⟩ | ⟨hs', h₂⟩
    · have hstarted := (flashAfter_invariant color start
        (before ++ now :: between)).2.2.1.mpr (by simp)
      exact absurd (hi.symm.trans hstarted) (by decide)
    · exact absurd (hp'.symm.trans hsent) (by decide)
    · rw [flashFrame, h₂, channel_zero]
      exact Nat.zero_le _
    · rw [channel_flashFrame hs' h₂ hshift]
      apply scaled_mono
      rw [triangle, triangle]
      omega

end Sorted

end Run

/-! ### The selection -/

/-- No subtraction and no product of a call wraps. -/
structure NoWrap (flash : DldFlash) (now : Word64) : Prop where
  elapsed : now ≥ flash.startedNs →
    (now - flash.startedNs).toNat + flash.startedNs.toNat = now.toNat
  weight : Scales flash now → ¬ flashElapsed flash now ≤ flashHalfNs →
    (flashDurationNs - flashElapsed flash now).toNat + (flashElapsed flash now).toNat = 1000000000
  product : Scales flash now → ∀ shift : Nat,
    let c : Word64 := ((flash.color >>> shift) &&& 0xff).setWidth 64
    let w := flashWeight (flashElapsed flash now)
    (c * w).toNat = c.toNat * w.toNat ∧
      (c * w + flashHalfNs / 2).toNat = c.toNat * w.toNat + 250000000

theorem dldFlashNext_noWrap (flash : DldFlash) (now : Word64) : NoWrap flash now := by
  refine ⟨fun h => ?_, fun hs hlate => ?_, fun hs shift => ?_⟩
  · have hle := BitVec.le_def.mp h
    rw [BitVec.toNat_sub_of_le h]
    omega
  · obtain ⟨-, hlt, hsub⟩ := hs.falling hlate
    omega
  · apply toNat_product
    · rw [toNat_extract]
      exact channel_le _ _
    · rw [hs.weight]
      exact triangle_le _

/-- What the frames of a flash of `color` started at `start` are. -/
structure FlashSelection (color : Word) (start : Word64) : Prop where
  /-- The first frame is black. -/
  first : ∀ now, flashFrame color start [] now = (0, false)
  /-- The last frame is black, and the full colour came before it. -/
  last : ∀ before now, (flashFrame color start before now).2 = true →
    (flashFrame color start before now).1 = 0 ∧
      ∃ earlier t, earlier ++ [t] <+: before ∧ flashFrame color start earlier t = (color, false)
  noWrap : ∀ before now, NoWrap (flashAfter color start before) now
  /-- No channel exceeds the colour's. -/
  dimmed : ∀ before now, ∀ shift ∈ channelShifts,
    channel (flashFrame color start before now).1 shift ≤ channel color shift
  /-- Each channel grows up to the full colour … -/
  brightens : ∀ before now between later, (before ++ now :: between ++ [later]).Pairwise (· ≤ ·) →
    (flashAfter color start (before ++ now :: between)).peakSent = false → ∀ shift ∈ channelShifts,
      channel (flashFrame color start before now).1 shift ≤
        channel (flashFrame color start (before ++ now :: between) later).1 shift
  /-- … and shrinks from it on. -/
  dims : ∀ before now between later, (before ++ now :: between ++ [later]).Pairwise (· ≤ ·) →
    (flashAfter color start (before ++ [now])).peakSent = true → ∀ shift ∈ channelShifts,
      channel (flashFrame color start (before ++ now :: between) later).1 shift ≤
        channel (flashFrame color start before now).1 shift
  /-- The call that sends the full colour gives it. -/
  full : ∀ before now, FullFrame color start before now →
    flashFrame color start before now = (color, false)
  /-- A frame in between is the rounded share of the triangle. -/
  intermediate : ∀ before now, before ≠ [] → ¬ FullFrame color start before now →
    (flashFrame color start before now).2 = false → ∀ shift ∈ channelShifts,
      (channel (flashFrame color start before now).1 shift : ℤ) =
        ⌊(channel color shift * triangle (now.toNat - start.toNat) : ℚ) / 500000000 + 1 / 2⌋
  /-- Past the full colour and the second, the flash ends. -/
  ends : ∀ before now, (flashAfter color start before).peakSent = true →
    1000000000 ≤ now.toNat - start.toNat → flashFrame color start before now = (0, true)

/-- **Frame selection**, for every colour, start and sequence of times. -/
theorem flash_selection (color : Word) (start : Word64) : FlashSelection color start where
  first _ := rfl
  last before now hlast := by
    rcases dldFlashNext_kind (flashAfter color start before) now with
      ⟨-, h⟩ | ⟨-, -, -, h⟩ | ⟨-, hp, -, h⟩ | ⟨-, h⟩
    · rw [flashFrame, h] at hlast
      cases hlast
    · rw [flashFrame, h] at hlast
      cases hlast
    · obtain ⟨earlier, t, hprefix, hframe, -⟩ := (flashAfter_invariant _ _ before).2.2.2 hp
      refine ⟨?_, earlier, t, hprefix, hframe⟩
      rw [flashFrame, h]
    · rw [flashFrame, h] at hlast
      cases hlast
  noWrap before now := dldFlashNext_noWrap _ _
  dimmed before now _ hshift := channel_flashFrame_le before now hshift
  brightens _ _ _ _ hsorted hpeak _ hshift := flashFrame_brightens hsorted hpeak hshift
  dims _ _ _ _ hsorted hpeak _ hshift := flashFrame_dims hsorted hpeak hshift
  full before now hfull := by
    obtain ⟨hclear, hsent⟩ := hfull
    rw [flashAfter_append] at hsent
    rcases dldFlashNext_kind (flashAfter color start before) now with
      ⟨-, h⟩ | ⟨-, -, -, h⟩ | ⟨-, hp, -, -⟩ | ⟨-, h⟩
    · rw [h] at hsent
      exact absurd (hclear.symm.trans hsent) (by decide)
    · rw [flashFrame, h, (flashAfter_invariant _ _ before).2.1]
    · exact absurd (hclear.symm.trans hp) (by decide)
    · rw [h] at hsent
      exact absurd (hclear.symm.trans hsent) (by decide)
  intermediate before now hne hfull hlast shift hshift := by
    rcases dldFlashNext_kind (flashAfter color start before) now with
      ⟨hi, -⟩ | ⟨-, hp, -, h⟩ | ⟨-, -, -, h⟩ | ⟨hs, h⟩
    · exact absurd (hi.symm.trans ((flashAfter_invariant _ _ before).2.2.1.mpr hne)) (by decide)
    · refine absurd ⟨hp, ?_⟩ hfull
      rw [flashAfter_append, h]
    · rw [flashFrame, h] at hlast
      cases hlast
    · rw [channel_flashFrame hs h hshift]
      exact scaled_eq_floor _ _
  ends _ _ hpeak hover := flashFrame_ends hpeak hover

end Dld
