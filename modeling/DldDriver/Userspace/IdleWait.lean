/-
DldDriver/Userspace/IdleWait.lean

The wait before an idle flash: `idle_wait_ms` of `src/dld_udp.c` beside
`dld_flash_idle_due` of `src/dld_flash.c`.

Both speak of the same strict minute, one by a comparison, the other by a
subtraction rounded up to milliseconds.  In natural numbers:

    due now a        a + 60000000000 < now
    idleWait now a   the least k with due (now + k ms) a, at most 250

so that the loop that polls for `idle_wait_ms` neither sleeps past the flash
nor wakes without it being due.
-/
import DldDriver.Userspace.Udp

namespace Dld

/-- `idle_wait_ms` with idle flashes enabled, in natural numbers. -/
def idleWait (now activity : Nat) : Nat :=
  if 60000000000 < now - activity then 0
  else min 250 ((60000000000 - (now - activity) + 1 + 999999) / 1000000)

/-- `k` milliseconds in nanoseconds. -/
def milliseconds (k : Nat) : Word64 := BitVec.ofNat 64 (k * 1000000)

/-! ### The wait in natural numbers -/

section Natural

variable {now activity k : Nat}

theorem idleWait_le (now activity : Nat) : idleWait now activity ≤ 250 := by
  rw [idleWait]
  split
  · exact Nat.zero_le _
  · exact Nat.min_le_left _ _

theorem idleWait_eq_zero_iff : idleWait now activity = 0 ↔ activity + 60000000000 < now := by
  rw [idleWait]
  split <;> omega

/-- A wait that is not cut short ends in the millisecond in which the flash
becomes due. -/
theorem idleWait_due (h : idleWait now activity ≤ 249) :
    activity + 60000000000 < now + idleWait now activity * 1000000 := by
  rw [idleWait] at h ⊢
  split at h
  · next hover =>
    rw [if_pos hover]
    omega
  · next hover =>
    rw [if_neg hover]
    omega

/-- Within the wait the flash is not due. -/
theorem not_due_of_lt_idleWait (h : k < idleWait now activity) :
    ¬ activity + 60000000000 < now + k * 1000000 := by
  rw [idleWait] at h
  split at h <;> omega

end Natural

/-! ### The wait as computed -/

section Words

variable (now activity : Word64)

/-- The time since the activity, none if the clock went back. -/
theorem toNat_idleElapsed :
    (if now ≥ activity then now - activity else 0).toNat = now.toNat - activity.toNat := by
  split
  · next h => rw [BitVec.toNat_sub_of_le h]
  · next h =>
    have hlt : now.toNat < activity.toNat := BitVec.not_le.mp h
    show 0 = _
    omega

/-- No step of the computation wraps. -/
theorem toNat_idleWaitMs :
    (idleWaitMs now activity true).toNat = idleWait now.toNat activity.toNat := by
  have helapsed := toNat_idleElapsed now activity
  have hidle : flashIdleNs.toNat = 60000000000 := rfl
  have hcap : (BitVec.ofNat 64 udpIdleMs * 1000000 : Word64).toNat = 250000000 := rfl
  have hround : (999999 : Word64).toNat = 999999 := rfl
  have hmilli : (1000000 : Word64).toNat = 1000000 := rfl
  rw [idleWaitMs, idleWait]
  dsimp only
  generalize (if now ≥ activity then now - activity else 0) = elapsed at helapsed
  rw [if_neg (by decide), ← helapsed]
  by_cases hover : elapsed > flashIdleNs
  · have hover' : 60000000000 < elapsed.toNat := hover
    rw [if_pos hover, if_pos hover']
    rfl
  · have hover' : ¬ 60000000000 < elapsed.toNat := hover
    have hle : elapsed ≤ flashIdleNs := BitVec.not_lt.mp hover
    have hremaining : (flashIdleNs - elapsed + 1).toNat = 60000000000 - elapsed.toNat + 1 := by
      rw [BitVec.toNat_add, BitVec.toNat_sub_of_le hle, hidle]
      show (60000000000 - elapsed.toNat + 1) % 2 ^ 64 = _
      omega
    rw [if_neg hover, if_neg hover']
    generalize flashIdleNs - elapsed + 1 = remaining at hremaining
    by_cases hcapped : remaining ≥ BitVec.ofNat 64 udpIdleMs * 1000000
    · have hcapped' : 250000000 ≤ remaining.toNat := hcap ▸ hcapped
      rw [if_pos hcapped]
      show 250 = _
      omega
    · have hcapped' : remaining.toNat < 250000000 := hcap ▸ BitVec.not_le.mp hcapped
      rw [if_neg hcapped, BitVec.toNat_udiv, BitVec.toNat_add, hround, hmilli]
      omega

variable {now activity}

theorem toNat_milliseconds {k : Nat} (hk : k ≤ 250) :
    (milliseconds k).toNat = k * 1000000 := by
  rw [milliseconds, BitVec.toNat_ofNat]
  omega

/-- As long as the wait lasts the flash is not due, also where the sum wraps:
it is then the activity that lies ahead. -/
theorem idleDue_within {k : Nat} (hk : k < idleWait now.toNat activity.toNat) :
    dldFlashIdleDue (now + milliseconds k) activity = false := by
  have hle := idleWait_le now.toNat activity.toNat
  have hms := toNat_milliseconds (k := k) (by omega)
  have hwithin := not_due_of_lt_idleWait hk
  rw [Bool.eq_false_iff, Ne, dldFlashIdleDue_iff, BitVec.toNat_add, hms]
  omega

end Words

/-- **The idle wait.**  It neither wraps nor exceeds 250 ms; it is 0 exactly
where the flash is due; below its cap it ends in the very millisecond in which
the flash becomes due; and at its cap the flash is not due before. -/
theorem idleWaitMs_exact (now activity : Word64) :
    ((idleWaitMs now activity true).toNat = idleWait now.toNat activity.toNat ∧
      (idleWaitMs now activity true).toNat ≤ 250) ∧
    (idleWaitMs now activity true = 0 ↔ dldFlashIdleDue now activity = true) ∧
    (∀ k, (idleWaitMs now activity true).toNat = k → 1 ≤ k → k ≤ 249 →
      now.toNat + k * 1000000 < 2 ^ 64 →
        dldFlashIdleDue (now + milliseconds k) activity = true ∧
          dldFlashIdleDue (now + milliseconds (k - 1)) activity = false) ∧
    (idleWaitMs now activity true = 250 →
      dldFlashIdleDue (now + milliseconds 249) activity = false) ∧
    idleWaitMs now activity false = 250 := by
  have hwait := toNat_idleWaitMs now activity
  have hle := idleWait_le now.toNat activity.toNat
  refine ⟨⟨hwait, by omega⟩, ?_, ?_, ?_, rfl⟩
  · -- due at once
    rw [dldFlashIdleDue_iff, ← idleWait_eq_zero_iff, ← hwait]
    exact BitVec.toNat_eq.trans Iff.rfl
  · -- below the cap
    rintro k hk hpos hcap hwrap
    have hsum : (now + milliseconds k).toNat = now.toNat + k * 1000000 := by
      rw [BitVec.toNat_add, toNat_milliseconds (by omega)]
      omega
    have hk : idleWait now.toNat activity.toNat = k := by omega
    constructor
    · rw [dldFlashIdleDue_iff, hsum, ← hk]
      exact idleWait_due (by omega)
    · exact idleDue_within (by omega)
  · -- at the cap
    intro hcap
    have h250 : idleWait now.toNat activity.toNat = 250 := by
      rw [← hwait, hcap]
      rfl
    exact idleDue_within (by omega)

end Dld
