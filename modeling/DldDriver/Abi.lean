/-
DldDriver/Abi.lean

The constants and words shared by the loader, the kernel helper, the PRU
firmware and userspace (`include/dld_abi.h`, `include/dld_profiles.h`).

The 72-byte command block is a map from its eighteen fields to 32-bit
words; `Off.bytes` gives each field its byte offset.
-/
import Mathlib.Data.BitVec
import Mathlib.Data.Fintype.Basic
import Mathlib.Data.Fin.VecNotation
import Mathlib.Logic.Function.Basic

namespace Dld

/-- `uint32_t`, a PRU register, a mailbox word. -/
abbrev Word := BitVec 32

/-! Numerals index strings, banks and cores. -/

instance neZero_six : NeZero 6 := ⟨by decide⟩

instance neZero_three : NeZero 3 := ⟨by decide⟩

instance neZero_two : NeZero 2 := ⟨by decide⟩

/-- `1U << n` -/
abbrev bitAt (n : Nat) : Word := (1 : Word) <<< n

theorem getLsbD_bitAt (n k : Nat) : (bitAt n).getLsbD k = (decide (n < 32) && decide (n = k)) := by
  have hpow : bitAt n = BitVec.twoPow 32 n := by
    rw [BitVec.twoPow_eq]
    rfl
  rw [hpow, BitVec.getLsbD_twoPow]

theorem and_bitAt_eq_zero_iff {x : Word} {n : Nat} :
    x &&& bitAt n = 0 ↔ x.getLsbD n = false := by
  constructor
  · intro h
    have hbit := congrArg (BitVec.getLsbD · n) h
    by_cases hn : n < 32
    · simpa [getLsbD_bitAt, hn] using hbit
    · exact BitVec.getLsbD_of_ge x n (not_lt.mp hn)
  · intro h
    refine BitVec.eq_of_getLsbD_eq fun k hk => ?_
    rw [BitVec.getLsbD_and, getLsbD_bitAt]
    by_cases hnk : n = k
    · subst hnk
      simp [h]
    · simp [hnk]

/-! ### dld_abi.h -/

abbrev commandMagic : Word := 0x444C4431
abbrev abiVersion : Word := 4
abbrev maxLength : Word := 300

/-- The eighteen words of the command block, under their `DLD_OFF_` names. -/
inductive Off
  | magic
  | abiVersion
  | profileId
  | lengths (i : Fin 6)
  | wireColor
  | requestSeq
  | completionSeq
  | status
  | errorDetail
  | bankReady
  | bankGrant
  | bankDone
  | acceptedSeq
  deriving DecidableEq

/-- Byte offset of a field in the command block. -/
def Off.bytes : Off → Nat
  | .magic => 0
  | .abiVersion => 4
  | .profileId => 8
  | .lengths i => 12 + 4 * i
  | .wireColor => 36
  | .requestSeq => 40
  | .completionSeq => 44
  | .status => 48
  | .errorDetail => 52
  | .bankReady => 56
  | .bankGrant => 60
  | .bankDone => 64
  | .acceptedSeq => 68

/-- The fields are distinct aligned words inside the 72-byte block. -/
theorem Off.bytes_injective : Function.Injective Off.bytes := by
  intro a b h
  cases a <;> cases b <;> simp only [Off.bytes] at h <;> first | rfl | omega | skip
  congr 1
  omega

/-- `struct dld_command`: in shared memory the mailbox, in a local variable
a snapshot of it. -/
abbrev DldCommand := Off → Word

/-- Fixed pass ordinals; empty banks are skipped, never renumbered. -/
inductive Bank
  | gpio2
  | gpio1
  | gpio0
  deriving DecidableEq

/-- `DLD_BANK_GPIO2`, `DLD_BANK_GPIO1`, `DLD_BANK_GPIO0`. -/
def Bank.ordinal : Bank → Word
  | .gpio2 => 1
  | .gpio1 => 2
  | .gpio0 => 3

/-- `ordinal - 1`: the position of a bank in the per-bank arrays and masks. -/
def Bank.index : Bank → Fin 3
  | .gpio2 => 0
  | .gpio1 => 1
  | .gpio0 => 2

/-- The loop `for (ordinal = 1; ordinal <= 3; ordinal++)`. -/
def Bank.pass : List Bank := [.gpio2, .gpio1, .gpio0]

theorem Bank.ordinal_injective : Function.Injective Bank.ordinal := by
  intro a b h
  cases a <;> cases b <;> first | rfl | exact absurd h (by decide)

theorem Bank.ordinal_ne_zero (b : Bank) : b.ordinal ≠ 0 := by
  cases b <;> decide

theorem Bank.mem_pass (b : Bank) : b ∈ Bank.pass := by
  cases b <;> decide

abbrev statusInitializing : Word := 0
abbrev statusReady : Word := 1
abbrev statusRunning : Word := 2
abbrev statusDone : Word := 3
abbrev statusWaitBank : Word := 4
abbrev statusError : Word := 0x80000000

abbrev errorNone : Word := 0
abbrev errorMagic : Word := 1
abbrev errorAbi : Word := 2
abbrev errorProfile : Word := 3
abbrev errorLength : Word := 4
abbrev errorTiming : Word := 5
abbrev errorDirection : Word := 6
abbrev errorInitClear : Word := 7
abbrev errorBankClear : Word := 8
abbrev errorInternal : Word := 9
abbrev errorGate : Word := 10

/-! ### dld_profiles.h -/

abbrev profileWs2812b : Word := 1
abbrev profileWs2811Hs : Word := 2
abbrev profileWs2812bBgr : Word := 3
abbrev profileWs2811HsBgr : Word := 4

abbrev pruHz : Nat := 200000000
abbrev t0hCycles : Nat := 70
abbrev t1hCycles : Nat := 140
abbrev bitCycles : Nat := 240
abbrev resetCycles : Nat := 60000
abbrev propagationCycles : Nat := 200
abbrev settleMarginCycles : Nat := 20000
abbrev drainAttempts : Nat := 8

/-! ### The wiring of the six strings -/

/-- `a > b ? a : b` on `uint32_t`. -/
def maximum (a b : Word) : Word := if a > b then a else b

/-- The longest string of a bank. -/
def maxOfBank (l : Fin 6 → Word) : Bank → Word
  | .gpio2 => maximum (maximum (l 0) (l 1)) (l 5)
  | .gpio1 => maximum (l 2) (l 4)
  | .gpio0 => l 3

/-- The ordinal of the last non-empty bank, zero if every bank is empty. -/
def lastOrdinal (l : Fin 6 → Word) : Word :=
  Bank.pass.foldl (fun last b => if maxOfBank l b ≠ 0 then b.ordinal else last) 0

theorem maximum_toNat (a b : Word) : (maximum a b).toNat = max a.toNat b.toNat := by
  unfold maximum
  split
  · rename_i h
    have : b.toNat < a.toNat := h
    omega
  · rename_i h
    have : ¬ b.toNat < a.toNat := h
    omega

theorem maximum_assoc (a b c : Word) :
    maximum (maximum a b) c = maximum a (maximum b c) := by
  apply BitVec.eq_of_toNat_eq
  simp only [maximum_toNat, max_assoc]

end Dld
