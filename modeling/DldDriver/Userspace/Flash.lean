/-
DldDriver/Userspace/Flash.lean

`src/dld_opc.c` and `src/dld_flash.c`: the colour of a datagram and the
frames of a smooth flash.  Times are nanoseconds in 64 bits.
-/
import DldDriver.Abi
import Mathlib.Tactic.SplitIfs

namespace Dld

/-- `uint64_t` -/
abbrev Word64 := BitVec 64

/-! ### dld_opc.c -/

/-- `enum dld_opc_result`, with the colour that is stored on success. -/
inductive DldOpcResult
  | valid (rgb : Word)
  | malformed
  | unsupported
  deriving DecidableEq

/-- A byte in its place in a colour. -/
def colourByte (b : UInt8) (shift : Nat) : Word := BitVec.ofNat 32 b.toNat <<< shift

/-- Three bytes in their places. -/
theorem toNat_bytes {a b c : Word} (ha : a.toNat < 256) (hb : b.toNat < 256) (hc : c.toNat < 256) :
    ((((0 : Word) ||| a <<< 0) ||| b <<< 8) ||| c <<< 16).toNat =
      a.toNat + b.toNat * 256 + c.toNat * 65536 := by
  have hb' : b.toNat <<< 8 % 2 ^ 32 = b.toNat * 256 := by
    rw [Nat.shiftLeft_eq]
    omega
  have hc' : c.toNat <<< 16 % 2 ^ 32 = c.toNat * 65536 := by
    rw [Nat.shiftLeft_eq]
    omega
  have hlow : a.toNat ||| b.toNat * 256 = b.toNat * 256 + a.toNat := by
    rw [Nat.or_comm, ← Nat.shiftLeft_eq b.toNat 8, ← Nat.shiftLeft_add_eq_or_of_lt ha]
  have hall : (b.toNat * 256 + a.toNat) ||| c.toNat * 65536 =
      c.toNat * 65536 + (b.toNat * 256 + a.toNat) := by
    have hlt : b.toNat * 256 + a.toNat < 2 ^ 16 := by omega
    rw [Nat.or_comm, ← Nat.shiftLeft_eq c.toNat 16, ← Nat.shiftLeft_add_eq_or_of_lt hlt]
  rw [BitVec.toNat_or, BitVec.toNat_or, BitVec.toNat_shiftLeft, BitVec.toNat_shiftLeft, hb', hc']
  rw [show (0 : Word) ||| a <<< 0 = a by simp, hlow, hall]
  omega

/-- The declared payload length is compared with what follows the header. -/
def dldOpcColor : List UInt8 → DldOpcResult
  | _channel :: command :: high :: low :: data =>
    let payload := high.toNat * 256 + low.toNat
    if payload < 3 ∨ payload > data.length then .malformed
    else if command ≠ 0 then .unsupported
    else match data with
      | red :: green :: blue :: _ =>
        .valid (colourByte red 16 ||| colourByte green 8 ||| colourByte blue 0)
      | _ => .malformed -- not reached: three bytes at least follow the header
  | _ => .malformed

/-! ### dld_flash.c -/

abbrev flashHalfNs : Word64 := 500000000
abbrev flashDurationNs : Word64 := 1000000000
abbrev flashIdleNs : Word64 := 60000000000

/-- `struct dld_flash` -/
structure DldFlash where
  startedNs : Word64 := 0
  color : Word := 0
  initialSent : Bool := false
  peakSent : Bool := false
  deriving DecidableEq

/-- One channel of `scale_color`: rounded to the nearest. -/
def scaleChannel (channel : Word64) (weight : Word64) : Word :=
  ((channel * weight + flashHalfNs / 2) / flashHalfNs).setWidth 32

def scaleColor (color : Word) (weight : Word64) : Word :=
  [0, 8, 16].foldl (fun rgb shift =>
    rgb ||| scaleChannel (((color >>> shift) &&& 0xff).setWidth 64) weight <<< shift) 0

def dldFlashStart (color : Word) (now : Word64) : DldFlash :=
  { startedNs := now, color := color }

/-- The state after the selection, the sample, and whether it is the last. -/
def dldFlashNext (flash : DldFlash) (now : Word64) : DldFlash × Word × Bool :=
  let elapsed := if now ≥ flash.startedNs then now - flash.startedNs else 0
  if flash.initialSent = false then ({ flash with initialSent := true }, 0, false)
  else if flash.peakSent = false ∧ elapsed ≥ flashHalfNs then
    ({ flash with peakSent := true }, flash.color, false)
  else if flash.peakSent = true ∧ elapsed ≥ flashDurationNs then (flash, 0, true)
  else
    let weight := if elapsed ≤ flashHalfNs then elapsed else flashDurationNs - elapsed
    (flash, scaleColor flash.color weight, false)

def dldFlashIdleDue (now baseline : Word64) : Bool :=
  decide (now ≥ baseline ∧ now - baseline > flashIdleNs)

/-- What a selection does to the state and which samples it may give. -/
theorem dldFlashNext_cases (flash : DldFlash) (now : Word64) :
    (flash.initialSent = false ∧
      dldFlashNext flash now = ({ flash with initialSent := true }, 0, false)) ∨
    (flash.initialSent = true ∧ flash.peakSent = false ∧
      dldFlashNext flash now = ({ flash with peakSent := true }, flash.color, false)) ∨
    (flash.initialSent = true ∧ flash.peakSent = true ∧ dldFlashNext flash now = (flash, 0, true)) ∨
    (flash.initialSent = true ∧ ∃ rgb, dldFlashNext flash now = (flash, rgb, false)) := by
  unfold dldFlashNext
  dsimp only
  generalize (if now ≥ flash.startedNs then now - flash.startedNs else 0) = elapsed
  split_ifs with hinitial hpeak hfinal
  · exact .inl ⟨hinitial, rfl⟩
  · exact .inr (.inl ⟨Bool.not_eq_false _ ▸ hinitial, hpeak.1, rfl⟩)
  · exact .inr (.inr (.inl ⟨Bool.not_eq_false _ ▸ hinitial, hfinal.1, rfl⟩))
  · exact .inr (.inr (.inr ⟨Bool.not_eq_false _ ▸ hinitial, _, rfl⟩))
  · exact .inr (.inr (.inr ⟨Bool.not_eq_false _ ▸ hinitial, _, rfl⟩))

/-- In natural numbers, the idle flash is due strictly after a minute. -/
theorem dldFlashIdleDue_iff (now baseline : Word64) :
    dldFlashIdleDue now baseline = true ↔ baseline.toNat + 60000000000 < now.toNat := by
  have hidle : flashIdleNs.toNat = 60000000000 := rfl
  simp only [dldFlashIdleDue, decide_eq_true_eq, ge_iff_le, gt_iff_lt, BitVec.le_def,
    BitVec.lt_def, hidle]
  constructor
  · rintro ⟨hle, hlt⟩
    rw [BitVec.toNat_sub_of_le hle] at hlt
    omega
  · intro h
    have hle : baseline ≤ now := by
      show baseline.toNat ≤ now.toNat
      omega
    refine ⟨hle, ?_⟩
    rw [BitVec.toNat_sub_of_le hle]
    omega

end Dld
