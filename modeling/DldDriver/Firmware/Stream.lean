/-
DldDriver/Firmware/Stream.lean

The stream of one granted bank, cycle by cycle.

`bankStream` is what the pixel loop executes, instruction by instruction:
`max lengths` pixels of 24 bits, each bit a SET and a CLEAR of the pins
that are still active, padded to the profile's cycle counts.
`pixelLoop_steps` shows that the loop of the firmware performs exactly
these instructions.

The padding is where the source has to be careful: a zero and a one take
different paths, each of the four delays has an odd cycle of its own, and
the last bit of a pixel leaves twelve cycles to `PIXEL_BOUNDARY`.
-/
import Mathlib.Tactic.Ring
import DldDriver.Firmware.Code

namespace Dld

open Interaction

/-! ### Pins -/

/-- The strings wired to a bank, in the order of the registers r10..r12. -/
def Bank.strings : Bank → List (Fin 6)
  | .gpio2 => [0, 1, 5]
  | .gpio1 => [2, 4]
  | .gpio0 => [3]

/-- The position of a string's pin in the GPIO registers of its bank. -/
def pinBit : Fin 6 → Nat := ![3, 4, 12, 26, 14, 1]

namespace Pru

abbrev clearAddress : Bank → Word
  | .gpio2 => gpio2Clear
  | .gpio1 => gpio1Clear
  | .gpio0 => gpio0Clear

abbrev bankMask : Bank → Word
  | .gpio2 => gpio2Mask
  | .gpio1 => gpio1Mask
  | .gpio0 => gpio0Mask

/-- The label to which `SEND_GROUP` returns. -/
def returnLabel : Bank → Label
  | .gpio2 => .afterGpio2
  | .gpio1 => .afterGpio1
  | .gpio0 => .afterGpio0

/-- The bank registers as the setup before `JAL r28.w0, SEND_GROUP` leaves
them. -/
def Regs.atBank (r : Regs) (b : Bank) (l : Fin 6 → Word) : Regs :=
  match b with
  | .gpio2 => { r with
      r7 := gpio2Clear, r8 := gpio2Mask, r10 := l 0, r11 := l 1, r12 := l 5
      r13 := bitAt 3, r14 := bitAt 4, r15 := bitAt 1, r26 := Bank.gpio2.ordinal
      r28 := .afterGpio2 }
  | .gpio1 => { r with
      r7 := gpio1Clear, r8 := gpio1Mask, r10 := l 2, r11 := l 4, r12 := 0
      r13 := bitAt 12, r14 := bitAt 14, r15 := 0, r26 := Bank.gpio1.ordinal
      r28 := .afterGpio1 }
  | .gpio0 => { r with
      r7 := gpio0Clear, r8 := gpio0Mask, r10 := l 3, r11 := 0, r12 := 0
      r13 := bitAt 26, r14 := 0, r15 := 0, r26 := Bank.gpio0.ordinal
      r28 := .afterGpio0 }

/-- The mask of one string after `p` pixels: its pin until it has finished. -/
def pinActive (l : Fin 6 → Word) (p : Nat) (s : Fin 6) : Word :=
  if p < (l s).toNat then bitAt (pinBit s) else 0

/-- The active mask of a bank after `p` pixels. -/
def activeMask (b : Bank) (l : Fin 6 → Word) (p : Nat) : Word :=
  (b.strings.map (pinActive l p)).foldr (· ||| ·) 0

/-! ### Admissible timing -/

/-- What the start-up guard establishes. -/
structure Timing.Admitted (tm : Timing) : Prop where
  t0h : 6 ≤ tm.t0h.toNat
  t1h : 6 ≤ tm.t1h.toNat
  zeroLow : tm.t0h.toNat + 20 ≤ tm.bit.toNat
  oneLow : tm.t1h.toNat + 20 ≤ tm.bit.toNat

/-- The environment that answers every read with zero. -/
def silent (o : PruOp) : o.Res := default

theorem timingGuard_iff (tm : Timing) :
    ((timingGuard tm).exec silent).2 = true ↔ tm.Admitted := by
  have h : ((timingGuard tm).exec silent).2 = true ↔
      ¬ 6 > tm.t0h ∧ ¬ 6 > tm.t1h ∧ ¬ tm.t0h ≥ tm.bit ∧ ¬ 20 > tm.bit - tm.t0h ∧
        ¬ tm.t1h ≥ tm.bit ∧ ¬ 20 > tm.bit - tm.t1h := by
    simp only [timingGuard, Prog.exec_bind]
    split_ifs <;> simp_all
  rw [h]
  constructor
  · rintro ⟨h₁, h₂, h₃, h₄, h₅, h₆⟩
    constructor <;> bv_omega
  · rintro ⟨h₁, h₂, h₃, h₄⟩
    refine ⟨?_, ?_, ?_, ?_, ?_, ?_⟩ <;> bv_omega

/-- The high time of a bit, in cycles. -/
def Timing.high (tm : Timing) (one : Bool) : Nat := if one then tm.t1h.toNat else tm.t0h.toNat

/-- The rest of the bit period. -/
def Timing.low (tm : Timing) (one : Bool) : Nat := tm.bit.toNat - tm.high one

/-- The timing registers hold the loop counts of `tm`. -/
structure Regs.Loaded (r : Regs) (tm : Timing) : Prop where
  r20 : r.r20 = tm.r20
  r21 : r.r21 = tm.r21
  r22 : r.r22 = tm.r22
  r23 : r.r23 = tm.r23
  r24 : r.r24 = tm.r24
  r25 : r.r25 = tm.r25
  r27 : r.r27 = tm.r27

/-- The timing registers as `START` loads them. -/
def Regs.load (r : Regs) (tm : Timing) : Regs :=
  { r with
    r20 := tm.r20, r21 := tm.r21, r22 := tm.r22, r23 := tm.r23, r24 := tm.r24, r25 := tm.r25
    r27 := tm.r27 }

/-! ### The loop counts -/

/-- The count of the high delay. -/
def Timing.highCount (tm : Timing) (one : Bool) : Word := if one then tm.r21 else tm.r20

/-- The count of the low delay; the last bit of a pixel has its own. -/
def Timing.lowCount (tm : Timing) (final one : Bool) : Word :=
  if final then (if one then tm.r25 else tm.r24) else (if one then tm.r23 else tm.r22)

/-- Whether a delay has an odd cycle left. -/
def oddCycle (cycles : Nat) : Bool := decide (cycles % 2 = 1)

namespace Timing.Admitted

variable {tm : Timing}

theorem highCount_toNat (_ : tm.Admitted) (one : Bool) :
    (tm.highCount one).toNat = (tm.high one - 4) / 2 := by
  cases one
  · simp only [highCount, r20, high, BitVec.toNat_ofNat, Bool.false_eq_true, if_false]
    omega
  · simp only [highCount, r21, high, BitVec.toNat_ofNat, if_true]
    omega

theorem lowCount_toNat (_ : tm.Admitted) (final one : Bool) :
    (tm.lowCount final one).toNat = (tm.low one - if final then 18 else 6) / 2 := by
  cases final <;> cases one <;>
    simp only [lowCount, r22, r23, r24, r25, low, high, BitVec.toNat_ofNat, Bool.false_eq_true,
      if_false, if_true] <;>
    omega

theorem high_add_low (h : tm.Admitted) (one : Bool) :
    tm.high one + tm.low one = tm.bit.toNat := by
  have := h.zeroLow
  have := h.oneLow
  cases one <;> simp only [high, low, Bool.false_eq_true, if_false, if_true] <;> omega

theorem six_le_high (h : tm.Admitted) (one : Bool) : 6 ≤ tm.high one := by
  cases one
  · exact h.t0h
  · exact h.t1h

theorem twenty_le_low (h : tm.Admitted) (one : Bool) : 20 ≤ tm.low one := by
  have := h.zeroLow
  have := h.oneLow
  cases one <;> simp only [high, low, Bool.false_eq_true, if_false, if_true] <;> omega

theorem highCount_ne_zero (h : tm.Admitted) (one : Bool) : tm.highCount one ≠ 0 := by
  have := h.highCount_toNat one
  have := h.six_le_high one
  intro h0
  simp only [h0, BitVec.ofNat_eq_ofNat, BitVec.toNat_ofNat] at *
  omega

theorem lowCount_ne_zero (h : tm.Admitted) (final one : Bool) : tm.lowCount final one ≠ 0 := by
  have hc := h.lowCount_toNat final one
  have := h.twenty_le_low one
  intro h0
  rw [h0] at hc
  simp only [BitVec.ofNat_eq_ofNat, BitVec.toNat_ofNat] at hc
  split at hc <;> omega

end Timing.Admitted

theorem getLsbD_zero_eq_oddCycle (x : Word) : x.getLsbD 0 = oddCycle x.toNat := by
  simp [BitVec.getLsbD, oddCycle, Nat.testBit_zero]

section Parity

variable {tm : Timing}

variable (tm) in
theorem r27_high (one : Bool) :
    tm.r27.getLsbD (if one then 1 else 0) = oddCycle (tm.high one) := by
  cases one <;>
    simp [Timing.r27, Timing.high, ← getLsbD_zero_eq_oddCycle]

theorem r27_low (h : tm.Admitted) (one : Bool) :
    tm.r27.getLsbD (if one then 3 else 2) = oddCycle (tm.low one) := by
  have hsub (x : Word) (hx : x.toNat + 20 ≤ tm.bit.toNat) :
      oddCycle (tm.bit.toNat - x.toNat) = (tm.bit - x).getLsbD 0 := by
    rw [getLsbD_zero_eq_oddCycle, BitVec.toNat_sub_of_le (by bv_omega)]
  cases one
  · simp [Timing.r27, Timing.low, Timing.high, hsub _ h.zeroLow]
  · simp [Timing.r27, Timing.low, Timing.high, hsub _ h.oneLow]

end Parity

/-! ### The events of a bit -/

def aluEv : PruEvent := ⟨.alu, ()⟩
def delayEv (count : Word) : PruEvent := ⟨.loadDelay count, ()⟩
def sbboEv (address value : Word) : PruEvent := ⟨.sbbo address value, ()⟩

/-- `n` cycles in the register file. -/
def idle (n : Nat) : List PruEvent := List.replicate n aluEv

theorem idle_add (m n : Nat) : idle (m + n) = idle m ++ idle n := List.replicate_add ..

@[simp] theorem length_idle (n : Nat) : (idle n).length = n := List.length_replicate

/-- One bit: the test of the colour bit, SET, the high delay, CLEAR, the
low delay.  What follows the low delay up to the next bit is part of it. -/
def bitEvents (tm : Timing) (clear mask colour : Word) (n : Nat) : List PruEvent :=
  let one := colour.getLsbD n
  [aluEv, sbboEv (clear + 4) mask, delayEv (tm.highCount one)] ++ idle (tm.high one - 2) ++
    [sbboEv clear mask, delayEv (tm.lowCount (decide (n = 0)) one)] ++ idle (tm.low one - 3)

@[simp] theorem exec_alu : alu.exec silent = ([aluEv], ()) := rfl

@[simp] theorem exec_sbbo (a v : Word) : (sbbo a v).exec silent = ([sbboEv a v], ()) := rfl

theorem exec_delayLoop (n : Nat) : (delayLoop n).exec silent = (idle (2 * (n + 1)), ()) := by
  induction n with
  | zero => rfl
  | succ n ih =>
    simp only [delayLoop, Prog.exec_bind, exec_alu, ih]
    rfl

theorem exec_delay {count : Word} (h : count ≠ 0) :
    (delay count).exec silent = (delayEv count :: idle (2 * count.toNat), ()) := by
  have hpos : count.toNat ≠ 0 := by simpa [← BitVec.toNat_inj] using h
  have hsub : 2 * ((count - 1).toNat + 1) = 2 * count.toNat := by bv_omega
  simp only [delay, Prog.exec_bind, exec_delayLoop, hsub]
  rfl

theorem exec_waitSettle {r5 : Word} (h : r5 ≠ 0) :
    (waitSettle r5).exec silent = (delayEv r5 :: idle (2 * r5.toNat) ++ [aluEv], ()) := by
  simp only [waitSettle, Prog.exec_bind, exec_delay h]
  rfl

theorem exec_delayParity {r27 : Word} {i cycles : Nat} (h : r27.getLsbD i = oddCycle cycles) :
    (delayParity r27 i).exec silent = (idle (2 + cycles % 2), ()) := by
  simp only [delayParity, Prog.exec_bind, exec_alu, h, oddCycle]
  rcases Nat.mod_two_eq_zero_or_one cycles with h | h <;> simp [h] <;> rfl

/-- The two paths of `SEND_BIT` differ in their operands only. -/
theorem sendBit_eq (r : Regs) (n : Nat) (z o : Word) :
    sendBit r n z o = (do
      alu
      sbbo (r.r7 + 4) r.r9
      delay (if r.r4.getLsbD n then r.r21 else r.r20)
      delayParity r.r27 (if r.r4.getLsbD n then 1 else 0)
      sbbo r.r7 r.r9
      delay (if r.r4.getLsbD n then o else z)
      delayParity r.r27 (if r.r4.getLsbD n then 3 else 2)
      alu) := by
  unfold sendBit
  split <;> simp [*]

theorem exec_sendBit {tm : Timing} (h : tm.Admitted) {r : Regs} (hr : r.Loaded tm) (n : Nat)
    (final : Bool) (hfinal : decide (n = 0) = final) :
    ((sendBit r n (tm.lowCount final false) (tm.lowCount final true)).exec silent).1 ++
        idle (if final then 12 else 0) =
      bitEvents tm r.r7 r.r9 r.r4 n := by
  rw [sendBit_eq]
  simp only [bitEvents, hfinal]
  generalize r.r4.getLsbD n = one
  have hhigh : (if one = true then r.r21 else r.r20) = tm.highCount one := by
    rw [hr.r20, hr.r21]
    rfl
  have hlow : (if one = true then tm.lowCount final true else tm.lowCount final false) =
      tm.lowCount final one := by
    cases one <;> rfl
  have hph := hr.r27 ▸ r27_high tm one
  have hpl := hr.r27 ▸ r27_low h one
  have h₁ := h.six_le_high one
  have h₂ := h.twenty_le_low one
  have hc₁ : 2 * (tm.highCount one).toNat + (2 + tm.high one % 2) = tm.high one - 2 := by
    have := h.highCount_toNat one
    omega
  have hc₂ : 2 * (tm.lowCount final one).toNat + (2 + tm.low one % 2) + 1 +
      (if final then 12 else 0) = tm.low one - 3 := by
    have := h.lowCount_toNat final one
    cases final <;> simp only [if_true, if_false, Bool.false_eq_true] at * <;> omega
  rw [← hc₁, ← hc₂, hhigh, hlow]
  simp only [Prog.exec_bind, exec_alu, exec_sbbo, exec_delay (h.highCount_ne_zero one),
    exec_delay (h.lowCount_ne_zero final one), exec_delayParity hph, exec_delayParity hpl,
    idle_add, List.append_assoc, List.cons_append, List.nil_append]
  rfl

/-! ### The events of a pixel -/

/-- The bits `n` down to 0. -/
def bitsEvents (tm : Timing) (clear mask colour : Word) (n : Nat) : List PruEvent :=
  (List.range (n + 1)).flatMap fun k => bitEvents tm clear mask colour (n - k)

theorem bitsEvents_succ (tm : Timing) (clear mask colour : Word) (n : Nat) :
    bitsEvents tm clear mask colour (n + 1) =
      bitEvents tm clear mask colour (n + 1) ++ bitsEvents tm clear mask colour n := by
  simp [bitsEvents, List.range_succ_eq_map (n := n + 1), List.flatMap_map]

theorem exec_sendBits {tm : Timing} (h : tm.Admitted) {r : Regs} (hr : r.Loaded tm) (n : Nat) :
    ((sendBits r n).exec silent).1 ++ idle 12 = bitsEvents tm r.r7 r.r9 r.r4 n := by
  induction n with
  | zero =>
    have hbit := exec_sendBit h hr 0 true rfl
    simpa [bitsEvents, sendBits, Timing.lowCount, hr.r24, hr.r25] using hbit
  | succ n ih =>
    have hbit := exec_sendBit h hr (n + 1) false (by simp)
    simp only [Timing.lowCount, Bool.false_eq_true, if_false, ← hr.r22, ← hr.r23, if_true] at hbit
    rw [bitsEvents_succ, ← ih, ← hbit]
    simp [sendBits, idle]

/-- The active mask as the endpoint registers determine it. -/
def Regs.active (r : Regs) (p : Nat) : Word :=
  (if p < r.r10.toNat then r.r13 else 0) ||| (if p < r.r11.toNat then r.r14 else 0) |||
    (if p < r.r12.toNat then r.r15 else 0)

/-- The pin masks of a bank do not overlap. -/
structure Regs.Disjoint (r : Regs) : Prop where
  ab : r.r13 &&& r.r14 = 0
  ac : r.r13 &&& r.r15 = 0
  bc : r.r14 &&& r.r15 = 0

theorem exec_finishPin (r9 r16 endpoint pinMask : Word) :
    (finishPin r9 r16 endpoint pinMask).exec silent =
      (idle 3, if r16 = endpoint then r9 ^^^ pinMask else r9) := by
  unfold finishPin
  by_cases h : r16 = endpoint <;> simp [h] <;> rfl

/-- Removing a pin from the mask: its own part changes, the rest `x` of the
mask does not. -/
theorem finish_pin_active {pin x : Word} (h : pin &&& x = 0) (p endpoint : Nat) :
    (if p + 1 = endpoint then ((if p < endpoint then pin else 0) ||| x) ^^^ pin
      else (if p < endpoint then pin else 0) ||| x) =
      (if p + 1 < endpoint then pin else 0) ||| x := by
  by_cases he : p + 1 = endpoint
  · have hlt : p < endpoint := by omega
    simp only [he, hlt, if_true]
    ext j hj
    have hj' := congrArg (·.getLsbD j) h
    simp only [BitVec.getLsbD_and, BitVec.ofNat_eq_ofNat, BitVec.getLsbD_zero] at hj'
    simp only [← BitVec.getLsbD_eq_getElem, BitVec.ofNat_eq_ofNat]
    cases hp : pin.getLsbD j <;> simp_all
  · have hlt : p + 1 < endpoint ↔ p < endpoint := by omega
    simp only [he, hlt, if_false]

theorem and_ite_or_eq_zero {a b c : Word} {P Q : Prop} [Decidable P] [Decidable Q]
    (hb : a &&& b = 0) (hc : a &&& c = 0) :
    a &&& ((if P then b else 0) ||| (if Q then c else 0)) = 0 := by
  split <;> split <;> simp_all [BitVec.and_or_distrib_left]

/-- The three `FINISH_PIN` remove exactly the pins whose last pixel this was. -/
theorem finish_active {r : Regs} (hd : r.Disjoint) {p : Nat} (hp : p < 300)
    (h : r.r9 = r.active p) :
    let r9 := if BitVec.ofNat 32 (p + 1) = r.r10 then r.r9 ^^^ r.r13 else r.r9
    let r9 := if BitVec.ofNat 32 (p + 1) = r.r11 then r9 ^^^ r.r14 else r9
    (if BitVec.ofNat 32 (p + 1) = r.r12 then r9 ^^^ r.r15 else r9) = r.active (p + 1) := by
  have hcmp (x : Word) : BitVec.ofNat 32 (p + 1) = x ↔ p + 1 = x.toNat := by
    constructor <;> intro h <;> bv_omega
  have hba : r.r14 &&& r.r13 = 0 := by rw [BitVec.and_comm, hd.ab]
  have hca : r.r15 &&& r.r13 = 0 := by rw [BitVec.and_comm, hd.ac]
  have hcb : r.r15 &&& r.r14 = 0 := by rw [BitVec.and_comm, hd.bc]
  simp only [hcmp, h, Regs.active]
  generalize r.r10.toNat = a, r.r11.toNat = b, r.r12.toNat = c at *
  -- one pin at a time: bring it to the front, finish it
  rw [BitVec.or_assoc, finish_pin_active (and_ite_or_eq_zero hd.ab hd.ac), BitVec.or_comm,
    BitVec.or_assoc, finish_pin_active (and_ite_or_eq_zero hd.bc hba), BitVec.or_comm,
    BitVec.or_assoc, finish_pin_active (and_ite_or_eq_zero hca hcb), BitVec.or_comm]

/-- Pixel `p` of a bank. -/
def pixelEvents (tm : Timing) (b : Bank) (l : Fin 6 → Word) (colour : Word) (p : Nat) :
    List PruEvent :=
  bitsEvents tm (clearAddress b) (activeMask b l p) colour 23

/-- The granted stream of a bank; the jump back after the last pixel is not
taken. -/
def bankStream (tm : Timing) (b : Bank) (l : Fin 6 → Word) (colour : Word) : List PruEvent :=
  ((List.range (maxOfBank l b).toNat).flatMap (pixelEvents tm b l colour)).dropLast

/-- What is left of the stream before pixel `p`. -/
def streamFrom (tm : Timing) (b : Bank) (l : Fin 6 → Word) (colour : Word) (p : Nat) :
    List PruEvent :=
  ((List.range ((maxOfBank l b).toNat - p)).flatMap fun k =>
    pixelEvents tm b l colour (p + k)).dropLast

theorem streamFrom_zero (tm : Timing) (b : Bank) (l : Fin 6 → Word) (colour : Word) :
    streamFrom tm b l colour 0 = bankStream tm b l colour := by
  simp only [streamFrom, bankStream, Nat.sub_zero, Nat.zero_add]

section Lengths

variable {tm : Timing} (h : tm.Admitted)

include h

@[simp] theorem length_bitEvents (clear mask colour : Word) (n : Nat) :
    (bitEvents tm clear mask colour n).length = tm.bit.toNat := by
  have := h.six_le_high (colour.getLsbD n)
  have := h.twenty_le_low (colour.getLsbD n)
  have := h.high_add_low (colour.getLsbD n)
  simp only [bitEvents, List.length_append, List.length_cons, List.length_nil, length_idle]
  omega

theorem length_bitsEvents (clear mask colour : Word) (n : Nat) :
    (bitsEvents tm clear mask colour n).length = (n + 1) * tm.bit.toNat := by
  induction n with
  | zero => simp [bitsEvents, h]
  | succ n ih =>
    rw [bitsEvents_succ, List.length_append, ih, length_bitEvents h]
    ring

theorem length_pixelEvents (b : Bank) (l : Fin 6 → Word) (colour : Word) (p : Nat) :
    (pixelEvents tm b l colour p).length = 24 * tm.bit.toNat :=
  length_bitsEvents h _ _ _ 23

theorem pixelEvents_ne_nil (b : Bank) (l : Fin 6 → Word) (colour : Word) (p : Nat) :
    pixelEvents tm b l colour p ≠ [] := by
  have := h.zeroLow
  have := length_pixelEvents h b l colour p
  apply List.ne_nil_of_length_pos
  omega

end Lengths

section AtBank

variable (r : Regs) (b : Bank) (l : Fin 6 → Word)

theorem atBank_active (p : Nat) : (r.atBank b l).active p = activeMask b l p := by
  cases b <;>
    simp [Regs.atBank, Regs.active, activeMask, Bank.strings, pinActive, BitVec.or_assoc] <;>
    rfl

theorem atBank_disjoint : (r.atBank b l).Disjoint := by
  cases b <;> constructor <;> simp only [Regs.atBank] <;> decide

theorem atBank_r7 : (r.atBank b l).r7 = clearAddress b := by cases b <;> rfl

theorem atBank_r8 : (r.atBank b l).r8 = bankMask b := by cases b <;> rfl

theorem atBank_r26 : (r.atBank b l).r26 = b.ordinal := by cases b <;> rfl

theorem atBank_r28 : (r.atBank b l).r28 = returnLabel b := by cases b <;> rfl

variable {r}

/-- The mask is empty exactly when every string has finished. -/
theorem activeMask_eq_zero_iff (p : Nat) :
    activeMask b l p = 0 ↔ (maxOfBank l b).toNat ≤ p := by
  have hor (x y : Word) : x ||| y = 0 ↔ x = 0 ∧ y = 0 := BitVec.or_eq_zero_iff
  have hbit : ∀ s, bitAt (pinBit s) ≠ 0 := by decide
  have hpin (s : Fin 6) : pinActive l p s = 0 ↔ (l s).toNat ≤ p := by
    unfold pinActive
    split
    · simp only [hbit s, false_iff]
      omega
    · simp only [true_iff]
      omega
  cases b <;>
    simp only [activeMask, Bank.strings, List.map_cons, List.map_nil, List.foldr_cons,
      List.foldr_nil, hor, hpin, and_true, maxOfBank, maximum_toNat] <;>
    omega

end AtBank

/-! ### The pixel loop -/

/-- The registers of a bank after `p` pixels. -/
def Regs.atPixel (r : Regs) (b : Bank) (l : Fin 6 → Word) (p : Nat) : Regs :=
  { r.atBank b l with r9 := activeMask b l p, r16 := BitVec.ofNat 32 p }

section Loop

variable {tm : Timing} {r : Regs} {b : Bank} {l : Fin 6 → Word} {p : Nat}

theorem Regs.Loaded.atPixel (h : r.Loaded tm) : (r.atPixel b l p).Loaded tm := by
  cases b <;> exact ⟨h.r20, h.r21, h.r22, h.r23, h.r24, h.r25, h.r27⟩

theorem atPixel_active (q : Nat) : (r.atPixel b l p).active q = activeMask b l q := by
  rw [← atBank_active r b l]
  rfl

theorem atPixel_disjoint : (r.atPixel b l p).Disjoint :=
  have hd := atBank_disjoint r b l
  ⟨hd.ab, hd.ac, hd.bc⟩

theorem exec_pixelBits (h : tm.Admitted) (hr : r.Loaded tm) :
    ((sendBits (r.atPixel b l p) 23).exec silent).1 ++ idle 12 =
      pixelEvents tm b l r.r4 p := by
  have hbits := exec_sendBits h (hr.atPixel (b := b) (l := l) (p := p)) 23
  cases b <;> exact hbits

/-- One pixel: the mask moves on, and the loop ends with the last pin. -/
theorem exec_sendPixelBlock (hp : p < 300) :
    (sendPixelBlock (r.atPixel b l p)).exec silent =
      if activeMask b l (p + 1) = 0 then
        (((sendBits (r.atPixel b l p) 23).exec silent).1 ++ idle 11,
          some (.timedEnd, r.atPixel b l (p + 1)))
      else
        (((sendBits (r.atPixel b l p) 23).exec silent).1 ++ idle 12,
          some (.sendPixel, r.atPixel b l (p + 1))) := by
  have hfinish := finish_active (r := r.atPixel b l p) atPixel_disjoint hp
    (atPixel_active p).symm
  simp only [atPixel_active] at hfinish
  have h16 : (r.atPixel b l p).r16 + 1 = BitVec.ofNat 32 (p + 1) := by
    simp only [Regs.atPixel]
    bv_omega
  simp only [sendPixelBlock, Prog.exec_bind, exec_finishPin, h16, hfinish, exec_alu]
  split
  · simp only [Prog.exec_pure, List.append_nil]
    rfl
  · simp only [Prog.exec_bind, exec_alu, Prog.exec_pure, List.append_nil]
    rfl

/-- Before the last pixel the stream is that pixel, and more. -/
theorem streamFrom_succ (h : tm.Admitted) (colour : Word) (hp : p + 1 < (maxOfBank l b).toNat) :
    streamFrom tm b l colour p = pixelEvents tm b l colour p ++ streamFrom tm b l colour (p + 1) := by
  obtain ⟨n, hn⟩ : ∃ n, (maxOfBank l b).toNat - (p + 1) = n + 1 :=
    ⟨(maxOfBank l b).toNat - (p + 2), by omega⟩
  have hsplit : (List.range (n + 1 + 1)).flatMap (fun k => pixelEvents tm b l colour (p + k)) =
      pixelEvents tm b l colour p ++
        (List.range (n + 1)).flatMap fun k => pixelEvents tm b l colour (p + 1 + k) := by
    rw [List.range_succ_eq_map, List.flatMap_cons, List.flatMap_map]
    simp [Nat.add_assoc, Nat.add_comm 1]
  rw [streamFrom, streamFrom, show (maxOfBank l b).toNat - p = n + 1 + 1 by omega, hn, hsplit,
    List.dropLast_append_of_ne_nil]
  rw [List.range_succ, List.flatMap_append]
  simpa using fun _ => pixelEvents_ne_nil h b l colour (p + 1 + n)

/-- The last pixel: the loop ends, and its stream with it. -/
theorem sendPixel_last (h : tm.Admitted) (hr : r.Loaded tm) (hl : (maxOfBank l b).toNat ≤ 300)
    (hp : p + 1 = (maxOfBank l b).toNat) :
    (sendPixelBlock (r.atPixel b l p)).Runs (streamFrom tm b l r.r4 p)
      (some (.timedEnd, r.atPixel b l (p + 1))) := by
  have hlast : activeMask b l (p + 1) = 0 := (activeMask_eq_zero_iff b l _).mpr hp.ge
  have hblock := Prog.exec_runs silent (sendPixelBlock (r.atPixel b l p))
  rw [exec_sendPixelBlock (by omega), if_pos hlast] at hblock
  have hevents : streamFrom tm b l r.r4 p =
      ((sendBits (r.atPixel b l p) 23).exec silent).1 ++ idle 11 := by
    rw [streamFrom, show (maxOfBank l b).toNat - p = 1 by omega, List.range_one,
      List.flatMap_singleton, Nat.add_zero, ← exec_pixelBits h hr,
      show idle 12 = idle 11 ++ [aluEv] from rfl, ← List.append_assoc, List.dropLast_concat]
  rw [hevents]
  exact hblock

/-- Any other pixel. -/
theorem sendPixel_next (h : tm.Admitted) (hr : r.Loaded tm) (hl : (maxOfBank l b).toNat ≤ 300)
    (hp : p + 1 < (maxOfBank l b).toNat) :
    (sendPixelBlock (r.atPixel b l p)).Runs (pixelEvents tm b l r.r4 p)
      (some (.sendPixel, r.atPixel b l (p + 1))) := by
  have hmore : activeMask b l (p + 1) ≠ 0 := by
    rw [Ne, activeMask_eq_zero_iff]
    omega
  have hblock := Prog.exec_runs silent (sendPixelBlock (r.atPixel b l p))
  rw [exec_sendPixelBlock (by omega), if_neg hmore, exec_pixelBits h hr] at hblock
  exact hblock

/-- The remaining pixels, from pixel `p` on. -/
theorem pixelLoop_steps_from (h : tm.Admitted) (hr : r.Loaded tm)
    (hl : (maxOfBank l b).toNat ≤ 300) (n : Nat) (hn : p + (n + 1) = (maxOfBank l b).toNat) :
    Machine.Steps (code tm) (code tm (.sendPixel, r.atPixel b l p)) (streamFrom tm b l r.r4 p)
      (code tm (.timedEnd, r.atPixel b l (maxOfBank l b).toNat)) := by
  induction n generalizing p with
  | zero =>
    rw [← hn]
    exact Machine.Steps.of_runs (sendPixel_last h hr hl hn)
  | succ n ih =>
    rw [streamFrom_succ h r.r4 (by omega)]
    exact (Machine.Steps.of_runs (sendPixel_next h hr hl (by omega))).trans (ih (by omega))

/-- The granted loop of a bank: exactly the pixels of its longest string. -/
theorem pixelLoop_steps (h : tm.Admitted) (hr : r.Loaded tm)
    (hl : (maxOfBank l b).toNat ≤ 300) (hne : maxOfBank l b ≠ 0) :
    Machine.Steps (code tm) (code tm (.sendPixel, r.atPixel b l 0)) (bankStream tm b l r.r4)
      (code tm (.timedEnd, r.atPixel b l (maxOfBank l b).toNat)) := by
  obtain ⟨n, hn⟩ : ∃ n, (maxOfBank l b).toNat = n + 1 :=
    Nat.exists_eq_succ_of_ne_zero (by simpa [← BitVec.toNat_inj] using hne)
  rw [← streamFrom_zero]
  exact pixelLoop_steps_from h hr hl n (by omega)

end Loop

section Stream

variable {tm : Timing} (b : Bank) (l : Fin 6 → Word) (colour : Word)

theorem maxOfBank_le {l : Fin 6 → Word} (hl : ∀ i, l i ≤ maxLength) :
    (maxOfBank l b).toNat ≤ 300 := by
  have hl (i : Fin 6) : (l i).toNat ≤ 300 := hl i
  cases b <;> simp only [maxOfBank, maximum_toNat] <;> grind

/-- A string is no longer than the longest of its bank. -/
theorem le_maxOfBank {s : Fin 6} (hs : s ∈ b.strings) :
    (l s).toNat ≤ (maxOfBank l b).toNat := by
  cases b <;> simp only [Bank.strings, List.mem_cons, List.not_mem_nil, or_false] at hs <;>
    simp only [maxOfBank, maximum_toNat] <;> grind

variable (h : tm.Admitted)

include h

theorem bitsEvents_snoc (clear mask : Word) (n : Nat) :
    ∃ t, bitsEvents tm clear mask colour n = t ++ [aluEv] := by
  induction n with
  | zero =>
    have := h.twenty_le_low (colour.getLsbD 0)
    have hm : tm.low (colour.getLsbD 0) - 3 = tm.low (colour.getLsbD 0) - 4 + 1 := by omega
    have hbit : bitsEvents tm clear mask colour 0 = bitEvents tm clear mask colour 0 := by
      simp [bitsEvents]
    simp only [hbit, bitEvents, hm, idle_add, ← List.append_assoc]
    exact ⟨_, rfl⟩
  | succ n ih =>
    obtain ⟨t, ht⟩ := ih
    exact ⟨_, by rw [bitsEvents_succ, ht, ← List.append_assoc]⟩

/-- The stream and the jump that is not taken are the whole pixels. -/
theorem bankStream_append (hne : maxOfBank l b ≠ 0) :
    bankStream tm b l colour ++ [aluEv] =
      (List.range (maxOfBank l b).toNat).flatMap (pixelEvents tm b l colour) := by
  obtain ⟨n, hn⟩ : ∃ n, (maxOfBank l b).toNat = n + 1 :=
    Nat.exists_eq_succ_of_ne_zero (by simpa [← BitVec.toNat_inj] using hne)
  obtain ⟨t, ht⟩ := bitsEvents_snoc colour h (clearAddress b) (activeMask b l n) 23
  simp only [bankStream, hn, List.range_succ, List.flatMap_append, List.flatMap_singleton,
    pixelEvents, ht, ← List.append_assoc, List.dropLast_concat]

end Stream

/-- The events of a pixel. -/
theorem mem_pixelEvents {tm : Timing} {b : Bank} {l : Fin 6 → Word} {colour : Word} {p : Nat}
    {e : PruEvent} (he : e ∈ pixelEvents tm b l colour p) :
    e = aluEv ∨ (∃ one, e = delayEv (tm.highCount one)) ∨
      (∃ final one, e = delayEv (tm.lowCount final one)) ∨
      e = sbboEv (clearAddress b + 4) (activeMask b l p) ∨
        e = sbboEv (clearAddress b) (activeMask b l p) := by
  simp only [List.mem_flatMap, pixelEvents, bitsEvents] at he
  obtain ⟨k, -, he⟩ := he
  simp only [bitEvents, idle, List.mem_append, List.mem_cons, List.mem_replicate,
    List.not_mem_nil, or_false] at he
  rcases he with (((rfl | rfl | rfl) | ⟨-, rfl⟩) | rfl | rfl) | ⟨-, rfl⟩
  · exact .inl rfl
  · exact .inr (.inr (.inr (.inl rfl)))
  · exact .inr (.inl ⟨_, rfl⟩)
  · exact .inl rfl
  · exact .inr (.inr (.inr (.inr rfl)))
  · exact .inr (.inr (.inl ⟨_, _, rfl⟩))
  · exact .inl rfl

/-- No instruction of a pixel reads anything. -/
theorem subsingleton_pixelEvents {tm : Timing} {b : Bank} {l : Fin 6 → Word} {colour : Word}
    {p : Nat} {e : PruEvent} (he : e ∈ pixelEvents tm b l colour p) :
    Subsingleton (PruOp.Res e.1) := by
  obtain rfl | ⟨_, rfl⟩ | ⟨_, _, rfl⟩ | rfl | rfl := mem_pixelEvents he <;>
    exact inferInstanceAs (Subsingleton Unit)

theorem mem_streamFrom {tm : Timing} {b : Bank} {l : Fin 6 → Word} {colour : Word} {p : Nat}
    {e : PruEvent} (he : e ∈ streamFrom tm b l colour p) :
    ∃ q, e ∈ pixelEvents tm b l colour q := by
  have he := List.mem_of_mem_dropLast he
  obtain ⟨k, -, he⟩ := List.mem_flatMap.mp he
  exact ⟨_, he⟩

theorem mem_bankStream {tm : Timing} {b : Bank} {l : Fin 6 → Word} {colour : Word}
    {e : PruEvent} (he : e ∈ bankStream tm b l colour) :
    ∃ q, e ∈ pixelEvents tm b l colour q := by
  rw [← streamFrom_zero] at he
  exact mem_streamFrom he

/-! ### The gate -/

/-- A poll of the gate that reads a smaller grant. -/
def pollEvents (grant : Word) : List PruEvent := [⟨.lbco .bankGrant, grant⟩, aluEv, aluEv]

/-- The poll that releases bank `b`, up to the first bit. -/
def releaseEvents (b : Bank) : List PruEvent :=
  [⟨.lbco .bankGrant, b.ordinal⟩, aluEv, aluEv, ⟨.sbco .bankReady 0, ()⟩, aluEv,
    ⟨.sbco .status statusRunning, ()⟩, aluEv]

/-- The cycles `OR r9, r9, pin` takes for an endpoint. -/
def included (endpoint : Word) : Nat := if endpoint = 0 then 0 else 1

/-- `SEND_GROUP` up to the gate: the mask is computed and the bank offered. -/
def offerEvents (b : Bank) (l : Fin 6 → Word) : List PruEvent :=
  idle (6 + (b.strings.map fun s => included (l s)).sum) ++
    [⟨.sbco .status statusWaitBank, ()⟩, ⟨.sbco .bankReady b.ordinal, ()⟩]

/-- The registers of a bank at its gate. -/
def Regs.atGate (r : Regs) (b : Bank) (l : Fin 6 → Word) : Regs :=
  { r.atBank b l with r9 := activeMask b l 0 }

section Gate

variable {tm : Timing} {r : Regs} {b : Bank} {l : Fin 6 → Word}

theorem exec_includePin (r9 endpoint pinMask : Word) :
    (includePin r9 endpoint pinMask).exec silent =
      (idle (1 + included endpoint),
        r9 ||| if 0 < endpoint.toNat then pinMask else 0) := by
  by_cases h : endpoint = 0
  · subst h
    simp [includePin, included, idle]
  · have hpos : 0 < endpoint.toNat := by bv_omega
    rw [includePin, Prog.exec_bind, if_neg h, included, if_neg h, if_pos hpos]
    rfl

variable (r b l) in
/-- The mask `SEND_GROUP` computes, pin by pin. -/
theorem includePins_eq :
    0 ||| (if 0 < (r.atBank b l).r10.toNat then (r.atBank b l).r13 else 0) |||
      (if 0 < (r.atBank b l).r11.toNat then (r.atBank b l).r14 else 0) |||
      (if 0 < (r.atBank b l).r12.toNat then (r.atBank b l).r15 else 0) = activeMask b l 0 := by
  rw [← atBank_active r b l 0, Regs.active, BitVec.ofNat_eq_ofNat, BitVec.zero_or]

theorem sendGroup_offer (hne : maxOfBank l b ≠ 0) :
    (sendGroupBlock (r.atBank b l)).Runs (offerEvents b l) (some (.gateWait, r.atGate b l)) := by
  have hmask : activeMask b l 0 ≠ 0 := by
    rw [Ne, activeMask_eq_zero_iff, Nat.le_zero]
    simpa [← BitVec.toNat_inj] using hne
  have hcount : (b.strings.map fun s => included (l s)).sum = included (r.atBank b l).r10 +
      included (r.atBank b l).r11 + included (r.atBank b l).r12 := by
    have hzero : included 0 = 0 := rfl
    cases b <;> simp [Regs.atBank, Bank.strings, ← BitVec.ofNat_eq_ofNat, hzero, Nat.add_assoc]
  have hexec : (sendGroupBlock (r.atBank b l)).exec silent =
      (offerEvents b l, some (.gateWait, r.atGate b l)) := by
    rw [offerEvents, ← atBank_r26 r b l]
    simp only [sendGroupBlock, Prog.exec_bind, exec_includePin, includePins_eq r b l, hmask,
      if_false, hcount]
    rw [show ∀ x y z, 6 + (x + y + z) = 1 + (1 + x) + (1 + y) + (1 + z) + 1 + 1 by omega]
    simp only [idle_add, List.append_assoc]
    rfl
  have hrun := Prog.exec_runs silent (sendGroupBlock (r.atBank b l))
  rwa [hexec] at hrun

theorem gateWait_poll {g : Word} (hg : g < b.ordinal) :
    (gateWaitBlock (r.atGate b l)).Runs (pollEvents g) (some (.gateWait, r.atGate b l)) := by
  have h26 : (r.atGate b l).r26 = b.ordinal := atBank_r26 r b l
  have hne : g ≠ b.ordinal := by rintro rfl; bv_omega
  apply Prog.Runs.call
  apply Prog.Runs.call
  simp only [h26, hne, hg, ne_eq, not_false_eq_true, if_true]
  apply Prog.Runs.call
  exact .ret _

theorem gateWait_release :
    (gateWaitBlock (r.atGate b l)).Runs (releaseEvents b)
      (some (.sendPixel, r.atPixel b l 0)) := by
  have h26 : (r.atGate b l).r26 = b.ordinal := atBank_r26 r b l
  have hgrant : ¬ b.ordinal ≠ (r.atGate b l).r26 := not_not.mpr h26.symm
  apply Prog.Runs.call
  apply Prog.Runs.call
  rw [if_neg hgrant]
  repeat apply Prog.Runs.call
  exact .ret _

variable (tm r) in
/-- From `SEND_GROUP` through any number of polls to the first pixel. -/
theorem gate_steps (hne : maxOfBank l b ≠ 0) (polls : List Word)
    (hpolls : ∀ g ∈ polls, g < b.ordinal) :
    Machine.Steps (code tm) (code tm (.sendGroup, r.atBank b l))
      (offerEvents b l ++ polls.flatMap pollEvents ++ releaseEvents b)
      (code tm (.sendPixel, r.atPixel b l 0)) := by
  have hoffer : Machine.Steps (code tm) _ _ _ := Machine.Steps.of_runs (sendGroup_offer (r := r) hne)
  have hrelease : Machine.Steps (code tm) _ _ _ :=
    Machine.Steps.of_runs (gateWait_release (r := r) (b := b) (l := l))
  have hwait : Machine.Steps (code tm) (code tm (.gateWait, r.atGate b l))
      (polls.flatMap pollEvents) (code tm (.gateWait, r.atGate b l)) := by
    induction polls with
    | nil => exact .refl _
    | cons g polls ih =>
      rw [List.flatMap_cons]
      exact (Machine.Steps.of_runs (gateWait_poll (hpolls g (by simp)))).trans
        (ih fun g' hg' => hpolls g' (by simp [hg']))
  exact (hoffer.trans hwait).trans hrelease

end Gate

end Pru

end Dld
