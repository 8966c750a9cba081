/-
DldDriver/Firmware/Code.lean

The PRU0 firmware (`pru/ws2812_uniform.p`), instruction by instruction.

Every instruction is one operation of `PruOp`, so the number of events in a
trace is the number of instructions executed; a `MOV` of a constant above
0xffff assembles to two.  Registers that live across labels are fields of
`Regs`, scratch registers are local names.  The labels that a loop or a
`JAL`/`JMP r28.w0` pair can reach are the labels of the machine; the other
labels are local control flow.  A count-down loop (`SUB`, `QBNE`) is a
recursion on the iterations left, and wraps when it is entered with zero.

A burst transfer of several words is performed word by word.
-/
import DldDriver.Abi
import DldDriver.Interaction.Machine

namespace Dld

open Interaction

namespace Pru

/-! ### Operations -/

/-- The instructions, by what they do outside the register file. -/
inductive PruOp
  /-- a register instruction or a branch -/
  | alu
  /-- `MOV r18, count`: the counter of a count-down loop is loaded -/
  | loadDelay (count : Word)
  /-- `LBCO r, C24, off, 4` -/
  | lbco (off : Off)
  /-- `SBCO r, C24, off, 4` -/
  | sbco (off : Off) (value : Word)
  /-- `LBBO r, address, 0, 4` -/
  | lbbo (address : Word)
  /-- `SBBO r, address, 0, 4` -/
  | sbbo (address : Word) (value : Word)
  /-- `LBCO`/`SBCO` of `PRUSS_CFG_SYSCFG` through C4 -/
  | lbcoCfg
  | sbcoCfg (value : Word)
  | halt
  deriving DecidableEq

@[reducible] def PruOp.Res : PruOp → Type
  | .lbco _ | .lbbo _ | .lbcoCfg => Word
  | _ => Unit

instance : ∀ o : PruOp, Inhabited o.Res := fun o => by
  cases o <;> exact ⟨default⟩

instance : ∀ o : PruOp, DecidableEq o.Res := fun o => by
  cases o <;> exact inferInstanceAs (DecidableEq _)

abbrev PProg := Prog PruOp PruOp.Res
abbrev PruEvent := Event PruOp PruOp.Res

def pop (o : PruOp) : PProg o.Res := Prog.op o

def alu : PProg Unit := pop .alu
def lbco (off : Off) : PProg Word := pop (.lbco off)
def sbco (off : Off) (value : Word) : PProg Unit := pop (.sbco off value)
def lbbo (address : Word) : PProg Word := pop (.lbbo address)
def sbbo (address value : Word) : PProg Unit := pop (.sbbo address value)

/-- `MOV r, constant` -/
def movImm (value : Word) : PProg Unit := do
  alu
  if value > 0xffff then alu else pure ()

/-! ### Registers and labels -/

abbrev gpio0Clear : Word := 0x44E07190
abbrev gpio1Clear : Word := 0x4804C190
abbrev gpio2Clear : Word := 0x481AC190
abbrev gpio0Mask : Word := bitAt 26
abbrev gpio1Mask : Word := bitAt 12 ||| bitAt 14
abbrev gpio2Mask : Word := bitAt 1 ||| bitAt 3 ||| bitAt 4

inductive Label
  | start
  | requestLoop
  /-- the instructions after the first, second and third `JAL r28.w0, SEND_GROUP` -/
  | afterGpio2
  | afterGpio1
  | afterGpio0
  | sendGroup
  | gateWait
  | sendPixel
  | timedEnd
  deriving DecidableEq, Inhabited

/-- Persistent registers: r3 accepted sequence, r4 wire colour, r5
settle-loop count, r20..r25 loop counts, r27 delay parity flags.  Bank
registers: r7 CLEAR address, r8 bank mask, r9 active mask, r10..r12
endpoint lengths, r13..r15 pin masks, r16 completed pixels, r26 ordinal,
r28 return address. -/
structure Regs where
  r3 : Word
  r4 : Word
  r5 : Word
  r7 : Word
  r8 : Word
  r9 : Word
  r10 : Word
  r11 : Word
  r12 : Word
  r13 : Word
  r14 : Word
  r15 : Word
  r16 : Word
  r20 : Word
  r21 : Word
  r22 : Word
  r23 : Word
  r24 : Word
  r25 : Word
  r26 : Word
  r27 : Word
  r28 : Label
  deriving Inhabited

/-- The timing constants of a profile, as the assembler sees them. -/
structure Timing where
  t0h : Word
  t1h : Word
  bit : Word

/-- The constants of `dld_profiles.h`. -/
def profileTiming : Timing := ⟨70, 140, 240⟩

/-- Where a block ends: a jump with the register file, or a halt. -/
abbrev Next := Option (Label × Regs)

/-! ### Subroutines and macros -/

/-- `FATAL` with the cause in r2. -/
def fatal (r2 : Word) : PProg Next := do
  sbco .errorDetail r2
  movImm statusError
  sbco .status statusError
  pop .halt
  pure none

/-- `SUB r18, r18, 1; QBNE loop, r18, 0`, `n + 1` times. -/
def delayLoop : Nat → PProg Unit
  | 0 => do
    alu
    alu
  | n + 1 => do
    alu
    alu
    delayLoop n

/-- `MOV r18, count` and the loop on r18. -/
def delay (count : Word) : PProg Unit := do
  pop (.loadDelay count)
  delayLoop (count - 1).toNat

/-- `WAIT_SETTLE`, with its return. -/
def waitSettle (r5 : Word) : PProg Unit := do
  delay r5
  alu

/-- `DRAIN_BANK` with `n + 1` attempts left: whether the bits read low. -/
def drainRetry (r7 r8 : Word) : Nat → PProg Bool
  | 0 => do
    sbbo r7 r8
    let r0 ← lbbo (r7 - 0x54)
    alu
    alu
    if r0 &&& r8 = 0 then pure true else do
    alu
    alu
    pure false
  | n + 1 => do
    sbbo r7 r8
    let r0 ← lbbo (r7 - 0x54)
    alu
    alu
    if r0 &&& r8 = 0 then pure true else do
    alu
    alu
    drainRetry r7 r8 n

/-- `DRAIN_BANK`; the last instruction is the return or the jump to FATAL. -/
def drainBank (r7 r8 : Word) : PProg Bool := do
  movImm (BitVec.ofNat 32 drainAttempts)
  alu
  let low ← drainRetry r7 r8 (drainAttempts - 1)
  alu
  pure low

/-- `CHECK_LENGTH`: the new maximum in r26, or `none` for FATAL. -/
def checkLength (length r0 r26 : Word) : PProg (Option Word) := do
  alu
  if r0 < length then do
    movImm errorLength
    alu
    pure none
  else do
    alu
    if r26 ≥ length then pure (some r26) else do
    alu
    alu
    pure (some length)

def checkLengths (r0 : Word) : Word → List Word → PProg (Option Word)
  | r26, [] => pure (some r26)
  | r26, length :: rest => do
    let max ← checkLength length r0 r26
    match max with
    | none => pure none
    | some r26 => checkLengths r0 r26 rest

/-- `settle_add`, with r26 additions left: the new r5. -/
def settleAdd (r0 : Word) : Nat → Word → PProg Word
  | 0, r5 => do
    alu
    pure r5
  | n + 1, r5 => do
    alu
    alu
    alu
    alu
    settleAdd r0 n (r5 + r0)

/-- The settle count r5 for the maximum length r26. -/
def settleCount (r26 : Word) : PProg Word := do
  movImm (BitVec.ofNat 32 (resetCycles + settleMarginCycles))
  let r5 := BitVec.ofNat 32 (resetCycles + settleMarginCycles)
  movImm (BitVec.ofNat 32 propagationCycles)
  let r0 := BitVec.ofNat 32 propagationCycles
  alu
  let r5 ←
    if r26 = 0 then pure r5 else do
      alu
      settleAdd r0 (r26 - 1).toNat r5
  alu
  alu
  pure ((r5 + 1) >>> 1)

/-- `CHECK_BANK`: `none`, or the cause for FATAL. -/
def checkBank (clearAddress fixedMask : Word) : PProg (Option Word) := do
  movImm clearAddress
  movImm fixedMask
  alu
  let r0 ← lbbo (clearAddress - 0x5c)
  alu
  alu
  if r0 &&& fixedMask ≠ 0 then do
    movImm errorDirection
    alu
    pure (some errorDirection)
  else do
    movImm errorInitClear
    alu
    let low ← drainBank clearAddress fixedMask
    pure (if low then none else some errorInitClear)

/-- The start-up guard on the timing constants. -/
def timingGuard (tm : Timing) : PProg Bool := do
  movImm tm.t0h
  alu
  if 6 > tm.t0h then pure false else do
  movImm tm.t1h
  alu
  if 6 > tm.t1h then pure false else do
  movImm tm.bit
  movImm tm.t0h
  alu
  if tm.t0h ≥ tm.bit then pure false else do
  alu
  alu
  if 20 > tm.bit - tm.t0h then pure false else do
  movImm tm.bit
  movImm tm.t1h
  alu
  if tm.t1h ≥ tm.bit then pure false else do
  alu
  alu
  if 20 > tm.bit - tm.t1h then pure false else do
  alu
  pure true

/-- The four comparisons of the profile identifier. -/
def profileSupported (profile : Word) : PProg Bool := do
  alu
  if profile = profileWs2812b then pure true else do
  alu
  if profile = profileWs2811Hs then pure true else do
  alu
  if profile = profileWs2812bBgr then pure true else do
  alu
  pure (decide (profile = profileWs2811HsBgr))

/-! #### The loop counts of a profile -/

namespace Timing

variable (tm : Timing)

def r20 : Word := BitVec.ofNat 32 ((tm.t0h.toNat - 4) / 2)
def r21 : Word := BitVec.ofNat 32 ((tm.t1h.toNat - 4) / 2)
def r22 : Word := BitVec.ofNat 32 ((tm.bit.toNat - tm.t0h.toNat - 6) / 2)
def r23 : Word := BitVec.ofNat 32 ((tm.bit.toNat - tm.t1h.toNat - 6) / 2)
def r24 : Word := BitVec.ofNat 32 ((tm.bit.toNat - tm.t0h.toNat - 18) / 2)
def r25 : Word := BitVec.ofNat 32 ((tm.bit.toNat - tm.t1h.toNat - 18) / 2)
def r27 : Word :=
  (tm.t0h &&& 1) ||| ((tm.t1h &&& 1) <<< 1) ||| (((tm.bit - tm.t0h) &&& 1) <<< 2) |||
    (((tm.bit - tm.t1h) &&& 1) <<< 3)

end Timing

/-- `DELAY_PARITY`. -/
def delayParity (r27 : Word) (parityBit : Nat) : PProg Unit := do
  alu
  if r27.getLsbD parityBit then do
    alu
    alu
  else alu

/-- `SEND_BIT`. -/
def sendBit (r : Regs) (bitNumber : Nat) (zeroLowCount oneLowCount : Word) : PProg Unit := do
  alu
  if r.r4.getLsbD bitNumber then do
    sbbo (r.r7 + 4) r.r9
    delay r.r21
    delayParity r.r27 1
    sbbo r.r7 r.r9
    delay oneLowCount
    delayParity r.r27 3
    alu
  else do
    sbbo (r.r7 + 4) r.r9
    delay r.r20
    delayParity r.r27 0
    sbbo r.r7 r.r9
    delay zeroLowCount
    delayParity r.r27 2
    alu

/-- The unrolled `SEND_BIT n` down to `SEND_BIT 0`; the last has its own
low counts. -/
def sendBits (r : Regs) : Nat → PProg Unit
  | 0 => sendBit r 0 r.r24 r.r25
  | n + 1 => do
    sendBit r (n + 1) r.r22 r.r23
    sendBits r n

/-- `FINISH_PIN`: the new active mask. -/
def finishPin (r9 r16 endpoint pinMask : Word) : PProg Word := do
  alu
  if r16 ≠ endpoint then do
    alu
    alu
    pure r9
  else do
    alu
    alu
    pure (r9 ^^^ pinMask)

/-- `QBEQ no_pin, endpoint, 0; OR r9, r9, pin`. -/
def includePin (r9 endpoint pinMask : Word) : PProg Word := do
  alu
  if endpoint = 0 then pure r9 else do
  alu
  pure (r9 ||| pinMask)

/-! ### The blocks -/

/-- `START`, up to the publication of READY. -/
def startBlock (tm : Timing) (r : Regs) : PProg Next := do
  let syscfg : Word ← pop .lbcoCfg
  alu
  pop (.sbcoCfg (syscfg &&& ~~~bitAt 4))
  movImm 0x00022020
  movImm 0
  sbbo 0x00022020 0
  let magic ← lbco .magic
  movImm commandMagic
  alu
  if magic ≠ commandMagic then do
    movImm errorMagic
    alu
    fatal errorMagic
  else do
  let abi ← lbco .abiVersion
  alu
  if abi ≠ abiVersion then do
    movImm errorAbi
    alu
    fatal errorAbi
  else do
  let profile ← lbco .profileId
  let supported ← profileSupported profile
  if supported = false then do
    movImm errorProfile
    alu
    fatal errorProfile
  else do
  let timingOk ← timingGuard tm
  if timingOk = false then do
    movImm errorTiming
    alu
    fatal errorTiming
  else do
  movImm tm.r20
  movImm tm.r21
  movImm tm.r22
  movImm tm.r23
  movImm tm.r24
  movImm tm.r25
  movImm tm.r27
  let l0 ← lbco (.lengths 0)
  let l1 ← lbco (.lengths 1)
  let l2 ← lbco (.lengths 2)
  let l3 ← lbco (.lengths 3)
  let l4 ← lbco (.lengths 4)
  let l5 ← lbco (.lengths 5)
  movImm maxLength
  movImm 0
  let max ← checkLengths maxLength 0 [l0, l1, l2, l3, l4, l5]
  match max with
  | none => fatal errorLength
  | some r26 => do
  let r5 ← settleCount r26
  let bad2 ← checkBank gpio2Clear gpio2Mask
  match bad2 with
  | some r2 => fatal r2
  | none => do
  let bad1 ← checkBank gpio1Clear gpio1Mask
  match bad1 with
  | some r2 => fatal r2
  | none => do
  let bad0 ← checkBank gpio0Clear gpio0Mask
  match bad0 with
  | some r2 => fatal r2
  | none => do
  alu
  waitSettle r5
  movImm 0
  movImm errorNone
  sbco .errorDetail errorNone
  sbco .completionSeq 0
  sbco .bankReady 0
  sbco .bankDone 0
  sbco .acceptedSeq 0
  movImm statusReady
  sbco .status statusReady
  pure (some (.requestLoop, { r with
    r3 := 0, r5 := r5
    r20 := tm.r20, r21 := tm.r21, r22 := tm.r22, r23 := tm.r23, r24 := tm.r24, r25 := tm.r25
    r27 := tm.r27 }))

/-- `REQUEST_LOOP`, up to the first `JAL r28.w0, SEND_GROUP`. -/
def requestLoopBlock (r : Regs) : PProg Next := do
  let r0 ← lbco .requestSeq
  alu
  if r0 = r.r3 then pure (some (.requestLoop, r)) else do
  alu
  let r := { r with r3 := r0 }
  let grant ← lbco .bankGrant
  alu
  if grant ≠ 0 then do
    movImm errorGate
    alu
    fatal errorGate
  else do
  sbco .bankReady grant
  sbco .bankDone grant
  sbco .acceptedSeq r.r3
  let r4 ← lbco .wireColor
  alu
  alu
  if r4 >>> 24 ≠ 0 then do
    movImm errorInternal
    alu
    fatal errorInternal
  else do
  movImm statusRunning
  sbco .status statusRunning
  movImm gpio2Clear
  movImm gpio2Mask
  let r10 ← lbco (.lengths 0)
  let r11 ← lbco (.lengths 1)
  let r12 ← lbco (.lengths 5)
  movImm (bitAt 3)
  movImm (bitAt 4)
  movImm (bitAt 1)
  movImm Bank.gpio2.ordinal
  alu
  pure (some (.sendGroup, { r with
    r4 := r4, r7 := gpio2Clear, r8 := gpio2Mask, r10 := r10, r11 := r11, r12 := r12
    r13 := bitAt 3, r14 := bitAt 4, r15 := bitAt 1, r26 := Bank.gpio2.ordinal
    r28 := .afterGpio2 }))

/-- The setup of GPIO1. -/
def afterGpio2Block (r : Regs) : PProg Next := do
  movImm gpio1Clear
  movImm gpio1Mask
  let r10 ← lbco (.lengths 2)
  let r11 ← lbco (.lengths 4)
  movImm 0
  movImm (bitAt 12)
  movImm (bitAt 14)
  movImm 0
  movImm Bank.gpio1.ordinal
  alu
  pure (some (.sendGroup, { r with
    r7 := gpio1Clear, r8 := gpio1Mask, r10 := r10, r11 := r11, r12 := 0
    r13 := bitAt 12, r14 := bitAt 14, r15 := 0, r26 := Bank.gpio1.ordinal
    r28 := .afterGpio1 }))

/-- The setup of GPIO0. -/
def afterGpio1Block (r : Regs) : PProg Next := do
  movImm gpio0Clear
  movImm gpio0Mask
  let r10 ← lbco (.lengths 3)
  movImm 0
  movImm 0
  movImm (bitAt 26)
  movImm 0
  movImm 0
  movImm Bank.gpio0.ordinal
  alu
  pure (some (.sendGroup, { r with
    r7 := gpio0Clear, r8 := gpio0Mask, r10 := r10, r11 := 0, r12 := 0
    r13 := bitAt 26, r14 := 0, r15 := 0, r26 := Bank.gpio0.ordinal
    r28 := .afterGpio0 }))

/-- The final settle and the publication of DONE. -/
def afterGpio0Block (r : Regs) : PProg Next := do
  alu
  waitSettle r.r5
  sbco .completionSeq r.r3
  movImm errorNone
  sbco .errorDetail errorNone
  movImm statusDone
  sbco .status statusDone
  alu
  pure (some (.requestLoop, r))

/-- `SEND_GROUP`, up to the publication of the gate. -/
def sendGroupBlock (r : Regs) : PProg Next := do
  movImm 0
  let r9 ← includePin 0 r.r10 r.r13
  let r9 ← includePin r9 r.r11 r.r14
  let r9 ← includePin r9 r.r12 r.r15
  alu
  if r9 = 0 then do
    alu
    pure (some (r.r28, { r with r9 := r9 }))
  else do
  movImm statusWaitBank
  sbco .status statusWaitBank
  sbco .bankReady r.r26
  pure (some (.gateWait, { r with r9 := r9 }))

/-- `GATE_WAIT`. -/
def gateWaitBlock (r : Regs) : PProg Next := do
  let r0 ← lbco .bankGrant
  alu
  if r0 ≠ r.r26 then do
    alu
    if r.r26 > r0 then pure (some (.gateWait, r)) else do
    movImm errorGate
    alu
    fatal errorGate
  else do
  movImm 0
  sbco .bankReady 0
  movImm statusRunning
  sbco .status statusRunning
  movImm 0
  pure (some (.sendPixel, { r with r16 := 0 }))

/-- `SEND_PIXEL` and `PIXEL_BOUNDARY`. -/
def sendPixelBlock (r : Regs) : PProg Next := do
  sendBits r 23
  alu
  let r16 := r.r16 + 1
  let r9 ← finishPin r.r9 r16 r.r10 r.r13
  let r9 ← finishPin r9 r16 r.r11 r.r14
  let r9 ← finishPin r9 r16 r.r12 r.r15
  alu
  if r9 = 0 then pure (some (.timedEnd, { r with r9 := r9, r16 := r16 })) else do
  alu
  pure (some (.sendPixel, { r with r9 := r9, r16 := r16 }))

/-- `TIMED_END`: drain, publish `bank_done`, return. -/
def timedEndBlock (r : Regs) : PProg Next := do
  movImm errorBankClear
  alu
  let low ← drainBank r.r7 r.r8
  if low = false then fatal errorBankClear else do
  sbco .bankDone r.r26
  alu
  pure (some (r.r28, r))

/-- The firmware as a machine. -/
def code (tm : Timing) : Code PruOp PruOp.Res (Label × Regs)
  | (.start, r) => startBlock tm r
  | (.requestLoop, r) => requestLoopBlock r
  | (.afterGpio2, r) => afterGpio2Block r
  | (.afterGpio1, r) => afterGpio1Block r
  | (.afterGpio0, r) => afterGpio0Block r
  | (.sendGroup, r) => sendGroupBlock r
  | (.gateWait, r) => gateWaitBlock r
  | (.sendPixel, r) => sendPixelBlock r
  | (.timedEnd, r) => timedEndBlock r

end Pru

end Dld
