/-
DldDriver/Arm/Isa.lean

A part of the ARMv7 instruction set, by the encodings of its words: moves,
subtraction and logic, single and multiple transfers, branches, barriers,
the cycle counter of the performance monitors, and the switch from Thumb to
ARM state.

A word outside this part is no instruction, and the processor stops there.
So it does at an address that is not aligned.  An address is ordinary memory
unless the bus has a device there.
-/
import Mathlib.Algebra.Ring.Nat
import DldDriver.Interaction.Machine

namespace Arm

open Interaction

abbrev Word := BitVec 32

/-! ### Registers -/

/-- The core registers but for the program counter. -/
structure Regs where
  r0 : Word
  r1 : Word
  r2 : Word
  r3 : Word
  r4 : Word
  r5 : Word
  r6 : Word
  r7 : Word
  r8 : Word
  r9 : Word
  r10 : Word
  r11 : Word
  r12 : Word
  sp : Word
  lr : Word

namespace Regs

/-- The registers by number, with what number 15 reads. -/
def get (r : Regs) (pc : Word) (i : Nat) : Word :=
  match i with
  | 0 => r.r0
  | 1 => r.r1
  | 2 => r.r2
  | 3 => r.r3
  | 4 => r.r4
  | 5 => r.r5
  | 6 => r.r6
  | 7 => r.r7
  | 8 => r.r8
  | 9 => r.r9
  | 10 => r.r10
  | 11 => r.r11
  | 12 => r.r12
  | 13 => r.sp
  | 14 => r.lr
  | _ => pc

/-- Number 15 is not a register of this file. -/
def set (r : Regs) (i : Nat) (v : Word) : Regs :=
  match i with
  | 0 => { r with r0 := v }
  | 1 => { r with r1 := v }
  | 2 => { r with r2 := v }
  | 3 => { r with r3 := v }
  | 4 => { r with r4 := v }
  | 5 => { r with r5 := v }
  | 6 => { r with r6 := v }
  | 7 => { r with r7 := v }
  | 8 => { r with r8 := v }
  | 9 => { r with r9 := v }
  | 10 => { r with r10 := v }
  | 11 => { r with r11 := v }
  | 12 => { r with r12 := v }
  | 13 => { r with sp := v }
  | 14 => { r with lr := v }
  | _ => r

end Regs

/-- The condition flags. -/
structure Flags where
  n : Bool
  z : Bool
  c : Bool
  v : Bool

/-- The processor and its ordinary memory, by the addresses of words. -/
structure Cpu where
  regs : Regs
  flags : Flags
  /-- the address of the instruction -/
  pc : Word
  thumb : Bool
  mem : Word → Word

/-! ### Instructions -/

inductive Operand
  | imm (value : Word) (rotated : Bool)
  | reg (i : Nat)
  deriving DecidableEq

inductive Instr
  | mov (s : Bool) (rd : Nat) (op : Operand)
  | sub (s : Bool) (rd rn : Nat) (op : Operand)
  | orr (s : Bool) (rd rn : Nat) (op : Operand)
  | cmp (rn : Nat) (op : Operand)
  | tst (rn : Nat) (op : Operand)
  | ldr (rt rn : Nat) (offset : Word)
  | str (rt rn : Nat) (offset : Word)
  /-- `STMDB sp!` and `LDMIA sp!`, with the registers in ascending order -/
  | push (regs : List Nat)
  | pop (regs : List Nat)
  | branch (offset : Word)
  /-- `MRC p15, 0, rt, c9, c13, 0` -/
  | counter (rt : Nat)
  | barrier
  | nop
  deriving DecidableEq

/-- The bits of `w` from `lo` on. -/
def bits (w : Word) (lo len : Nat) : Nat := (w.toNat >>> lo) % 2 ^ len

/-- The condition of a word; fifteen is none. -/
def condition (w : Word) : Nat := bits w 28 4

/-- `ARMExpandImm` -/
def expandImm (w : Word) : Operand :=
  let rotation := 2 * bits w 8 4
  .imm ((BitVec.ofNat 32 (bits w 0 8)).rotateRight rotation) (rotation ≠ 0)

/-- A register that is not the program counter. -/
def general (i : Nat) : Option Nat := if i < 15 then some i else none

/-- The data-processing instructions, with their second operand. -/
def decodeData (w : Word) (op : Operand) : Option Instr := do
  let s := bits w 20 1 = 1
  match bits w 21 4 with
  | 2 => return .sub s (← general (bits w 12 4)) (bits w 16 4) op
  | 8 => if s then some (.tst (bits w 16 4) op) else none
  | 10 => if s then some (.cmp (bits w 16 4) op) else none
  | 12 => return .orr s (← general (bits w 12 4)) (bits w 16 4) op
  | 13 => return .mov s (← general (bits w 12 4)) op
  | _ => none

/-- The registers of a list in ascending order. -/
def registerList (w : Word) : List Nat := (List.range 16).filter fun i => w.getLsbD i

/-- A word in ARM state, its condition apart. -/
def decode (w : Word) : Option Instr :=
  if condition w = 15 then
    if bits w 4 24 = 0x57ff04 ∨ bits w 4 24 = 0x57ff05 then some .barrier else none
  else
  match bits w 25 3 with
  | 0 => if bits w 4 8 = 0 then decodeData w (.reg (bits w 0 4)) else none
  | 1 =>
    if bits w 0 28 = 0x320f000 then some .nop
    else decodeData w (expandImm w)
  | 2 => do
    -- offset addressing of words without writeback
    let offset := BitVec.ofNat 32 (bits w 0 12)
    let offset := if bits w 23 1 = 1 then offset else -offset
    if bits w 24 1 = 1 ∧ bits w 21 2 = 0 then
      let rt ← general (bits w 12 4)
      return if bits w 20 1 = 1 then .ldr rt (bits w 16 4) offset else .str rt (bits w 16 4) offset
    else none
  | 4 =>
    if bits w 16 9 = 0x12d then some (.push (registerList w))
    else if bits w 16 9 = 0x0bd then some (.pop (registerList w))
    else none
  | 5 =>
    if bits w 24 1 = 0 then
      some (.branch (((BitVec.ofNat 24 (bits w 0 24)).signExtend 32) <<< 2))
    else none
  | 7 => do
    if bits w 20 8 = 0xe1 ∧ bits w 16 4 = 9 ∧ bits w 0 12 = 0xf1d then
      return .counter (← general (bits w 12 4))
    else none
  | _ => none

/-! ### Execution -/

/-- What the processor is connected to: the instructions at the addresses of
words and of halfwords, and the devices. -/
structure Bus (Op : Type) (Res : Op → Type) where
  word : Word → Option Word
  half : Word → Option (BitVec 16)
  load : Word → Option (Prog Op Res Word)
  store : Word → Word → Option (Prog Op Res Unit)
  counter : Prog Op Res Word
  barrier : Prog Op Res Unit

variable {Op : Type} {Res : Op → Type}

/-- A condition code on the flags. -/
def Flags.holds (f : Flags) (code : Nat) : Bool :=
  match code with
  | 0 => f.z
  | 1 => !f.z
  | 2 => f.c
  | 3 => !f.c
  | 4 => f.n
  | 5 => !f.n
  | 6 => f.v
  | 7 => !f.v
  | 8 => f.c && !f.z
  | 9 => !f.c || f.z
  | 10 => f.n == f.v
  | 11 => f.n != f.v
  | 12 => !f.z && f.n == f.v
  | 13 => f.z || f.n != f.v
  | _ => true

namespace Cpu

variable (cpu : Cpu)

def next : Cpu := { cpu with pc := cpu.pc + 4 }

/-- A register as an operand; the program counter reads two instructions
ahead. -/
def reg (i : Nat) : Word := cpu.regs.get (cpu.pc + 8) i

def set (i : Nat) (v : Word) : Cpu := { cpu with regs := cpu.regs.set i v }

def operand : Operand → Word
  | .imm value _ => value
  | .reg i => cpu.reg i

/-- The flags of `x - y`. -/
def subFlags (x y : Word) : Flags :=
  ⟨(x - y).msb, x - y = 0, y ≤ x, x.msb ≠ y.msb ∧ (x - y).msb ≠ x.msb⟩

/-- The flags of a logical result; a rotated constant is the carry too. -/
def logicFlags (op : Operand) (x : Word) : Flags :=
  let c := match op with
    | .imm value true => value.msb
    | _ => cpu.flags.c
  ⟨x.msb, x = 0, c, cpu.flags.v⟩

def withFlags (s : Bool) (f : Flags) : Cpu := if s then { cpu with flags := f } else cpu

/-- A load from a device or from memory. -/
def readWord (bus : Bus Op Res) (address : Word) : Prog Op Res (Option Word) :=
  if address &&& 3 ≠ 0 then pure none
  else
    match bus.load address with
    | some device => some <$> device
    | none => pure (some (cpu.mem address))

def writeWord (bus : Bus Op Res) (address value : Word) : Prog Op Res (Option Cpu) :=
  if address &&& 3 ≠ 0 then pure none
  else
    match bus.store address value with
    | some device => do
      device
      pure (some cpu)
    | none => pure (some { cpu with mem := Function.update cpu.mem address value })

/-- The stores of `STMDB`, from the lowest register on. -/
def storeAll (bus : Bus Op Res) (address : Word) : Cpu → List Nat → Prog Op Res (Option Cpu)
  | cpu, [] => pure (some cpu)
  | cpu, i :: rest => do
    match ← cpu.writeWord bus address (cpu.reg i) with
    | none => pure none
    | some cpu => storeAll bus (address + 4) cpu rest

/-- The loads of `LDMIA`. -/
def loadAll (bus : Bus Op Res) (address : Word) : List Nat → Prog Op Res (Option (List Word))
  | [] => pure (some [])
  | _ :: rest => do
    match ← cpu.readWord bus address with
    | none => pure none
    | some value =>
      let values ← loadAll bus (address + 4) rest
      pure (values.map (value :: ·))

/-- `BXWritePC` and `LoadWritePC` -/
def interwork (target : Word) : Option Cpu :=
  if target.getLsbD 0 then some { cpu with pc := target &&& ~~~1, thumb := true }
  else if target.getLsbD 1 then none
  else some { cpu with pc := target, thumb := false }

/-- The registers that `LDMIA` has loaded, the program counter last. -/
def setAll : Cpu → List Nat → List Word → Option Cpu
  | cpu, i :: is, v :: vs =>
    if i = 15 then cpu.interwork v else setAll (cpu.set i v) is vs
  | cpu, _, _ => some cpu

end Cpu

/-- An instruction whose condition holds. -/
def execute (bus : Bus Op Res) (cpu : Cpu) : Instr → Prog Op Res (Option Cpu)
  | .mov s rd op =>
    let x := cpu.operand op
    pure (some ((cpu.set rd x).withFlags s (cpu.logicFlags op x)).next)
  | .sub s rd rn op =>
    let x := cpu.reg rn
    let y := cpu.operand op
    pure (some ((cpu.set rd (x - y)).withFlags s (Cpu.subFlags x y)).next)
  | .orr s rd rn op =>
    let x := cpu.reg rn ||| cpu.operand op
    pure (some ((cpu.set rd x).withFlags s (cpu.logicFlags op x)).next)
  | .cmp rn op =>
    pure (some (cpu.withFlags true (Cpu.subFlags (cpu.reg rn) (cpu.operand op))).next)
  | .tst rn op =>
    let x := cpu.reg rn &&& cpu.operand op
    pure (some (cpu.withFlags true (cpu.logicFlags op x)).next)
  | .ldr rt rn offset => do
    match ← cpu.readWord bus (cpu.reg rn + offset) with
    | none => pure none
    | some value => pure (some (cpu.set rt value).next)
  | .str rt rn offset => do
    let cpu ← cpu.writeWord bus (cpu.reg rn + offset) (cpu.reg rt)
    pure (cpu.map Cpu.next)
  | .push regs => do
    let address := cpu.regs.sp - BitVec.ofNat 32 (4 * regs.length)
    let cpu ← Cpu.storeAll bus address cpu regs
    pure (cpu.map fun cpu => (cpu.set 13 address).next)
  | .pop regs => do
    match ← cpu.loadAll bus cpu.regs.sp regs with
    | none => pure none
    | some values =>
      pure (Cpu.setAll (cpu.set 13 (cpu.regs.sp + BitVec.ofNat 32 (4 * regs.length))).next regs values)
  | .branch offset => pure (some { cpu with pc := cpu.pc + 8 + offset })
  | .counter rt => do
    let value ← bus.counter
    pure (some (cpu.set rt value).next)
  | .barrier => do
    bus.barrier
    pure (some cpu.next)
  | .nop => pure (some cpu.next)

/-- `BX` in Thumb state, where the program counter reads four bytes ahead. -/
def thumbStep (bus : Bus Op Res) (cpu : Cpu) : Option Cpu := do
  let w ← bus.half cpu.pc
  if w.toNat = 0xbf00 then some { cpu with pc := cpu.pc + 2 }
  else if w.toNat / 128 = 0x8e ∧ w.toNat % 8 = 0 then
    cpu.interwork (cpu.regs.get (cpu.pc + 4) (w.toNat / 8 % 16))
  else none

/-- The processor: one block for each instruction. -/
def code (bus : Bus Op Res) (cpu : Cpu) : Prog Op Res (Option Cpu) :=
  if cpu.thumb then pure (thumbStep bus cpu)
  else
    match bus.word cpu.pc with
    | none => pure none
    | some w =>
      match decode w with
      | none => pure none
      | some i =>
        if condition w = 15 ∨ cpu.flags.holds (condition w) then execute bus cpu i
        else pure (some cpu.next)

/-- The instruction at an address. -/
theorem code_eq {bus : Bus Op Res} {cpu : Cpu} {w : Word} {i : Instr} (harm : cpu.thumb = false)
    (hword : bus.word cpu.pc = some w) (hdecode : decode w = some i) :
    code bus cpu =
      if condition w = 15 ∨ cpu.flags.holds (condition w) then execute bus cpu i
      else pure (some cpu.next) := by
  simp only [code, harm, hword, hdecode]
  rfl

/-- An instruction that is always executed. -/
theorem code_always {bus : Bus Op Res} {cpu : Cpu} {w : Word} {i : Instr} (harm : cpu.thumb = false)
    (hword : bus.word cpu.pc = some w) (hdecode : decode w = some i) (hcond : 14 ≤ condition w) :
    code bus cpu = execute bus cpu i := by
  rw [code_eq harm hword hdecode]
  have hlt : condition w < 16 := Nat.mod_lt _ (by decide)
  have hholds : condition w = 15 ∨ cpu.flags.holds (condition w) := by
    rcases (by omega : condition w = 14 ∨ condition w = 15) with h | h
    · rw [h]
      exact .inr rfl
    · exact .inl h
  rw [if_pos hholds]

end Arm
