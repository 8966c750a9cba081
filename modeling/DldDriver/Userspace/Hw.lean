/-
DldDriver/Userspace/Hw.lean

`src/dld_hw.c`, function by function: attaching to PRUSS, stopping and
starting the cores, setting up the LED outputs, and the cleanup.

A function that updates `*hw` takes the structure and returns the new one; a
function with an error buffer takes and returns its content.  A C result of
zero or minus one is `ok` or not.
-/
import DldDriver.Userspace.Ops

namespace Dld

open Interaction

/-! ### dld_hw.h -/

/-- `struct dld_hw`.  A null pointer or a negative descriptor is `none`;
`command` is `pruss_map` under another type. -/
structure DldHw where
  prussMap : Option Nat := none
  prussSize : Nat := 0
  uioFd : Option Nat := none
  memFd : Option Nat := none
  gpioMap : Fin 3 → Option Nat := fun _ => none
  clockMap : Option Nat := none
  controlTaken : Bool := false

instance : Inhabited DldHw := ⟨{}⟩

/-! ### Constants -/

abbrev prussBase : Nat := 0x4a300000
abbrev pru0Iram : Nat := 0x34000
abbrev pruIramBytes : Nat := 8192
abbrev intcSicr : Nat := 0x20024
abbrev intcEicr : Nat := 0x2002c
abbrev intcHidisr : Nat := 0x20038
abbrev pruRunstate : Word := bitAt 15
abbrev gpioCtrl : Nat := 0x130
abbrev gpioOe : Nat := 0x134
abbrev gpioDataout : Nat := 0x13c
abbrev gpioClear : Nat := 0x190

/-- `control_offsets`: PRU0_CONTROL and PRU1_CONTROL. -/
def controlOffsets : Fin 2 → Nat := ![0x22000, 0x24000]

/-- `gpio_masks`, in the order GPIO0, GPIO1, GPIO2. -/
def ledMasks : Fin 3 → Word :=
  ![bitAt 26, bitAt 12 ||| bitAt 14, bitAt 1 ||| bitAt 3 ||| bitAt 4]

/-- `clock_offsets` -/
def clockOffsets : Fin 3 → Nat := ![0x408, 0xac, 0xb0]

/-- 20 ms, for the stop of the cores and for a clock. -/
abbrev pruStopTimeoutNs : BitVec 64 := 20000000

/-! ### Time -/

/-- Nanoseconds of the monotonic clock, zero if it cannot be read. -/
def monotonicNs : UProg (BitVec 64) := do
  let now : Except Int (Int × Int) ← uop .clockGettime
  match now with
  | .error _ => pure 0
  | .ok (sec, nsec) => pure (BitVec.ofInt 64 sec * 1000000000 + BitVec.ofInt 64 nsec)

/-- `fail(error, cap, what)` of this file. -/
def failErrno (error : String) (cap : Nat) (what : String) : UProg String := do
  if cap = 0 then pure error else do
  let reason ← strerror
  pure (snprintf error cap (what ++ ": " ++ reason))

/-! ### Stopping the cores -/

/-- `mask & (1U << pru)` -/
def selected (mask : Word) (pru : Fin 2) : Bool := decide (mask &&& bitAt pru.val ≠ 0)

/-- EN := 0 for the selected cores. -/
def disablePrus (mask : Word) : List (Fin 2) → UProg Unit
  | [] => pure ()
  | pru :: rest => do
    if selected mask pru then do
      store 1 (.pruss (controlOffsets pru))
      disablePrus mask rest
    else disablePrus mask rest

/-- One poll of the pending cores; those found stopped are reset. -/
def pollPrus (pending : Word) : List (Fin 2) → UProg Word
  | [] => pure pending
  | pru :: rest => do
    if selected pending pru then do
      let control ← load (.pruss (controlOffsets pru))
      if control &&& pruRunstate = 0 then do
        store 0 (.pruss (controlOffsets pru))
        pollPrus (pending &&& ~~~ bitAt pru.val) rest
      else pollPrus pending rest
    else pollPrus pending rest

/-- The message of a stop that took too long. -/
def stopTimeout (pending : Word) (error : String) (cap : Nat) : String :=
  snprintf error cap ((if pending = 3 then "PRU0 and PRU1" else if pending &&& 1 ≠ 0 then "PRU0"
    else "PRU1") ++ " did not stop within 20 ms; reset withheld")

/-- The loop body up to `++attempts`: the cores still pending, and the
result if the function returns. -/
def stopRound (begin : BitVec 64) (error : String) (cap : Nat) (pending : Word) :
    UProg (Word × Option (Bool × String)) := do
  if pending = 0 then pure (pending, some (true, error)) else do
  let pending ← pollPrus pending (List.finRange 2)
  memoryBarrier
  if pending = 0 then pure (pending, some (true, error)) else do
  let now ← monotonicNs
  if begin = 0 ∨ now = 0 then do
    let error ← failErrno error cap "read PRU-stop deadline"
    pure (pending, some (false, error))
  else if now - begin ≥ pruStopTimeoutNs then
    pure (pending, some (false, stopTimeout pending error cap))
  else pure (pending, none)

/-- The loop `while (pending)` with `n` increments of `attempts` left before
the limit. -/
def stopWait (begin : BitVec 64) (error : String) (cap : Nat) :
    Nat → Word → UProg (Bool × String)
  | 0, pending => do
    let (pending, result) ← stopRound begin error cap pending
    match result with
    | some result => pure result
    | none => pure (false, stopTimeout pending error cap)
  | n + 1, pending => do
    let (pending, result) ← stopRound begin error cap pending
    match result with
    | some result => pure result
    | none => do
      let slept : Option Int ← uop .nanosleep
      if slept ≠ none ∧ slept ≠ some eIntr then do
        let error ← failErrno error cap "wait for PRU stop"
        pure (false, error)
      else stopWait begin error cap n pending

def stopPrus (mask : Word) (error : String) (cap : Nat) : UProg (Bool × String) := do
  let begin ← monotonicNs
  disablePrus mask (List.finRange 2)
  memoryBarrier
  stopWait begin error cap 100 mask

/-! ### Attaching -/

/-- `uio` followed by at least one digit and nothing else. -/
def isUioEntry (name : String) : Bool :=
  let suffix := name.toList.drop 3
  name.toList.take 3 = "uio".toList && !suffix.isEmpty && suffix.all Char.isDigit

/-- The loop over the inventory: the entry whose map0 is PRUSS, and its size. -/
def findPruss : Nat → UProg (Option (String × Nat))
  | 0 => stillRunning
  | fuel + 1 => do
    let entry : Option String ← uop .readdir
    match entry with
    | none => pure none
    | some name => do
      if isUioEntry name = false then findPruss fuel else do
      let address : Option Nat ← uop (.readNumber name "addr")
      if address ≠ some prussBase then findPruss fuel else do
      let size : Option Nat ← uop (.readNumber name "size")
      match size with
      | none => findPruss fuel
      | some size => do
        let offset : Option Nat ← uop (.readNumber name "offset")
        if offset ≠ some 0 ∨ size < pru0Iram + pruIramBytes ∨ size > 0x100000 then findPruss fuel
        else pure (some (name, size))

/-- `munmap` of a mapping that exists. -/
def unmap : Option Nat → UProg Unit
  | none => pure ()
  | some address => uop (.munmap address)

/-- `close` of a descriptor that is open. -/
def closeFd : Option Nat → UProg Unit
  | none => pure ()
  | some fd => uop (.close fd)

def dldHwClose (hw : DldHw) : UProg DldHw := do
  unmap (hw.gpioMap 0)
  unmap (hw.gpioMap 1)
  unmap (hw.gpioMap 2)
  unmap hw.clockMap
  unmap hw.prussMap
  closeFd hw.uioFd
  closeFd hw.memFd
  pure {}

def dldHwOpen (fuel : Nat) (error : String) (cap : Nat) : UProg (DldHw × Bool × String) := do
  let opened : Option Int ← uop .opendir
  if opened ≠ none then do
    let error ← failErrno error cap "open UIO inventory (uio_pruss required)"
    pure ({}, false, error)
  else do
  let found ← findPruss fuel
  uop .closedir
  match found with
  | none => do
    let error ← failErrno error cap "AM335x PRUSS UIO map0 unavailable"
    pure ({}, false, error)
  | some (name, size) => do
    let uio : Except Int Nat ← uop (.openFile (.uio name))
    match uio with
    | .error _ => do
      let error ← failErrno error cap "open PRUSS UIO device"
      pure ({ prussSize := size }, false, error)
    | .ok fd => do
      let map : Except Int Nat ← uop (.mmap .pruss fd)
      match map with
      | .error _ => do
        let error ← failErrno error cap "map PRUSS UIO memory"
        let hw ← dldHwClose { prussSize := size, uioFd := some fd }
        pure (hw, false, error)
      | .ok address =>
        pure ({ prussSize := size, uioFd := some fd, prussMap := some address }, true, error)

/-! ### Taking control -/

def disableNotifications : UProg Unit := do
  store 19 (.pruss intcEicr)
  store 20 (.pruss intcEicr)
  store 2 (.pruss intcHidisr)
  store 3 (.pruss intcHidisr)
  store 19 (.pruss intcSicr)
  store 20 (.pruss intcSicr)
  memoryBarrier

def takeControl (hw : DldHw) (error : String) (cap : Nat) : UProg (DldHw × Bool × String) := do
  if hw.prussMap = none then do
    let error ← failErrno error cap "PRUSS not mapped"
    pure (hw, false, error)
  else do
  let (stopped, error) ← stopPrus 3 error cap
  disableNotifications
  store 0 (.command .magic)
  memoryBarrier
  pure ({ hw with controlTaken := true }, stopped, error)

def dldHwTakeControl (hw : DldHw) (error : String) (cap : Nat) :
    UProg (DldHw × Bool × String) :=
  tracedCall .takeControl (fun r => if r.2.1 then .ok else .initFailure)
    (takeControl hw error cap)

/-! ### The LED outputs -/

def mapPeripherals (hw : DldHw) (error : String) (cap : Nat) :
    UProg (DldHw × Bool × String) := do
  let withClock (hw : DldHw) (fd : Nat) : UProg (DldHw × Bool × String) := do
    if hw.clockMap ≠ none then pure (hw, true, error) else do
    let map : Except Int Nat ← uop (.mmap .clock fd)
    match map with
    | .error _ => do
      let error ← failErrno error cap "map GPIO clock controls"
      pure (hw, false, error)
    | .ok address => pure ({ hw with clockMap := some address }, true, error)
  match hw.memFd with
  | some fd => withClock hw fd
  | none => do
    let mem : Except Int Nat ← uop (.openFile .mem)
    match mem with
    | .error _ => do
      let error ← failErrno error cap "open /dev/mem for GPIO setup"
      pure (hw, false, error)
    | .ok fd => withClock { hw with memFd := some fd } fd

/-- The condition of the clock loop and its body up to `++attempts`: the
result if the function returns. -/
def clockRound (bank : Fin 3) (begin : BitVec 64) : UProg (Option Bool) := do
  let clock ← load (.clock (clockOffsets bank))
  if clock &&& 0x30003 = 2 then pure (some true) else do
  let now ← monotonicNs
  if now = 0 ∨ now - begin ≥ pruStopTimeoutNs then pure (some false) else pure none

/-- The clock loop with `n` increments of `attempts` left before the limit. -/
def clockWait (bank : Fin 3) (begin : BitVec 64) : Nat → UProg Bool
  | 0 => do
    let result ← clockRound bank begin
    match result with
    | some functional => pure functional
    | none => pure false
  | n + 1 => do
    let result ← clockRound bank begin
    match result with
    | some functional => pure functional
    | none => do
      let _ : Option Int ← uop .nanosleep
      clockWait bank begin n

def enableClock (bank : Fin 3) (error : String) (cap : Nat) : UProg (Bool × String) := do
  let begin ← monotonicNs
  if begin = 0 then do
    let error ← failErrno error cap "read clock-setup deadline"
    pure (false, error)
  else do
  let clock ← load (.clock (clockOffsets bank))
  store ((clock &&& ~~~ 3) ||| 2) (.clock (clockOffsets bank))
  memoryBarrier
  let functional ← clockWait bank begin 100
  if functional then pure (true, error)
  else pure (false, snprintf error cap
    ("GPIO" ++ toString bank.val ++ " clock did not become functional"))

/-- Up to `n` clear attempts, until the LED bits read low. -/
def clearOutputs (bank : Fin 3) : Nat → UProg Bool
  | 0 => pure false
  | n + 1 => do
    store (ledMasks bank) (.gpio bank gpioClear)
    memoryBarrier
    let data ← load (.gpio bank gpioDataout)
    if data &&& ledMasks bank = 0 then pure true else clearOutputs bank n

/-- `configure_bank` once the bank is mapped. -/
def setUpBank (bank : Fin 3) (error : String) (cap : Nat) : UProg (Bool × String) := do
  let (enabled, error) ← enableClock bank error cap
  if enabled = false then pure (false, error) else do
  let ctrl ← load (.gpio bank gpioCtrl)
  store (ctrl &&& ~~~ 1) (.gpio bank gpioCtrl)
  let low ← clearOutputs bank 8
  if low = false then
    pure (false, snprintf error cap
      ("GPIO" ++ toString bank.val ++ " LED output latches failed to clear"))
  else do
  let oe ← load (.gpio bank gpioOe)
  store (oe &&& ~~~ ledMasks bank) (.gpio bank gpioOe)
  memoryBarrier
  let oe ← load (.gpio bank gpioOe)
  if oe &&& ledMasks bank ≠ 0 then
    pure (false, snprintf error cap
      ("GPIO" ++ toString bank.val ++ " LED directions remain inputs"))
  else pure (true, error)

/-- `hw->mem_fd` is open here: both callers map the peripherals first. -/
def configureBank (hw : DldHw) (bank : Fin 3) (error : String) (cap : Nat) :
    UProg (DldHw × Bool × String) := do
  match hw.gpioMap bank, hw.memFd with
  | none, some fd => do
    let map : Except Int Nat ← uop (.mmap (.gpio bank) fd)
    match map with
    | .error _ => do
      let error ← failErrno error cap "map LED GPIO bank"
      pure (hw, false, error)
    | .ok address => do
      let (ok, error) ← setUpBank bank error cap
      pure ({ hw with gpioMap := Function.update hw.gpioMap bank (some address) }, ok, error)
  | none, none => do
    -- mmap of a bad descriptor
    let error ← failErrno error cap "map LED GPIO bank"
    pure (hw, false, error)
  | some _, _ => do
    let (ok, error) ← setUpBank bank error cap
    pure (hw, ok, error)

/-- The banks of the list, up to the first that fails. -/
def configureBanks (hw : DldHw) (error : String) (cap : Nat) :
    List (Fin 3) → UProg (DldHw × Bool × String)
  | [] => pure (hw, true, error)
  | bank :: rest => do
    let (hw, ok, error) ← configureBank hw bank error cap
    if ok = false then pure (hw, false, error) else configureBanks hw error cap rest

def dldHwConfigureOutputs (hw : DldHw) (error : String) (cap : Nat) :
    UProg (DldHw × Bool × String) := do
  let (hw, ok, error) ← mapPeripherals hw error cap
  if ok = false then pure (hw, false, error)
  else configureBanks hw error cap (List.finRange 3)

/-! ### Starting PRU0 -/

/-- `iram[word]` -/
def iram (word : Nat) : HwReg := .pruss (pru0Iram + 4 * word)

def copyCode (code : Nat → Word) : List Nat → UProg Unit
  | [] => pure ()
  | word :: rest => do
    store (code word) (iram word)
    copyCode code rest

/-- The first word of the list that does not read back. -/
def verifyCode (code : Nat → Word) : List Nat → UProg (Option Nat)
  | [] => pure none
  | word :: rest => do
    let found ← load (iram word)
    if found ≠ code word then pure (some word) else verifyCode code rest

def dldHwStart (hw : DldHw) (code : Nat → Word) (bytes : Nat) (error : String) (cap : Nat) :
    UProg (Bool × String) := do
  if hw.controlTaken = false ∨ bytes = 0 ∨ bytes % 4 ≠ 0 ∨ bytes > pruIramBytes then do
    let error ← failErrno error cap "invalid embedded PRU0 image or ownership"
    pure (false, error)
  else do
  let (stopped, error) ← stopPrus 1 error cap
  if stopped = false then pure (false, error) else do
  copyCode code (List.range (bytes / 4))
  memoryBarrier
  let bad ← verifyCode code (List.range (bytes / 4))
  match bad with
  | some word =>
    pure (false, snprintf error cap
      ("PRU0 instruction RAM verification failed at word " ++ toString word))
  | none => do
    store 2 (.pruss (controlOffsets 0))
    memoryBarrier
    pure (true, error)

/-! ### Cleanup -/

/-- Every bank of the list, whatever happens to the others. -/
def cleanupBanks (hw : DldHw) (error : String) : List (Fin 3) → UProg DldHw
  | [] => pure hw
  | bank :: rest => do
    let (hw, ok, error) ← configureBank hw bank error 192
    if ok = false then do
      uop (.printError ("WARNING: best-effort GPIO" ++ toString bank.val ++
        " cleanup incomplete: " ++ error ++ "\n"))
      cleanupBanks hw error rest
    else cleanupBanks hw error rest

/-- The part of `dld_hw_cleanup` after the disabled notifications. -/
def cleanupOutputs (hw : DldHw) (error : String) : UProg DldHw := do
  let (hw, mapped, error) ← mapPeripherals hw error 192
  if mapped = false then do
    uop (.printError ("WARNING: best-effort GPIO cleanup incomplete: " ++ error ++ "\n"))
    pure hw
  else cleanupBanks hw error (List.finRange 3)

/-- The part of `dld_hw_cleanup` after the stop of the cores. -/
def cleanupStopped (hw : DldHw) (stopped : Bool) (error : String) : UProg DldHw := do
  if stopped = false then
    uop (.printError ("WARNING: best-effort PRU cleanup incomplete: " ++ error ++ "\n"))
  store 0 (.command .magic)
  memoryBarrier
  disableNotifications
  cleanupOutputs hw error

def hwCleanup (hw : DldHw) : UProg DldHw := do
  if hw.prussMap = none then pure hw else do
  let (stopped, error) ← stopPrus 3 "" 192
  cleanupStopped hw stopped error

def dldHwCleanup (hw : DldHw) : UProg DldHw :=
  tracedCall .hwCleanup (fun _ => .ok) (hwCleanup hw)

end Dld
