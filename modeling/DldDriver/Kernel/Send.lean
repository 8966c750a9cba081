/-
DldDriver/Kernel/Send.lean

`failed_frame_cleanup`, `perform_send` and `quiet_ioctl`: the part of
`kernel/dld_quiet_main.c` that publishes a frame and answers for it.

`perform_send` is cut at its two labels.  `preflight` is everything before
the publication, `sendFrame` everything from the publication to the label
`done`, and `sendDone` the code after `done`.
-/
import DldDriver.Kernel.Main

namespace Dld

open Interaction

/-! ### failed_frame_cleanup -/

/-- The control register of core 0 or 1. -/
def coreControl (core : Fin 2) : Reg := .pruControl (core.val * 0x2000)

/-- `1U << core` -/
def coreBit (core : Fin 2) : Word := bitAt core.val

/-- One poll of the cores still pending; `(request, pending)`. -/
def pollCores (request : DldQuietSend) (pending : Word) :
    List (Fin 2) → KProg (DldQuietSend × Word)
  | [] => pure (request, pending)
  | core :: rest => do
    if pending &&& coreBit core = 0 then pollCores request pending rest else do
    let control ← readl (coreControl core)
    if control &&& bitAt 15 = 0 then do
      writel 0 (coreControl core)
      pollCores { request with
        cleanupStoppedMask := request.cleanupStoppedMask ||| coreBit core }
        (pending &&& ~~~ coreBit core) rest
    else pollCores request pending rest

def stopLoop (deadline : Int) : Nat → DldQuietSend → Word → KProg (DldQuietSend × Word)
  | 0, request, pending => pure (request, pending)
  | attempts + 1, request, pending => do
    if pending = 0 then pure (request, pending) else do
    let now ← ktimeGet
    if now ≥ deadline then pure (request, pending) else do
    let flags ← maskCpu
    let functional ← mailboxFunctional
    if functional = false then do
      unmaskCpu flags
      pure (request, pending)
    else do
    let (request, pending) ← pollCores request pending (List.finRange 2)
    drainWrites
    unmaskCpu flags
    if pending ≠ 0 then do
      usleepRange
      stopLoop deadline attempts request pending
    else stopLoop deadline attempts request pending

/-- Clear the LED bits of a bank, up to `n` times, until they read low. -/
def clearLoop (bank : Fin 3) : Nat → KProg Bool
  | 0 => pure false
  | n + 1 => do
    writel (gpioMasks bank) (.gpio bank 0x190)
    drainWrites
    let data ← readl (.gpio bank 0x13c)
    if data &&& gpioMasks bank = 0 then pure true else clearLoop bank n

/-- The banks of the list, GPIO0 first; one that fails does not stop the rest. -/
def clearBanks (request : DldQuietSend) : List (Fin 3) → KProg DldQuietSend
  | [] => pure request
  | bank :: rest => do
    let clock ← readl (.clocks (gpioClocks bank))
    if ¬ Functional clock then
      clearBanks { request with
        cleanupFailedMask := request.cleanupFailedMask ||| bitAt (bank.val + 1) } rest
    else do
    let low ← clearLoop bank 8
    if low then
      clearBanks { request with
        cleanupLowMask := request.cleanupLowMask ||| bitAt bank.val } rest
    else
      clearBanks { request with
        cleanupFailedMask := request.cleanupFailedMask ||| bitAt (bank.val + 1) } rest

/-- The first window of the cleanup: invalidate the mailbox and disable
both owned cores before polling either. -/
def disableCores (request : DldQuietSend) : KProg DldQuietSend := do
  let flags ← maskCpu
  let functional ← mailboxFunctional
  let request ←
    if functional then do
      writel 0 (.mailbox .magic)
      writel 1 (.pruControl 0)
      writel 1 (.pruControl 0x2000)
      drainWrites
      pure request
    else pure { request with cleanupFailedMask := request.cleanupFailedMask ||| 1 }
  unmaskCpu flags
  pure request

def failedFrameCleanup (request : DldQuietSend) : KProg DldQuietSend :=
  traced .failedFrameCleanup (fun _ => 0) do
    let request ← disableCores request
    let now ← ktimeGet
    let (request, pending) ← stopLoop (now + gateTimeoutNs) 200 request 3
    let request :=
      if pending ≠ 0 then { request with cleanupFailedMask := request.cleanupFailedMask ||| 1 }
      else request
    let flags ← maskCpu
    let request ← clearBanks request (List.finRange 3)
    unmaskCpu flags
    pure request

/-! ### perform_send -/

/-- What `perform_send` has acquired, to be released at `done`. -/
structure Held where
  policy : Bool := false
  net : Bool := false
  rtnl : Bool := false
  power : Bool := false

/-- The budget loop: `bank_length(request, ordinal)` times the cycles of a
pixel plus the guard, zero for an empty bank. -/
def setBudgets (request : DldQuietSend) : List Bank → DldQuietSend × Int
  | [] => (request, 0)
  | bank :: rest =>
    let length := bankLength request bank
    let budget := if length ≠ 0 then length * cpuCyclesPerPixel + bankGuardCycles else 0
    let request := { request with
      budgetCycles := Function.update request.budgetCycles bank.index budget }
    if budget ≥ bankMaxCycles then (request, -eRange) else setBudgets request rest

/-- The network device: held, and found to be a running CPSW interface. -/
def acquireNet : KProg (Bool × Bool) := do
  let net : Bool ← kop .devGetByName
  if net = false then pure (false, false) else do
  let running : Bool ← kop .netifRunning
  if running = false then pure (true, false) else do
  let parent : Bool ← kop .devParent
  if parent = false then pure (true, false) else do
  let cpsw : Bool ← kop .driverIsCpsw
  pure (true, cpsw)

/-- The checks of `perform_send` up to the validation of the mailbox. -/
def checkPlatform (request : DldQuietSend) : KProg (DldQuietSend × Held × Int) := do
  let online : Word ← kop .numOnlineCpus
  if online ≠ 1 then pure (request, {}, -eNodev) else do
  let cpu0 : Bool ← kop .cpuOnline
  if cpu0 = false then pure (request, {}, -eNodev) else do
  let policy : Bool ← kop .cpufreqCpuGet
  let held : Held := { policy := policy }
  let request := { request with stage := stageCpu }
  let fixed ← fixedCpu policy
  if fixed = false then pure (request, held, -eRange) else do
  let request := { request with cpuKhz := requiredCpuKhz, stage := stagePmu }
  kop .preemptDisable
  let ready ← pmuReady
  kop .preemptEnable
  if ready = false then pure (request, held, -eNodev) else do
  let request := { request with stage := stageValidate }
  let flags ← maskCpu
  let functional ← mailboxFunctional
  let (request, error) ← if functional then validate request else pure (request, -eNodev)
  unmaskCpu flags
  pure (request, held, error)

/-- The locks and references of `perform_send`, the initial DMA admission
and the budgets. -/
def acquireSystem (request : DldQuietSend) (held : Held) :
    KProg (DldQuietSend × Held × Int) := do
  let rtnl : Bool ← kop .rtnlTrylock
  if rtnl = false then pure (request, held, -eBusy) else do
  let held := { held with rtnl := true }
  let (net, usable) ← acquireNet
  let held := { held with net := net }
  if usable = false then pure (request, held, -eNodev) else do
  let error : Int ← kop .pmRuntimeGetSync
  let held := { held with power := true }
  if error < 0 then pure (request, held, error) else do
  let (request, error) ← waitOtherDma request
  if error ≠ 0 then pure (request, held, error) else do
  let pending : Bool ← kop .signalPending
  if pending then pure (request, held, -eIntr) else do
  let (request, error) := setBudgets request Bank.pass
  pure (request, held, error)

/-- Everything before the publication. -/
def preflight (request : DldQuietSend) : KProg (DldQuietSend × Held × Int) := do
  let (request, held, error) ← checkPlatform request
  if error ≠ 0 then pure (request, held, error) else acquireSystem request held

/-- The three stores of the publication. -/
def publish (request : DldQuietSend) : KProg Unit := do
  writel 0 (.mailbox .bankGrant)
  writel (wireColor request.profileId request.rgb) (.mailbox .wireColor)
  kop .barrier
  writel request.requestSeq (.mailbox .requestSeq)
  drainWrites

/-- The loop over the banks and the final wait. -/
def sendBanks (request : DldQuietSend) (policy : Bool) : List Bank → KProg (DldQuietSend × Int)
  | [] => do
    let request := { request with stage := stageFinal }
    let error ← waitGate request 0 true
    if error = 0 then pure ({ request with stage := stageComplete }, error)
    else pure (request, error)
  | bank :: rest => do
    if bankLength request bank = 0 then sendBanks request policy rest else do
    let request := { request with stage := stageGate }
    let error ← waitGate request bank.ordinal false
    if error ≠ 0 then pure (request, error) else do
    let (request, error) ← runBank request policy bank
    if error ≠ 0 then pure (request, error) else do
    kop .condResched
    sendBanks request policy rest

/-- The label `submitted_done`. -/
def submittedDone (request : DldQuietSend) (error : Int) : KProg (DldQuietSend × Int) := do
  let flags ← maskCpu
  let functional ← mailboxFunctional
  let (request, error) ←
    if functional then do
      let request ← snapshot request
      pure (request, error)
    else pure (request, if error = 0 then -eNodev else error)
  unmaskCpu flags
  if error ≠ 0 then do
    let request ← failedFrameCleanup request
    pure (request, error)
  else pure (request, error)

/-- From the publication to `done`. -/
def sendFrame (request : DldQuietSend) (policy : Bool) : KProg (DldQuietSend × Int) := do
  let request := { request with stage := stagePublish, requestSeq := request.previousSeq + 1 }
  let flags ← maskCpu
  let functional ← mailboxFunctional
  if functional = false then do
    unmaskCpu flags
    pure (request, -eNodev)
  else do
  publish request
  let request := { request with submitted := 1 }
  unmaskCpu flags
  let (request, error) ← sendBanks request policy Bank.pass
  submittedDone request error

/-- The label `done`. -/
def sendDone (request : DldQuietSend) (held : Held) : KProg Unit := do
  if request.cleanupFailedMask ≠ 0 ∨ request.dmaRestoreFailedMask ≠ 0 then
    kop .prErrRatelimited
  if held.power then kop .pmRuntimePut
  if held.net then kop .devPut
  if held.rtnl then kop .rtnlUnlock
  if held.policy then kop .cpufreqCpuPut
  kop .putOnlineCpus
  kop .mutexUnlock

def performSend (request : DldQuietSend) : KProg (DldQuietSend × Int) := do
  let request := { request with stage := stageValidate }
  let locked : Bool ← kop .mutexTrylock
  if locked = false then pure (request, -eBusy) else do
  kop .getOnlineCpus
  let (request, held, error) ← preflight request
  let (request, error) ←
    if error ≠ 0 then pure (request, error) else sendFrame request held.policy
  sendDone request held
  pure (request, error)

/-! ### quiet_ioctl -/

abbrev dldQuietIoctlSend : Word := 0xC0C06471

/-- The value returned to the system call, and the structured result that
was copied out, if it was. -/
def quietIoctl (command : Word) : KProg (Int × Option DldQuietSend) := do
  if command ≠ dldQuietIoctlSend then pure (-eNotty, none) else do
  let privileged : Bool ← kop .capable
  if privileged = false then pure (-ePerm, none) else do
  let user : Option DldQuietSend ← kop .copyFromUser
  match user with
  | none => pure (-eFault, none)
  | some request => do
    let (request, result) ← performSend request.clearOutputs
    let request := { request with result := result }
    let copied : Bool ← kop (.copyToUser request)
    if copied = false then pure (-eFault, none) else pure (0, some request)

end Dld
