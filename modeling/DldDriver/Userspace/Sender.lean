/-
DldDriver/Userspace/Sender.lean

`src/dld_sender.c` and what it uses of `src/dld_common.c`: the command lock,
the snapshot of the mailbox, and the sender context with its three calls.

`dld_sender_send` is cut where it enters the ioctl and at its label `done`.
-/
import DldDriver.Userspace.Hw

namespace Dld

open Interaction

/-! ### dld_common.c -/

def dldErrorName (detail : Word) : String :=
  if detail = errorNone then "none"
  else if detail = errorMagic then "invalid magic"
  else if detail = errorAbi then "unsupported ABI"
  else if detail = errorProfile then "unsupported profile"
  else if detail = errorLength then "invalid length"
  else if detail = errorTiming then "unsupported timing"
  else if detail = errorDirection then "LED pin is an input"
  else if detail = errorInitClear then "initial GPIO clear failed"
  else if detail = errorBankClear then "end-of-bank GPIO clear failed"
  else if detail = errorInternal then "unexpected firmware state"
  else if detail = errorGate then "invalid or stale bank grant"
  else "unknown firmware error"

/-- The words of the snapshot after `status`, in the order of the reads. -/
def snapshotOrder : List Off :=
  [.magic, .abiVersion, .profileId] ++ (List.finRange 6).map Off.lengths ++
    [.wireColor, .requestSeq, .completionSeq, .errorDetail, .bankReady, .bankGrant, .bankDone,
      .acceptedSeq]

/-- Read the words of the list into the snapshot. -/
def loadWords (snapshot : DldCommand) : List Off → UProg DldCommand
  | [] => pure snapshot
  | off :: rest => do
    let v ← load (.command off)
    loadWords (Function.update snapshot off v) rest

def dldSnapshot : UProg DldCommand := do
  let status ← load (.command .status)
  memoryBarrier
  loadWords (fun _ => status) snapshotOrder

/-- The code of a failed `flock` and the text of its message. -/
def lockFailure (errno : Int) (error : String) (cap : Nat) : UProg (DldExitCode × String) :=
  if errno = eAgain then
    pure (.busy, snprintf error cap "another dld command holds the command lock")
  else do
    let reason ← strerror
    pure (.prerequisite, snprintf error cap ("cannot acquire command lock: " ++ reason))

/-- The descriptor, or the negated exit code. -/
def dldLock (error : String) (cap : Nat) : UProg (Except DldExitCode Nat × String) := do
  let opened : Except Int Nat ← uop (.openFile .lock)
  match opened with
  | .error _ => do
    let reason ← strerror
    pure (.error .prerequisite, snprintf error cap ("cannot open command lock: " ++ reason))
  | .ok fd => do
    let regular : Bool ← uop (.fstatRegular fd)
    if regular = false then do
      uop (.close fd)
      pure (.error .prerequisite,
        snprintf error cap "command lock is not an accessible regular file")
    else do
    let locked : Option Int ← uop (.flockExclusive fd)
    match locked with
    | some errno => do
      let (code, error) ← lockFailure errno error cap
      uop (.close fd)
      pure (.error code, error)
    | none => pure (.ok fd, error)

/-! ### dld_sender.h -/

/-- `struct dld_sender`.  A descriptor of `-1` is `none`; `faulted` is zero
or an exit code. -/
structure DldSender where
  hw : DldHw := {}
  lockFd : Option Nat := none
  quietFd : Option Nat := none
  mapped : Bool := false
  faulted : Option DldExitCode := none

instance : Inhabited DldSender := ⟨{}⟩

/-- `struct dld_send_result` -/
structure DldSendResult where
  config : DldConfig
  quiet : DldQuietSend
  deriving Inhabited

/-! ### dld_sender.c -/

/-- `flock(fd, LOCK_UN)` until it is not interrupted. -/
def unlockRetry (fd : Nat) : Nat → UProg (Option Int)
  | 0 => stillRunning
  | fuel + 1 => do
    let rc : Option Int ← uop (.flockUnlock fd)
    if rc = some eIntr then unlockRetry fd fuel else pure rc

def unlockSender (fuel : Nat) (sender : DldSender) (error : String) (cap : Nat) :
    UProg (DldSender × DldExitCode × String) := do
  match sender.lockFd with
  | none => pure (sender, .ok, error) -- not reached: every caller holds the lock
  | some fd => do
    let rc ← unlockRetry fd fuel
    match rc with
    | none => pure (sender, .ok, error)
    | some _ => do
      let reason ← strerror
      uop (.close fd)
      pure ({ sender with lockFd := none, faulted := some .prerequisite }, .prerequisite,
        snprintf error cap ("cannot release command lock: " ++ reason ++ "; restart the sender"))

def senderClose (sender : DldSender) : UProg DldSender := do
  if sender.mapped then do
    let _ ← dldHwClose sender.hw
    closeFd sender.quietFd
    closeFd sender.lockFd
    pure {}
  else do
    closeFd sender.quietFd
    closeFd sender.lockFd
    pure {}

def dldSenderClose (sender : DldSender) : UProg DldSender :=
  tracedCall .senderClose (fun _ => .ok) (senderClose sender)

/-- The label `failed`. -/
def openFailed (sender : DldSender) (code : DldExitCode) (error : String) :
    UProg (DldSender × DldExitCode × String) := do
  let sender ← senderClose sender
  pure (sender, code, error)

/-- `dld_sender_open` once the lock is held. -/
def openLocked (fuel : Nat) (lockFd : Nat) (error : String) (cap : Nat) :
    UProg (DldSender × DldExitCode × String) := do
  let sender : DldSender := { lockFd := some lockFd }
  let euid : Nat ← uop .geteuid
  if euid ≠ 0 then
    openFailed sender .prerequisite (snprintf error cap "sender requires effective UID zero")
  else do
  let (hw, opened, error) ← dldHwOpen fuel error cap
  let sender := { sender with hw := hw }
  if opened = false then openFailed sender .prerequisite error else do
  let sender := { sender with mapped := true }
  let state ← dldSnapshot
  let (code, _, error) := dldCheckMailbox state default error cap
  if code ≠ .ok then openFailed sender code error else do
  let quiet : Except Int Nat ← uop (.openFile .quiet)
  match quiet with
  | .error _ => do
    let reason ← strerror
    openFailed sender .prerequisite (snprintf error cap
      ("open /dev/dld-quiet: " ++ reason ++ "; load the matching dld_quiet kernel helper"))
  | .ok quietFd => do
    let (sender, code, error) ←
      unlockSender fuel { sender with quietFd := some quietFd } error cap
    if code = .ok then pure (sender, code, error) else openFailed sender code error

def dldSenderOpen (fuel : Nat) (error : String) (cap : Nat) :
    UProg (DldSender × DldExitCode × String) :=
  tracedCall .senderOpen (fun r => r.2.1) do
    let (lock, error) ← dldLock error cap
    match lock with
    | .error code => pure ({}, code, error)
    | .ok lockFd => openLocked fuel lockFd error cap

/-- What `dld_sender_send` carries to its label `done`. -/
structure SendOutcome where
  code : DldExitCode
  submitted : Bool
  quiet : DldQuietSend
  error : String

/-- The request that is passed to the helper. -/
def buildSend (rgb : Word) (config : DldConfig) (state : DldCommand) : DldQuietSend :=
  { (default : DldQuietSend) with
    apiVersion := quietApiVersion
    rgb := rgb
    profileId := config.profileId
    previousSeq := state .requestSeq
    stringLengths := config.stringLengths }

/-- The message of a structured rejection. -/
def rejectedMessage (reply : DldQuietSend) (reason : String) : String :=
  "quiet helper rejected before publication: stage=" ++ decimal reply.stage ++ " result=" ++
    toString reply.result ++ " (" ++ reason ++ ") cpu_khz=" ++ decimal reply.cpuKhz ++
    " blocked_engine=" ++ decimal reply.blockedEngine ++ " blocked_status=0x" ++
    hex 8 reply.blockedStatus

/-- The message of a protected send that failed. -/
def criticalMessage (cancelled : Bool) (requestSeq : Word) (reply : DldQuietSend) : String :=
  "CRITICAL " ++ (if cancelled then "send cancelled" else "protected send failed") ++
    ": request=" ++ decimal requestSeq ++ " status=0x" ++ hex 8 reply.status ++ " completion=" ++
    decimal reply.completionSeq ++ " error=" ++ decimal reply.errorDetail ++ " (" ++
    dldErrorName reply.errorDetail ++ ") stage=" ++ decimal reply.stage ++ " result=" ++
    toString reply.result ++ " grant=" ++ decimal reply.bankGrant ++ " bank_done=" ++
    decimal reply.bankDone ++ " timer_fault=0x" ++ hex 1 reply.timerFaultMask ++
    " blocked_engine=" ++ decimal reply.blockedEngine ++ " blocked_status=0x" ++
    hex 8 reply.blockedStatus ++ " cleanup_failed=0x" ++ hex 1 reply.cleanupFailedMask ++
    " dma_restore_failed=0x" ++ hex 1 reply.dmaRestoreFailedMask ++ "; run dld-init CONFIG_FILE"

/-- The verdict on a failed ioctl. -/
def ioctlFailed (request : DldQuietSend) (errno : Int) (error : String) (cap : Nat) :
    UProg SendOutcome := do
  let reason ← strerror
  if errno = eNotty ∨ errno = ePerm then
    pure ⟨.prerequisite, false, request, snprintf error cap
      ("quiet helper rejected before publication: " ++ reason ++ "; " ++
        if errno = eNotty then "load the matching dld_quiet kernel helper"
        else "CAP_SYS_RAWIO is required")⟩
  else
    pure ⟨.critical, true, request, snprintf error cap ("CRITICAL quiet ioctl failed: " ++ reason ++
      "; submission uncertain; run dld-init CONFIG_FILE")⟩

/-- The completion in the structured result is that of the request. -/
def replyCompletes (requestSeq : Word) (reply : DldQuietSend) : Bool :=
  dldCompletionMatches ⟨reply.status, reply.completionSeq, reply.errorDetail⟩ requestSeq

/-- The verdict on a structured result. -/
def ioctlAnswered (requestSeq : Word) (reply : DldQuietSend) (error : String) (cap : Nat) :
    UProg SendOutcome := do
  let critical : UProg SendOutcome := do
    let flag ← cancelled
    pure ⟨.critical, true, reply,
      snprintf error cap (criticalMessage (decide (flag ≠ 0)) requestSeq reply)⟩
  if reply.result ≠ 0 ∧ reply.submitted = 0 then do
    let reason ← strerror
    let code : DldExitCode :=
      if reply.result = -eBusy then .busy
      else if reply.result = -eProto then .notInitialized else .prerequisite
    pure ⟨code, false, reply, snprintf error cap (rejectedMessage reply reason)⟩
  else if reply.result ≠ 0 then critical
  else do
    let flag ← cancelled
    if flag ≠ 0 ∨ reply.submitted = 0 ∨ reply.requestSeq ≠ requestSeq ∨
        replyCompletes requestSeq reply = false then critical
    else pure ⟨.ok, true, reply, error⟩

/-- From the snapshot to the label `done`. -/
def sendLocked (quietFd : Nat) (rgb : Word) (error : String) (cap : Nat) :
    UProg (DldConfig × SendOutcome) := do
  let state ← dldSnapshot
  let (code, config, error) := dldCheckMailbox state default error cap
  if code ≠ .ok then pure (config, ⟨code, false, default, error⟩) else do
  let request := buildSend rgb config state
  let flag ← cancelled
  if flag ≠ 0 then
    pure (config, ⟨.prerequisite, false, request,
      snprintf error cap "send cancelled before request publication"⟩)
  else do
  let answer : Except Int DldQuietSend ← uop (.ioctl quietFd request)
  let outcome ←
    match answer with
    | .error errno => ioctlFailed request errno error cap
    | .ok reply => ioctlAnswered (state .requestSeq + 1) reply error cap
  pure (config, outcome)

/-- The label `done`. -/
def senderSendDone (fuel : Nat) (sender : DldSender) (outcome : SendOutcome) (cap : Nat) :
    UProg (DldSender × DldExitCode × String) := do
  let sender ←
    if outcome.submitted ∧ outcome.code ≠ .ok then do
      let hw ← dldHwCleanup sender.hw
      pure { sender with hw := hw, faulted := some .critical }
    else pure sender
  if outcome.code = .ok then unlockSender fuel sender outcome.error cap
  else do
    let (unlocked, _, _) ← unlockSender fuel sender "" 160
    pure ({ unlocked with faulted := if sender.faulted ≠ none then sender.faulted
      else unlocked.faulted }, outcome.code, outcome.error)

/-- `hasResult`: the pointer to the result is not null. -/
def dldSenderSend (fuel : Nat) (sender : DldSender) (rgb : Word) (hasResult : Bool)
    (error : String) (cap : Nat) : UProg (DldSender × DldExitCode × DldSendResult × String) :=
  tracedCall .senderSend (fun r => r.2.1) do
    if hasResult = false ∨ rgb > 0xffffff then
      pure (sender, .badArgument, default, snprintf error cap
        "send requires a 24-bit RGB color and result storage")
    else match sender.faulted with
      | some fault => pure (sender, fault, default, snprintf error cap
          "sender context failed; close and reopen after explicit recovery")
      | none =>
        match sender.mapped, sender.lockFd, sender.quietFd with
        | true, some lockFd, some quietFd => do
          let locked : Option Int ← uop (.flockExclusive lockFd)
          match locked with
          | some errno => do
            let (code, error) ← lockFailure errno error cap
            pure (sender, code, default, error)
          | none => do
            let (config, outcome) ← sendLocked quietFd rgb error cap
            let (sender, code, error) ← senderSendDone fuel sender outcome cap
            pure (sender, code, ⟨config, outcome.quiet⟩, error)
        | _, _, _ => pure (sender, .notInitialized, default,
            snprintf error cap "sender is not open")

end Dld
