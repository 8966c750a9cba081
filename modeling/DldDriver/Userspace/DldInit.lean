/-
DldDriver/Userspace/DldInit.lean

`src/dld_init.c` and what it uses of `src/dld_common.c`: the configuration
file, the signals, the readiness wait and `main`.

The firmware image is generated; here it is any sequence of words.  `main`
is cut at its labels `done` and `report`, and where it takes control.
-/
import DldDriver.Userspace.Config
import DldDriver.Userspace.Sender

namespace Dld

open Interaction

/-! ### dld_common.c -/

def dldReadConfig (path : String) (config : DldConfig) (error : String) (cap : Nat) :
    UProg (DldExitCode × DldConfig × String) := do
  let file : FileRead ← uop .readFile
  match file with
  | .cannotOpen => do
    let reason ← strerror
    pure (.prerequisite, config,
      snprintf error cap ("cannot read configuration " ++ path ++ ": " ++ reason))
  | .cannotRead => do
    let reason ← strerror
    pure (.prerequisite, config, snprintf error cap ("cannot read configuration: " ++ reason))
  | .outOfMemory =>
    pure (.prerequisite, config, snprintf error cap "out of memory reading configuration")
  | .tooLarge => pure (.prerequisite, config, snprintf error cap "configuration is too large")
  | .content bytes =>
    let (parsed, config, error) := dldParseConfig bytes config error cap
    pure (if parsed then .ok else .badArgument, config, error)

/-- Handlers for the signals left in the list. -/
def installHandlers : Nat → UProg Bool
  | 0 => pure true
  | n + 1 => do
    let failed : Option Int ← uop .sigaction
    if failed ≠ none then pure false else installHandlers n

/-- SIGINT, SIGTERM and SIGHUP. -/
def dldInstallSignals (error : String) (cap : Nat) : UProg (Bool × String) := do
  let installed ← installHandlers 3
  if installed then pure (true, error) else do
  let reason ← strerror
  pure (false, snprintf error cap ("cannot install cancellation handlers: " ++ reason))

def dldPrintConfiguration (config : DldConfig) : UProg Unit :=
  let l := config.stringLengths
  uop (.print ("pixel_type=" ++ (dldProfileName config.profileId).getD "(null)" ++ " lengths=" ++
    String.intercalate "," ((List.finRange 6).map fun i => decimal (l i)) ++ " groups=" ++
    toString (dldGroupCount config) ++ "\n"))

/-! ### The readiness wait -/

/-- `struct timespec`: seconds and nanoseconds. -/
abbrev Timespec := Int × Int

def expired (now deadline : Timespec) : Bool :=
  decide (now.1 > deadline.1 ∨ (now.1 = deadline.1 ∧ now.2 ≥ deadline.2))

/-- The words that are zero in a block ready for its first frame. -/
def readyWords : List Off :=
  [.requestSeq, .completionSeq, .bankReady, .bankGrant, .bankDone, .acceptedSeq]

/-- The second look at the clock, once the firmware is ready. -/
def confirmReady (deadline : Timespec) (error : String) (cap : Nat) : UProg (Bool × String) := do
  let now : Except Int Timespec ← uop .clockGettime
  match now with
  | .error _ => do
    let reason ← strerror
    pure (false, snprintf error cap ("cannot verify readiness clock: " ++ reason))
  | .ok now =>
    if expired now deadline then
      pure (false, snprintf error cap "PRU readiness was not observed within the 100 ms deadline")
    else pure (true, error)

/-- The judgement on a snapshot: the result if the function returns. -/
def judgeReady (deadline : Timespec) (state : DldCommand) (error : String) (cap : Nat) :
    UProg (Option (Bool × String)) := do
  if state .errorDetail ≠ errorNone ∨ state .status = statusError then
    pure (some (false, snprintf error cap ("PRU initialization error " ++
      decimal (state .errorDetail) ++ ": " ++ dldErrorName (state .errorDetail))))
  else if state .status = statusReady ∧ ∀ off ∈ readyWords, state off = 0 then
    some <$> confirmReady deadline error cap
  else if state .status ≠ statusInitializing then
    pure (some (false, snprintf error cap ("unexpected initialization status=0x" ++
      hex 8 (state .status) ++ " request=" ++ decimal (state .requestSeq) ++ " completion=" ++
      decimal (state .completionSeq))))
  else pure none

/-- One round up to the pause: the result if the function returns. -/
def readyRound (deadline : Timespec) (error : String) (cap : Nat) :
    UProg (Option (Bool × String)) := do
  let flag ← cancelled
  if flag ≠ 0 then do
    let signal ← cancelled
    pure (some (false, snprintf error cap
      ("initialization cancelled by signal " ++ toString signal)))
  else do
  let now : Except Int Timespec ← uop .clockGettime
  match now with
  | .error _ => do
    let reason ← strerror
    pure (some (false, snprintf error cap ("cannot read readiness clock: " ++ reason)))
  | .ok now =>
    if expired now deadline then
      pure (some (false, snprintf error cap "PRU readiness exceeded the 100 ms deadline"))
    else do
      let state ← dldSnapshot
      judgeReady deadline state error cap

def waitReady (deadline : Timespec) (error : String) (cap : Nat) : Nat → UProg (Bool × String)
  | 0 => stillRunning
  | fuel + 1 => do
    let result ← readyRound deadline error cap
    match result with
    | some result => pure result
    | none => do
      let slept : Option Int ← uop .nanosleep
      if slept ≠ none ∧ slept ≠ some eIntr then do
        let reason ← strerror
        pure (false, snprintf error cap ("readiness sleep failed: " ++ reason))
      else waitReady deadline error cap fuel

/-! ### main -/

/-- 100 ms after `now`. -/
def readyDeadline (now : Timespec) : Timespec :=
  if now.2 + 100000000 ≥ 1000000000 then (now.1 + 1, now.2 + 100000000 - 1000000000)
  else (now.1, now.2 + 100000000)

/-- The stores to the command block, `status` last. -/
def initialWords (config : DldConfig) : List (Off × Word) :=
  [(.magic, commandMagic), (.abiVersion, abiVersion), (.profileId, config.profileId)] ++
    (List.finRange 6).map (fun i => (.lengths i, config.stringLengths i)) ++
    [(.wireColor, 0), (.requestSeq, 0), (.completionSeq, 0), (.errorDetail, errorNone),
      (.bankReady, 0), (.bankGrant, 0), (.bankDone, 0), (.acceptedSeq, 0),
      (.status, statusInitializing)]

def storeWords : List (Off × Word) → UProg Unit
  | [] => pure ()
  | (off, v) :: rest => do
    store v (.command off)
    storeWords rest

/-- The label `report`. -/
def initReport (code : DldExitCode) (error : String) : UProg DldExitCode := do
  if code ≠ .ok then do
    uop (.printError ("dld-init: " ++ error ++ "\n"))
    pure code
  else pure code

/-- The label `done` before the mapping exists. -/
def initUnopened (lockFd : Nat) (code : DldExitCode) (error : String) : UProg DldExitCode := do
  uop (.close lockFd)
  initReport code error

/-- The label `done` with PRUSS mapped. -/
def initDone (hw : DldHw) (taken : Bool) (lockFd : Nat) (code : DldExitCode) (error : String) :
    UProg DldExitCode := do
  if code ≠ .ok ∧ taken then do
    let hw ← dldHwCleanup hw
    let _ ← dldHwClose hw
    initUnopened lockFd code error
  else do
    let _ ← dldHwClose hw
    initUnopened lockFd code error

/-- The firmware is started and answers in time. -/
def startFirmware (fuel : Nat) (image : Nat → Word) (imageBytes : Nat) (hw : DldHw)
    (deadline : Timespec) (config : DldConfig) (error : String) (cap : Nat) :
    UProg (DldExitCode × String) := do
  let (started, error) ← dldHwStart hw image imageBytes error cap
  if started = false then pure (.initFailure, error) else do
  let (ready, error) ← waitReady deadline error cap fuel
  if ready = false then pure (.initFailure, error) else do
  let flag ← cancelled
  if flag ≠ 0 then do
    let signal ← cancelled
    pure (.initFailure, snprintf error cap
      ("initialization cancelled by signal " ++ toString signal))
  else do
  uop (.print "OK ")
  dldPrintConfiguration config
  pure (.ok, error)

/-- The command block is filled and the deadline is set. -/
def fillMailbox (fuel : Nat) (image : Nat → Word) (imageBytes : Nat) (hw : DldHw)
    (config : DldConfig) (error : String) (cap : Nat) : UProg (DldExitCode × String) := do
  storeWords (initialWords config)
  memoryBarrier
  let flag ← cancelled
  if flag ≠ 0 then
    pure (.initFailure, snprintf error cap "initialization cancelled before firmware startup")
  else do
  let now : Except Int Timespec ← uop .clockGettime
  match now with
  | .error _ => do
    let reason ← strerror
    pure (.initFailure, snprintf error cap ("cannot start readiness clock: " ++ reason))
  | .ok now =>
    startFirmware fuel image imageBytes hw (readyDeadline now) config error cap

/-- From `taken = 1` to the label `done`. -/
def initTaken (fuel : Nat) (image : Nat → Word) (imageBytes : Nat) (hw : DldHw)
    (config : DldConfig) (error : String) (cap : Nat) :
    UProg (DldHw × DldExitCode × String) := do
  let (hw, stopped, error) ← dldHwTakeControl hw error cap
  if stopped = false then pure (hw, .initFailure, error) else do
  let (hw, configured, error) ← dldHwConfigureOutputs hw error cap
  if configured = false then pure (hw, .initFailure, error) else do
  let (code, error) ← fillMailbox fuel image imageBytes hw config error cap
  pure (hw, code, error)

/-- From the lock to the end. -/
def initLocked (fuel : Nat) (image : Nat → Word) (imageBytes : Nat) (config : DldConfig)
    (lockFd : Nat) (error : String) (cap : Nat) : UProg DldExitCode := do
  let euid : Nat ← uop .geteuid
  if euid ≠ 0 then
    initUnopened lockFd .prerequisite
      (snprintf error cap "dld-init requires effective UID zero")
  else do
  let (hw, opened, error) ← dldHwOpen fuel error cap
  if opened = false then initUnopened lockFd .prerequisite error else do
  let flag ← cancelled
  if flag ≠ 0 then
    initDone hw false lockFd .initFailure
      (snprintf error cap "initialization cancelled before taking control")
  else do
  let (hw, code, error) ← initTaken fuel image imageBytes hw config error cap
  initDone hw true lockFd code error

/-- `main`, with the arguments after the program's name. -/
def dldInit (fuel : Nat) (image : Nat → Word) (imageBytes : Nat) :
    List String → UProg DldExitCode
  | [path] => do
    let (code, config, error) ← dldReadConfig path default "" 256
    if code ≠ .ok then initReport code error else do
    let (installed, error) ← dldInstallSignals error 256
    if installed = false then initReport .prerequisite error else do
    let (lock, error) ← dldLock error 256
    match lock with
    | .error code => initReport code error
    | .ok lockFd => initLocked fuel image imageBytes config lockFd error 256
  | _ => do
    uop (.printError "usage: dld-init CONFIG_FILE\n")
    pure .badArgument

end Dld
