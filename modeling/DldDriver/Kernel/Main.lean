/-
DldDriver/Kernel/Main.lean

The kernel helper, function by function (`kernel/dld_quiet_main.c`,
`kernel/dld_admission.h`, `kernel/dld_quiet_spin.S`).

A C function that updates `*request` takes the request and returns the new
one beside its result.  A bounded C loop is a recursion on the number of
iterations left; a `goto` leaves the helper function that holds the code
before its label.
-/
import DldDriver.Kernel.Ops

namespace Dld

open Interaction

/-! ### Constants -/

abbrev cpswCommandIdle : Word := 0x00000008
abbrev cpswIdle : Word := 0x80000000
abbrev cpswErrorMask : Word := 0x00f0f000
abbrev requiredCpuKhz : Word := 1000000
abbrev cpuCyclesPerPixel : Word := 24 * 240 * 5
abbrev gateTimeoutNs : Int := 20000000
abbrev finalTimeoutNs : Int := 20000000
abbrev dmaDrainCyclesLimit : Word := 500000
abbrev bankGuardCycles : Word := 600000
abbrev bankMaxCycles : Word := 10000000
abbrev timerIterationCap : Word := 30000000
abbrev timerFault : Word := 0x80000000
abbrev grantWithheld : Word := 0x40000000

/-- `CPU_CYCLES_PER_PIXEL` from the profile constants. -/
theorem cpuCyclesPerPixel_eq :
    cpuCyclesPerPixel.toNat = 24 * bitCycles * (requiredCpuKhz.toNat * 1000 / pruHz) := by
  decide

/-- `gpio_clocks`, in the order GPIO0, GPIO1, GPIO2. -/
def gpioClocks : Fin 3 → Nat := ![0x408, 0xac, 0xb0]

/-- `gpio_masks`, in the order GPIO0, GPIO1, GPIO2. -/
def gpioMasks : Fin 3 → Word :=
  ![bitAt 26, bitAt 12 ||| bitAt 14, bitAt 1 ||| bitAt 3 ||| bitAt 4]

/-- One row of `engines`. -/
structure IdleEngine where
  clockOffset : Nat
  statusOffset : Nat
  busyMask : Word

/-- MMC0, MMC1, EDMA_CC, EDMA_TC0, EDMA_TC1, EDMA_TC2. -/
def engines : Fin 6 → IdleEngine :=
  ![⟨0x03c, 0x224, 0x307⟩, ⟨0x0f4, 0x224, 0x307⟩, ⟨0x0bc, 0x640, 0x00073f17⟩,
    ⟨0x024, 0x100, 0x77⟩, ⟨0x0fc, 0x100, 0x77⟩, ⟨0x100, 0x100, 0x77⟩]

/-- `(clock & 0x30003U) == 2U` -/
def Functional (clock : Word) : Prop := clock &&& 0x30003 = 2

instance (clock : Word) : Decidable (Functional clock) := inferInstanceAs (Decidable (_ = _))

/-! ### CPU exclusion -/

/-- `preempt_disable(); local_irq_save(flags); local_fiq_disable();` -/
def maskCpu : KProg Word := do
  kop .preemptDisable
  let flags : Word ← kop .localIrqSave
  kop .localFiqDisable
  pure flags

/-- `local_irq_restore(flags); preempt_enable();` -/
def unmaskCpu (flags : Word) : KProg Unit := do
  kop (.localIrqRestore flags)
  kop .preemptEnable

/-! ### Prerequisites -/

def mailboxFunctional : KProg Bool := do
  let clock ← readl (.clocks prussClock)
  pure (decide (Functional clock))

/-- `PERF_EVENT_STATE_ACTIVE` -/
abbrev perfEventStateActive : Int := 1

def pmuReady : KProg Bool := do
  let event : Bool ← kop .cycleEvent
  if event = false then pure false else do
  let state : Int ← kop .cycleEventState
  if state ≠ perfEventStateActive then pure false else do
  let idx : Int ← kop .cycleEventIdx
  if idx ≠ 0 then pure false else do
  let control : Word ← kop .pmcr
  let enabled : Word ← kop .pmcntenset
  if control &&& 1 = 0 ∨ control &&& 8 ≠ 0 ∨ enabled &&& bitAt 31 = 0 then pure false else do
  let before ← ccnt
  let after ← ccnt
  pure (decide (after ≠ before))

def bankLength (request : DldQuietSend) : Bank → Word
  | .gpio2 =>
    maximum (request.stringLengths 0) (maximum (request.stringLengths 1) (request.stringLengths 5))
  | .gpio1 => maximum (request.stringLengths 2) (request.stringLengths 4)
  | .gpio0 => request.stringLengths 3

theorem bankLength_eq (request : DldQuietSend) (b : Bank) :
    bankLength request b = maxOfBank request.stringLengths b := by
  cases b
  · rw [bankLength, maxOfBank, maximum_assoc]
  · rfl
  · rfl

/-- The kernel's own conversion of a colour to wire order. -/
def wireColor (profile rgb : Word) : Word :=
  if profile = profileWs2812b then
    ((rgb &&& 0xff0000) >>> 8) ||| ((rgb &&& 0x00ff00) <<< 8) ||| (rgb &&& 0xff)
  else if profile = profileWs2811Hs then rgb
  else ((rgb &&& 0xff) <<< 16) ||| (rgb &&& 0xff00) ||| ((rgb >>> 16) &&& 0xff)

def snapshot (request : DldQuietSend) : KProg DldQuietSend := do
  let requestSeq ← readl (.mailbox .requestSeq)
  let completionSeq ← readl (.mailbox .completionSeq)
  let status ← readl (.mailbox .status)
  let errorDetail ← readl (.mailbox .errorDetail)
  let acceptedSeq ← readl (.mailbox .acceptedSeq)
  let bankReady ← readl (.mailbox .bankReady)
  let bankGrant ← readl (.mailbox .bankGrant)
  let bankDone ← readl (.mailbox .bankDone)
  pure { request with
    requestSeq := requestSeq
    completionSeq := completionSeq
    status := status
    errorDetail := errorDetail
    acceptedSeq := acceptedSeq
    bankReady := bankReady
    bankGrant := bankGrant
    bankDone := bankDone }

/-- `for (i = 1; i <= 3; i++) if (bank_length(request, i)) last_bank = i;` -/
def lastBank (request : DldQuietSend) : Word :=
  Bank.pass.foldl (fun last b => if bankLength request b ≠ 0 then b.ordinal else last) 0

/-- The lengths in the mailbox are those of the request. -/
def lengthsMatch (request : DldQuietSend) : List (Fin 6) → KProg Bool
  | [] => pure true
  | i :: rest => do
    let length ← readl (.mailbox (.lengths i))
    if length ≠ request.stringLengths i then pure false else lengthsMatch request rest

/-- What `validate` concludes from the snapshot. -/
def validateSnapshot (request : DldQuietSend) : Int :=
  if request.errorDetail ≠ 0 ∨ request.status = statusError then -eProto
  else if request.status = statusRunning ∨ request.status = statusWaitBank ∨
      request.requestSeq ≠ request.completionSeq then -eBusy
  else if (request.status ≠ statusReady ∧ request.status ≠ statusDone) ∨
      request.requestSeq ≠ request.previousSeq then -eProto
  else if request.bankReady ≠ 0 then -eProto
  else if request.status = statusReady then
    if request.requestSeq ≠ 0 ∨ request.acceptedSeq ≠ 0 ∨ request.bankGrant ≠ 0 ∨
        request.bankDone ≠ 0 then -eProto
    else 0
  else if request.acceptedSeq ≠ request.requestSeq ∨ request.bankGrant ≠ lastBank request ∨
      request.bankDone ≠ lastBank request then -eProto
  else 0

def validate (request : DldQuietSend) : KProg (DldQuietSend × Int) := do
  if request.apiVersion ≠ quietApiVersion ∨ request.rgb > 0xffffff ∨
      request.reserved 0 ≠ 0 ∨ request.reserved 1 ≠ 0 ∨
      request.profileId < profileWs2812b ∨ request.profileId > profileWs2811HsBgr then
    pure (request, -eInval)
  else if ∃ i, request.stringLengths i > maxLength then pure (request, -eInval) else do
  let magic ← readl (.mailbox .magic)
  if magic ≠ commandMagic then pure (request, -eProto) else do
  let abi ← readl (.mailbox .abiVersion)
  if abi ≠ abiVersion then pure (request, -eProto) else do
  let profile ← readl (.mailbox .profileId)
  if profile ≠ request.profileId then pure (request, -eProto) else do
  let same ← lengthsMatch request (List.finRange 6)
  if same = false then pure (request, -eProto) else do
  let request ← snapshot request
  pure (request, validateSnapshot request)

/-- `policy` says whether the pointer is not NULL. -/
def fixedCpu (policy : Bool) : KProg Bool := do
  let online : Word ← kop .numOnlineCpus
  if online ≠ 1 then pure false else do
  let cpu0 : Bool ← kop .cpuOnline
  if cpu0 = false then pure false else do
  if policy = false then pure false else do
  let min : Word ← kop .policyMin
  if min ≠ requiredCpuKhz then pure false else do
  let max : Word ← kop .policyMax
  if max ≠ requiredCpuKhz then pure false else do
  let cur : Word ← kop .policyCur
  pure (decide (cur = requiredCpuKhz))

/-! ### Other DMA engines -/

/-- One observation of an engine: `none` if it is idle, otherwise the status
that blocks.  A disabled engine's status register is not read. -/
def engineIdle (i : Fin 6) : KProg (Option Word) := do
  let clock ← readl (.clocks (engines i).clockOffset)
  let mode := clock &&& 3
  let idle := (clock >>> 16) &&& 3
  if mode = 0 ∧ idle = 3 ∧ (i < 3 ∨ clock &&& bitAt 18 ≠ 0) then pure none else do
  if mode ≠ 2 ∨ idle ≠ 0 then pure (some clock) else do
  let status ← readl (.engine i (engines i).statusOffset)
  if status &&& (engines i).busyMask ≠ 0 then pure (some status) else pure none

/-- The engines of the list, in order, up to the first that blocks. -/
def enginesIdle : List (Fin 6) → KProg (Option (Fin 6 × Word))
  | [] => pure none
  | i :: rest => do
    let blocked ← engineIdle i
    match blocked with
    | some status => pure (some (i, status))
    | none => enginesIdle rest

/-- Two passes over the six engines. -/
def otherDmaIdle (request : DldQuietSend) : KProg (DldQuietSend × Int) := do
  let blocked ← enginesIdle (List.finRange 6 ++ List.finRange 6)
  match blocked with
  | some (i, status) =>
    pure ({ request with blockedEngine := i.val + 2, blockedStatus := status }, -eAgain)
  | none => pure ({ request with blockedEngine := 0, blockedStatus := 0 }, 0)

/-! ### dld_admission.h -/

abbrev admissionTimeoutNs : Int := 1000000000
abbrev admissionMaxAttempts : Nat := 10000

/-- The loop of `dld_admission_wait`, `attempts` iterations before its cap.
An attempt returns the new context, its result and `granted`. -/
def admissionLoop {Op : Type} {Res : Op → Type} {S : Type} (nowNs : Prog Op Res Int)
    (attempt : S → Prog Op Res (S × Int × Bool)) (pause : Prog Op Res Unit) (idleOnly : Bool)
    (deadline : Int) : Nat → S → Prog Op Res (S × Int)
  | 0, context => pure (context, -eTimedout)
  | attempts + 1, context => do
    let now ← nowNs
    if now ≥ deadline then pure (context, -eTimedout) else do
    let (context, result, granted) ← attempt context
    if result = -eAgain ∧ granted = false then do
      pause
      admissionLoop nowNs attempt pause idleOnly deadline attempts context
    else if result = 0 ∧ idleOnly = true then do
      let now ← nowNs
      if now ≥ deadline then pure (context, -eTimedout) else pure (context, result)
    else pure (context, result)

def dldAdmissionWait {Op : Type} {Res : Op → Type} {S : Type} (nowNs : Prog Op Res Int)
    (attempt : S → Prog Op Res (S × Int × Bool)) (pause : Prog Op Res Unit) (context : S)
    (idleOnly : Bool) : Prog Op Res (S × Int) := do
  let now ← nowNs
  admissionLoop nowNs attempt pause idleOnly (now + admissionTimeoutNs) admissionMaxAttempts context

def otherDmaAttempt (request : DldQuietSend) : KProg (DldQuietSend × Int × Bool) := do
  let flags ← maskCpu
  let (request, error) ← otherDmaIdle request
  unmaskCpu flags
  pure (request, error, false)

def waitOtherDma (request : DldQuietSend) : KProg (DldQuietSend × Int) :=
  dldAdmissionWait ktimeGet otherDmaAttempt usleepRange request true

/-! ### wait_gate -/

/-- The reads of one poll: `(status, error, match)`. -/
def gateBatch (request : DldQuietSend) (ordinal : Word) (final : Bool) :
    KProg (Word × Word × Bool) := do
  let status ← readl (.mailbox .status)
  let error ← readl (.mailbox .errorDetail)
  let accepted ← readl (.mailbox .acceptedSeq)
  if final then do
    let completed ← readl (.mailbox .completionSeq)
    pure (status, error, decide (status = statusDone ∧ completed = request.requestSeq ∧
      accepted = request.requestSeq))
  else do
    let ready ← readl (.mailbox .bankReady)
    pure (status, error, decide (status = statusWaitBank ∧ ready = ordinal ∧
      accepted = request.requestSeq))

def waitGateLoop (request : DldQuietSend) (ordinal : Word) (final : Bool) (deadline : Int) :
    Nat → KProg Int
  | 0 => pure (-eTimedout)
  | attempts + 1 => do
    let now ← ktimeGet
    if now ≥ deadline then pure (-eTimedout) else do
    let flags ← maskCpu
    let functional ← mailboxFunctional
    if functional = false then do
      unmaskCpu flags
      pure (-eNodev)
    else do
    let (status, error, isMatch) ← gateBatch request ordinal final
    unmaskCpu flags
    if error ≠ 0 ∨ status = statusError then pure (-eIo) else do
    if isMatch then do
      let now ← ktimeGet
      pure (if now < deadline then 0 else -eTimedout)
    else do
    usleepRange
    waitGateLoop request ordinal final deadline attempts

def waitGate (request : DldQuietSend) (ordinal : Word) (final : Bool) : KProg Int :=
  traced .waitGate id do
    let now ← ktimeGet
    let deadline := now + (if final then finalTimeoutNs else gateTimeoutNs)
    waitGateLoop request ordinal final deadline 200

/-! ### dld_quiet_spin.S -/

/-- `.Lloop_begin` with `n + 1` iterations left before `r3` reaches zero;
the result is `r5`. -/
def timerLoop (r2 r4 : Word) : Nat → KProg Word
  | 0 => do
    let now ← ccnt
    let r5 := now - r4
    if r5 ≥ r2 then pure r5 else pure (r5 ||| 0x80000000)
  | n + 1 => do
    let now ← ccnt
    let r5 := now - r4
    if r5 ≥ r2 then pure r5 else timerLoop r2 r4 n

/-- `.Ltimer_start` with the guard `r3`: `subs`/`bne` decrements before it
tests, so a zero guard counts 2^32 iterations. -/
def timerStart (r2 r3 : Word) : KProg Word := do
  let r4 ← ccnt
  timerLoop r2 r4 (r3 - 1).toNat

/-- The returned `u64`: the single observed `bank_done` and the elapsed
cycles with their flags. -/
def dldQuietBankEntry (ordinal cycles iterationCap : Word) : KProg (Word × Word) := do
  let warm ← timerStart 16 64
  if warm &&& 0x80000000 ≠ 0 then pure (0, warm ||| 0x40000000) else do
  kop .barrier
  writel ordinal (.mailbox .bankGrant)
  kop .barrier
  let elapsed ← timerStart cycles iterationCap
  kop .barrier
  let observed ← readl (.mailbox .bankDone)
  pure (observed, elapsed)

/-! ### try_bank -/

/-- `1U << index` -/
def Bank.bit (b : Bank) : Word := bitAt b.index.val

/-- The drain loop with `n` iterations before its cap, `status` being the
last status read: the final status, `error`, and whether the cap was
reached. -/
def drainLoop (drainStart : Word) : Nat → Word → KProg (Word × Int × Bool)
  | 0, status => pure (status, 0, true)
  | n + 1, _ => do
    let status ← readl (.cpsw cpswDmaStatus)
    if status &&& cpswErrorMask ≠ 0 then pure (status, -eIo, false) else do
    if status &&& cpswIdle ≠ 0 then pure (status, 0, false) else do
    let now ← ccnt
    if now - drainStart ≥ dmaDrainCyclesLimit then pure (status, -eTimedout, false)
    else drainLoop drainStart n status

/-- What `try_bank` carries to its label `restore`. -/
structure Attempt where
  request : DldQuietSend
  /-- the saved control word, once CMD_IDLE has been written -/
  changedDma : Option Word
  error : Int

/-- The drain of CPSW, from the write of CMD_IDLE on. -/
def drainDma (request : DldQuietSend) (bank : Bank) (savedControl : Word) : KProg Attempt := do
  writel (savedControl ||| cpswCommandIdle) (.cpsw cpswDmaControl)
  drainWrites
  let control ← readl (.cpsw cpswDmaControl)
  if control ≠ savedControl ||| cpswCommandIdle then pure ⟨request, some savedControl, -eIo⟩ else do
  let drainStart ← ccnt
  let (status, error, capped) ← drainLoop drainStart 100000 0
  let now ← ccnt
  let request := { request with
    dmaStatus := Function.update request.dmaStatus bank.index status
    dmaDrainCycles := Function.update request.dmaDrainCycles bank.index (now - drainStart) }
  let error := if capped then -eTimedout else error
  if error ≠ 0 ∨ status &&& cpswIdle = 0 then
    pure ⟨{ request with blockedEngine := 1, blockedStatus := status }, some savedControl,
      if error = 0 then -eTimedout else error⟩
  else pure ⟨request, some savedControl, 0⟩

/-- Everything before the grant routine. -/
def admitBank (request : DldQuietSend) (policy : Bool) (bank : Bank) : KProg Attempt := do
  let fixed ← fixedCpu policy
  if fixed = false then pure ⟨{ request with stage := stageCpu }, none, -eRange⟩ else do
  let ready ← pmuReady
  if ready = false then pure ⟨{ request with stage := stagePmu }, none, -eNodev⟩ else do
  let functional ← mailboxFunctional
  if functional = false then pure ⟨request, none, -eNodev⟩ else do
  let (request, error) ← otherDmaIdle request
  if error ≠ 0 then pure ⟨request, none, error⟩ else do
  let status ← readl (.clocks cpswClock)
  if ¬ Functional status then
    pure ⟨{ request with blockedEngine := 1, blockedStatus := status }, none, -eAgain⟩
  else do
  let savedControl ← readl (.cpsw cpswDmaControl)
  if savedControl &&& cpswCommandIdle ≠ 0 then
    pure ⟨{ request with blockedEngine := 1, blockedStatus := savedControl }, none, -eBusy⟩
  else do
  let attempt ← drainDma request bank savedControl
  if attempt.error ≠ 0 then pure attempt else do
  let (request, error) ← otherDmaIdle attempt.request
  pure ⟨request, attempt.changedDma, error⟩

/-- The grant and the decoding of its result. -/
def grantBank (request : DldQuietSend) (bank : Bank) : KProg (DldQuietSend × Int) := do
  let request := { request with stage := stageBank }
  let (observed, elapsed) ←
    dldQuietBankEntry bank.ordinal (request.budgetCycles bank.index) timerIterationCap
  let request := { request with
    elapsedCycles := Function.update request.elapsedCycles bank.index
      (elapsed &&& ~~~(timerFault ||| grantWithheld))
    grantedMask :=
      if elapsed &&& grantWithheld = 0 then request.grantedMask ||| bank.bit
      else request.grantedMask
    bankDone := observed }
  if elapsed &&& timerFault ≠ 0 then
    pure ({ request with timerFaultMask := request.timerFaultMask ||| bank.bit }, -eTime)
  else if observed ≠ bank.ordinal then pure (request, -eTimedout)
  else pure ({ request with completedMask := request.completedMask ||| bank.bit }, 0)

/-- The withdrawal of a granted bank that failed. -/
def withdrawBank (request : DldQuietSend) (bank : Bank) (error : Int) : KProg Unit := do
  if error ≠ 0 ∧ request.grantedMask &&& bank.bit ≠ 0 then do
    let functional ← mailboxFunctional
    if functional then do
      writel 1 (.pruControl 0)
      writel 0 (.mailbox .magic)
      drainWrites
    else pure ()
  else pure ()

/-- The restoration of the CPSW control word. -/
def restoreDma (request : DldQuietSend) (bank : Bank) (changedDma : Option Word) (error : Int) :
    KProg (DldQuietSend × Int) := do
  match changedDma with
  | none => pure (request, error)
  | some savedControl => do
    writel savedControl (.cpsw cpswDmaControl)
    drainWrites
    let control ← readl (.cpsw cpswDmaControl)
    drainWrites
    if control ≠ savedControl then
      pure ({ request with
        dmaRestoreFailedMask := request.dmaRestoreFailedMask ||| bank.bit }, -eIo)
    else pure (request, error)

/-- The label `restore` and the return. -/
def finishBank (request : DldQuietSend) (bank : Bank) (changedDma : Option Word)
    (flags start : Word) (error : Int) : KProg (DldQuietSend × Int) := do
  withdrawBank request bank error
  let (request, error) ← restoreDma request bank changedDma error
  let now ← ccnt
  let request := { request with
    irqOffCycles := Function.update request.irqOffCycles bank.index (now - start) }
  unmaskCpu flags
  pure (request, error)

def tryBank (request : DldQuietSend) (policy : Bool) (bank : Bank) :
    KProg (DldQuietSend × Int) :=
  traced .tryBank Prod.snd do
    let request := { request with stage := stageDma }
    let flags ← maskCpu
    let start ← ccnt
    let attempt ← admitBank request policy bank
    if attempt.error ≠ 0 then
      finishBank attempt.request bank attempt.changedDma flags start attempt.error
    else do
    let (request, error) ← grantBank attempt.request bank
    finishBank request bank attempt.changedDma flags start error

def bankAdmissionAttempt (policy : Bool) (bank : Bank) (request : DldQuietSend) :
    KProg (DldQuietSend × Int × Bool) := do
  let (request, error) ← tryBank request policy bank
  pure (request, error, decide (request.grantedMask &&& bank.bit ≠ 0))

def runBank (request : DldQuietSend) (policy : Bool) (bank : Bank) :
    KProg (DldQuietSend × Int) :=
  traced .runBank Prod.snd
    (dldAdmissionWait ktimeGet (bankAdmissionAttempt policy bank) usleepRange request false)

end Dld
