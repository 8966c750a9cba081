/-
DldDriver/Kernel/Ops.lean

The request structure of the quiet ioctl (`include/dld_quiet.h`) and the
operations the kernel helper performs on its surroundings: device
registers, the PMU, the clock, CPU exclusion and the kernel services whose
results it depends on.

Function entry and return are operations too.  They have no effect; they
put the call structure into the trace, so that a statement may speak of
"the return value of an earlier wait".
-/
import DldDriver.Abi
import DldDriver.Interaction.Machine

namespace Dld

open Interaction

/-! ### dld_quiet.h -/

abbrev quietApiVersion : Word := 1

abbrev stageValidate : Word := 1
abbrev stagePublish : Word := 2
abbrev stageGate : Word := 3
abbrev stageDma : Word := 4
abbrev stageBank : Word := 5
abbrev stageFinal : Word := 6
abbrev stageComplete : Word := 7
abbrev stageCpu : Word := 8
abbrev stagePmu : Word := 9

/-- `struct dld_quiet_send`.  The input fields end at `reserved`. -/
structure DldQuietSend where
  apiVersion : Word
  rgb : Word
  profileId : Word
  stringLengths : Fin 6 → Word
  previousSeq : Word
  reserved : Fin 2 → Word
  result : Int
  submitted : Word
  requestSeq : Word
  completionSeq : Word
  status : Word
  errorDetail : Word
  acceptedSeq : Word
  bankReady : Word
  bankGrant : Word
  bankDone : Word
  stage : Word
  grantedMask : Word
  completedMask : Word
  cpuKhz : Word
  budgetCycles : Fin 3 → Word
  elapsedCycles : Fin 3 → Word
  irqOffCycles : Fin 3 → Word
  dmaDrainCycles : Fin 3 → Word
  dmaStatus : Fin 3 → Word
  timerFaultMask : Word
  blockedEngine : Word
  blockedStatus : Word
  cleanupFailedMask : Word
  cleanupStoppedMask : Word
  cleanupLowMask : Word
  dmaRestoreFailedMask : Word

instance : Inhabited DldQuietSend :=
  ⟨⟨0, 0, 0, 0, 0, 0, 0, 0, 0, 0, 0, 0, 0, 0, 0, 0, 0, 0, 0, 0, 0, 0, 0, 0, 0, 0, 0, 0, 0, 0, 0, 0⟩⟩

/-- The `memset` of everything from `result` on. -/
def DldQuietSend.clearOutputs (r : DldQuietSend) : DldQuietSend :=
  { (default : DldQuietSend) with
    apiVersion := r.apiVersion
    rgb := r.rgb
    profileId := r.profileId
    stringLengths := r.stringLengths
    previousSeq := r.previousSeq
    reserved := r.reserved }

/-! ### Error numbers -/

abbrev ePerm : Int := 1
abbrev eIntr : Int := 4
abbrev eIo : Int := 5
abbrev eAgain : Int := 11
abbrev eFault : Int := 14
abbrev eBusy : Int := 16
abbrev eNodev : Int := 19
abbrev eInval : Int := 22
abbrev eNotty : Int := 25
abbrev eRange : Int := 34
abbrev eTime : Int := 62
abbrev eProto : Int := 71
abbrev eTimedout : Int := 110

/-! ### Device registers -/

abbrev cpswClock : Nat := 0x014
abbrev prussClock : Nat := 0x0e8
abbrev cpswDmaControl : Nat := 0x820
abbrev cpswDmaStatus : Nat := 0x824

/-- A device register: its block and its byte offset in the block. -/
inductive Reg
  /-- `mailbox + DLD_OFF_…` -/
  | mailbox (off : Off)
  | cpsw (offset : Nat)
  | clocks (offset : Nat)
  | pruControl (offset : Nat)
  /-- `gpio[bank] + offset`, `bank` counting GPIO0, GPIO1, GPIO2. -/
  | gpio (bank : Fin 3) (offset : Nat)
  /-- `engines[i].base + offset` -/
  | engine (i : Fin 6) (offset : Nat)
  deriving DecidableEq

/-- The functions whose entry and return are traced. -/
inductive KFn
  | waitGate
  | tryBank
  | runBank
  | failedFrameCleanup
  deriving DecidableEq

/-- What the kernel helper asks of its surroundings. -/
inductive KOp
  | readl (r : Reg)
  | writel (v : Word) (r : Reg)
  /-- `dsb`, `dmb` or `wmb` -/
  | barrier
  /-- PMCCNTR, PMCR and PMCNTENSET -/
  | ccnt
  | pmcr
  | pmcntenset
  /-- `cycle_event` is set; its `state` and `hw.idx` -/
  | cycleEvent
  | cycleEventState
  | cycleEventIdx
  | ktimeGet
  | usleepRange
  | condResched
  | preemptDisable
  | preemptEnable
  | localIrqSave
  | localFiqDisable
  | localIrqRestore (flags : Word)
  | mutexTrylock
  | mutexUnlock
  | getOnlineCpus
  | putOnlineCpus
  | numOnlineCpus
  | cpuOnline
  /-- `cpufreq_cpu_get(0)` is not NULL; the fields of the policy -/
  | cpufreqCpuGet
  | policyMin
  | policyMax
  | policyCur
  | cpufreqCpuPut
  | rtnlTrylock
  | rtnlUnlock
  /-- `dev_get_by_name(&init_net, "eth0")` is not NULL; what is asked of it -/
  | devGetByName
  | netifRunning
  | devParent
  | driverIsCpsw
  | devPut
  | pmRuntimeGetSync
  | pmRuntimePut
  | signalPending
  | prErrRatelimited
  | capable
  | copyFromUser
  | copyToUser (r : DldQuietSend)
  | enter (f : KFn)
  | leave (f : KFn) (result : Int)

/-- The response to each operation. -/
@[reducible] def KOp.Res : KOp → Type
  | .readl _ | .ccnt | .pmcr | .pmcntenset | .localIrqSave => Word
  | .policyMin | .policyMax | .policyCur | .numOnlineCpus => Word
  | .cycleEvent | .mutexTrylock | .cpuOnline | .cpufreqCpuGet | .rtnlTrylock => Bool
  | .devGetByName | .netifRunning | .devParent | .driverIsCpsw => Bool
  | .signalPending | .capable | .copyToUser _ => Bool
  | .cycleEventState | .cycleEventIdx | .ktimeGet | .pmRuntimeGetSync => Int
  | .copyFromUser => Option DldQuietSend
  | _ => Unit

instance : ∀ o : KOp, Inhabited o.Res := fun o => by
  cases o <;> exact ⟨default⟩

/-- The surroundings in which the mailbox holds `m` and nothing changes. -/
def holding (m : DldCommand) (o : KOp) : o.Res :=
  match o with
  | .readl (.mailbox off) => m off
  | _ => default

/-- A cooperative board: every clock on, every engine idle, a counter that
advances with every operation, and a firmware that answers at once. -/
structure Board where
  mailbox : DldCommand
  user : Option DldQuietSend := none
  cpswControl : Word := 0
  time : Nat := 0

/-- The mailbox of a session that has just been started. -/
def startedMailbox (profile : Word) (lengths : Fin 6 → Word) : DldCommand
  | .magic => commandMagic
  | .abiVersion => abiVersion
  | .profileId => profile
  | .lengths i => lengths i
  | .status => statusReady
  | _ => 0

/-- The mailbox once the firmware has moved on to the first non-empty bank
above `ordinal`, or to the end of the frame. -/
def moveOn (m : DldCommand) (ordinal : Word) : DldCommand :=
  match Bank.pass.find? fun b => ordinal < b.ordinal ∧ maxOfBank (fun i => m (.lengths i)) b ≠ 0 with
  | some b => Function.update (Function.update m .status statusWaitBank) .bankReady b.ordinal
  | none =>
    Function.update (Function.update (Function.update m .status statusDone) .bankReady 0)
      .completionSeq (m .requestSeq)

/-- The mailbox after a store of the kernel and the firmware's reaction. -/
def reactTo (m : DldCommand) (off : Off) (v : Word) : DldCommand :=
  let m := Function.update m off v
  match off with
  | .requestSeq => moveOn (Function.update m .acceptedSeq v) 0
  | .bankGrant => if v = 0 then m else moveOn (Function.update m .bankDone v) v
  | _ => m

/-- The board's answer to an operation. -/
def Board.answer (b : Board) (o : KOp) : o.Res × Board :=
  let b := { b with time := b.time + 1 }
  match o with
  | .readl (.mailbox off) => (b.mailbox off, b)
  | .readl (.cpsw offset) => (if offset = cpswDmaControl then b.cpswControl else 0x80000000, b)
  | .readl (.clocks _) => (2, b)
  | .writel v (.mailbox off) => ((), { b with mailbox := reactTo b.mailbox off v })
  | .writel v (.cpsw _) => ((), { b with cpswControl := v })
  | .ccnt => (BitVec.ofNat 32 (b.time * 0x200000), b)
  | .pmcr | .numOnlineCpus => ((1 : Word), b)
  | .pmcntenset => (bitAt 31, b)
  | .policyMin | .policyMax | .policyCur => ((1000000 : Word), b)
  | .cycleEventState => ((1 : Int), b)
  | .cycleEvent | .mutexTrylock | .cpuOnline | .cpufreqCpuGet | .rtnlTrylock => (true, b)
  | .devGetByName | .netifRunning | .devParent | .driverIsCpsw | .capable | .copyToUser _ => (true, b)
  | .copyFromUser => (b.user, b)
  | _ => (default, b)

/-- A request for five pixels on the string of GPIO0. -/
def oneBankRequest : DldQuietSend :=
  { (default : DldQuietSend) with
    apiVersion := quietApiVersion
    rgb := 0x102030
    profileId := profileWs2812b
    stringLengths := fun i => if i = 3 then 5 else 0 }

/-- A cooperative board in the session of `oneBankRequest`. -/
def oneBankBoard : Board where
  mailbox := startedMailbox profileWs2812b oneBankRequest.stringLengths
  user := some oneBankRequest

/-- Programs of the kernel helper. -/
abbrev KProg := Prog KOp KOp.Res

/-- Events of the kernel helper. -/
abbrev KEvent := Event KOp KOp.Res

/-- The splits of a list at an element that passes a test. -/
theorem exists_split {t : List KEvent} {p : KEvent → Bool} (h : t.any p = true) :
    ∃ pre e post, t = pre ++ e :: post ∧ p e = true := by
  obtain ⟨e, he, hp⟩ := List.any_eq_true.mp h
  obtain ⟨pre, post, rfl⟩ := List.append_of_mem he
  exact ⟨pre, e, post, rfl, hp⟩

/-- A store to `bank_grant` that passes a test. -/
def storesGrant (keep : Word → Bool) : KEvent → Bool
  | ⟨.writel v (.mailbox .bankGrant), _⟩ => keep v
  | _ => false

theorem exists_of_storesGrant {keep : Word → Bool} {e : KEvent} (h : storesGrant keep e = true) :
    ∃ v, e = ⟨.writel v (.mailbox .bankGrant), ()⟩ ∧ keep v = true := by
  unfold storesGrant at h
  split at h
  · exact ⟨_, rfl, h⟩
  · cases h

/-- A read of the mailbox. -/
def readsMailbox : KEvent → Bool
  | ⟨.readl (.mailbox _), _⟩ => true
  | _ => false

theorem exists_of_readsMailbox {e : KEvent} (h : readsMailbox e = true) :
    ∃ off v, e = ⟨.readl (.mailbox off), v⟩ := by
  unfold readsMailbox at h
  split at h
  · exact ⟨_, _, rfl⟩
  · cases h

/-- Perform one kernel operation. -/
def kop (o : KOp) : KProg o.Res := Prog.op o

def readl (r : Reg) : KProg Word := kop (.readl r)

def writel (v : Word) (r : Reg) : KProg Unit := kop (.writel v r)

def drainWrites : KProg Unit := kop .barrier

def ccnt : KProg Word := kop .ccnt

/-- `ktime_to_ns(ktime_get())` -/
def ktimeGet : KProg Int := kop .ktimeGet

def usleepRange : KProg Unit := kop .usleepRange

/-- Record the entry to and the return from a function. -/
def traced {α : Type} (f : KFn) (result : α → Int) (p : KProg α) : KProg α := do
  kop (.enter f)
  let a ← p
  kop (.leave f (result a))
  pure a

end Dld
