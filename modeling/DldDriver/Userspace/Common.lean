/-
DldDriver/Userspace/Common.lean

The protocol part of `src/dld_common.c`: profiles, bank geometry, the
readiness check of the mailbox and the test of a completion.

A C function with an error buffer takes the buffer's content and capacity
and returns the new content beside its result.  `*config` is treated the
same way, so that a statement can say when it is written.
-/
import DldDriver.Abi

namespace Dld

/-! ### dld_common.h -/

/-- `enum dld_exit_code` -/
inductive DldExitCode
  | ok
  | badArgument
  | prerequisite
  | initFailure
  | critical
  | busy
  | notInitialized
  deriving DecidableEq

/-- The values of the enumeration. -/
def DldExitCode.value : DldExitCode → Nat
  | .ok => 0
  | .badArgument => 2
  | .prerequisite => 3
  | .initFailure => 4
  | .critical => 5
  | .busy => 6
  | .notInitialized => 7

/-- `struct dld_config` -/
structure DldConfig where
  profileId : Word
  stringLengths : Fin 6 → Word
  deriving Inhabited

/-- `struct dld_completion` -/
structure DldCompletion where
  status : Word
  completionSeq : Word
  errorDetail : Word

/-- `fail(error, cap, text)`: the buffer after `vsnprintf`. -/
def fail (error : String) (cap : Nat) (text : String) : String :=
  if cap ≠ 0 then String.ofList (text.toList.take (cap - 1)) else error

/-! ### Profiles and banks -/

def dldProfileName (profileId : Word) : Option String :=
  if profileId = profileWs2812b then some "ws2812b"
  else if profileId = profileWs2811Hs then some "ws2811-hs"
  else if profileId = profileWs2812bBgr then some "ws2812b-bgr"
  else if profileId = profileWs2811HsBgr then some "ws2811-hs-bgr"
  else none

/-- The userspace conversion of a colour to wire order. -/
def dldWireColor (profileId rgb : Word) : Word :=
  let rgb := rgb &&& 0xffffff
  if profileId = profileWs2812b then
    ((rgb &&& 0xff00) <<< 8) ||| ((rgb &&& 0xff0000) >>> 8) ||| (rgb &&& 0xff)
  else if profileId = profileWs2812bBgr ∨ profileId = profileWs2811HsBgr then
    ((rgb &&& 0xff) <<< 16) ||| (rgb &&& 0xff00) ||| ((rgb >>> 16) &&& 0xff)
  else rgb

/-- The masks and the lengths of the three banks. -/
def dldBankInfo (config : DldConfig) : (Fin 3 → Word) × (Fin 3 → Word) :=
  let l := config.stringLengths
  (![(if l 0 ≠ 0 then bitAt 3 else 0) ||| (if l 1 ≠ 0 then bitAt 4 else 0) |||
        (if l 5 ≠ 0 then bitAt 1 else 0),
      (if l 2 ≠ 0 then bitAt 12 else 0) ||| (if l 4 ≠ 0 then bitAt 14 else 0),
      if l 3 ≠ 0 then bitAt 26 else 0],
    ![maximum (maximum (l 0) (l 1)) (l 5), maximum (l 2) (l 4), l 3])

def dldGroupCount (config : DldConfig) : Nat :=
  let masks := (dldBankInfo config).1
  (if masks 0 ≠ 0 then 1 else 0) + (if masks 1 ≠ 0 then 1 else 0) + if masks 2 ≠ 0 then 1 else 0

/-! ### The mailbox -/

/-- The loop `for (i = 0; i < 3; ++i) if (lengths[i]) last = i + 1;` over
the lengths of `dld_bank_info`. -/
def lastOfBankInfo (config : DldConfig) : Word :=
  (List.finRange 3).foldl
    (fun last i => if (dldBankInfo config).2 i ≠ 0 then BitVec.ofNat 32 (i.val + 1) else last) 0

/-- The local `checked` of `dld_check_mailbox`, completely filled in. -/
def configOf (snapshot : DldCommand) : DldConfig where
  profileId := snapshot .profileId
  stringLengths i := snapshot (.lengths i)

/-- The result, `*config` and the error buffer. -/
def dldCheckMailbox (snapshot : DldCommand) (config : DldConfig) (error : String) (cap : Nat) :
    DldExitCode × DldConfig × String :=
  let invalid := (DldExitCode.notInitialized, config, fail error cap
    "initialized command block is missing, incompatible or invalid; run dld-init CONFIG_FILE")
  if snapshot .magic ≠ commandMagic ∨ snapshot .abiVersion ≠ abiVersion ∨
      dldProfileName (snapshot .profileId) = none then invalid
  else if ∃ i, snapshot (.lengths i) > maxLength then invalid
  else if snapshot .errorDetail ≠ 0 ∨ snapshot .status = statusError then invalid
  else if snapshot .status ≠ statusReady ∧ snapshot .status ≠ statusDone ∧
      snapshot .status ≠ statusRunning ∧ snapshot .status ≠ statusWaitBank then invalid
  else if snapshot .status = statusRunning ∨ snapshot .status = statusWaitBank ∨
      snapshot .requestSeq ≠ snapshot .completionSeq then
    (.busy, config, fail error cap
      "driver is busy: an outstanding request is not ready for another send")
  else if snapshot .bankReady ≠ 0 ∨ snapshot .bankGrant > Bank.gpio0.ordinal ∨
      snapshot .bankDone > Bank.gpio0.ordinal ∨
      snapshot .acceptedSeq ≠ snapshot .completionSeq then invalid
  else if snapshot .status = statusReady then
    if snapshot .requestSeq ≠ 0 ∨ snapshot .bankDone ≠ 0 ∨ snapshot .bankGrant ≠ 0 then invalid
    else (.ok, configOf snapshot, error)
  else if snapshot .bankDone ≠ lastOfBankInfo (configOf snapshot) ∨
      snapshot .bankGrant ≠ lastOfBankInfo (configOf snapshot) then invalid
  else (.ok, configOf snapshot, error)

def dldCompletionMatches (completion : DldCompletion) (requestSeq : Word) : Bool :=
  decide (completion.status = statusDone ∧ completion.errorDetail = 0 ∧
    completion.completionSeq = requestSeq)

end Dld
