/-
DldDriver/Firmware/Protocol.lean

The firmware as the outside sees it: an automaton over its events.

A phase says which accesses may come next.  Register instructions are free
everywhere except in a stream, where every cycle is prescribed, and in the
settle wait, where they are counted.  Banks without a string do not occur:
`enter bs` is the way to the gate of the first bank of `bs`, and with
`bs = []` to the settle wait.

The state also records the last value stored in every mailbox word, so that
what the host can read is a function of it.
-/
import DldDriver.Firmware.Stream

namespace Dld

open Interaction

namespace Pru

/-- The banks that have a string, in pass order. -/
def nonEmpty (l : Fin 6 → Word) : List Bank := Bank.pass.filter fun b => maxOfBank l b ≠ 0

/-- `Tsettle` for the longest string of all, in cycles. -/
def settleCycles (l : Fin 6 → Word) : Nat :=
  let longest := max (max (maxOfBank l .gpio2).toNat (maxOfBank l .gpio1).toNat)
    (maxOfBank l .gpio0).toNat
  resetCycles + settleMarginCycles + (longest - 1) * propagationCycles

inductive Phase
  /-- `START` before its stores to the mailbox -/
  | boot
  /-- the publication of READY, with the stores left to do -/
  | publish (left : List (Off × Word))
  /-- `REQUEST_LOOP` -/
  | poll
  /-- a new sequence has been read, `bank_grant` not yet -/
  | latch
  | clearReady
  | clearDone
  | accept
  | readColour
  | start
  | enter (banks : List Bank)
  /-- WAIT_BANK is stored, `bank_ready` not yet -/
  | offer (b : Bank) (banks : List Bank)
  /-- `GATE_WAIT` -/
  | gate (b : Bank) (banks : List Bank)
  /-- the grant has been read; `bank_ready`, then `status` to be stored -/
  | release (b : Bank) (banks : List Bank)
  | rerun (b : Bank) (banks : List Bank)
  | stream (b : Bank) (banks : List Bank) (left : List PruEvent)
  /-- `DRAIN_BANK` after `n` CLEARs -/
  | drain (b : Bank) (banks : List Bank) (n : Nat)
  /-- `WAIT_SETTLE` after `n` instructions -/
  | settle (n : Nat)
  | clearError
  | finish
  | fatal (cause : Word)
  | fatalStatus
  /-- ERROR is stored, `HALT` is next -/
  | halting
  | halted

/-- Phase, accepted sequence, colour, and the last value stored in each
word of the mailbox. -/
structure FState where
  phase : Phase
  seq : Word
  colour : Word
  out : DldCommand

namespace FState

/-- The state after a store to the mailbox. -/
def stored (s : FState) (off : Off) (value : Word) (phase : Phase) : FState :=
  { s with phase := phase, out := Function.update s.out off value }

def goto (s : FState) (phase : Phase) : FState := { s with phase := phase }

end FState

/-- The stores that publish READY. -/
def readyStores : List (Off × Word) :=
  [(.errorDetail, errorNone), (.completionSeq, 0), (.bankReady, 0), (.bankDone, 0),
    (.acceptedSeq, 0), (.status, statusReady)]

/-- Register instructions are free in every phase but these. -/
def Phase.free : Phase → Bool
  | .stream .. | .settle _ | .halting | .halted => false
  | _ => true

/-- The phase with `left` still to be executed: the drain comes after the
last instruction. -/
def streaming (b : Bank) (bs : List Bank) (left : List PruEvent) : Phase :=
  if left = [] then .drain b bs 0 else .stream b bs left

variable (tm : Timing) (l : Fin 6 → Word)

/-- A register instruction. -/
def stepAlu (s : FState) : Option FState :=
  match s.phase with
  | .settle n => some (s.goto (.settle (n + 1)))
  | p => if p.free then some s else none

/-- The start of a delay loop outside a stream. -/
def stepDelay (s : FState) : Option FState :=
  match s.phase with
  | .boot => some s
  | .enter [] => some (s.goto (.settle 1))
  | _ => none

/-- A read of a mailbox word. -/
def stepLoad (s : FState) (off : Off) (value : Word) : Option FState :=
  match s.phase, off with
  | .poll, .requestSeq =>
    if value = s.seq then some s else some { s with phase := .latch, seq := value }
  | .latch, .bankGrant =>
    if value = 0 then some (s.goto .clearReady) else some (s.goto (.fatal errorGate))
  | .readColour, .wireColor =>
    if value >>> 24 = 0 then some { s with phase := .start, colour := value }
    else some (s.goto (.fatal errorInternal))
  | .gate b bs, .bankGrant =>
    if value = b.ordinal then some (s.goto (.release b bs))
    else if value < b.ordinal then some s
    else some (s.goto (.fatal errorGate))
  | .boot, .magic | .boot, .abiVersion | .boot, .profileId | .boot, .lengths _ => some s
  | .enter _, .lengths _ => some s
  | _, _ => none

/-- `s.stored off value phase` if this is the store that is due. -/
def due (s : FState) (off : Off) (value : Word) (off' : Off) (value' : Word) (phase : Phase) :
    Option FState :=
  if off = off' ∧ value = value' then some (s.stored off value phase) else none

/-- A store to a mailbox word. -/
def stepStore (s : FState) (off : Off) (value : Word) : Option FState :=
  match s.phase with
  | .boot =>
    if off ≠ .errorDetail then none
    else if value = errorNone then some (s.stored off value (.publish readyStores.tail))
    else some (s.stored off value .fatalStatus)
  | .publish ((off', value') :: left) =>
    due s off value off' value' (if left = [] then .poll else .publish left)
  | .clearReady => due s off value .bankReady 0 .clearDone
  | .clearDone => due s off value .bankDone 0 .accept
  | .accept => due s off value .acceptedSeq s.seq .readColour
  | .start => due s off value .status statusRunning (.enter (nonEmpty l))
  | .enter (b :: bs) => due s off value .status statusWaitBank (.offer b bs)
  | .offer b bs => due s off value .bankReady b.ordinal (.gate b bs)
  | .release b bs => due s off value .bankReady 0 (.rerun b bs)
  | .rerun b bs =>
    due s off value .status statusRunning (streaming b bs (aluEv :: bankStream tm b l s.colour))
  | .drain b bs n =>
    if off = .errorDetail then
      if n = drainAttempts then due s off value .errorDetail errorBankClear .fatalStatus else none
    else if n = 0 then none
    else due s off value .bankDone b.ordinal (.enter bs)
  | .settle n =>
    if settleCycles l ≤ n then due s off value .completionSeq s.seq .clearError else none
  | .clearError => due s off value .errorDetail errorNone .finish
  | .finish => due s off value .status statusDone .poll
  | .fatal cause => due s off value .errorDetail cause .fatalStatus
  | .fatalStatus => due s off value .status statusError .halting
  | _ => none

/-- A store outside the mailbox and outside a stream: the CLEARs of
`DRAIN_BANK`, and `CTBIR0` during `START`. -/
def stepSbbo (s : FState) (address value : Word) : Option FState :=
  match s.phase with
  | .boot =>
    if (address = 0x00022020 ∧ value = 0) ∨
        ∃ b ∈ Bank.pass, address = clearAddress b ∧ value = bankMask b then some s
    else none
  | .drain b bs n =>
    if address = clearAddress b ∧ value = bankMask b ∧ n < drainAttempts then
      some (s.goto (.drain b bs (n + 1)))
    else none
  | _ => none

/-- An event outside a stream. -/
def stepUntimed (s : FState) : PruEvent → Option FState
  | ⟨.alu, _⟩ => stepAlu s
  | ⟨.loadDelay _, _⟩ => stepDelay s
  | ⟨.lbco off, value⟩ => stepLoad s off value
  | ⟨.sbco off value, _⟩ => stepStore tm l s off value
  | ⟨.sbbo address value, _⟩ => stepSbbo s address value
  | ⟨.lbbo _, _⟩ =>
    match s.phase with
    | .boot | .drain .. => some s
    | _ => none
  | ⟨.lbcoCfg, _⟩ | ⟨.sbcoCfg _, _⟩ =>
    match s.phase with
    | .boot => some s
    | _ => none
  | ⟨.halt, _⟩ =>
    match s.phase with
    | .halting => some (s.goto .halted)
    | _ => none

/-- The state after an event, if the event may happen. -/
def fstep (s : FState) (e : PruEvent) : Option FState :=
  match s.phase with
  | .stream b bs (x :: left) =>
    if e = x then some (s.goto (streaming b bs left)) else none
  | _ => stepUntimed tm l s e

/-! ### Inversion -/

/-- What `START` may do besides its stores. -/
inductive BootAccess : PruEvent → Prop
  | delay (count : Word) : BootAccess (delayEv count)
  | magic (v : Word) : BootAccess ⟨.lbco .magic, v⟩
  | abi (v : Word) : BootAccess ⟨.lbco .abiVersion, v⟩
  | profile (v : Word) : BootAccess ⟨.lbco .profileId, v⟩
  | length (i : Fin 6) (v : Word) : BootAccess ⟨.lbco (.lengths i), v⟩
  | cfgLoad (v : Word) : BootAccess ⟨.lbcoCfg, v⟩
  | cfgStore (v : Word) : BootAccess ⟨.sbcoCfg v, ()⟩
  | ctbir : BootAccess (sbboEv 0x00022020 0)
  | clear (b : Bank) : BootAccess (sbboEv (clearAddress b) (bankMask b))
  | gpioLoad (address v : Word) : BootAccess ⟨.lbbo address, v⟩

/-- The transitions of the automaton, one constructor each. -/
inductive FStep : FState → PruEvent → FState → Prop
  | alu {s : FState} (h : s.phase.free = true) : FStep s aluEv s
  | boot {seq colour out e} (h : BootAccess e) :
      FStep ⟨.boot, seq, colour, out⟩ e ⟨.boot, seq, colour, out⟩
  | booted {seq colour out} :
      FStep ⟨.boot, seq, colour, out⟩ ⟨.sbco .errorDetail errorNone, ()⟩
        ⟨.publish readyStores.tail, seq, colour, Function.update out .errorDetail errorNone⟩
  | bootFailed {seq colour out cause} (h : cause ≠ errorNone) :
      FStep ⟨.boot, seq, colour, out⟩ ⟨.sbco .errorDetail cause, ()⟩
        ⟨.fatalStatus, seq, colour, Function.update out .errorDetail cause⟩
  | publish {seq colour out off v left} :
      FStep ⟨.publish ((off, v) :: left), seq, colour, out⟩ ⟨.sbco off v, ()⟩
        ⟨if left = [] then .poll else .publish left, seq, colour, Function.update out off v⟩
  | pollSame {seq colour out} :
      FStep ⟨.poll, seq, colour, out⟩ ⟨.lbco .requestSeq, seq⟩ ⟨.poll, seq, colour, out⟩
  | pollNew {seq colour out} {v : Word} (h : v ≠ seq) :
      FStep ⟨.poll, seq, colour, out⟩ ⟨.lbco .requestSeq, v⟩ ⟨.latch, v, colour, out⟩
  | latch {seq colour out} :
      FStep ⟨.latch, seq, colour, out⟩ ⟨.lbco .bankGrant, (0 : Word)⟩
        ⟨.clearReady, seq, colour, out⟩
  | latchFailed {seq colour out} {v : Word} (h : v ≠ 0) :
      FStep ⟨.latch, seq, colour, out⟩ ⟨.lbco .bankGrant, v⟩ ⟨.fatal errorGate, seq, colour, out⟩
  | clearReady {seq colour out} :
      FStep ⟨.clearReady, seq, colour, out⟩ ⟨.sbco .bankReady 0, ()⟩
        ⟨.clearDone, seq, colour, Function.update out .bankReady 0⟩
  | clearDone {seq colour out} :
      FStep ⟨.clearDone, seq, colour, out⟩ ⟨.sbco .bankDone 0, ()⟩
        ⟨.accept, seq, colour, Function.update out .bankDone 0⟩
  | accept {seq colour out} :
      FStep ⟨.accept, seq, colour, out⟩ ⟨.sbco .acceptedSeq seq, ()⟩
        ⟨.readColour, seq, colour, Function.update out .acceptedSeq seq⟩
  | readColour {seq colour out} {v : Word} (h : v >>> 24 = 0) :
      FStep ⟨.readColour, seq, colour, out⟩ ⟨.lbco .wireColor, v⟩ ⟨.start, seq, v, out⟩
  | colourFailed {seq colour out} {v : Word} (h : v >>> 24 ≠ 0) :
      FStep ⟨.readColour, seq, colour, out⟩ ⟨.lbco .wireColor, v⟩
        ⟨.fatal errorInternal, seq, colour, out⟩
  | start {seq colour out} :
      FStep ⟨.start, seq, colour, out⟩ ⟨.sbco .status statusRunning, ()⟩
        ⟨.enter (nonEmpty l), seq, colour, Function.update out .status statusRunning⟩
  | config {seq colour out bs i} {v : Word} :
      FStep ⟨.enter bs, seq, colour, out⟩ ⟨.lbco (.lengths i), v⟩ ⟨.enter bs, seq, colour, out⟩
  | wait {seq colour out b bs} :
      FStep ⟨.enter (b :: bs), seq, colour, out⟩ ⟨.sbco .status statusWaitBank, ()⟩
        ⟨.offer b bs, seq, colour, Function.update out .status statusWaitBank⟩
  | offer {seq colour out b bs} :
      FStep ⟨.offer b bs, seq, colour, out⟩ ⟨.sbco .bankReady b.ordinal, ()⟩
        ⟨.gate b bs, seq, colour, Function.update out .bankReady b.ordinal⟩
  | gateWait {seq colour out b bs} {v : Word} (h : v < b.ordinal) :
      FStep ⟨.gate b bs, seq, colour, out⟩ ⟨.lbco .bankGrant, v⟩ ⟨.gate b bs, seq, colour, out⟩
  | gate {seq colour out b bs} :
      FStep ⟨.gate b bs, seq, colour, out⟩ ⟨.lbco .bankGrant, b.ordinal⟩
        ⟨.release b bs, seq, colour, out⟩
  | gateFailed {seq colour out b bs} {v : Word} (h : b.ordinal < v) :
      FStep ⟨.gate b bs, seq, colour, out⟩ ⟨.lbco .bankGrant, v⟩
        ⟨.fatal errorGate, seq, colour, out⟩
  | release {seq colour out b bs} :
      FStep ⟨.release b bs, seq, colour, out⟩ ⟨.sbco .bankReady 0, ()⟩
        ⟨.rerun b bs, seq, colour, Function.update out .bankReady 0⟩
  | rerun {seq colour out b bs} :
      FStep ⟨.rerun b bs, seq, colour, out⟩ ⟨.sbco .status statusRunning, ()⟩
        ⟨.stream b bs (aluEv :: bankStream tm b l colour), seq, colour,
          Function.update out .status statusRunning⟩
  | stream {seq colour out b bs e left} :
      FStep ⟨.stream b bs (e :: left), seq, colour, out⟩ e
        ⟨streaming b bs left, seq, colour, out⟩
  | drainClear {seq colour out b bs n} (h : n < drainAttempts) :
      FStep ⟨.drain b bs n, seq, colour, out⟩ (sbboEv (clearAddress b) (bankMask b))
        ⟨.drain b bs (n + 1), seq, colour, out⟩
  | drainRead {seq colour out b bs n address} {v : Word} :
      FStep ⟨.drain b bs n, seq, colour, out⟩ ⟨.lbbo address, v⟩ ⟨.drain b bs n, seq, colour, out⟩
  | drained {seq colour out b bs n} (h : n ≠ 0) :
      FStep ⟨.drain b bs n, seq, colour, out⟩ ⟨.sbco .bankDone b.ordinal, ()⟩
        ⟨.enter bs, seq, colour, Function.update out .bankDone b.ordinal⟩
  | drainFailed {seq colour out b bs} :
      FStep ⟨.drain b bs drainAttempts, seq, colour, out⟩ ⟨.sbco .errorDetail errorBankClear, ()⟩
        ⟨.fatalStatus, seq, colour, Function.update out .errorDetail errorBankClear⟩
  | settleStart {seq colour out count} :
      FStep ⟨.enter [], seq, colour, out⟩ (delayEv count) ⟨.settle 1, seq, colour, out⟩
  | settle {seq colour out n} :
      FStep ⟨.settle n, seq, colour, out⟩ aluEv ⟨.settle (n + 1), seq, colour, out⟩
  | settled {seq colour out n} (h : settleCycles l ≤ n) :
      FStep ⟨.settle n, seq, colour, out⟩ ⟨.sbco .completionSeq seq, ()⟩
        ⟨.clearError, seq, colour, Function.update out .completionSeq seq⟩
  | clearError {seq colour out} :
      FStep ⟨.clearError, seq, colour, out⟩ ⟨.sbco .errorDetail errorNone, ()⟩
        ⟨.finish, seq, colour, Function.update out .errorDetail errorNone⟩
  | finish {seq colour out} :
      FStep ⟨.finish, seq, colour, out⟩ ⟨.sbco .status statusDone, ()⟩
        ⟨.poll, seq, colour, Function.update out .status statusDone⟩
  | fatal {seq colour out cause} :
      FStep ⟨.fatal cause, seq, colour, out⟩ ⟨.sbco .errorDetail cause, ()⟩
        ⟨.fatalStatus, seq, colour, Function.update out .errorDetail cause⟩
  | fatalStatus {seq colour out} :
      FStep ⟨.fatalStatus, seq, colour, out⟩ ⟨.sbco .status statusError, ()⟩
        ⟨.halting, seq, colour, Function.update out .status statusError⟩
  | halt {seq colour out} :
      FStep ⟨.halting, seq, colour, out⟩ ⟨.halt, ()⟩ ⟨.halted, seq, colour, out⟩

section Inversion

variable {tm l} {s s' : FState}

theorem FStep.of_stepAlu (h : stepAlu s = some s') : FStep tm l s aluEv s' := by
  obtain ⟨phase, seq, colour, out⟩ := s
  by_cases hfree : phase.free = true
  · have hs : stepAlu ⟨phase, seq, colour, out⟩ = some ⟨phase, seq, colour, out⟩ := by
      cases phase <;> first | rfl | cases hfree
    obtain rfl : _ = s' := Option.some.inj (hs.symm.trans h)
    exact .alu hfree
  · cases phase <;> first | cases h; done | exact absurd rfl hfree | skip
    cases h
    exact .settle

theorem FStep.of_stepDelay {count : Word} (h : stepDelay s = some s') :
    FStep tm l s (delayEv count) s' := by
  obtain ⟨phase, seq, colour, out⟩ := s
  unfold stepDelay at h
  split at h
  · rename_i hphase
    obtain rfl : phase = .boot := hphase
    cases h
    exact .boot (.delay count)
  · rename_i hphase
    obtain rfl : phase = .enter [] := hphase
    cases h
    exact .settleStart
  · cases h

theorem FStep.of_stepLoad {off : Off} {v : Word} (h : stepLoad s off v = some s') :
    FStep tm l s ⟨.lbco off, v⟩ s' := by
  obtain ⟨phase, seq, colour, out⟩ := s
  unfold stepLoad at h
  split at h
  case h_1 hphase =>
    obtain rfl : phase = .poll := hphase
    split at h <;> rename_i hv
    · obtain rfl : v = seq := hv
      cases h
      exact .pollSame
    · cases h
      exact .pollNew hv
  case h_2 hphase =>
    obtain rfl : phase = .latch := hphase
    split at h <;> rename_i hv
    · obtain rfl : v = 0 := hv
      cases h
      exact .latch
    · cases h
      exact .latchFailed hv
  case h_3 hphase =>
    obtain rfl : phase = .readColour := hphase
    split at h <;> rename_i hv <;> cases h
    · exact .readColour hv
    · exact .colourFailed hv
  case h_4 b bs hphase =>
    obtain rfl : phase = .gate b bs := hphase
    split at h <;> rename_i hv
    · obtain rfl : v = b.ordinal := hv
      cases h
      exact .gate
    · split at h <;> rename_i hless <;> cases h
      · exact .gateWait hless
      · exact .gateFailed (by bv_omega)
  case h_9 bs i hphase =>
    obtain rfl : phase = .enter bs := hphase
    cases h
    exact .config
  case h_10 => cases h
  all_goals
    rename_i hphase
    obtain rfl : phase = .boot := hphase
    cases h
    constructor
    constructor

theorem FStep.of_due {off off' : Off} {v v' : Word} {p : Phase}
    (h : due s off v off' v' p = some s')
    (hstep : FStep tm l s ⟨.sbco off' v', ()⟩ (s.stored off' v' p)) :
    FStep tm l s ⟨.sbco off v, ()⟩ s' := by
  unfold due at h
  split at h
  · rename_i heq
    obtain ⟨rfl, rfl⟩ := heq
    cases h
    exact hstep
  · cases h

theorem FStep.of_stepStore {off : Off} {v : Word} (h : stepStore tm l s off v = some s') :
    FStep tm l s ⟨.sbco off v, ()⟩ s' := by
  obtain ⟨phase, seq, colour, out⟩ := s
  cases phase with
  | boot =>
    simp only [stepStore] at h
    split at h <;> rename_i hoff
    · cases h
    · obtain rfl : off = .errorDetail := by simpa using hoff
      split at h <;> rename_i hv
      · obtain rfl : v = errorNone := hv
        cases h
        exact .booted
      · cases h
        exact .bootFailed hv
  | publish left =>
    cases left with
    | nil => cases h
    | cons store left => exact .of_due h .publish
  | clearReady => exact .of_due h .clearReady
  | clearDone => exact .of_due h .clearDone
  | accept => exact .of_due h .accept
  | start => exact .of_due h .start
  | enter bs =>
    cases bs with
    | nil => cases h
    | cons b bs => exact .of_due h .wait
  | offer b bs => exact .of_due h .offer
  | release b bs => exact .of_due h .release
  | rerun b bs => exact .of_due h .rerun
  | drain b bs n =>
    simp only [stepStore] at h
    split at h
    · split at h <;> rename_i hn
      · obtain rfl : n = drainAttempts := hn
        exact .of_due h .drainFailed
      · cases h
    · split at h <;> rename_i hn
      · cases h
      · exact .of_due h (.drained hn)
  | settle n =>
    simp only [stepStore] at h
    split at h <;> rename_i hn
    · exact .of_due h (.settled hn)
    · cases h
  | clearError => exact .of_due h .clearError
  | finish => exact .of_due h .finish
  | fatal cause => exact .of_due h .fatal
  | fatalStatus => exact .of_due h .fatalStatus
  | _ => cases h

theorem FStep.of_stepSbbo {address v : Word} (h : stepSbbo s address v = some s') :
    FStep tm l s (sbboEv address v) s' := by
  obtain ⟨phase, seq, colour, out⟩ := s
  cases phase with
  | boot =>
    simp only [stepSbbo] at h
    split at h <;> rename_i hclear
    · cases h
      obtain ⟨rfl, rfl⟩ | ⟨b, -, rfl, rfl⟩ := hclear
      · exact .boot .ctbir
      · exact .boot (.clear b)
    · cases h
  | drain b bs n =>
    simp only [stepSbbo] at h
    split at h <;> rename_i hclear
    · cases h
      obtain ⟨rfl, rfl, hn⟩ := hclear
      exact .drainClear hn
    · cases h
  | _ => cases h

theorem FStep.of_stepUntimed {e : PruEvent} (h : stepUntimed tm l s e = some s') :
    FStep tm l s e s' := by
  obtain ⟨op, r⟩ := e
  cases op with
  | alu => exact .of_stepAlu h
  | loadDelay count => exact .of_stepDelay h
  | lbco off => exact .of_stepLoad h
  | sbco off v => exact .of_stepStore h
  | sbbo address v => exact .of_stepSbbo h
  | lbbo address =>
    obtain ⟨phase, seq, colour, out⟩ := s
    cases phase with
    | boot =>
      cases h
      exact .boot (.gpioLoad address r)
    | drain b bs n =>
      cases h
      exact .drainRead
    | _ => cases h
  | lbcoCfg =>
    obtain ⟨phase, seq, colour, out⟩ := s
    cases phase with
    | boot =>
      cases h
      exact .boot (.cfgLoad r)
    | _ => cases h
  | sbcoCfg v =>
    obtain ⟨phase, seq, colour, out⟩ := s
    cases phase with
    | boot =>
      cases h
      exact .boot (.cfgStore v)
    | _ => cases h
  | halt =>
    obtain ⟨phase, seq, colour, out⟩ := s
    cases phase with
    | halting =>
      cases h
      exact .halt
    | _ => cases h

/-- **Inversion**: what the automaton may do next. -/
theorem FStep.of_fstep {e : PruEvent} (h : fstep tm l s e = some s') : FStep tm l s e s' := by
  obtain ⟨phase, seq, colour, out⟩ := s
  unfold fstep at h
  split at h
  · rename_i b bs x left hphase
    obtain rfl : phase = .stream b bs (x :: left) := hphase
    split at h <;> rename_i he
    · obtain rfl : e = x := he
      cases h
      exact .stream
    · cases h
  · exact .of_stepUntimed h

end Inversion

/-- What the firmware relies on: the lengths it reads are the configuration. -/
def ConfigReads (e : PruEvent) : Prop :=
  match e with
  | ⟨.lbco (.lengths i), value⟩ => value = l i
  | _ => True

/-- The firmware's automaton as a monitor. -/
def firmware : Monitor PruOp PruOp.Res FState where
  env _ e := ConfigReads l e
  safe s e := fstep tm l s e ≠ none
  next s e := (fstep tm l s e).getD s

end Pru

end Dld
