/-
DldDriver/Userspace/Udp.lean

`src/dld_udp.c`, the receiver, from its arguments to its exit line.  The
sender context and the socket are operations here; their answers are
arbitrary.

Three things are recorded that the program does not show: the head of the
main loop with the counters, a store to the variable `flashing`, and the
result of `dld_flash_next`.
-/
import DldDriver.Userspace.Flash
import DldDriver.Userspace.Ops

namespace Dld

open Interaction

/-! ### What the receiver asks for -/

/-- `enum { FLASH_NONE, FLASH_STARTUP, FLASH_IDLE }` -/
inductive Flashing
  | none
  | startup
  | idle
  deriving DecidableEq

/-- `struct packet_counts` -/
structure PacketCounts where
  received : Word64 := 0
  valid : Word64 := 0
  malformed : Word64 := 0
  unsupported : Word64 := 0
  coalesced : Word64 := 0
  sent : Word64 := 0
  flashFrames : Word64 := 0
  startupFlashes : Word64 := 0
  idleFlashes : Word64 := 0
  interruptedFlashes : Word64 := 0

inductive RxOp
  | cancelled
  | clockGettime
  /-- a datagram and whether it was truncated, or `errno` -/
  | recvmsg
  /-- the result and the returned events, or `errno` -/
  | poll (timeoutMs : Int)
  | installSignals
  /-- `open_socket`: the exit code and the text on failure -/
  | openSocket (address port : String)
  | closeSocket
  /-- `dld_sender_open`, `dld_sender_send`: the result and the error buffer -/
  | senderOpen
  | senderSend (rgb : Word)
  | senderClose
  | strerror
  | print (text : String)
  | printError (text : String)
  /-- `fprintf(stderr, "dld-udp: ready\n")` -/
  | ready
  /-- the head of the main loop -/
  | head (counts : PacketCounts)
  /-- `flashing = …` -/
  | setFlashing (flashing : Flashing)
  /-- the sample and the result of `dld_flash_next` -/
  | flashNext (rgb : Word) (final : Bool)
  /-- the exit line is due -/
  | stopped (counts : PacketCounts) (code : DldExitCode)
  /-- the iterations allowed to the main loop are used up -/
  | running

@[reducible] def RxOp.Res : RxOp → Type
  | .cancelled => Int
  | .clockGettime => Except Int (Int × Int)
  | .recvmsg => Except Int (List UInt8 × Bool)
  | .poll _ => Except Int (Nat × Word)
  | .installSignals => Except String Unit
  | .openSocket .. => Except (DldExitCode × String) Unit
  | .senderOpen | .senderSend _ => DldExitCode × String
  | .strerror => String
  | .running => Empty
  | _ => Unit

abbrev RxProg := Prog RxOp RxOp.Res

abbrev RxEvent := Event RxOp RxOp.Res

def rxop (o : RxOp) : RxProg o.Res := Prog.op o

/-! ### The helpers -/

abbrev udpBatch : Nat := 64
abbrev udpIdleMs : Nat := 250

def udpUsage : String :=
  "usage: dld-udp [--bind ADDRESS] [--port PORT]\n               [--no-startup-flash] " ++
  "[--no-idle-flash]\n  ADDRESS: numeric IPv4 or IPv6 address (default ::, dual-stack)\n  " ++
  "PORT: 1..65535 (default 7890); foreground OPC UDP receiver\n  --no-startup-flash: suppress " ++
  "the initial green smooth flash\n  --no-idle-flash: suppress red smooth flashes after 60s of " ++
  "inactivity\n"

/-- The time, or the text of the error. -/
def monotonicNow : RxProg (Except String Word64) := do
  let stamp : Except Int (Int × Int) ← rxop .clockGettime
  match stamp with
  | .error _ => do
    let reason : String ← rxop .strerror
    pure (.error ("read monotonic clock: " ++ reason))
  | .ok (sec, nsec) => pure (.ok (BitVec.ofInt 64 sec * 1000000000 + BitVec.ofInt 64 nsec))

def idleWaitMs (now activity : Word64) (enabled : Bool) : Word64 :=
  let elapsed := if now ≥ activity then now - activity else 0
  if enabled = false then BitVec.ofNat 64 udpIdleMs
  else if elapsed > flashIdleNs then 0
  else
    let remaining := flashIdleNs - elapsed + 1
    if remaining ≥ BitVec.ofNat 64 udpIdleMs * 1000000 then BitVec.ofNat 64 udpIdleMs
    else (remaining + 999999) / 1000000

/-- The loop of `valid_port`, with the value read so far. -/
def portDigits (port : Nat) : List Char → Bool
  | [] => decide (port ≠ 0)
  | c :: rest =>
    if c.isDigit = false then false
    else
      let port := port * 10 + (c.toNat - 48)
      if port > 65535 then false else portDigits port rest

def validPort (text : String) : Bool := !text.toList.isEmpty && portDigits 0 text.toList

/-- What the arguments choose. -/
structure UdpOptions where
  address : String := "::"
  port : String := "7890"
  startupEnabled : Bool := true
  idleEnabled : Bool := true

/-- The loop over the arguments; `none` is a usage error. -/
def udpArguments (o : UdpOptions) : List String → Option UdpOptions
  | [] => some o
  | "--bind" :: address :: rest => udpArguments { o with address := address } rest
  | "--port" :: port :: rest => udpArguments { o with port := port } rest
  | "--no-startup-flash" :: rest => udpArguments { o with startupEnabled := false } rest
  | "--no-idle-flash" :: rest => udpArguments { o with idleEnabled := false } rest
  | _ => none

/-! ### A batch -/

/-- What `receive_batch` updates. -/
structure Batch where
  rgb : Word
  counts : PacketCounts
  activity : Word64
  haveColor : Bool
  error : String

/-- The part of the loop body after the activity has been recorded. -/
def Batch.classify (b : Batch) (packet : List UInt8) (truncated : Bool) : Batch :=
  if truncated then
    { b with counts := { b.counts with malformed := b.counts.malformed + 1 } }
  else match dldOpcColor packet with
    | .malformed => { b with counts := { b.counts with malformed := b.counts.malformed + 1 } }
    | .unsupported => { b with counts := { b.counts with unsupported := b.counts.unsupported + 1 } }
    | .valid candidate => { b with
        counts := { b.counts with
          valid := b.counts.valid + 1
          coalesced := if b.haveColor then b.counts.coalesced + 1 else b.counts.coalesced }
        rgb := candidate
        haveColor := true }

/-- The loop of `receive_batch` with `n` attempts left; whether it ends
without an error. -/
def receiveBatch (cap : Nat) : Nat → Batch → RxProg (Bool × Batch)
  | 0, b => pure (true, b)
  | n + 1, b => do
    let flag : Int ← rxop .cancelled
    if flag ≠ 0 then pure (true, b) else do
    let received : Except Int (List UInt8 × Bool) ← rxop .recvmsg
    match received with
    | .error errno =>
      if errno = eAgain then pure (true, b)
      else if errno = eIntr then do
        let flag : Int ← rxop .cancelled
        if flag ≠ 0 then pure (true, b) else receiveBatch cap n b
      else do
        let reason : String ← rxop .strerror
        pure (false, { b with error := snprintf b.error cap ("receive UDP: " ++ reason) })
    | .ok (packet, truncated) => do
      let b := { b with counts := { b.counts with received := b.counts.received + 1 } }
      let now ← monotonicNow
      match now with
      | .error text => pure (false, { b with error := snprintf b.error cap text })
      | .ok now => receiveBatch cap n ({ b with activity := now }.classify packet truncated)

/-! ### The main loop -/

/-- The variables of `main` that the loop carries. -/
structure Rx where
  counts : PacketCounts := {}
  activity : Word64 := 0
  flash : DldFlash := {}
  flashing : Flashing := .none
  announcedReady : Bool := false
  error : String := ""

/-- The end of a round: the loop goes on, or ends with a code. -/
abbrev RoundEnd := Option DldExitCode

/-- `flashing = flashing` -/
def setFlashing (s : Rx) (flashing : Flashing) : RxProg Rx := do
  rxop (.setFlashing flashing)
  pure { s with flashing := flashing }

/-- A batch with a colour ends a flash. -/
def interrupt (s : Rx) : RxProg Rx :=
  setFlashing { s with counts := { s.counts with
    interruptedFlashes := if s.flashing ≠ .none then s.counts.interruptedFlashes + 1
      else s.counts.interruptedFlashes } } .none

/-- Without a colour, an idle flash may begin. -/
def startIdle (idleEnabled : Bool) (s : Rx) (now : Word64) : RxProg Rx :=
  if s.flashing = .none ∧ idleEnabled ∧ dldFlashIdleDue now s.activity then
    setFlashing { s with flash := dldFlashStart 0xff0000 now } .idle
  else pure s

/-- The next frame of the flash in progress: the sample and whether it is
the last. -/
def nextFrame (s : Rx) (now : Word64) : RxProg (Rx × Word × Bool) := do
  let flash := if s.flash.initialSent = false then { s.flash with startedNs := now } else s.flash
  let (flash, rgb, final) := dldFlashNext flash now
  rxop (.flashNext rgb final)
  pure ({ s with flash := flash }, rgb, final)

/-- The end of a flash with its final black. -/
def finishFlash (s : Rx) : RxProg (Rx × RoundEnd) := do
  if s.flashing = .startup then do
    let s ← setFlashing { s with counts := { s.counts with
      startupFlashes := s.counts.startupFlashes + 1 } } .none
    pure (s, none)
  else do
    let s := { s with counts := { s.counts with idleFlashes := s.counts.idleFlashes + 1 } }
    let now ← monotonicNow
    match now with
    | .error text => pure ({ s with error := snprintf s.error 512 text }, some .prerequisite)
    | .ok now => do
      let s ← setFlashing { s with activity := now } .none
      pure (s, none)

/-- The first success of a kind that counts is announced. -/
def announce (s : Rx) (counts : Bool) : RxProg Rx := do
  if s.announcedReady = false ∧ counts then do
    rxop .ready
    pure { s with announcedReady := true }
  else pure s

/-- One transmission and its bookkeeping. -/
def transmit (s : Rx) (rgb : Word) (haveColor final : Bool) : RxProg (Rx × RoundEnd) := do
  let (code, error) : DldExitCode × String ← rxop (.senderSend rgb)
  let s := { s with error := error }
  if code ≠ .ok then pure (s, some code) else do
  let s ← announce s (haveColor || final)
  if haveColor then
    pure ({ s with counts := { s.counts with sent := s.counts.sent + 1 } }, none)
  else do
    let s := { s with counts := { s.counts with flashFrames := s.counts.flashFrames + 1 } }
    if final then finishFlash s else pure (s, none)

/-- `POLLERR | POLLHUP | POLLNVAL` -/
abbrev pollFailure : Word := 0x38

/-- The wait of a round without a transmission. -/
def pollSocket (idleEnabled : Bool) (s : Rx) (now : Word64) : RxProg (Rx × RoundEnd) := do
  let ready : Except Int (Nat × Word) ←
    rxop (.poll (idleWaitMs now s.activity idleEnabled).toNat)
  match ready with
  | .error errno =>
    if errno = eIntr then pure (s, none)
    else do
      let reason : String ← rxop .strerror
      pure ({ s with error := snprintf s.error 512 ("poll UDP: " ++ reason) }, some .prerequisite)
  | .ok (ready, revents) =>
    if ready = 0 then pure (s, none) else do
    let flag : Int ← rxop .cancelled
    if flag ≠ 0 then pure (s, none)
    else if revents &&& pollFailure ≠ 0 then
      let text := "UDP socket poll error: events=0x" ++ String.ofList (Nat.toDigits 16 revents.toNat)
      pure ({ s with error := snprintf s.error 512 text }, some .prerequisite)
    else pure (s, none)

/-- The round once the batch is in: a colour, a frame, or a wait. -/
def actOn (idleEnabled : Bool) (s : Rx) (rgb : Word) (haveColor : Bool) (now : Word64) :
    RxProg (Rx × RoundEnd) := do
  if haveColor then do
    let s ← interrupt s
    transmit s rgb true false
  else do
    let s ← startIdle idleEnabled s now
    if s.flashing ≠ .none then do
      let (s, rgb, final) ← nextFrame s now
      transmit s rgb false final
    else pollSocket idleEnabled s now

/-- The body of the main loop. -/
def rxRound (idleEnabled : Bool) (s : Rx) : RxProg (Rx × RoundEnd) := do
  let (ok, batch) ← receiveBatch 512 udpBatch
    { rgb := 0, counts := s.counts, activity := s.activity, haveColor := false, error := s.error }
  let s := { s with counts := batch.counts, activity := batch.activity, error := batch.error }
  if ok = false then pure (s, some .prerequisite) else do
  let flag : Int ← rxop .cancelled
  if flag ≠ 0 then pure (s, some .ok) else do
  let now ← monotonicNow
  match now with
  | .error text => pure ({ s with error := snprintf s.error 512 text }, some .prerequisite)
  | .ok now => actOn idleEnabled s batch.rgb batch.haveColor now

/-- `while (!dld_cancelled)` -/
def rxLoop (idleEnabled : Bool) : Nat → Rx → RxProg (Rx × DldExitCode)
  | 0, _ => do
    let never : Empty ← rxop .running
    never.elim
  | fuel + 1, s => do
    rxop (.head s.counts)
    let flag : Int ← rxop .cancelled
    if flag ≠ 0 then pure (s, .ok) else do
    let (s, ended) ← rxRound idleEnabled s
    match ended with
    | some code => pure (s, code)
    | none => rxLoop idleEnabled fuel s

/-! ### main -/

def stoppedLine (counts : PacketCounts) (signal : Int) (code : DldExitCode) : String :=
  "dld-udp: stopped; received=" ++ toString counts.received.toNat ++ " valid=" ++
    toString counts.valid.toNat ++ " malformed=" ++ toString counts.malformed.toNat ++
    " unsupported=" ++ toString counts.unsupported.toNat ++ " coalesced=" ++
    toString counts.coalesced.toNat ++ " sent=" ++ toString counts.sent.toNat ++
    " flash_frames=" ++ toString counts.flashFrames.toNat ++ " startup_flashes=" ++
    toString counts.startupFlashes.toNat ++ " idle_flashes=" ++
    toString counts.idleFlashes.toNat ++ " interrupted_flashes=" ++
    toString counts.interruptedFlashes.toNat ++ " signal=" ++ toString signal ++ " exit=" ++
    toString code.value ++ "\n"

/-- The label `done`. -/
def rxDone (s : Rx) (opened bound : Bool) (code : DldExitCode) : RxProg DldExitCode := do
  if opened then rxop .senderClose
  if bound then rxop .closeSocket
  if code ≠ .ok then rxop (.printError ("dld-udp: " ++ s.error ++ "\n"))
  rxop (.stopped s.counts code)
  let signal : Int ← rxop .cancelled
  rxop (.printError (stoppedLine s.counts signal code))
  pure code

/-- The events of the exit. -/
def Exiting (counts : PacketCounts) (code : DldExitCode) : RxEvent → Prop
  | ⟨.senderClose, _⟩ | ⟨.closeSocket, _⟩ | ⟨.printError _, _⟩ | ⟨.cancelled, _⟩ => True
  | ⟨.stopped counts' code', _⟩ => counts' = counts ∧ code' = code
  | _ => False

theorem rxDone_emits (r : Rx) (opened bound : Bool) (code : DldExitCode) :
    (rxDone r opened bound code).Emits (Exiting r.counts code) := by
  have hline : Prog.Emits (Exiting r.counts code) (do
      rxop (.stopped r.counts code)
      let signal : Int ← rxop .cancelled
      rxop (.printError (stoppedLine r.counts signal code))
      pure code : RxProg DldExitCode) :=
    fun _ => ⟨⟨rfl, rfl⟩, fun _ => ⟨trivial, fun _ => ⟨trivial, trivial⟩⟩⟩
  -- the sender, the socket and the error line, each present or not
  refine Prog.emits_ite (fun _ => Prog.emits_op_bind.mpr fun _ => ⟨trivial, ?_⟩) fun _ => ?_
  all_goals
    refine Prog.emits_ite (fun _ => Prog.emits_op_bind.mpr fun _ => ⟨trivial, ?_⟩) fun _ => ?_
  all_goals
    exact Prog.emits_ite (fun _ => Prog.emits_op_bind.mpr fun _ => ⟨trivial, hline⟩) fun _ => hline

/-- The banner, the startup flash and the loop. -/
def rxServe (fuel : Nat) (o : UdpOptions) (activity : Word64) (error : String) :
    RxProg DldExitCode := do
  let s : Rx := { activity := activity, error := error }
  let banner := "dld-udp: listening on [" ++ o.address ++ "]:" ++ o.port ++
    "; OPC RGB, batch limit 64; startup flash " ++ (if o.startupEnabled then "on" else "off") ++
    ", idle flash " ++ (if o.idleEnabled then "on" else "off") ++ "\n"
  if o.startupEnabled then do
    let s ← setFlashing { s with flash := dldFlashStart 0x00ff00 activity } .startup
    rxop (.printError banner)
    let (s, code) ← rxLoop o.idleEnabled fuel s
    rxDone s true true code
  else do
    rxop (.printError banner)
    rxop .ready
    let (s, code) ← rxLoop o.idleEnabled fuel { s with announcedReady := true }
    rxDone s true true code

/-- `main` once the arguments are read. -/
def rxStart (fuel : Nat) (o : UdpOptions) : RxProg DldExitCode := do
  let installed : Except String Unit ← rxop .installSignals
  match installed with
  | .error text => rxDone { error := snprintf "" 512 text } false false .prerequisite
  | .ok _ => do
  let bound : Except (DldExitCode × String) Unit ← rxop (.openSocket o.address o.port)
  match bound with
  | .error (code, text) => rxDone { error := snprintf "" 512 text } false false code
  | .ok _ => do
    let (code, error) : DldExitCode × String ← rxop .senderOpen
    if code ≠ .ok then rxDone { error := error } false true code else do
    let activity ← monotonicNow
    match activity with
    | .error text => rxDone { error := snprintf error 512 text } true true .prerequisite
    | .ok activity => rxServe fuel o activity error

/-- `main`, with the arguments after the program's name. -/
def dldUdp (fuel : Nat) (args : List String) : RxProg DldExitCode := do
  if args = ["--help"] then do
    rxop (.print udpUsage)
    pure .ok
  else match udpArguments {} args with
  | none => do
    rxop (.printError udpUsage)
    pure .badArgument
  | some o =>
    if validPort o.port = false ∨ o.address = "" then do
      rxop (.printError udpUsage)
      pure .badArgument
    else rxStart fuel o

end Dld
