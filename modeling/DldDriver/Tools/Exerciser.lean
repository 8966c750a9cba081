/-
DldDriver/Tools/Exerciser.lean

The panel exerciser (`run_exercise` of `tools/exercise_panels.py`) as a
machine over an exact clock.  Its surroundings are the clock, the stop
request, `sleep`, `report`, `color_at` and `send`; all but the clock may
raise an exception.

    loop       the body of `while True` under `try`
    closing    `finally`, with the exception that is under way
    waiting    the pacing before the final black
    blackout   the final black
    finishing  the last report
    finished   what the caller gets

An answer of the surroundings carries the times at which it was asked for
and given.  The program does not see them.
-/
import DldDriver.Tools.Scenes
import DldDriver.Interaction.Machine

namespace Dld

namespace Exercise

open Interaction

/-! ### The surroundings -/

/-- An exception, by the handlers that tell it apart. -/
inductive Exn
  | osError (text : String)
  | keyboardInterrupt
  | other (text : String)

/-- What a call returned, when it began and when it ended. -/
structure Answer (α : Type) where
  start : ℚ
  stop : ℚ
  value : α

structure Stats where
  attempted : Nat := 0
  sent : Nat := 0
  errors : Nat := 0
  consecutiveErrors : Nat := 0
  lastColor : Option (List PyValue) := none
  lastError : Option String := none

structure Snapshot (T : Type) where
  event : String
  elapsedSeconds : ℚ
  cycle : ℤ
  sceneIndex : Nat
  scene : String
  sceneSeconds : ℚ
  fpsLimit : ℚ
  targets : List (T × Stats)

/-- What is reported. -/
inductive Report (T : Type)
  | snapshot (s : Snapshot T)
  | finish (s : Snapshot T) (stopReason : String)
  | sendError (target : T) (error : String) (errors : Nat)
  | sendRecovered (target : T) (previousConsecutiveErrors : Nat)

inductive Op (T : Type)
  | clock
  | stopped
  | sleep (seconds : ℚ)
  | report (event : Report T)
  | colorAt (scene : Scene) (position : ℚ) (panelIndex panelCount : Nat) (cycle : ℤ)
      (seed : PyValue)
  | send (target : T) (packet : List UInt8)

variable {T : Type}

/-- `stopped()` is `none` where it is false, else its text. -/
def Val : Op T → Type
  | .clock => ℚ
  | .stopped => Except Exn (Option String)
  | .sleep _ | .report _ | .send _ _ => Except Exn Unit
  | .colorAt .. => Except Exn (List PyValue)

abbrev Res (o : Op T) := Answer (Val o)

abbrev Call (T : Type) (α : Type) := Prog (Op T) Res α

namespace Call

def clock : Call T ℚ := .call .clock fun r => .ret r.value

def stopped : Call T (Except Exn (Option String)) := .call .stopped fun r => .ret r.value

def sleep (seconds : ℚ) : Call T (Except Exn Unit) := .call (.sleep seconds) fun r => .ret r.value

def report (event : Report T) : Call T (Except Exn Unit) :=
  .call (.report event) fun r => .ret r.value

def colorAt (scene : Scene) (position : ℚ) (panelIndex panelCount : Nat) (cycle : ℤ)
    (seed : PyValue) : Call T (Except Exn (List PyValue)) :=
  .call (.colorAt scene position panelIndex panelCount cycle seed) fun r => .ret r.value

def send (target : T) (packet : List UInt8) : Call T (Except Exn Unit) :=
  .call (.send target packet) fun r => .ret r.value

end Call

/-! ### The arguments -/

/-- The arguments of an accepted call. -/
structure Arguments (T : Type) where
  targets : List T
  fps : ℚ
  seed : PyValue
  duration : Option ℚ
  rate : 0 < fps ∧ fps ≤ 10
  lasting : ∀ d ∈ duration, 0 < d
  panels : targets ≠ []
  unique : targets.Nodup

/-- `interval` -/
def Arguments.interval (x : Arguments T) : ℚ := 1 / x.fps

/-- The checks of `run_exercise`; a rate or a duration that is not finite is
`none`. -/
def accept [DecidableEq T] (targets : List T) (fps : Option ℚ) (seed : PyValue)
    (duration : Option (Option ℚ)) : Except String (Arguments T) :=
  match fps with
  | none => .error "packet rate must be greater than zero and at most 10"
  | some fps =>
    if hrate : ¬ (0 < fps ∧ fps ≤ 10) then
      .error "packet rate must be greater than zero and at most 10"
    else if duration = some none then
      .error "duration must be finite and greater than zero"
    else if hlasting : ∃ d ∈ duration.bind id, d ≤ 0 then
      .error "duration must be finite and greater than zero"
    else if htargets : targets = [] ∨ ¬ targets.Nodup then
      .error "targets must be nonempty and unique"
    else .ok {
      targets := targets
      fps := fps
      seed := seed
      duration := duration.bind id
      rate := not_not.mp hrate
      lasting := fun d hd => not_le.mp fun hle => hlasting ⟨d, hd, hle⟩
      panels := fun h => htargets (.inl h)
      unique := by_contra fun h => htargets (.inr h) }

/-- What is accepted is taken over. -/
theorem accept_ok [DecidableEq T] {targets : List T} {fps : Option ℚ} {seed : PyValue}
    {duration : Option (Option ℚ)} {x : Arguments T}
    (h : accept targets fps seed duration = .ok x) :
    x.targets = targets ∧ fps = some x.fps ∧ x.seed = seed ∧ duration = x.duration.map some := by
  unfold accept at h
  rcases fps with - | fps
  · cases h
  dsimp only at h
  split_ifs at h with hrate hfinite hlasting htargets
  cases h
  refine ⟨rfl, rfl, rfl, ?_⟩
  rcases duration with - | - | d
  · rfl
  · exact absurd rfl hfinite
  · rfl

/-- Every value of `Arguments` is an accepted call. -/
theorem accept_arguments [DecidableEq T] (x : Arguments T) :
    accept x.targets (some x.fps) x.seed (x.duration.map some) = .ok x := by
  have hduration : (x.duration.map some).bind id = x.duration := by
    cases x.duration <;> rfl
  have hfinite : x.duration.map some ≠ some none := by
    cases x.duration <;> simp
  have hlasting : ¬ ∃ d ∈ (x.duration.map some).bind id, d ≤ 0 := by
    rw [hduration]
    rintro ⟨d, hd, hle⟩
    exact absurd (x.lasting d hd) (not_lt.mpr hle)
  have htargets : ¬ (x.targets = [] ∨ ¬ x.targets.Nodup) := by
    rintro (h | h)
    · exact x.panels h
    · exact h x.unique
  unfold accept
  dsimp only
  rw [dif_neg (not_not.mpr x.rate), if_neg hfinite, dif_neg hlasting, dif_neg htargets]
  simp only [hduration]

/-! ### The playlist -/

/-- The loop of `select_scene` over the scenes from `index` on. -/
def selectFrom (cycle : ℤ) : List Scene → Nat → ℚ → ℤ × Nat × Scene × ℚ
  | [], _, _ => (cycle + 1, 0, scenes.head (List.cons_ne_nil _ _), 0)
  | scene :: rest, index, position =>
    if position < scene.duration then (cycle, index, scene, position)
    else selectFrom cycle rest (index + 1) (position - scene.duration)

/-- `select_scene`: the cycle, the index, the scene and the time within it. -/
def selectScene (elapsed : ℚ) : ℤ × Nat × Scene × ℚ :=
  let playlist := (scenes.map (·.duration)).sum
  let cycle := ⌊max 0 elapsed / playlist⌋
  selectFrom cycle scenes 0 (max 0 elapsed - playlist * cycle)

/-! ### The run -/

/-- The local variables; `last_error_report` is minus infinity where it is
`none`. -/
structure Vars (T : Type) where
  start : ℚ
  nextFrame : ℚ
  nextProgress : ℚ
  currentScene : Option (ℤ × Nat) := none
  reason : String := "error"
  attempted : Bool := false
  stats : T → Stats := fun _ => {}
  lastErrorReport : T → Option ℚ := fun _ => none

/-- `round(x, 3)` -/
def milli (x : ℚ) : ℚ := pyRound (x * 1000) / 1000

section Run

variable [DecidableEq T] (x : Arguments T)

def Vars.setStats (v : Vars T) (target : T) (counts : Stats) : Vars T :=
  { v with stats := Function.update v.stats target counts }

def snapshot (v : Vars T) (event : String) : Call T (Snapshot T) := do
  let now ← Call.clock
  let elapsed := max 0 (now - v.start)
  let (cycle, index, scene, position) := selectScene elapsed
  return {
    event := event
    elapsedSeconds := milli elapsed
    cycle := cycle + 1
    sceneIndex := index
    scene := scene.name
    sceneSeconds := milli position
    fpsLimit := x.fps
    targets := x.targets.map fun target => (target, v.stats target) }

/-- `except OSError as error` -/
def sendFailed (v : Vars T) (target : T) (text : String) : Call T (Vars T × Except Exn Unit) := do
  let counts := v.stats target
  let counts := { counts with
    errors := counts.errors + 1
    consecutiveErrors := counts.consecutiveErrors + 1
    lastError := some text }
  let v := v.setStats target counts
  let now ← Call.clock
  if counts.consecutiveErrors = 1 ∨ ∀ last ∈ v.lastErrorReport target, now - last ≥ 60 then
    match ← Call.report (.sendError target text counts.errors) with
    | .error e => return (v, .error e)
    | .ok () =>
      return ({ v with lastErrorReport := Function.update v.lastErrorReport target (some now) },
        .ok ())
  else return (v, .ok ())

/-- `else`, after a send that raised nothing. -/
def sendDone (v : Vars T) (target : T) (rgb : List PyValue) :
    Call T (Vars T × Except Exn Unit) := do
  let counts := v.stats target
  let counts := { counts with sent := counts.sent + 1, lastColor := some rgb }
  let recovered := { counts with consecutiveErrors := 0, lastError := none }
  if counts.consecutiveErrors ≠ 0 then
    match ← Call.report (.sendRecovered target counts.consecutiveErrors) with
    | .error e => return (v.setStats target counts, .error e)
    | .ok () => return (v.setStats target recovered, .ok ())
  else return (v.setStats target recovered, .ok ())

/-- One attempt; the `finally` of the send paces what follows. -/
def attempt (v : Vars T) (target : T) (rgb : List PyValue) (packet : List UInt8) :
    Call T (Vars T × Except Exn Unit) := do
  let counts := v.stats target
  let v := { v.setStats target { counts with attempted := counts.attempted + 1 } with
    attempted := true }
  let sent ← Call.send target packet
  let now ← Call.clock
  let v := { v with nextFrame := now + x.interval }
  match sent with
  | .ok () => sendDone v target rgb
  | .error (.osError text) => sendFailed v target text
  | .error e => return (v, .error e)

/-- The loop over `zip(targets, colors, packets)`. -/
def attemptAll (v : Vars T) :
    List (T × List PyValue × List UInt8) → Call T (Vars T × Except Exn Unit)
  | [] => return (v, .ok ())
  | (target, rgb, packet) :: rest => do
    match ← attempt x v target rgb packet with
    | (v, .error e) => return (v, .error e)
    | (v, .ok ()) => attemptAll v rest

/-- `transmit`: all colors are encoded before the first is sent. -/
def transmit (v : Vars T) (colors : List (List PyValue)) : Call T (Vars T × Except Exn Unit) :=
  match colors.mapM encodeColor with
  | .error text => return (v, .error (.other text))
  | .ok packets => attemptAll x v (x.targets.zip (colors.zip packets))

/-- `if current_scene != (cycle, index)` -/
def enterScene (v : Vars T) (cycle : ℤ) (index : Nat) : Call T (Vars T × Except Exn Unit) := do
  if v.currentScene = some (cycle, index) then return (v, .ok ())
  else
    let v := { v with currentScene := some (cycle, index) }
    let s ← snapshot x v "scene"
    return (v, ← Call.report (.snapshot s))

/-- The colors of the panels `indices`. -/
def gather (scene : Scene) (position : ℚ) (cycle : ℤ) :
    List Nat → Call T (Except Exn (List (List PyValue)))
  | [] => return .ok []
  | index :: rest => do
    match ← Call.colorAt scene position index x.targets.length cycle x.seed with
    | .error e => return .error e
    | .ok rgb =>
      match ← gather scene position cycle rest with
      | .error e => return .error e
      | .ok colors => return .ok (rgb :: colors)

/-- Where the run is between its blocks. -/
inductive Label (T : Type)
  | start
  | loop (v : Vars T)
  | frame (v : Vars T) (now : ℚ)
  | progress (v : Vars T)
  | closing (v : Vars T) (raised : Option Exn)
  | waiting (v : Vars T) (raised : Option Exn)
  | blackout (v : Vars T) (raised : Option Exn)
  | finishing (v : Vars T) (raised : Option Exn)
  | finished (outcome : Except Exn (Snapshot T × String))

/-- An exception in the body of `try`. -/
def leave (v : Vars T) : Exn → Label T
  | .keyboardInterrupt => .closing { v with reason := "keyboard_interrupt" } none
  | e => .closing v (some e)

/-- The blocks of `run_exercise`. -/
def code : Code (Op T) Res (Label T)
  | .start => do
    let start ← Call.clock
    let v : Vars T := { start := start, nextFrame := start, nextProgress := start }
    let s ← snapshot x v "start"
    match ← Call.report (.snapshot s) with
    | .error e => return some (leave v e)
    | .ok () => return some (.loop v)
  | .loop v => do
    let now ← Call.clock
    match ← Call.stopped with
    | .error e => return some (leave v e)
    | .ok (some reason) => return some (.closing { v with reason := reason } none)
    | .ok none =>
      if ∃ d ∈ x.duration, now - v.start ≥ d then
        return some (.closing { v with reason := "duration" } none)
      else if now < v.nextFrame then
        match ← Call.sleep (min (1 / 20) (v.nextFrame - now)) with
        | .error e => return some (leave v e)
        | .ok () => return some (.loop v)
      else return some (.frame v now)
  | .frame v now => do
    let (cycle, index, scene, position) := selectScene (now - v.start)
    match ← enterScene x v cycle index with
    | (v, .error e) => return some (leave v e)
    | (v, .ok ()) =>
      match ← gather x scene position cycle (List.range x.targets.length) with
      | .error e => return some (leave v e)
      | .ok colors =>
        match ← transmit x v colors with
        | (v, .error e) => return some (leave v e)
        | (v, .ok ()) => return some (.progress v)
  | .progress v => do
    let now ← Call.clock
    let v := { v with nextFrame := now + x.interval }
    if (← Call.clock) ≥ v.nextProgress then
      match ← Call.report (.snapshot (← snapshot x v "progress")) with
      | .error e => return some (leave v e)
      | .ok () =>
        let now ← Call.clock
        return some (.loop { v with nextProgress := now + 5 })
    else return some (.loop v)
  | .closing v raised => return some (if v.attempted then .waiting v raised else .finishing v raised)
  | .waiting v raised => do
    let now ← Call.clock
    let remaining := v.nextFrame - now
    if remaining ≤ 0 then return some (.blackout v raised)
    else
      match ← Call.sleep (min (1 / 20) remaining) with
      | .error e => return some (.finished (.error e))
      | .ok () => return some (.waiting v raised)
  | .blackout v raised => do
    match ← transmit x v (List.replicate x.targets.length [.int 0, .int 0, .int 0]) with
    | (_, .error e) => return some (.finished (.error e))
    | (v, .ok ()) => return some (.finishing v raised)
  | .finishing v raised => do
    let result ← snapshot x v "finish"
    match ← Call.report (.finish result v.reason) with
    | .error e => return some (.finished (.error e))
    | .ok () =>
      match raised with
      | some e => return some (.finished (.error e))
      | none => return some (.finished (.ok (result, v.reason)))
  | .finished _ => return none

end Run

end Exercise

end Dld
