/-
DldDriver/Tools/Prepare.lean

`tools/bench_prepare.py`: runtime settings recorded, applied and restored.

The settings are the policy of the CPU and the LEDs behind `sysfs`; a file
holds a complete JSON document, or one that is being written.  What `json.load`
gives is what `json.dump` wrote last.  A call of the system may fail at any
time, and a command may be cut off between any two of them.

`prepare_recovers` is about any number of commands on one state file, each cut
off anywhere: whatever they leave behind, restoring from it works, no write
ever asks for a minimum above the maximum, and where there is no state file
the settings have not been touched.
-/
import Mathlib.Data.Char
import Mathlib.Data.List.Lex
import Mathlib.Data.List.Sort
import DldDriver.Interaction.Recovery
import DldDriver.Tools.ProcessTable

namespace Dld.Prepare

open FileTree (Name)
open Interaction
open Trial (Value PyError strip wordsFrom)

/-! ### Settings -/

structure Policy where
  governor : Name
  minimum : Name
  maximum : Name
  deriving DecidableEq

/-- The trigger that is shown where there is none. -/
def noTrigger : Name := "none".toList

def off : Name := "0".toList

/-- Only an LED without a trigger has a brightness of its own. -/
inductive Led
  | manual (brightness : Name)
  | triggered (trigger : Name) (active : trigger ≠ noTrigger)

def Led.trigger : Led → Name
  | .manual _ => noTrigger
  | .triggered trigger _ => trigger

/-- The attributes that the tool writes. -/
inductive Attribute
  | governor
  | minimum
  | maximum
  | trigger (led : Name)
  | brightness (led : Name)
  deriving DecidableEq

/-- A file that `json.dump` has written, or one that it has not finished. -/
inductive Doc
  | torn
  | document (v : Value)

structure Bench where
  kernel : Name
  policy : Policy
  leds : Name → Option Led
  files : Name → Option Doc

/-- The number that a text shows. -/
def khz (text : Name) : Nat := text.foldl (fun n c => n * 10 + (c.toNat - '0'.toNat)) 0

/-- Without a trigger the LED is off; a trigger that is not there cannot be
removed. -/
def Led.storeTrigger (text : Name) (led : Led) : Led :=
  if h : text = noTrigger then
    match led with
    | .manual brightness => .manual brightness
    | .triggered _ _ => .manual off
  else .triggered text h

/-- Switching it off removes the trigger. -/
def Led.storeBrightness (text : Name) : Led → Led
  | .manual _ => .manual text
  | .triggered trigger active => if text = off then .manual text else .triggered trigger active

def Bench.setLed (w : Bench) (name : Name) (f : Led → Led) : Bench :=
  { w with leds := Function.update w.leds name ((w.leds name).map f) }

/-- The kernel has accepted the text. -/
def Bench.store (w : Bench) (text : Name) : Attribute → Bench
  | .governor => { w with policy := { w.policy with governor := text } }
  | .minimum => { w with policy := { w.policy with minimum := text } }
  | .maximum => { w with policy := { w.policy with maximum := text } }
  | .trigger led => w.setLed led (Led.storeTrigger text)
  | .brightness led => w.setLed led (Led.storeBrightness text)

def Bench.setFile (w : Bench) (path : Name) (doc : Option Doc) : Bench :=
  { w with files := Function.update w.files path doc }

/-! ### Paths -/

/-- `CPU` -/
def cpuBase : Name := "/sys/devices/system/cpu/cpu0/cpufreq/".toList

/-- `CPU + name` -/
def cpuPath (name : String) : Name := cpuBase ++ name.toList

def ledBase : Name := "/sys/class/leds/".toList

/-- `base + name` -/
def ledPath (led : Name) (name : String) : Name := ledBase ++ (led ++ '/' :: name.toList)

/-- What a path names. -/
def attributeOf (path : Name) : Option Attribute :=
  if path = cpuPath "scaling_governor" then some .governor
  else if path = cpuPath "scaling_min_freq" then some .minimum
  else if path = cpuPath "scaling_max_freq" then some .maximum
  else if ledBase.isPrefixOf path then
    let rest := path.drop ledBase.length
    let led := rest.takeWhile (· != '/')
    let name := rest.dropWhile (· != '/')
    if name = "/trigger".toList then some (.trigger led)
    else if name = "/brightness".toList then some (.brightness led)
    else none
  else none

def userLeds : List Name :=
  ["beaglebone:green:usr0".toList, "beaglebone:green:usr1".toList, "beaglebone:green:usr2".toList,
    "beaglebone:green:usr3".toList]

/-- `re.match(r"^beaglebone:green:usr[0-3]$", name)`; a newline may follow. -/
def isUserLed (name : Name) : Bool := userLeds.any fun led => name == led || name == led ++ ['\n']

/-! ### The tool and its world -/

inductive BenchOp
  | geteuid
  /-- `platform.release()` -/
  | release
  | time
  /-- `os.path.exists` -/
  | exists (path : Name)
  /-- Opening a file and reading it. -/
  | read (path : Name)
  /-- `os.listdir("/sys/class/leds")` -/
  | listdir
  /-- `open(path, "w")` -/
  | openWrite (path : Name)
  /-- `stream.write(value + "\n")`, and closing the file -/
  | writeLine (path value : Name)
  /-- `json.dump` with the newline behind it, flushed -/
  | dump (path : Name) (v : Value)
  | fsync (path : Name)
  | rename (source target : Name)
  /-- Opening a file, and `json.load` -/
  | load (path : Name)
  | say (message : Name)
  /-- The line on `stderr` -/
  | report (error : PyError)

/-- A call that failed has no result. -/
abbrev BenchRes : BenchOp → Type
  | .geteuid => Nat
  | .release => Name
  | .time => ℚ
  | .exists _ => Bool
  | .read _ => Option Name
  | .listdir => Option (List Name)
  | .openWrite _ | .writeLine .. | .dump .. | .fsync _ | .rename .. => Bool
  | .load _ => Except PyError Value
  | .say _ | .report _ => Unit

abbrev BenchEvent := Event BenchOp BenchRes

abbrev Tool := ExceptT PyError (Prog BenchOp BenchRes)

def op (o : BenchOp) : Tool (BenchRes o) := ExceptT.lift (Prog.op o)

/-- `raise RuntimeError(message)` -/
def runtimeError {α : Type} (message : String) : Tool α := throw (.raised message)

/-- An operation that raises when it fails. -/
def check (done : Bool) : Tool Unit := if done then pure () else throw (.raised "IOError")

/-! ### Files -/

def read (path : Name) : Tool Name := do
  let some text ← op (.read path) | throw (.raised "IOError")
  pure (strip text)

/-- `value + "\n"` is made once the file is open. -/
def write (path : Name) (value : Value) : Tool Unit := do
  check (← op (.openWrite path))
  match value with
  | .str text => check (← op (.writeLine path text))
  | _ => throw .typeError

def temporary (path : Name) : Name := path ++ ".tmp".toList

def save (path : Name) (state : Value) : Tool Unit := do
  check (← op (.openWrite (temporary path)))
  check (← op (.dump (temporary path) state))
  check (← op (.fsync (temporary path)))
  check (← op (.rename (temporary path) path))

/-- The loop of `re.findall(r"\[([^]]+)\]", text)`, with what has been read
behind an opening bracket. -/
def bracketed : Option Name → Name → List Name
  | _, [] => []
  | none, c :: rest => if c = '[' then bracketed (some []) rest else bracketed none rest
  | some word, c :: rest =>
    if c = ']' then if word = [] then bracketed none rest else word :: bracketed none rest
    else bracketed (some (word ++ [c])) rest

def trigger (path : Name) : Tool Name := do
  match bracketed none (← read path) with
  | [selected] => pure selected
  | _ => runtimeError ("cannot identify selected LED trigger: " ++ String.ofList path)

/-! ### The state -/

structure LedRecord where
  name : Name
  trigger : Name
  brightness : Name

/-- The dictionary `state` of a run that has not been restored; `applied` is
`applied_unix`. -/
structure State where
  created : ℚ
  kernel : Name
  cpu : Policy
  leds : List LedRecord
  applied : Option ℚ

def key (name : String) : Name := name.toList

def LedRecord.value (led : LedRecord) : Value :=
  .dict [(key "name", .str led.name), (key "trigger", .str led.trigger),
    (key "brightness", .str led.brightness)]

def Policy.value (cpu : Policy) : Value :=
  .dict [(key "scaling_governor", .str cpu.governor), (key "scaling_min_freq", .str cpu.minimum),
    (key "scaling_max_freq", .str cpu.maximum)]

def State.value (state : State) : Value :=
  .dict ([(key "schema", .int 1), (key "created_unix", .float state.created),
    (key "kernel", .str state.kernel), (key "cpu", state.cpu.value),
    (key "leds", .list (state.leds.map LedRecord.value)),
    (key "applied", .bool state.applied.isSome), (key "restored", .bool false)] ++
    (state.applied.map fun time => (key "applied_unix", Value.float time)).toList)

/-- `bool(v)` -/
def truthy : Value → Bool
  | .none => false
  | .bool b => b
  | .int i => i != 0
  | .float x => x != 0
  | .nonFinite => true
  | .str s => !s.isEmpty
  | .list items => !items.isEmpty
  | .dict entries => !entries.isEmpty

/-- `v[key] = item` -/
def setItem (v : Value) (key : Name) (item : Value) : Except PyError Value :=
  match v with
  | .dict entries => .ok (.dict ((key, item) :: entries.filter (·.1 != key)))
  | _ => .error .typeError

/-- What `for item in v` goes through. -/
def iterate : Value → Except PyError (List Value)
  | .list items => .ok items
  | .dict entries => .ok (entries.map fun entry => .str entry.1)
  | .str s => .ok (s.map fun c => .str [c])
  | _ => .error .typeError

/-! ### inspect_state -/

def referenceKernel : Name := "3.8.13-bone80".toList

def fixedFrequency : Name := "1000000".toList

def isLineEnd (c : Char) : Bool :=
  c.toNat ∈ [0x0a, 0x0b, 0x0c, 0x0d, 0x1c, 0x1d, 0x1e, 0x85, 0x2028, 0x2029]

/-- `text.splitlines()`, with the line so far. -/
def splitLines (line : Name) : Name → List Name
  | [] => if line.isEmpty then [] else [line]
  | '\r' :: '\n' :: rest => line :: splitLines [] rest
  | c :: rest => if isLineEnd c then line :: splitLines [] rest else splitLines (line ++ [c]) rest

/-- The loop over `sorted(os.listdir(…))`. -/
def inspectLeds : List Name → Tool (List LedRecord)
  | [] => pure []
  | name :: rest => do
    if isUserLed name = false then inspectLeds rest else do
    let selected ← trigger (ledPath name "trigger")
    let brightness ← read (ledPath name "brightness")
    let leds ← inspectLeds rest
    pure (⟨name, selected, brightness⟩ :: leds)

def sorted (names : List Name) : List Name := names.insertionSort (· ≤ ·)

def inspectState : Tool State := do
  if (← op .release) ≠ referenceKernel then
    runtimeError "expected single-online-CPU reference BBG kernel" else do
  if (← read "/sys/devices/system/cpu/online".toList) ≠ off then
    runtimeError "expected single-online-CPU reference BBG kernel" else do
  if (splitLines [] (← read "/proc/swaps".toList)).length ≠ 1 then
    runtimeError "swap must be absent before this bench" else do
  if (wordsFrom [] (← read (cpuPath "scaling_available_frequencies"))).contains fixedFrequency = false then
    runtimeError "reference 1 GHz frequency unavailable" else do
  let created ← op .time
  let kernel ← op .release
  let governor ← read (cpuPath "scaling_governor")
  let minimum ← read (cpuPath "scaling_min_freq")
  let maximum ← read (cpuPath "scaling_max_freq")
  let some names ← op .listdir | throw (.raised "OSError")
  let leds ← inspectLeds (sorted names)
  if leds.length ≠ 4 then runtimeError "expected exactly four BBG user LEDs" else
  pure ⟨created, kernel, ⟨governor, minimum, maximum⟩, leds, none⟩

/-! ### apply -/

/-- The loop over `state["leds"]`. -/
def applyLeds : List LedRecord → Tool Unit
  | [] => pure ()
  | led :: rest => do
    write (ledPath led.name "trigger") (.str noTrigger)
    write (ledPath led.name "brightness") (.str off)
    applyLeds rest

/-- The loop that reads the frequencies back. -/
def verifyFixed : List String → Tool Unit
  | [] => pure ()
  | name :: rest => do
    if (← read (cpuPath name)) ≠ fixedFrequency then
      runtimeError ("fixed 1 GHz verification failed: " ++ name) else
    verifyFixed rest

def apply (path : Name) : Tool Unit := do
  if (← op (.exists path)) then
    runtimeError "state path already exists; never overwrite saved settings" else do
  let state ← inspectState
  save path state.value
  write (cpuPath "scaling_max_freq") (.str fixedFrequency)
  write (cpuPath "scaling_min_freq") (.str fixedFrequency)
  write (cpuPath "scaling_governor") (.str "performance".toList)
  applyLeds state.leds
  verifyFixed ["scaling_min_freq", "scaling_max_freq", "scaling_cur_freq"]
  let now ← op .time
  save path { state with applied := some now }.value
  op (.say ("Prepared: fixed 1 GHz, four user LED triggers off, no swap; state=".toList ++ path))

/-! ### restore -/

/-- The loop over `state["leds"]`. -/
def restoreLeds : List Value → Tool Unit
  | [] => pure ()
  | led :: rest => do
    let .str name ← (liftM (led.index (key "name")) : Tool Value) | throw .typeError
    if isUserLed name = false then runtimeError "unexpected LED name in state" else do
    write (ledPath name "trigger") (.str noTrigger)
    write (ledPath name "brightness") (← liftM (led.index (key "brightness")))
    write (ledPath name "trigger") (← liftM (led.index (key "trigger")))
    restoreLeds rest

def restore (path : Name) : Tool Unit := do
  let state ← op (.load path)
  let state ← liftM state
  let schema ← liftM (state.get (key "schema") .none)
  if schema.eqInt 1 = false then runtimeError "invalid or wrong-kernel state file" else do
  let kernel ← liftM (state.get (key "kernel") .none)
  if kernel.eqStr (← op .release) = false then
    runtimeError "invalid or wrong-kernel state file" else do
  let restored ← liftM (state.get (key "restored") .none)
  if truthy restored then op (.say "Settings already restored".toList) else do
  let cpu ← liftM (state.index (key "cpu"))
  write (cpuPath "scaling_min_freq") (← liftM (cpu.index (key "scaling_min_freq")))
  write (cpuPath "scaling_max_freq") (← liftM (cpu.index (key "scaling_max_freq")))
  write (cpuPath "scaling_governor") (← liftM (cpu.index (key "scaling_governor")))
  let leds ← liftM (state.index (key "leds"))
  restoreLeds (← liftM (iterate leds))
  let state ← liftM (setItem state (key "restored") (.bool true))
  let now ← op .time
  let state ← liftM (setItem state (key "restored_unix") (.float now))
  save path state
  op (.say "Restored recorded CPU policy and user LED settings".toList)

/-! ### main -/

inductive Command
  | check
  | apply (path : Name)
  | restore (path : Name)

def Command.body : Command → Tool Unit
  | .check => do
    let _ ← inspectState
    op (.say "Runtime preparation prerequisites passed; no settings changed".toList)
  | .apply path => Prepare.apply path
  | .restore path => Prepare.restore path

/-- The exit code; `parser.error` exits with 2. -/
def main (command : Command) : Prog BenchOp BenchRes Nat := do
  if (← Prog.op .geteuid) ≠ 0 then pure 2 else do
  match ← command.body.run with
  | .ok () => pure 0
  | .error error => do
    Prog.op (BenchOp.report error)
    pure 1

/-! ### The world -/

/-- What a read of the attribute shows; the brightness of an LED with a trigger
is the trigger's. -/
def Shows (w : Bench) (text : Name) : Attribute → Prop
  | .governor => strip text = w.policy.governor
  | .minimum => strip text = w.policy.minimum
  | .maximum => strip text = w.policy.maximum
  | .trigger name => ∃ led before after, w.leds name = some led ∧
      strip text = before ++ '[' :: led.trigger ++ ']' :: after ∧
      '[' ∉ before ∧ '[' ∉ after ∧ ']' ∉ led.trigger ∧ led.trigger ≠ []
  | .brightness name => ∃ led, w.leds name = some led ∧
      ∀ brightness, led = .manual brightness → strip text = brightness

/-- What the world promises of an answer. -/
def Promised (w : Bench) (e : BenchEvent) : Prop :=
  match e with
  | ⟨.release, name⟩ => name = w.kernel
  | ⟨.exists path, there⟩ => w.files path ≠ none → there = true
  | ⟨.read path, text⟩ => ∀ s a, text = some s → attributeOf path = some a → Shows w s a
  | ⟨.listdir, names⟩ => ∀ list, names = some list → ∀ name, name ∈ list ↔ w.leds name ≠ none
  | ⟨.dump path _, done⟩ => done = true → attributeOf path = none
  | ⟨.rename source target, done⟩ =>
    done = true → attributeOf source = none ∧ attributeOf target = none
  | ⟨.load path, result⟩ => ∀ v, result = .ok v → w.files path = some (.document v)
  | _ => True

/-- The call has failed, or the tool does not run as root. -/
def Failed (e : BenchEvent) : Prop :=
  match e with
  | ⟨.geteuid, id⟩ => id ≠ 0
  | ⟨.read _, text⟩ => text = none
  | ⟨.listdir, names⟩ => names = none
  | ⟨.openWrite _, done⟩ => done = false
  | ⟨.writeLine .., done⟩ => done = false
  | ⟨.dump .., done⟩ => done = false
  | ⟨.fsync _, done⟩ => done = false
  | ⟨.rename .., done⟩ => done = false
  | ⟨.load _, result⟩ => ∀ v, result ≠ .ok v
  | _ => False

/-- The kernel refuses a minimum above the maximum. -/
def Allowed (w : Bench) (text : Name) : Attribute → Prop
  | .minimum => khz text ≤ khz w.policy.maximum
  | .maximum => khz w.policy.minimum ≤ khz text
  | _ => True

/-- No write asks for what the kernel refuses. -/
def NoConflict (w : Bench) (e : BenchEvent) : Prop :=
  match e with
  | ⟨.writeLine path text, _⟩ => ∀ a, attributeOf path = some a → Allowed w text a
  | _ => True

def Bench.after (w : Bench) (e : BenchEvent) : Bench :=
  match e with
  | ⟨.openWrite path, done⟩ =>
    if done && (attributeOf path).isNone then w.setFile path (some .torn) else w
  | ⟨.writeLine path text, done⟩ =>
    if done then ((attributeOf path).map (w.store text)).getD (w.setFile path (some .torn)) else w
  | ⟨.dump path v, done⟩ => w.setFile path (some (if done then .document v else .torn))
  | ⟨.rename source target, done⟩ =>
    if done then (w.setFile source none).setFile target (w.files source) else w
  | _ => w

/-- The world; where it is `strict`, no call fails. -/
def world (strict : Bool) : Monitor BenchOp BenchRes Bench where
  env w e := Promised w e ∧ (strict = true → ¬ Failed e)
  safe := NoConflict
  next := Bench.after

section Calls

variable {strict : Bool} {I : Bench → Prop} {w : Bench} {α : Type} {Q : Bench → α → Prop}

/-- From `w`, `p` keeps `I` with every event and returns where `Q` holds; it
may raise, but not in a strict world. -/
def Goes (strict : Bool) (I : Bench → Prop) (p : Tool α) (w : Bench) (Q : Bench → α → Prop) :
    Prop :=
  ((world strict).keeping I).ewp p w Q fun _ _ => strict = false

theorem goes_bind {β : Type} {p : Tool β} {f : β → Tool α} :
    Goes strict I (p >>= f) w Q ↔ Goes strict I p w fun w' b => Goes strict I (f b) w' Q :=
  Monitor.ewp_bind

theorem goes_pure {a : α} (h : Q w a) : Goes strict I (pure a) w Q := h

theorem goes_throw {e : PyError} (h : strict = false) : Goes strict I (throw e) w Q := h

theorem Goes.mono {Q' : Bench → α → Prop} {p : Tool α} (h : Goes strict I p w Q)
    (hQ : ∀ w a, Q w a → Q' w a) : Goes strict I p w Q' :=
  Monitor.ewp_mono h hQ fun _ _ hstrict => hstrict

theorem goes_op {o : BenchOp} {f : BenchRes o → Tool α} (hsafe : ∀ r, NoConflict w ⟨o, r⟩)
    (h : ∀ r, Promised w ⟨o, r⟩ → (strict = true → ¬ Failed ⟨o, r⟩) →
      I (w.after ⟨o, r⟩) ∧ Goes strict I (f r) (w.after ⟨o, r⟩) Q) :
    Goes strict I (op o >>= f) w Q :=
  Monitor.ewp_op_bind fun r henv =>
    ⟨⟨hsafe r, (h r henv.1 henv.2).1⟩, (h r henv.1 henv.2).2⟩

/-- A call that leaves the world as it is. -/
theorem goes_ask {o : BenchOp} {f : BenchRes o → Tool α} (hI : I w)
    (hsafe : ∀ r, NoConflict w ⟨o, r⟩) (hsame : ∀ r, w.after ⟨o, r⟩ = w)
    (h : ∀ r, Promised w ⟨o, r⟩ → (strict = true → ¬ Failed ⟨o, r⟩) → Goes strict I (f r) w Q) :
    Goes strict I (op o >>= f) w Q := by
  refine goes_op hsafe fun r hpromised hfailed => ?_
  rw [hsame r]
  exact ⟨hI, h r hpromised hfailed⟩

theorem goes_say {message : Name} {Q : Bench → Unit → Prop} (hI : I w) (hQ : Q w ()) :
    Goes strict I (op (.say message)) w Q :=
  fun _ _ => ⟨⟨trivial, hI⟩, hQ⟩

/-- A call that is done, or has failed. -/
theorem goes_check {done : Bool} {f : Unit → Tool α} (hdone : strict = true → done ≠ false)
    (h : done = true → Goes strict I (f ()) w Q) : Goes strict I (check done >>= f) w Q := by
  cases done with
  | false => exact Bool.eq_false_iff.mpr fun hstrict => hdone hstrict rfl
  | true => exact h rfl

theorem goes_read {path : Name} {f : Name → Tool α} (hI : I w)
    (h : ∀ text, (∀ a, attributeOf path = some a → Shows w text a) →
      Goes strict I (f (strip text)) w Q) : Goes strict I (read path >>= f) w Q := by
  rw [read, goes_bind]
  refine goes_ask hI (fun _ => trivial) (fun _ => rfl) fun r hpromised hfailed => ?_
  cases r with
  | none => exact Bool.eq_false_iff.mpr fun hstrict => hfailed hstrict rfl
  | some text => exact h text fun a => hpromised text a rfl

/-- A write that the kernel has to accept. -/
theorem goes_write {path text : Name} {a : Attribute} {f : Unit → Tool α}
    (ha : attributeOf path = some a) (hI : I w) (hallowed : Allowed w text a)
    (hI' : I (w.store text a)) (h : Goes strict I (f ()) (w.store text a) Q) :
    Goes strict I (write path (.str text) >>= f) w Q := by
  rw [write, goes_bind]
  have hopened (r : Bool) : w.after ⟨.openWrite path, r⟩ = w := by
    simp [Bench.after, ha]
  refine goes_ask hI (fun _ => trivial) hopened fun r _ hfailed => ?_
  refine goes_check hfailed fun _ => ?_
  refine goes_op (fun r b hb => ?_) fun r _ hfailed => ?_
  · obtain rfl : a = b := Option.some.inj (ha.symm.trans hb)
    exact hallowed
  · cases r with
    | false => exact ⟨hI, Bool.eq_false_iff.mpr fun hstrict => hfailed hstrict rfl⟩
    | true =>
      have hstored : w.after ⟨.writeLine path text, true⟩ = w.store text a := by
        simp [Bench.after, ha]
      rw [hstored]
      exact ⟨hI', h⟩

theorem temporary_ne (path : Name) : temporary path ≠ path := by
  intro heq
  have hlength := congrArg List.length heq
  simp [temporary] at hlength

/-- What a file is replaced by is complete before it is replaced. -/
theorem goes_save {path : Name} {v : Value} {f : Unit → Tool α} (hI : I w)
    (htemporary : ∀ doc, I (w.setFile (temporary path) doc))
    (hI' : I ((w.setFile (temporary path) none).setFile path (some (.document v))))
    (h : Goes strict I (f ()) ((w.setFile (temporary path) none).setFile path (some (.document v))) Q) :
    Goes strict I (save path v >>= f) w Q := by
  have hagain (d d' : Option Doc) : (w.setFile (temporary path) d).setFile (temporary path) d' =
      w.setFile (temporary path) d' := by
    simp [Bench.setFile]
  rw [save, goes_bind]
  refine goes_op (fun _ => trivial) fun opened _ hfailed => ?_
  -- the open has made a file, or has not
  obtain ⟨w', hw', hI₁, hset⟩ : ∃ w', w.after ⟨.openWrite (temporary path), opened⟩ = w' ∧ I w' ∧
      ∀ doc, w'.setFile (temporary path) doc = w.setFile (temporary path) doc := by
    refine ⟨_, rfl, ?_⟩
    by_cases hopened : (opened && (attributeOf (temporary path)).isNone) = true
    · rw [Bench.after, if_pos hopened]
      exact ⟨htemporary _, hagain _⟩
    · rw [Bench.after, if_neg hopened]
      exact ⟨hI, fun _ => rfl⟩
  rw [hw']
  refine ⟨hI₁, goes_check hfailed fun _ => ?_⟩
  refine goes_op (fun _ => trivial) fun dumped _ hfailed => ?_
  rw [Bench.after, hset]
  refine ⟨htemporary _, goes_check hfailed fun hdumped => ?_⟩
  rw [hdumped, if_pos rfl]
  refine goes_ask (htemporary _) (fun _ => trivial) (fun _ => rfl) fun synced _ hfailed => ?_
  refine goes_check hfailed fun _ => ?_
  refine goes_op (fun _ => trivial) fun renamed _ hfailed => ?_
  cases renamed with
  | false => exact ⟨htemporary _, Bool.eq_false_iff.mpr fun hstrict => hfailed hstrict rfl⟩
  | true =>
    have hrenamed : (w.setFile (temporary path) (some (.document v))).after
        ⟨.rename (temporary path) path, true⟩ =
        (w.setFile (temporary path) none).setFile path (some (.document v)) := by
      rw [Bench.after, if_pos rfl, hagain]
      simp [Bench.setFile]
    rw [hrenamed]
    exact ⟨hI', h⟩

end Calls

/-! ### Paths and texts -/

theorem no_slash {name : Name} (h : isUserLed name = true) : ∀ c ∈ name, (c != '/') = true := by
  have hplain : (userLeds.all fun led => (led ++ ['\n']).all (· != '/')) = true := by decide
  obtain ⟨led, hled, heq⟩ := List.any_eq_true.mp h
  have hled := List.all_eq_true.mp (List.all_eq_true.mp hplain led hled)
  rcases (Bool.or_eq_true _ _).mp heq with heq | heq
  · rw [beq_iff_eq.mp heq]
    exact fun c hc => hled c (List.mem_append_left _ hc)
  · rw [beq_iff_eq.mp heq]
    exact hled

theorem attributeOf_governor : attributeOf (cpuPath "scaling_governor") = some .governor := by
  decide

theorem attributeOf_minimum : attributeOf (cpuPath "scaling_min_freq") = some .minimum := by
  decide

theorem attributeOf_maximum : attributeOf (cpuPath "scaling_max_freq") = some .maximum := by
  decide

/-- The attributes of an LED lie apart from those of the CPU. -/
theorem attributeOf_led {led name : Name} (hled : isUserLed led = true) :
    attributeOf (ledBase ++ (led ++ '/' :: name)) =
      if '/' :: name = "/trigger".toList then some (.trigger led)
      else if '/' :: name = "/brightness".toList then some (.brightness led) else none := by
  have hcpu (file : String) : ledBase ++ (led ++ '/' :: name) ≠ cpuPath file := by
    intro heq
    have hsixth := congrArg (·[5]?) heq
    rw [cpuPath, List.getElem?_append_left (by decide), List.getElem?_append_left (by decide)] at hsixth
    exact absurd hsixth (by decide)
  have hrest : (led ++ '/' :: name).takeWhile (· != '/') = led ∧
      (led ++ '/' :: name).dropWhile (· != '/') = '/' :: name := by
    rw [List.takeWhile_append_of_pos (no_slash hled), List.dropWhile_append_of_pos (no_slash hled)]
    simp
  rw [attributeOf, if_neg (hcpu _), if_neg (hcpu _), if_neg (hcpu _),
    if_pos (List.isPrefixOf_iff_prefix.mpr (List.prefix_append _ _)), List.drop_left]
  dsimp only
  rw [hrest.1, hrest.2]

theorem attributeOf_trigger {led : Name} (hled : isUserLed led = true) :
    attributeOf (ledPath led "trigger") = some (.trigger led) := by
  rw [ledPath, attributeOf_led hled]
  exact if_pos rfl

theorem attributeOf_brightness {led : Name} (hled : isUserLed led = true) :
    attributeOf (ledPath led "brightness") = some (.brightness led) := by
  rw [ledPath, attributeOf_led hled, if_neg (by decide)]
  exact if_pos rfl

theorem bracketed_plain {text : Name} (h : '[' ∉ text) : bracketed none text = [] := by
  induction text with
  | nil => rfl
  | cons c text ih =>
    obtain ⟨hc, htext⟩ := List.ne_and_not_mem_of_not_mem_cons h
    rw [bracketed, if_neg hc.symm, ih htext]

theorem bracketed_before {front back : Name} (h : '[' ∉ front) :
    bracketed none (front ++ back) = bracketed none back := by
  induction front with
  | nil => rfl
  | cons c front ih =>
    obtain ⟨hc, hfront⟩ := List.ne_and_not_mem_of_not_mem_cons h
    rw [List.cons_append, bracketed, if_neg hc.symm, ih hfront]

theorem bracketed_inside {word front back : Name} (h : ']' ∉ front) :
    bracketed (some word) (front ++ back) = bracketed (some (word ++ front)) back := by
  induction front generalizing word with
  | nil => rw [List.nil_append, List.append_nil]
  | cons c front ih =>
    obtain ⟨hc, hfront⟩ := List.ne_and_not_mem_of_not_mem_cons h
    rw [List.cons_append, bracketed, if_neg hc.symm, ih hfront, List.append_assoc]
    rfl

/-- The one word in brackets is found. -/
theorem bracketed_eq {front word back : Name} (hfront : '[' ∉ front) (hword : ']' ∉ word)
    (hne : word ≠ []) (hback : '[' ∉ back) :
    bracketed none (front ++ '[' :: word ++ ']' :: back) = [word] := by
  rw [List.append_assoc, List.cons_append, bracketed_before hfront, bracketed, if_pos rfl,
    bracketed_inside hword, List.nil_append, bracketed, if_pos rfl, if_neg hne,
    bracketed_plain hback]

section Led

variable {strict : Bool} {I : Bench → Prop} {w : Bench} {α : Type} {Q : Bench → α → Prop}

theorem goes_trigger {name : Name} {f : Name → Tool α} (hI : I w) (hname : isUserLed name = true)
    (h : ∀ led, w.leds name = some led → Goes strict I (f led.trigger) w Q) :
    Goes strict I (trigger (ledPath name "trigger") >>= f) w Q := by
  rw [trigger, goes_bind]
  refine goes_read hI fun text hshows => ?_
  obtain ⟨led, before, after, hled, htext, hbefore, hafter, hclosed, hne⟩ :=
    hshows _ (attributeOf_trigger hname)
  rw [htext, bracketed_eq hbefore hclosed hne hafter]
  exact h led hled

/-- Trigger and brightness as they were, in the order of `restore`. -/
theorem Led.restored (led old : Led) {brightness : Name}
    (h : ∀ b, old = .manual b → brightness = b) :
    ((led.storeTrigger noTrigger).storeBrightness brightness).storeTrigger old.trigger = old := by
  have hoff : ∃ b, led.storeTrigger noTrigger = .manual b := by
    cases led with
    | manual b => exact ⟨b, dif_pos rfl⟩
    | triggered t ht => exact ⟨off, dif_pos rfl⟩
  obtain ⟨b, hb⟩ := hoff
  rw [hb, Led.storeBrightness]
  cases old with
  | manual b' =>
    rw [h b' rfl]
    exact dif_pos rfl
  | triggered t ht => exact dif_neg ht

theorem Led.switchedOff (led : Led) :
    (led.storeTrigger noTrigger).storeBrightness off = .manual off := by
  cases led with
  | manual b =>
    rw [Led.storeTrigger, dif_pos rfl]
    rfl
  | triggered t ht =>
    rw [Led.storeTrigger, dif_pos rfl]
    rfl

end Led

/-! ### What a state records -/

structure RecordsLed (w₀ : Bench) (r : LedRecord) : Prop where
  user : isUserLed r.name = true
  led : ∃ led, w₀.leds r.name = some led ∧ r.trigger = led.trigger ∧
    ∀ brightness, led = .manual brightness → r.brightness = brightness

structure Records (w₀ : Bench) (state : State) : Prop where
  kernel : state.kernel = w₀.kernel
  cpu : state.cpu = w₀.policy
  leds : ∀ r ∈ state.leds, RecordsLed w₀ r
  all : ∀ name, isUserLed name = true → w₀.leds name ≠ none → ∃ r ∈ state.leds, r.name = name

section Inspect

variable {strict : Bool} {I : Bench → Prop} {w : Bench} {α : Type} {Q : Bench → α → Prop}

theorem goes_ite {c : Prop} [Decidable c] {p q : Tool α} (hp : c → Goes strict I p w Q)
    (hq : ¬ c → Goes strict I q w Q) : Goes strict I (if c then p else q) w Q :=
  Monitor.ewp_ite.mpr ⟨hp, hq⟩

theorem inspectLeds_goes (hI : I w) (names : List Name) :
    Goes strict I (inspectLeds names) w fun w' leds => w' = w ∧ (∀ r ∈ leds, RecordsLed w r) ∧
      ∀ name ∈ names, isUserLed name = true → ∃ r ∈ leds, r.name = name := by
  induction names with
  | nil => exact goes_pure ⟨rfl, by simp, by simp⟩
  | cons name names ih =>
    rw [inspectLeds]
    refine goes_ite (fun hother => ?_) fun huser => ?_
    · refine ih.mono ?_
      rintro _ leds ⟨rfl, hleds, hall⟩
      refine ⟨rfl, hleds, fun n hn hn' => hall n ((List.mem_cons.mp hn).resolve_left ?_) hn'⟩
      rintro rfl
      rw [hother] at hn'
      cases hn'
    · have huser : isUserLed name = true := Bool.of_not_eq_false huser
      refine goes_trigger hI huser fun led hled => ?_
      refine goes_read hI fun text hshows => ?_
      obtain ⟨led', hled', hbrightness⟩ := hshows _ (attributeOf_brightness huser)
      obtain rfl : led = led' := Option.some.inj (hled.symm.trans hled')
      refine goes_bind.mpr (ih.mono ?_)
      rintro _ leds ⟨rfl, hleds, hall⟩
      refine ⟨rfl, ?_, ?_⟩
      · intro r hr
        rcases List.mem_cons.mp hr with rfl | hr
        · exact ⟨huser, led, hled, rfl, hbrightness⟩
        · exact hleds r hr
      · intro n hn hn'
        rcases List.mem_cons.mp hn with rfl | hn
        · exact ⟨_, List.mem_cons_self, rfl⟩
        · obtain ⟨r, hr, hrn⟩ := hall n hn hn'
          exact ⟨r, List.mem_cons_of_mem _ hr, hrn⟩

theorem mem_sorted {name : Name} {names : List Name} : name ∈ sorted names ↔ name ∈ names :=
  List.mem_insertionSort _

/-- The inspection changes nothing, and records everything. -/
theorem inspectState_goes (hI : I w) :
    Goes false I inspectState w fun w' state => w' = w ∧ Records w state := by
  rw [inspectState]
  refine goes_ask hI (fun _ => trivial) (fun _ => rfl) fun _ _ _ => ?_
  refine goes_ite (fun _ => goes_throw rfl) fun _ => ?_
  refine goes_read hI fun _ _ => goes_ite (fun _ => goes_throw rfl) fun _ => ?_
  refine goes_read hI fun _ _ => goes_ite (fun _ => goes_throw rfl) fun _ => ?_
  refine goes_read hI fun _ _ => goes_ite (fun _ => goes_throw rfl) fun _ => ?_
  refine goes_ask hI (fun _ => trivial) (fun _ => rfl) fun created _ _ => ?_
  refine goes_ask hI (fun _ => trivial) (fun _ => rfl) fun kernel hkernel _ => ?_
  refine goes_read hI fun governor hgovernor => ?_
  refine goes_read hI fun minimum hminimum => ?_
  refine goes_read hI fun maximum hmaximum => ?_
  refine goes_ask hI (fun _ => trivial) (fun _ => rfl) fun names hnames _ => ?_
  cases names with
  | none => exact goes_throw rfl
  | some names =>
    refine goes_bind.mpr ((inspectLeds_goes hI (sorted names)).mono ?_)
    rintro _ leds ⟨rfl, hleds, hall⟩
    refine goes_ite (fun _ => goes_throw rfl) fun _ => goes_pure ⟨rfl, hkernel, ?_, hleds, ?_⟩
    · have hg : strip governor = _ := hgovernor _ attributeOf_governor
      have hl : strip minimum = _ := hminimum _ attributeOf_minimum
      have hh : strip maximum = _ := hmaximum _ attributeOf_maximum
      rw [hg, hl, hh]
    · intro name huser hthere
      exact hall name (mem_sorted.mpr ((hnames names rfl name).mpr hthere)) huser

end Inspect

/-! ### What can be restored -/

/-- The settings are as they were. -/
structure Untouched (w₀ w : Bench) : Prop where
  kernel : w.kernel = w₀.kernel
  policy : w.policy = w₀.policy
  leds : w.leds = w₀.leds

/-- The settings of the CPU and of the user LEDs may have changed; the minimum
of before fits under the maximum at any time. -/
structure Disturbed (w₀ w : Bench) : Prop where
  kernel : w.kernel = w₀.kernel
  ordered : khz w.policy.minimum ≤ khz w.policy.maximum
  room : khz w₀.policy.minimum ≤ khz w.policy.maximum
  others : ∀ name, isUserLed name = false → w.leds name = w₀.leds name
  present : ∀ name, (w.leds name).isSome = (w₀.leds name).isSome

/-- The value is a state of this kernel. -/
def Labelled (kernel : Name) (restored : Bool) (v : Value) : Prop :=
  ∃ entries, v = .dict entries ∧ entries.lookup (key "schema") = some (.int 1) ∧
    entries.lookup (key "kernel") = some (.str kernel) ∧
    entries.lookup (key "restored") = some (.bool restored)

/-- A recorded world: the state file, and settings that can be restored. -/
structure Holding (w₀ : Bench) (path : Name) (state : State) (w : Bench) : Prop where
  file : w.files path = some (.document state.value)
  records : Records w₀ state
  disturbed : Disturbed w₀ w

/-- Nothing has been recorded and nothing touched, or what is recorded is what
was there, or it has been restored. -/
inductive Recoverable (w₀ : Bench) (path : Name) (w : Bench) : Prop
  | fresh (h : w.files path = none) (same : Untouched w₀ w)
  | recorded (state : State) (h : Holding w₀ path state w)
  | restored (v : Value) (h : w.files path = some (.document v))
      (hv : Labelled w₀.kernel true v) (same : Untouched w₀ w)

/-- What `apply` is for. -/
structure Pinned (w : Bench) : Prop where
  policy : w.policy = ⟨"performance".toList, fixedFrequency, fixedFrequency⟩
  leds : ∀ name led, isUserLed name = true → w.leds name = some led → led = .manual off

section Recover

variable {strict : Bool} {w₀ w : Bench} {path : Name} {state : State} {α : Type}
variable {Q : Bench → α → Prop}

theorem Untouched.disturbed (h : Untouched w₀ w)
    (hpolicy : khz w₀.policy.minimum ≤ khz w₀.policy.maximum) : Disturbed w₀ w where
  kernel := h.kernel
  ordered := h.policy ▸ hpolicy
  room := h.policy ▸ hpolicy
  others _ _ := congrFun h.leds _
  present _ := congrArg Option.isSome (congrFun h.leds _)

/-- A user LED may be set to anything. -/
theorem Disturbed.setLed (h : Disturbed w₀ w) {name : Name} (hname : isUserLed name = true)
    (f : Led → Led) : Disturbed w₀ (w.setLed name f) where
  kernel := h.kernel
  ordered := h.ordered
  room := h.room
  others other hother := by
    have hne : other ≠ name := by
      rintro rfl
      rw [hname] at hother
      cases hother
    exact (Function.update_of_ne hne _ _).trans (h.others other hother)
  present other := by
    by_cases heq : other = name
    · subst heq
      simpa [Bench.setLed] using h.present other
    · exact (congrArg Option.isSome (Function.update_of_ne heq _ _)).trans (h.present other)

theorem setLed_leds {name other : Name} {f : Led → Led} (hne : other ≠ name) :
    (w.setLed name f).leds other = w.leds other := Function.update_of_ne hne _ _

theorem setLed_self {name : Name} {f : Led → Led} :
    (w.setLed name f).leds name = (w.leds name).map f := Function.update_self _ _ _

/-- The file beside the state does not matter. -/
theorem Recoverable.beside (h : Recoverable w₀ path w) (doc : Option Doc) :
    Recoverable w₀ path (w.setFile (temporary path) doc) := by
  have hfiles : (w.setFile (temporary path) doc).files path = w.files path :=
    Function.update_of_ne (temporary_ne path).symm _ _
  cases h with
  | fresh h same => exact .fresh (hfiles.trans h) ⟨same.kernel, same.policy, same.leds⟩
  | recorded state h =>
    obtain ⟨h, hstate, d⟩ := h
    exact .recorded state
      ⟨hfiles.trans h, hstate, ⟨d.kernel, d.ordered, d.room, d.others, d.present⟩⟩
  | restored v h hv same =>
    exact .restored v (hfiles.trans h) hv ⟨same.kernel, same.policy, same.leds⟩

theorem Holding.recoverable (h : Holding w₀ path state w) : Recoverable w₀ path w :=
  .recorded state h

theorem Holding.setLed (h : Holding w₀ path state w) {name : Name} (hname : isUserLed name = true)
    (f : Led → Led) : Holding w₀ path state (w.setLed name f) :=
  ⟨h.file, h.records, h.disturbed.setLed hname f⟩

theorem goes_writeTrigger {text name : Name} {f : Unit → Tool α} (h : Holding w₀ path state w)
    (hname : isUserLed name = true)
    (hrest : Goes strict (Recoverable w₀ path) (f ()) (w.setLed name (Led.storeTrigger text)) Q) :
    Goes strict (Recoverable w₀ path) (write (ledPath name "trigger") (.str text) >>= f) w Q :=
  goes_write (attributeOf_trigger hname) h.recoverable trivial
    (h.setLed hname _).recoverable hrest

theorem goes_writeBrightness {text name : Name} {f : Unit → Tool α} (h : Holding w₀ path state w)
    (hname : isUserLed name = true)
    (hrest : Goes strict (Recoverable w₀ path) (f ()) (w.setLed name (Led.storeBrightness text)) Q) :
    Goes strict (Recoverable w₀ path) (write (ledPath name "brightness") (.str text) >>= f) w Q :=
  goes_write (attributeOf_brightness hname) h.recoverable trivial
    (h.setLed hname _).recoverable hrest

/-- What a loop over LEDs has done: those of the list are as `target` says,
and so are those that were before. -/
structure LedsSet (target : Name → Option Led) (names : List Name) (w w' : Bench) : Prop where
  policy : w'.policy = w.policy
  done : ∀ name ∈ names, w'.leds name = target name
  before : ∀ name, w.leds name = target name → w'.leds name = target name

theorem LedsSet.cons {target : Name → Option Led} {name : Name} {names : List Name} {w' w'' : Bench}
    (hpolicy : w'.policy = w.policy) (hname : w'.leds name = target name)
    (hother : ∀ other, other ≠ name → w'.leds other = w.leds other)
    (h : LedsSet target names w' w'') : LedsSet target (name :: names) w w'' where
  policy := h.policy.trans hpolicy
  done other hmem := by
    rcases List.mem_cons.mp hmem with rfl | hmem
    · exact h.before _ hname
    · exact h.done other hmem
  before other hbefore := by
    by_cases heq : other = name
    · exact h.before other (heq ▸ hname)
    · exact h.before other ((hother other heq).trans hbefore)

/-- `restore` puts the LEDs back one after another. -/
theorem restoreLeds_goes (h : Holding w₀ path state w) {leds : List LedRecord}
    (hleds : ∀ r ∈ leds, RecordsLed w₀ r) :
    Goes strict (Recoverable w₀ path) (restoreLeds (leds.map LedRecord.value)) w fun w' _ =>
      Holding w₀ path state w' ∧ LedsSet w₀.leds (leds.map LedRecord.name) w w' := by
  induction leds generalizing w with
  | nil => exact goes_pure ⟨h, rfl, by simp, fun _ hname => hname⟩
  | cons r leds ih =>
    obtain ⟨hr, hleds⟩ := List.forall_mem_cons.mp hleds
    obtain ⟨led, hled, htrigger, hbrightness⟩ := hr.led
    rw [List.map_cons, restoreLeds]
    show Goes strict (Recoverable w₀ path) (if isUserLed r.name = false then _ else _) w _
    rw [if_neg (by simp [hr.user])]
    refine goes_writeTrigger h hr.user ?_
    have h₁ := h.setLed hr.user (Led.storeTrigger noTrigger)
    refine goes_writeBrightness h₁ hr.user ?_
    have h₂ := h₁.setLed hr.user (Led.storeBrightness r.brightness)
    refine goes_writeTrigger h₂ hr.user ?_
    have h₃ := h₂.setLed hr.user (Led.storeTrigger r.trigger)
    refine (ih h₃ hleds).mono fun w' _ hw' => ⟨hw'.1, LedsSet.cons ?_ ?_ ?_ hw'.2⟩
    · rfl
    · obtain ⟨now, hnow⟩ : ∃ now, w.leds r.name = some now := by
        have hpresent := h.disturbed.present r.name
        rw [hled] at hpresent
        exact Option.isSome_iff_exists.mp hpresent
      rw [setLed_self, setLed_self, setLed_self, hnow, htrigger, hled]
      exact congrArg some (now.restored led hbrightness)
    · intro other hother
      rw [setLed_leds hother, setLed_leds hother, setLed_leds hother]

/-- `apply` switches the LEDs off one after another. -/
theorem applyLeds_goes (h : Holding w₀ path state w) {leds : List LedRecord}
    (hleds : ∀ r ∈ leds, RecordsLed w₀ r) :
    Goes strict (Recoverable w₀ path) (applyLeds leds) w fun w' _ => Holding w₀ path state w' ∧
      LedsSet (fun _ => some (.manual off)) (leds.map LedRecord.name) w w' := by
  induction leds generalizing w with
  | nil => exact goes_pure ⟨h, rfl, by simp, fun _ hname => hname⟩
  | cons r leds ih =>
    obtain ⟨hr, hleds⟩ := List.forall_mem_cons.mp hleds
    obtain ⟨led, hled, -, -⟩ := hr.led
    rw [applyLeds]
    refine goes_writeTrigger h hr.user ?_
    have h₁ := h.setLed hr.user (Led.storeTrigger noTrigger)
    refine goes_writeBrightness h₁ hr.user ?_
    have h₂ := h₁.setLed hr.user (Led.storeBrightness off)
    refine (ih h₂ hleds).mono fun w' _ hw' => ⟨hw'.1, LedsSet.cons ?_ ?_ ?_ hw'.2⟩
    · rfl
    · obtain ⟨now, hnow⟩ : ∃ now, w.leds r.name = some now := by
        have hpresent := h.disturbed.present r.name
        rw [hled] at hpresent
        exact Option.isSome_iff_exists.mp hpresent
      rw [setLed_self, setLed_self, hnow]
      exact congrArg some now.switchedOff
    · intro other hother
      rw [setLed_leds hother, setLed_leds hother]

theorem goes_lift {β : Type} {I : Bench → Prop} {r : Except PyError β} {b : β} {f : β → Tool α}
    (hr : r = .ok b) (h : Goes strict I (f b) w Q) : Goes strict I (liftM r >>= f) w Q := by
  subst hr
  exact h

theorem Holding.store (h : Holding w₀ path state w) (text : Name) (a : Attribute)
    (hpolicy : (w.store text a).leds = w.leds)
    (hordered : khz (w.store text a).policy.minimum ≤ khz (w.store text a).policy.maximum)
    (hroom : khz w₀.policy.minimum ≤ khz (w.store text a).policy.maximum) :
    Holding w₀ path state (w.store text a) := by
  obtain ⟨hfile, hstate, d⟩ := h
  refine ⟨?_, hstate, ?_, hordered, hroom, ?_, ?_⟩
  · cases a <;> exact hfile
  · cases a <;> exact d.kernel
  · rw [hpolicy]
    exact d.others
  · rw [hpolicy]
    exact d.present

/-- All LEDs are back when those of the state are. -/
theorem Holding.untouched {w' : Bench} (h : Holding w₀ path state w')
    (hpolicy : w'.policy = w₀.policy)
    (hleds : ∀ name ∈ state.leds.map LedRecord.name, w'.leds name = w₀.leds name) :
    Untouched w₀ w' := by
  refine ⟨h.disturbed.kernel, hpolicy, funext fun name => ?_⟩
  by_cases huser : isUserLed name = true
  · by_cases hthere : w₀.leds name = none
    · have hpresent := h.disturbed.present name
      rw [hthere] at hpresent
      rw [hthere]
      exact Option.isNone_iff_eq_none.mp (by simpa using hpresent)
    · obtain ⟨r, hr, rfl⟩ := h.records.all name huser hthere
      exact hleds _ (List.mem_map_of_mem hr)
  · exact h.disturbed.others name (Bool.eq_false_iff.mpr huser)

theorem State.labelled (state : State) : Labelled state.kernel false state.value :=
  ⟨_, rfl, rfl, rfl, rfl⟩

theorem lookup_filter_ne {entries : List (Name × Value)} {k name : Name} (hne : k ≠ name) :
    (entries.filter (·.1 != name)).lookup k = entries.lookup k := by
  induction entries with
  | nil => rfl
  | cons entry entries ih =>
    rw [List.filter_cons]
    by_cases hentry : entry.1 = name
    · have hskip : (k == entry.1) = false := beq_eq_false_iff_ne.mpr (hentry ▸ hne)
      rw [if_neg (by simp [hentry]), ih, List.lookup_cons, hskip]
    · rw [if_pos (bne_iff_ne.mpr hentry), List.lookup_cons, List.lookup_cons, ih]

/-- An entry with another key stays. -/
theorem setItem_lookup {entries : List (Name × Value)} {name k : Name} {item : Value}
    (hne : k ≠ name) :
    ((name, item) :: entries.filter (·.1 != name)).lookup k = entries.lookup k := by
  have hskip : (k == name) = false := beq_eq_false_iff_ne.mpr hne
  rw [List.lookup_cons, hskip]
  exact lookup_filter_ne hne

/-- Marked as restored. -/
theorem Labelled.restored {kernel : Name} {b : Bool} {v : Value} (h : Labelled kernel b v) :
    ∃ v', setItem v (key "restored") (.bool true) = .ok v' ∧ ∀ now, ∃ v'',
      setItem v' (key "restored_unix") (.float now) = .ok v'' ∧ Labelled kernel true v'' := by
  obtain ⟨entries, rfl, hschema, hkernel, -⟩ := h
  refine ⟨_, rfl, fun now => ⟨_, rfl, _, rfl, ?_, ?_, ?_⟩⟩
  · rw [setItem_lookup (by decide), setItem_lookup (by decide), hschema]
  · rw [setItem_lookup (by decide), setItem_lookup (by decide), hkernel]
  · rw [setItem_lookup (by decide)]
    rfl

/-- A restore that returns has put everything back, and it fails only where a
call does. -/
theorem restore_goes (h : Recoverable w₀ path w)
    (hpolicy : khz w₀.policy.minimum ≤ khz w₀.policy.maximum) :
    Goes strict (Recoverable w₀ path) (restore path) w fun w' _ => Untouched w₀ w' := by
  rw [restore]
  refine goes_ask h (fun _ => trivial) (fun _ => rfl) fun r hloaded hfailed => ?_
  cases r with
  | error e => exact Bool.eq_false_iff.mpr fun hstrict => hfailed hstrict fun _ => nofun
  | ok v =>
  have hfile : w.files path = some (.document v) := hloaded v rfl
  refine goes_lift rfl ?_
  obtain ⟨b, hlabelled, hkernel₀, hsame, hheld⟩ : ∃ b, Labelled w₀.kernel b v ∧
      w.kernel = w₀.kernel ∧ (b = true → Untouched w₀ w) ∧
      (b = false → ∃ state, v = state.value ∧ Holding w₀ path state w) := by
    cases h with
    | fresh hnone => exact absurd (hfile.symm.trans hnone) (Option.some_ne_none _)
    | recorded state h =>
      obtain rfl : state.value = v := Doc.document.inj (Option.some.inj (h.file.symm.trans hfile))
      exact ⟨false, h.records.kernel ▸ state.labelled, h.disturbed.kernel,
        fun heq => absurd heq Bool.false_ne_true, fun _ => ⟨state, rfl, h⟩⟩
    | restored v' h hv same =>
      obtain rfl : v' = v := Doc.document.inj (Option.some.inj (h.symm.trans hfile))
      exact ⟨true, hv, same.kernel, fun _ => same, fun heq => absurd heq.symm Bool.false_ne_true⟩
  have hmarked := hlabelled.restored
  obtain ⟨entries, rfl, hschema, hkernel, hrestored⟩ := hlabelled
  -- the state is one of this kernel
  have hget {name : Name} {item : Value} (hitem : entries.lookup name = some item) :
      (Value.dict entries).get name .none = .ok item := by
    rw [Value.get, hitem]
    rfl
  refine goes_lift (hget hschema) (goes_ite (fun hno => absurd hno (by decide)) fun _ => ?_)
  refine goes_lift (hget hkernel) ?_
  refine goes_ask h (fun _ => trivial) (fun _ => rfl) fun release hrelease _ => ?_
  have hrelease : release = w₀.kernel := hkernel₀ ▸ hrelease
  refine goes_ite (fun hno => absurd hno (by simp [Value.eqStr, hrelease])) fun _ => ?_
  refine goes_lift (hget hrestored) (goes_ite (fun hdone => ?_) fun hnot => ?_)
  · exact goes_say h (hsame hdone)
  obtain ⟨state, hstate, hheld⟩ := hheld (Bool.eq_false_iff.mpr hnot)
  rw [hstate] at hmarked ⊢
  have hcpu := hheld.records.cpu
  have hd := hheld.disturbed
  -- the minimum first, so that the maximum never conflicts
  refine goes_lift rfl (goes_lift rfl ?_)
  rw [hcpu]
  have h₁ := hheld.store w₀.policy.minimum .minimum rfl hd.room hd.room
  refine goes_write attributeOf_minimum h hd.room h₁.recoverable (goes_lift rfl ?_)
  have h₂ := h₁.store w₀.policy.maximum .maximum rfl hpolicy hpolicy
  refine goes_write attributeOf_maximum h₁.recoverable hpolicy h₂.recoverable (goes_lift rfl ?_)
  have h₃ := h₂.store w₀.policy.governor .governor rfl hpolicy hpolicy
  refine goes_write attributeOf_governor h₂.recoverable trivial h₃.recoverable ?_
  -- the LEDs
  refine goes_lift rfl (goes_lift rfl ?_)
  refine goes_bind.mpr ((restoreLeds_goes h₃ hheld.records.leds).mono ?_)
  rintro w' - ⟨h₄, hset⟩
  have hback := h₄.untouched hset.policy hset.done
  -- the mark
  obtain ⟨v', hv', hmarked⟩ := hmarked
  refine goes_lift hv' ?_
  refine goes_ask h₄.recoverable (fun _ => trivial) (fun _ => rfl) fun now _ _ => ?_
  obtain ⟨v'', hv'', hlabelled⟩ := hmarked now
  refine goes_lift hv'' ?_
  have hend : Untouched w₀ ((w'.setFile (temporary path) none).setFile path (some (.document v''))) :=
    ⟨hback.kernel, hback.policy, hback.leds⟩
  have hI : Recoverable w₀ path
      ((w'.setFile (temporary path) none).setFile path (some (.document v''))) :=
    .restored v'' (Function.update_self _ _ _) hlabelled hend
  exact goes_save h₄.recoverable h₄.recoverable.beside hI (goes_say hI hend)

theorem verifyFixed_goes {I : Bench → Prop} (hI : I w) (names : List String) :
    Goes false I (verifyFixed names) w fun w' _ => w' = w := by
  induction names with
  | nil => exact goes_pure rfl
  | cons name names ih =>
    rw [verifyFixed]
    exact goes_read hI fun _ _ => goes_ite (fun _ => goes_throw rfl) fun _ => ih

theorem Records.of_untouched (h : Records w state) (hsame : Untouched w₀ w) : Records w₀ state where
  kernel := hsame.kernel ▸ h.kernel
  cpu := hsame.policy ▸ h.cpu
  leds r hr := ⟨(h.leds r hr).user, hsame.leds ▸ (h.leds r hr).led⟩
  all := hsame.leds ▸ h.all

/-- The state file is replaced. -/
theorem Disturbed.holding (path : Name) (h : Disturbed w₀ w) (hstate : Records w₀ state) :
    Holding w₀ path state
      ((w.setFile (temporary path) none).setFile path (some (.document state.value))) :=
  ⟨Function.update_self _ _ _, hstate, h.kernel, h.ordered, h.room, h.others, h.present⟩

/-- An apply that returns has found the settings as they were, and pinned them. -/
theorem apply_goes (h : Recoverable w₀ path w)
    (hpolicy : khz w₀.policy.minimum ≤ khz w₀.policy.maximum)
    (hrange : khz w₀.policy.minimum ≤ khz fixedFrequency) :
    Goes false (Recoverable w₀ path) (apply path) w fun w' _ => Untouched w₀ w ∧ Pinned w' := by
  rw [apply]
  refine goes_ask h (fun _ => trivial) (fun _ => rfl) fun there hthere _ => ?_
  refine goes_ite (fun _ => goes_throw rfl) fun hnot => ?_
  have hnone : w.files path = none := not_not.mp fun hne => hnot (hthere hne)
  have hsame : Untouched w₀ w := by
    cases h with
    | fresh _ same => exact same
    | recorded state h => exact absurd (hnone.symm.trans h.file) nofun
    | restored v h => exact absurd (hnone.symm.trans h) nofun
  refine goes_bind.mpr ((inspectState_goes h).mono ?_)
  rintro w' state ⟨hw, hstate⟩
  obtain rfl : w = w' := hw.symm
  have hstate := hstate.of_untouched hsame
  have hmin : khz w.policy.minimum ≤ khz fixedFrequency := hsame.policy ▸ hrange
  -- what is needed to restore comes first
  have h₀ : Holding w₀ path state
      ((w.setFile (temporary path) none).setFile path (some (.document state.value))) :=
    (hsame.disturbed hpolicy).holding path hstate
  refine goes_save h h.beside h₀.recoverable ?_
  have h₁ := h₀.store fixedFrequency .maximum rfl hmin hrange
  refine goes_write attributeOf_maximum h₀.recoverable hmin h₁.recoverable ?_
  have h₂ := h₁.store fixedFrequency .minimum rfl (Nat.le_refl _) hrange
  refine goes_write attributeOf_minimum h₁.recoverable (Nat.le_refl _) h₂.recoverable ?_
  have h₃ := h₂.store "performance".toList .governor rfl (Nat.le_refl _) hrange
  refine goes_write attributeOf_governor h₂.recoverable trivial h₃.recoverable ?_
  refine goes_bind.mpr ((applyLeds_goes h₃ hstate.leds).mono ?_)
  rintro w' - ⟨h₄, hset⟩
  refine goes_bind.mpr ((verifyFixed_goes h₄.recoverable _).mono ?_)
  rintro w'' - hw''
  obtain rfl : w' = w'' := hw''.symm
  refine goes_ask h₄.recoverable (fun _ => trivial) (fun _ => rfl) fun now _ _ => ?_
  -- the state once more, with the time
  have hstate' : Records w₀ { state with applied := some now } :=
    ⟨hstate.kernel, hstate.cpu, hstate.leds, hstate.all⟩
  have h₅ := h₄.disturbed.holding path hstate'
  refine goes_save h₄.recoverable h₄.recoverable.beside h₅.recoverable ?_
  refine goes_say h₅.recoverable ⟨hsame, hset.policy, fun name led huser hled => ?_⟩
  have hled : w'.leds name = some led := hled
  have hthere : w₀.leds name ≠ none := by
    intro hnone
    have hpresent := h₄.disturbed.present name
    rw [hled, hnone] at hpresent
    cases hpresent
  obtain ⟨r, hr, rfl⟩ := hstate.all name huser hthere
  exact Option.some.inj (hled.symm.trans (hset.done _ (List.mem_map_of_mem hr)))

/-! ### Commands -/

theorem check_goes (h : Recoverable w₀ path w) :
    Goes false (Recoverable w₀ path) Command.check.body w fun _ _ => True := by
  refine goes_bind.mpr ((inspectState_goes h).mono ?_)
  rintro _ _ ⟨rfl, -⟩
  exact goes_say h trivial

/-- The exit code is 0 where the command returns. -/
theorem wp_main {I : Bench → Prop} (hI : I w) (command : Command) {P : Bench → Prop}
    (h : Goes strict I command.body w fun w' _ => P w') :
    ((world strict).keeping I).wp (main command) w fun w' code =>
      (code = 0 → P w') ∧ (strict = true → code = 0) := by
  rw [main]
  refine Monitor.wp_op_bind fun id henv => ⟨⟨trivial, hI⟩, ?_⟩
  refine Monitor.wp_ite.mpr ⟨fun hid => ?_, fun _ => ?_⟩
  · exact ⟨fun hcode => absurd hcode (by decide), fun hstrict => absurd hid (henv.2 hstrict)⟩
  · refine Monitor.wp_bind.mpr (Monitor.wp_mono (Monitor.keeping_wp hI h) ?_)
    rintro w' (e | a) ⟨hexit, hI'⟩
    · refine Monitor.wp_op_bind fun _ _ => ⟨⟨trivial, hI'⟩, ?_⟩
      refine ⟨fun hcode => absurd hcode (by decide), fun hstrict => ?_⟩
      exact absurd (hstrict.symm.trans hexit) (by decide)
    · exact ⟨fun _ => hexit, fun _ => rfl⟩

theorem envAlong_strict {t : List BenchEvent} (h : (world false).EnvAlong w t)
    (ht : ∀ e ∈ t, ¬ Failed e) : (world true).EnvAlong w t := by
  induction t generalizing w with
  | nil => trivial
  | cons e t ih =>
    obtain ⟨he, ht⟩ := List.forall_mem_cons.mp ht
    exact ⟨⟨h.1.1, fun _ => he⟩, ih h.2 ht⟩

end Recover

/-- The tool as it is called with one state file. -/
def Uses (path : Name) (p : Prog BenchOp BenchRes Nat) : Prop :=
  p = main .check ∨ p = main (.apply path) ∨ p = main (.restore path)

/-- **Every preparation can be undone.**  After any number of commands on one
state file, each cut off anywhere, with calls of the system that fail: no write
has asked for a minimum above the maximum; without a state file the settings
are as they were; an apply that succeeds has found them so, and has pinned
them; and a restore that succeeds has put them back, and fails only where a
call does. -/
theorem prepare_recovers (path : Name) (w₀ w : Bench) (t : List BenchEvent)
    (hnew : w₀.files path = none) (hpolicy : khz w₀.policy.minimum ≤ khz w₀.policy.maximum)
    (hrange : khz w₀.policy.minimum ≤ khz fixedFrequency)
    (hsession : (world false).Sessions (Uses path) w₀ t w) :
    (∀ pre e post, t = pre ++ e :: post → NoConflict ((world false).run w₀ pre) e) ∧
      (w.files path = none → Untouched w₀ w) ∧
      (∀ u, (main (.apply path)).Runs u 0 → (world false).EnvAlong w u →
        Untouched w₀ w ∧ Pinned ((world false).run w u)) ∧
      ∀ u code, (main (.restore path)).Runs u code → (world false).EnvAlong w u →
        (code = 0 → Untouched w₀ ((world false).run w u)) ∧
          ((∀ e ∈ u, ¬ Failed e) → code = 0) := by
  have hstart : Recoverable w₀ path w₀ := .fresh hnew ⟨rfl, rfl, rfl⟩
  have hkeep (p : Prog BenchOp BenchRes Nat) (hp : Uses path p) (w : Bench)
      (h : Recoverable w₀ path w) :
      ((world false).keeping (Recoverable w₀ path)).wp p w fun _ _ => True := by
    rcases hp with rfl | rfl | rfl
    · exact Monitor.wp_mono (wp_main h .check (check_goes h)) fun _ _ _ => trivial
    · exact Monitor.wp_mono (wp_main h (.apply path) (apply_goes h hpolicy hrange)) fun _ _ _ => trivial
    · exact Monitor.wp_mono (wp_main h (.restore path) (restore_goes h hpolicy)) fun _ _ _ => trivial
  obtain ⟨hsafe, h⟩ := Monitor.sessions_keep hkeep hstart hsession
  refine ⟨?_, fun hnone => ?_, fun u hruns henv => ?_,
    fun u code hruns henv => ⟨fun hcode => ?_, fun ht => ?_⟩⟩
  · rintro pre e post rfl
    exact hsafe.at
  · cases h with
    | fresh _ same => exact same
    | recorded state h => exact absurd (hnone.symm.trans h.file) (Option.some_ne_none _).symm
    | restored v h => exact absurd (hnone.symm.trans h) (Option.some_ne_none _).symm
  · exact (Monitor.wp_runs (wp_main h (.apply path) (apply_goes h hpolicy hrange)) hruns
      (Monitor.keeping_envAlong.mpr henv)).2.1 rfl
  · exact (Monitor.wp_runs (wp_main h (.restore path) (restore_goes h hpolicy)) hruns
      (Monitor.keeping_envAlong.mpr henv)).2.1 hcode
  · have hgoes : Goes true (Recoverable w₀ path) (restore path) w fun w' _ => Untouched w₀ w' :=
      restore_goes h hpolicy
    exact (Monitor.wp_runs (wp_main h (.restore path) hgoes) hruns
      (Monitor.keeping_envAlong.mpr (envAlong_strict henv ht))).2.2 rfl

/-! ### A kernel that refuses nothing -/

/-- What is read, if it comes back as it is. -/
def line (text : Name) : Option Name :=
  if strip (text ++ ['\n']) = text then some (text ++ ['\n']) else none

def Bench.shown (w : Bench) : Attribute → Option Name
  | .governor => line w.policy.governor
  | .minimum => line w.policy.minimum
  | .maximum => line w.policy.maximum
  | .trigger name => (w.leds name).bind fun led =>
    if ']' ∈ led.trigger ∨ led.trigger = [] then none else line ('[' :: led.trigger ++ [']'])
  | .brightness name => (w.leds name).bind fun
    | .manual brightness => line brightness
    | .triggered _ _ => some "255".toList

/-- The other files that the tool reads. -/
def plainFile (path : Name) : Option Name :=
  [("/sys/devices/system/cpu/online".toList, "0".toList),
    ("/proc/swaps".toList, "Filename Type Size Used Priority".toList),
    (cpuPath "scaling_available_frequencies", "300000 600000 800000 1000000".toList),
    (cpuPath "scaling_cur_freq", fixedFrequency)].lookup path

def Bench.reply (names : List Name) (w : Bench) : (o : BenchOp) → BenchRes o
  | .geteuid => (0 : Nat)
  | .release => w.kernel
  | .time => (0 : ℚ)
  | .exists path => (w.files path).isSome
  | .read path => ((attributeOf path).map w.shown).getD (plainFile path)
  | .listdir => some names
  | .openWrite _ | .writeLine .. | .fsync _ => true
  | .dump path _ => (attributeOf path).isNone
  | .rename source target => (attributeOf source).isNone && (attributeOf target).isNone
  | .load path =>
    match w.files path with
    | some (.document v) => .ok v
    | _ => .error (.raised "IOError")
  | .say _ | .report _ => ()

/-- The kernel as an environment. -/
def Bench.answer (names : List Name) (w : Bench) (o : BenchOp) : BenchRes o × Bench :=
  (w.reply names o, w.after ⟨o, w.reply names o⟩)

section Answer

variable {w : Bench} {names : List Name}

theorem line_eq {text shown : Name} (h : line text = some shown) : strip shown = text := by
  rw [line] at h
  split at h
  · obtain rfl := Option.some.inj h
    assumption
  · cases h

theorem shown_shows {text : Name} {a : Attribute} (h : w.shown a = some text) : Shows w text a := by
  cases a with
  | governor => exact line_eq h
  | minimum => exact line_eq h
  | maximum => exact line_eq h
  | trigger name =>
    obtain ⟨led, hled, h⟩ := Option.bind_eq_some_iff.mp h
    split at h
    · cases h
    · rename_i hplain
      obtain ⟨hclosed, hne⟩ := not_or.mp hplain
      exact ⟨led, [], [], hled, line_eq h, by simp, by simp, hclosed, hne⟩
  | brightness name =>
    obtain ⟨led, hled, h⟩ := Option.bind_eq_some_iff.mp h
    refine ⟨led, hled, ?_⟩
    rintro brightness rfl
    exact line_eq h

theorem reply_promised (hnames : ∀ name, name ∈ names ↔ w.leds name ≠ none) (o : BenchOp) :
    Promised w ⟨o, w.reply names o⟩ := by
  cases o with
  | «exists» path => exact fun hne => Option.isSome_iff_ne_none.mpr hne
  | read path =>
    intro text a htext ha
    have htext : ((attributeOf path).map w.shown).getD (plainFile path) = some text := htext
    rw [ha] at htext
    exact shown_shows htext
  | listdir =>
    intro list hlist
    obtain rfl := Option.some.inj hlist
    exact hnames
  | dump path v => exact fun h => Option.isNone_iff_eq_none.mp h
  | rename source target =>
    intro h
    obtain ⟨hsource, htarget⟩ := (Bool.and_eq_true _ _).mp h
    exact ⟨Option.isNone_iff_eq_none.mp hsource, Option.isNone_iff_eq_none.mp htarget⟩
  | load path =>
    intro v hv
    have hv : (match w.files path with
      | some (.document v) => Except.ok v
      | _ => .error (PyError.raised "IOError")) = .ok v := hv
    split at hv
    · cases hv
      assumption
    · cases hv
  | release => rfl
  | _ => trivial

theorem setLed_none {name other : Name} {f : Led → Led} :
    (w.setLed name f).leds other = none ↔ w.leds other = none := by
  by_cases heq : other = name
  · rw [heq, setLed_self, Option.map_eq_none_iff]
  · rw [setLed_leds heq]

/-- No LED comes or goes. -/
theorem after_none (e : BenchEvent) (name : Name) :
    (w.after e).leds name = none ↔ w.leds name = none := by
  obtain ⟨o, r⟩ := e
  cases o with
  | openWrite path =>
    rw [Bench.after]
    split <;> rfl
  | writeLine path text =>
    rw [Bench.after]
    split
    · cases attributeOf path with
      | none => rfl
      | some a =>
        cases a with
        | trigger led => exact setLed_none
        | brightness led => exact setLed_none
        | _ => rfl
    · rfl
  | rename source target =>
    rw [Bench.after]
    split <;> rfl
  | _ => rfl

theorem run_none (t : List BenchEvent) (name : Name) :
    ((world false).run w t).leds name = none ↔ w.leds name = none := by
  induction t generalizing w with
  | nil => exact Iff.rfl
  | cons e t ih => exact ih.trans (after_none e name)

/-- Every run against it keeps the promises. -/
theorem answer_envAlong (hnames : ∀ name, name ∈ names ↔ w.leds name ≠ none)
    (p : Prog BenchOp BenchRes Nat) :
    (world false).EnvAlong w (p.execWith (Bench.answer names) w).1 := by
  induction p generalizing w with
  | ret code => trivial
  | call o k ih =>
    exact ⟨⟨reply_promised hnames o, fun h => absurd h Bool.false_ne_true⟩,
      ih _ fun name => (hnames name).trans (not_congr (after_none _ name)).symm⟩

end Answer

/-- One LED shows the heartbeat, and one is on. -/
def referenceBench : Bench where
  kernel := referenceKernel
  policy := ⟨"ondemand".toList, "300000".toList, "800000".toList⟩
  leds name := (userLeds.zip [Led.triggered "heartbeat".toList (by decide), .manual "255".toList,
    .manual off, .manual off]).lookup name
  files _ := none

def statePath : Name := "/root/state.json".toList

/-- The first apply is cut off at the third LED. -/
def cutRun : List BenchEvent :=
  ((main (.apply statePath)).execWith (Bench.answer userLeds) referenceBench).1.take 40

def cutBench : Bench := (world false).run referenceBench cutRun

/-- An apply that was cut off, and the restore from what it has left. -/
theorem prepare_recovers_cut :
    cutBench.policy = ⟨"performance".toList, fixedFrequency, fixedFrequency⟩ ∧
      Untouched referenceBench ((world false).run cutBench
        ((main (.restore statePath)).execWith (Bench.answer userLeds) cutBench).1) := by
  have hnames (name : Name) : name ∈ userLeds ↔ referenceBench.leds name ≠ none := by
    have hlookup : referenceBench.leds name = none ↔ name ∉ userLeds := by
      rw [referenceBench, List.lookup_eq_none_iff]
      simp [userLeds]
    rw [ne_eq, hlookup, not_not]
  -- the part of the run
  have happly : (main (.apply statePath)).Runs
      (cutRun ++ ((main (.apply statePath)).execWith (Bench.answer userLeds) referenceBench).1.drop 40)
      ((main (.apply statePath)).execWith (Bench.answer userLeds) referenceBench).2 := by
    rw [cutRun, List.take_append_drop]
    exact Prog.execWith_runs _ _ _
  obtain ⟨q, hsteps, -⟩ := happly.split
  have henv : (world false).EnvAlong referenceBench cutRun := by
    have hall := answer_envAlong hnames (main (.apply statePath))
    rw [← List.take_append_drop 40 (Prog.execWith _ _ _).1] at hall
    exact (Monitor.envAlong_append.mp hall).1
  have hsession : (world false).Sessions (Uses statePath) referenceBench cutRun cutBench := by
    have huses : Uses statePath (main (.apply statePath)) := .inr (.inl rfl)
    have hone := Monitor.Sessions.cons huses hsteps henv (.nil _)
    rwa [List.append_nil] at hone
  have hcut (name : Name) : name ∈ userLeds ↔ cutBench.leds name ≠ none :=
    (hnames name).trans (not_congr (run_none cutRun name)).symm
  obtain ⟨-, -, -, hrestore⟩ := prepare_recovers statePath referenceBench cutBench cutRun rfl
    (by decide) (by decide) hsession
  refine ⟨by decide +kernel, ?_⟩
  exact (hrestore _ _ (Prog.execWith_runs _ _ _) (answer_envAlong hcut _)).1 (by decide +kernel)

end Dld.Prepare
