/-
DldDriver/Capture/Channel.lean

`analyze_channel` in the mode `dld`: the timing of every complete pulse and
gap, the bursts between resets, and the content of each burst.

Violations are kept by kind, in the order in which they are found; examples,
statistics and the parts of the report that nothing reads are left out.
-/
import DldDriver.Capture.Colors

namespace Dld

namespace Capture

/-! ### Options and results -/

/-- What a check found. -/
inductive Violation
  | highWidth
  | lowWidth
  | bitPeriod
  | resetTooShort
  | lowWidthUnknownPreviousBit
  | partialHighAlreadyTooLong
  | disabledChannelNotLow
  | frameBitCount
  | frameContent
  | colorSequence
  | noCompleteFrames
  | expectedFrameCount
  | bankPinStartMismatch
  | bankPinColorMismatch
  | bankRiseSkew
  | bankFallSkew
  | bankOrder
  | bankOverlap
  | bankColorMismatch
  deriving DecidableEq

/-- The options after the argument parser; no sequence is the empty one. -/
structure Args where
  profile : PixelType
  sequence : List String := []
  allowAnyColor : Bool := false
  expectedFrames : Option Int := none
  bankOrder : Bool := false
  bankSkewNs : ℚ := 50
  toleranceNs : ℚ := 50
  resetSeparatorUs : ℚ := 50
  minResetUs : ℚ := 300
  maxExamples : Int := 40

/-- A burst, complete or at a boundary of the capture. -/
structure Frame where
  startS : ℚ
  lastFallS : Option ℚ
  bits : Nat
  observedRiseIndex : Nat
  observedCompletePulses : Nat
  missingStartBoundary : Bool
  missingEndBoundary : Bool
  rgb : Option String
  contentValid : Option Bool
  deriving DecidableEq

/-- `violations.array`: one violation for each index where `bad` holds. -/
def flag (kind : Violation) (bad : Nat → Bool) (indices : List Nat) : List Violation :=
  (indices.filter bad).map fun _ => kind

namespace Digital

variable (data : Digital) (args : Args)

/-! ### Pulses and gaps -/

/-- The high of pulse `i`, its low up to the next rise and the distance of
the two rises, in nanoseconds. -/
def high (i : Nat) : ℚ := (data.fall i - data.rise i) * 10 ^ 9
def low (i : Nat) : ℚ := (data.rise (i + 1) - data.fall i) * 10 ^ 9
def period (i : Nat) : ℚ := (data.rise (i + 1) - data.rise i) * 10 ^ 9

/-- The bit of pulse `i`. -/
def bit (i : Nat) : Bool := decide (data.high i ≥ 525)

/-- `args.tolerance_ns + eps` -/
def slack : ℚ := args.toleranceNs + data.epsilonNs

def highTarget (i : Nat) : ℚ := if data.bit i then 700 else 350
def lowTarget (i : Nat) : ℚ := if data.bit i then 500 else 850

/-- A low of this length separates bursts, or is long enough for a reset. -/
def separates (low : ℚ) : Bool := decide (low ≥ args.resetSeparatorUs * 1000 - data.epsilonNs)
def tooShort (low : ℚ) : Bool := decide (low < args.minResetUs * 1000 - data.epsilonNs)

def reset (i : Nat) : Bool := data.separates args (data.low i)

/-- The timing of one chunk, and the bursts that begin in it. -/
def timingChunk (offset : Nat) : List Violation × List Nat :=
  let stop := min data.completePulses (offset + chunk)
  let pulses := List.range' offset (stop - offset)
  let gapStop := min stop (data.riseCount - 1)
  let gaps := List.range' offset (gapStop - offset)
  (flag .highWidth (fun i => decide (|data.high i - data.highTarget i| > data.slack args)) pulses ++
    flag .lowWidth (fun i => !data.reset args i &&
      decide (|data.low i - data.lowTarget i| > data.slack args)) gaps ++
    flag .bitPeriod (fun i => !data.reset args i &&
      decide (|data.period i - 1200| > data.slack args)) gaps ++
    flag .resetTooShort (fun i => data.reset args i && data.tooShort args (data.low i)) gaps,
   (gaps.filter (data.reset args)).map (· + 1))

def timing : List Violation :=
  (chunkOffsets data.completePulses).flatMap fun offset => (data.timingChunk args offset).1

/-- `edges`: the rises that follow a reset. -/
def edges : List Nat :=
  (chunkOffsets data.completePulses).flatMap fun offset => (data.timingChunk args offset).2

/-! ### The boundaries of the capture -/

/-- The low after a high that was cut by the begin of the capture. -/
def initialLow : ℚ := (data.rise 0 - data.transition 0) * 10 ^ 9

def initialLowViolations : List Violation :=
  if data.initial = true ∧ data.count ≠ 0 ∧ data.riseCount ≠ 0 then
    if data.separates args data.initialLow then
      if data.tooShort args data.initialLow then [.resetTooShort] else []
    else if min |data.initialLow - 500| |data.initialLow - 850| > data.slack args then
      [.lowWidthUnknownPreviousBit]
    else []
  else []

/-- `partial_highs`: what is seen of the highs that are cut. -/
def partialHighs : List ℚ :=
  (if data.initial then
    [((if data.count ≠ 0 then data.transition 0 else data.endS) - data.beginS) * 10 ^ 9] else []) ++
  if data.finalState = true ∧ ¬ (data.initial = true ∧ data.count = 0) then
    [(data.endS - data.transition (data.count - 1)) * 10 ^ 9] else []

def boundaryViolations (length : Nat) : List Violation :=
  (data.partialHighs.filter fun high => decide (high > 700 + data.slack args)).map
      (fun _ => .partialHighAlreadyTooLong) ++
    if length = 0 ∧ (data.initial = true ∨ data.count ≠ 0) then [.disabledChannelNotLow] else []

/-! ### Bursts -/

/-- `boundaries` as pairs of neighbours. -/
def bursts : List (Nat × Nat) :=
  (0 :: data.edges args).zip (data.edges args ++ [data.riseCount])

/-- Where the last low before the first rise is seen from. -/
def firstLowStart : ℚ := if data.initial = true ∧ data.count ≠ 0 then data.transition 0 else data.beginS

def hasFall (stop : Nat) : Bool := decide (stop ≤ data.completePulses)

/-- `end_s` -/
def lastFall (stop : Nat) : ℚ := if data.hasFall stop then data.fall (stop - 1) else data.endS

def leadingReset (start : Nat) : Bool :=
  decide (start > 0) || decide ((data.rise start - data.firstLowStart) * 10 ^ 6 ≥
    args.minResetUs - data.epsilonNs / 1000)

def trailingReset (stop : Nat) : Bool :=
  decide (stop < data.riseCount) || (data.hasFall stop &&
    decide ((data.endS - data.lastFall stop) * 10 ^ 6 ≥ args.minResetUs - data.epsilonNs / 1000))

def complete (start stop : Nat) : Bool :=
  data.leadingReset args start && data.trailingReset args stop && data.hasFall stop

/-- The bits of the complete pulses of a burst. -/
def observed (start stop : Nat) : List Bool :=
  (List.range' start (min stop data.completePulses - start)).map data.bit

/-- A pattern of 24 bits, repeated from a phase on. -/
def repeated (bits : List Bool) (phase n : Nat) : List Bool :=
  (List.range n).map fun i => bits.getD ((i + phase) % 24) false

/-- The colours that a burst agrees with; `none` stands for a repeated pixel
of unknown phase. -/
def contentMatches (patterns : List (String × List Bool)) (expectedBits start stop : Nat) :
    List (Option String) :=
  let leading := data.leadingReset args start
  let trailing := data.trailingReset args stop
  let phase := if leading then 0 else (expectedBits - (stop - start)) % 24
  let observed := data.observed start stop
  if observed.length ≥ 24 ∧ args.allowAnyColor = true then
    let candidate := observed.take 24
    if observed = repeated candidate 0 observed.length then
      if leading || trailing then [some (rgbText args.profile (roll candidate phase))] else [none]
    else []
  else if observed ≠ [] ∧ args.allowAnyColor = false then
    let phases := if leading || trailing then [phase] else List.range 24
    (patterns.filter fun (_, pattern) =>
      phases.any fun phase => observed = repeated pattern phase observed.length).map
      fun (color, _) => some color
  else []

/-- Whether the content of a burst can be checked at all. -/
def checkable (start stop : Nat) : Bool :=
  let n := (data.observed start stop).length
  decide (n ≠ 0) && (!args.allowAnyColor || decide (n ≥ 24))

/-- The record of a burst before its content has been looked at. -/
def record (start stop : Nat) : Frame where
  startS := data.rise start
  lastFallS := if data.hasFall stop then some (data.fall (stop - 1)) else none
  bits := stop - start
  observedRiseIndex := start
  observedCompletePulses := min stop data.completePulses - start
  missingStartBoundary := !data.leadingReset args start
  missingEndBoundary := !data.trailingReset args stop || !data.hasFall stop
  rgb := none
  contentValid := none

/-- The content of a burst is checked unless the string is disabled or the
burst is too long. -/
def contentRead (length start stop : Nat) : Bool :=
  decide (length ≠ 0) && decide (stop - start ≤ 24 * length)

/-- The record of a burst. -/
def frameOf (patterns : List (String × List Bool)) (length start stop : Nat) : Frame :=
  let matched := data.contentMatches args patterns (24 * length) start stop
  if contentRead length start stop then
    { data.record args start stop with
      contentValid := if data.checkable args start stop then some (decide (matched ≠ [])) else none
      rgb := match matched with
        | [color] => color
        | _ => none }
  else data.record args start stop

/-- The violations of one burst by itself. -/
def frameViolations (patterns : List (String × List Bool)) (length start stop : Nat) :
    List Violation :=
  if length = 0 then []
  else
    (if (data.complete args start stop = true ∧ stop - start ≠ 24 * length) ∨
        stop - start > 24 * length then [.frameBitCount] else []) ++
    if contentRead length start stop ∧ data.checkable args start stop ∧
        data.contentMatches args patterns (24 * length) start stop = [] then [.frameContent] else []

/-- The loop over the bursts: the records and the places in the sequence. -/
structure Scan where
  frames : List Frame := []
  partials : List Frame := []
  positions : Option (List Nat) := none
  violations : List Violation := []

/-- The places of the sequence a colour may be at. -/
def nextPositions (sequence : List String) (color : String) : Option (List Nat) → List Nat
  | none => (List.range sequence.length).filter fun i => sequence[i]? = some color
  | some positions => (positions.map fun i => (i + 1) % sequence.length).filter fun i =>
      sequence[i]? = some color

/-- The sequence check of a complete frame with a colour. -/
def sequenceStep (s : Scan) (rgb : Option String) : Scan :=
  match rgb with
  | none => s
  | some color =>
    if args.sequence = [] then s
    else
      let positions := nextPositions args.sequence color s.positions
      if positions = [] then
        { s with positions := none, violations := s.violations ++ [.colorSequence] }
      else { s with positions := some positions }

def scanBurst (patterns : List (String × List Bool)) (length : Nat) (s : Scan) (burst : Nat × Nat) :
    Scan :=
  let (start, stop) := burst
  if stop = start then s
  else
    let frame := data.frameOf args patterns length start stop
    let s := { s with
      violations := s.violations ++ data.frameViolations args patterns length start stop }
    if data.complete args start stop then
      sequenceStep args { s with frames := s.frames ++ [frame] } frame.rgb
    else { s with partials := s.partials ++ [frame] }

def scan (patterns : List (String × List Bool)) (length : Nat) : Scan :=
  (data.bursts args).foldl (data.scanBurst args patterns length) {}

end Digital

/-- What `analyze_channel` returns. -/
structure ChannelResult where
  data : Digital
  frames : List Frame
  partials : List Frame
  violations : List Violation

def frameCountViolations (args : Args) (length frames : Nat) : List Violation :=
  if length = 0 then []
  else
    (if frames = 0 then [.noCompleteFrames] else []) ++
    if ∃ n ∈ args.expectedFrames, (frames : Int) ≠ n then [.expectedFrameCount] else []

def analyzeChannel (data : Digital) (args : Args) (patterns : List (String × List Bool))
    (length : Nat) : ChannelResult :=
  let s := data.scan args patterns length
  { data := data
    frames := s.frames
    partials := s.partials
    violations := data.timing args ++ data.initialLowViolations args ++
      data.boundaryViolations args length ++ s.violations ++
      frameCountViolations args length s.frames.length }

end Capture

end Dld
