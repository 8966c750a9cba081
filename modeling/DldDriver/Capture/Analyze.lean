/-
DldDriver/Capture/Analyze.lean

`analyze` in the mode `dld`, and the option checks of `main` before it.  The
six channels are open already; reading the configuration file and naming the
capture files are not modelled, nor is the report beyond its verdict.
-/
import DldDriver.Capture.Banks

namespace Dld

namespace Capture

/-! ### The command line -/

/-- What `parse_config` returns. -/
structure PanelConfig where
  pixelType : PixelType
  stringLengths : Fin 6 → Nat
  bounded : ∀ i, stringLengths i ≤ 300

/-- The options as the argument parser leaves them; the lists are split at
the commas, and an absent one is empty. -/
structure Options where
  colors : List String := []
  sequence : List String := []
  allowAnyColor : Bool := false
  expectedFrames : Option Int := none
  bankOrder : Bool := false
  bankSkewNs : ℚ := 50
  toleranceNs : ℚ := 50
  resetSeparatorUs : ℚ := 50
  minResetUs : ℚ := 300
  maxExamples : Int := 40

/-- The test of `main`. -/
def Options.valid (o : Options) : Bool :=
  decide (0 < o.toleranceNs) && decide (0 < o.bankSkewNs) && decide (0 < o.resetSeparatorUs) &&
    decide (0 < o.minResetUs) && decide (o.toleranceNs < 175) &&
    decide (1200 + o.toleranceNs < o.resetSeparatorUs * 1000) &&
    decide (o.resetSeparatorUs ≤ o.minResetUs) && decide (0 ≤ o.maxExamples) &&
    decide (∀ n ∈ o.expectedFrames, 0 ≤ n)

/-- Every colour, normalised. -/
def normalizeColors : List String → Except InputError (List String)
  | [] => .ok []
  | value :: rest =>
    match normalizeColor value with
    | .error e => .error e
    | .ok color =>
      match normalizeColors rest with
      | .error e => .error e
      | .ok colors => .ok (color :: colors)

/-- The colours and the sequence that are checked for. -/
def chooseColors (o : Options) : Except InputError (List String × List String) :=
  match normalizeColors o.colors with
  | .error e => .error e
  | .ok colors =>
    match normalizeColors o.sequence with
    | .error e => .error e
    | .ok sequence =>
      if sequence ≠ [] ∧ colors ≠ [] ∧ ¬ sequence ⊆ colors then
        .error ⟨"--sequence contains a color excluded by --colors"⟩
      else
        let colors := if colors = [] then sequence.eraseDups else colors
        if o.allowAnyColor = true ∧ (colors ≠ [] ∨ sequence ≠ []) then
          .error ⟨"--allow-any-color requires dld mode and cannot be combined with " ++
            "--colors/--sequence"⟩
        else if colors = [] ∧ o.allowAnyColor = false then
          .error ⟨"--colors, --sequence, or --allow-any-color is required in dld mode"⟩
        else .ok (colors, sequence)

/-! ### The verdict -/

/-- What the channel checks take from the options. -/
def argsOf (o : Options) (config : PanelConfig) (sequence : List String) : Args where
  profile := config.pixelType
  sequence := sequence
  allowAnyColor := o.allowAnyColor
  expectedFrames := o.expectedFrames
  bankOrder := o.bankOrder
  bankSkewNs := o.bankSkewNs
  toleranceNs := o.toleranceNs
  resetSeparatorUs := o.resetSeparatorUs
  minResetUs := o.minResetUs
  maxExamples := o.maxExamples

/-- The checks of one channel as it is opened: its resolution, and its range
against that of the first. -/
def checkOpened (first data : Digital) : Except InputError Unit :=
  if data.epsilonNs > 1 then
    .error ⟨"timestamp floating-point resolution is inadequate for nanosecond timing"⟩
  else if max |data.beginS - first.beginS| |data.endS - first.endS| > 1 / 10 ^ 9 then
    .error ⟨"channel time ranges differ; one aligned six-channel export is required"⟩
  else .ok ()

def checkAllOpened (channels : Fin 6 → Digital) : List (Fin 6) → Except InputError Unit
  | [] => .ok ()
  | i :: rest =>
    match checkOpened (channels 0) (channels i) with
    | .error e => .error e
    | .ok _ => checkAllOpened channels rest

/-- The result of `analyze_channel` for each channel. -/
def channelResults (args : Args) (colors : List String) (config : PanelConfig)
    (channels : Fin 6 → Digital) (i : Fin 6) : ChannelResult :=
  analyzeChannel (channels i) args (patternsFor config.pixelType colors) (config.stringLengths i)

/-- All violations that `analyze` counts. -/
def violationsOf (args : Args) (colors : List String) (config : PanelConfig)
    (channels : Fin 6 → Digital) : List Violation :=
  let results := channelResults args colors config channels
  (List.finRange 6).flatMap (fun i => (results i).violations) ++
    if args.bankOrder then checkBanks args results config.stringLengths else []

/-- `main` up to its verdict: the violations, or the input error. -/
def analyze (o : Options) (config : PanelConfig) (channels : Fin 6 → Digital) :
    Except InputError (List Violation) :=
  if o.valid = false then
    .error ⟨"invalid timing/count options (windows must not overlap; reset separator must " ++
      "exceed a bit)"⟩
  else match chooseColors o with
  | .error e => .error e
  | .ok (colors, sequence) =>
    match checkAllOpened channels (List.finRange 6) with
    | .error e => .error e
    | .ok _ => .ok (violationsOf (argsOf o config sequence) colors config channels)

/-- `report['pass']` -/
def passes (o : Options) (config : PanelConfig) (channels : Fin 6 → Digital) : Prop :=
  analyze o config channels = .ok []

end Capture

end Dld
