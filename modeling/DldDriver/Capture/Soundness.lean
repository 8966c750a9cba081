/-
DldDriver/Capture/Soundness.lean

What a passing verdict means.  `ChannelSound` says in the terms of a waveform
what an enabled string has shown: the widths of its pulses, its resets, whole
frames between them and fragments of frames at the ends of the capture.

A pulse that the begin of the capture has cut is no rise, and the checker
counts rises.  `CutWholeFrame` is the one way in which that matters: the cut
pulse is followed by a whole frame of further pulses, so that the burst has
one pulse too many and passes.  Apart from it a passing verdict is sound.
-/
import DldDriver.Capture.Bursts
import DldDriver.Capture.Analyze

namespace Dld

namespace Capture

/-! ### What a capture shows -/

section Shown

variable (data : Digital) (o : Options)

/-- A low long enough for a reset, up to the roundoff allowance. -/
def LongLow (low : ℚ) : Prop := o.minResetUs * 1000 - data.epsilonNs ≤ low

instance (low : ℚ) : Decidable (LongLow data o low) := inferInstanceAs (Decidable (_ ≤ _))

/-- Rises that no reset separates, up to the next reset on either side or the
end of the capture. -/
structure ResetBurst (start stop : Nat) : Prop where
  nonempty : start < stop
  inside : stop ≤ data.riseCount
  opens : start = 0 ∨ LongLow data o (data.low (start - 1))
  closes : stop = data.riseCount ∨ LongLow data o (data.low (stop - 1))
  joined : ∀ i, start ≤ i → i + 1 < stop → ¬ LongLow data o (data.low i)

/-- The reset before a burst has been observed. -/
def StartObserved (start : Nat) : Prop :=
  0 < start ∨ LongLow data o ((data.rise start - data.firstLowStart) * 10 ^ 9)

/-- The reset after a burst has been observed. -/
def EndObserved (stop : Nat) : Prop :=
  stop < data.riseCount ∨
    stop ≤ data.completePulses ∧ LongLow data o ((data.endS - data.fall (stop - 1)) * 10 ^ 9)

instance (start : Nat) : Decidable (StartObserved data o start) :=
  inferInstanceAs (Decidable (_ ∨ _))

/-- The pulses of a burst: its rises, and the pulse that the begin of the
capture has cut when no reset follows it. -/
def pulses (start stop : Nat) : Nat :=
  stop - start + if start = 0 ∧ data.initial = true ∧ ¬ StartObserved data o 0 then 1 else 0

/-- The complete pulses of a burst are those of `bits` from `pos` on. -/
def Spells (start stop : Nat) (bits : List Bool) (pos : Nat) : Prop :=
  ∀ i, start + i < min stop data.completePulses →
    pos + i < bits.length ∧ data.bit (start + i) = bits.getD (pos + i) false

/-- `args.tolerance_ns + eps` -/
def allowance : ℚ := o.toleranceNs + data.epsilonNs

/-- What an enabled string of this length has shown. -/
structure ChannelSound (profile : PixelType) (colors : List String) (length : Nat) : Prop where
  high : ∀ i < data.completePulses,
    |data.high i - 350| ≤ allowance data o ∨ |data.high i - 700| ≤ allowance data o
  low : ∀ i, i + 1 < data.riseCount → LongLow data o (data.low i) ∨
    |data.low i - data.lowTarget i| ≤ allowance data o ∧
      |data.period i - 1200| ≤ allowance data o
  initialLow : data.initial = true → 0 < data.riseCount → LongLow data o data.initialLow ∨
    |data.initialLow - 500| ≤ allowance data o ∨ |data.initialLow - 850| ≤ allowance data o
  whole : ∀ start stop, ResetBurst data o start stop → StartObserved data o start →
    EndObserved data o stop → pulses data o start stop = 24 * length ∧
      ∃ color ∈ colors, Spells data start stop (burst profile color length) 0
  boundary : ∀ start stop, ResetBurst data o start stop →
    ¬ (StartObserved data o start ∧ EndObserved data o stop) →
    pulses data o start stop ≤ 24 * length ∧ ∃ color ∈ colors, ∃ pos,
      Spells data start stop (burst profile color length) pos ∧
        (StartObserved data o start → pos = 0) ∧
        (EndObserved data o stop → pos + (stop - start) = 24 * length)

/-- A disabled string has stayed low. -/
def StaysLow : Prop := data.initial = false ∧ data.count = 0

/-- The capture begins inside a pulse, and after the low of a bit a whole
frame of further pulses follows before the next reset. -/
def CutWholeFrame (length : Nat) : Prop :=
  data.initial = true ∧ ¬ StartObserved data o 0 ∧ ResetBurst data o 0 (24 * length)

end Shown

/-- The colours that the options allow. -/
def allowed (o : Options) : List String :=
  match chooseColors o with
  | .error _ => []
  | .ok (colors, _) => colors

/-- What a passing verdict is taken to mean. -/
structure Sound (o : Options) (config : PanelConfig) (channels : Fin 6 → Digital) : Prop where
  enabled : ∀ i, config.stringLengths i ≠ 0 →
    ChannelSound (channels i) o config.pixelType (allowed o) (config.stringLengths i)
  disabled : ∀ i, config.stringLengths i = 0 → StaysLow (channels i)

/-! ### A passing verdict -/

/-- A verdict without violations: the options are valid, colours have been
chosen and no channel has a violation. -/
theorem passes_spec {o : Options} {config : PanelConfig} {channels : Fin 6 → Digital}
    (hpass : passes o config channels) :
    o.resetSeparatorUs ≤ o.minResetUs ∧ ∃ colors sequence,
      chooseColors o = .ok (colors, sequence) ∧
      ∀ i, (channelResults (argsOf o config sequence) colors config channels i).violations = [] := by
  unfold passes analyze at hpass
  rcases hvalid : o.valid with - | -
  · rw [if_pos hvalid] at hpass
    exact nomatch hpass
  rw [if_neg (by rw [hvalid]; exact Bool.noConfusion)] at hpass
  refine ⟨?_, ?_⟩
  · simp only [Options.valid, Bool.and_eq_true, decide_eq_true_iff] at hvalid
    exact hvalid.1.1.2
  rcases hchoose : chooseColors o with e | ⟨colors, sequence⟩
  · rw [hchoose] at hpass
    exact nomatch hpass
  rw [hchoose] at hpass
  rcases hopened : checkAllOpened channels (List.finRange 6) with e | opened
  · rw [hopened] at hpass
    exact nomatch hpass
  rw [hopened] at hpass
  refine ⟨colors, sequence, rfl, fun i => ?_⟩
  have hnil : violationsOf (argsOf o config sequence) colors config channels = [] :=
    Except.ok.inj hpass
  exact List.flatMap_eq_nil_iff.mp (List.append_eq_nil_iff.mp hnil).1 i (List.mem_finRange i)

/-- Without `--allow-any-color` some colour has been chosen. -/
theorem chooseColors_ne_nil {o : Options} (hany : o.allowAnyColor = false)
    {colors sequence : List String} (hchoose : chooseColors o = .ok (colors, sequence)) :
    colors ≠ [] := by
  unfold chooseColors at hchoose
  rcases hcolors : normalizeColors o.colors with e | given
  · rw [hcolors] at hchoose
    exact nomatch hchoose
  rcases hsequence : normalizeColors o.sequence with e | order
  · rw [hcolors, hsequence] at hchoose
    exact nomatch hchoose
  rw [hcolors, hsequence] at hchoose
  dsimp only at hchoose
  split_ifs at hchoose with hexcluded hnil hboth hnone hboth
  · obtain ⟨rfl, -⟩ := Prod.mk.inj (Except.ok.inj hchoose)
    exact fun h => hnone ⟨h, hany⟩
  · obtain ⟨rfl, -⟩ := Prod.mk.inj (Except.ok.inj hchoose)
    exact hnil

section Channel

variable {data : Digital} {o : Options} {config : PanelConfig} {sequence colors : List String}
  {length start stop : Nat}

/-- The parts of a channel's verdict. -/
structure Clean (data : Digital) (args : Args) (patterns : List (String × List Bool))
    (length : Nat) : Prop where
  timing : data.timing args = []
  initialLow : data.initialLowViolations args = []
  boundary : data.boundaryViolations args length = []
  scan : (data.scan args patterns length).violations = []
  count : frameCountViolations args length (data.scan args patterns length).frames.length = []

theorem clean_of_violations {args : Args} {patterns : List (String × List Bool)}
    (h : (analyzeChannel data args patterns length).violations = []) :
    Clean data args patterns length := by
  obtain ⟨h, hcount⟩ := List.append_eq_nil_iff.mp h
  obtain ⟨h, hscan⟩ := List.append_eq_nil_iff.mp h
  obtain ⟨h, hboundary⟩ := List.append_eq_nil_iff.mp h
  obtain ⟨htiming, hinitial⟩ := List.append_eq_nil_iff.mp h
  exact ⟨htiming, hinitial, hboundary, hscan, hcount⟩

/-- A burst of a clean scan has no violation by itself. -/
theorem Clean.burst {args : Args} {patterns : List (String × List Bool)}
    (h : Clean data args patterns length) (hburst : IsBurst data args start stop) :
    data.frameViolations args patterns length start stop = [] := by
  apply List.eq_nil_iff_forall_not_mem.mpr
  intro v hv
  obtain ⟨hmem, hne⟩ := (mem_bursts_iff data args).mpr hburst
  have hfound : v ∈ (data.scan args patterns length).violations :=
    mem_foldl_violations (.inr ⟨start, stop, hmem, hne, hv⟩)
  rw [h.scan] at hfound
  exact nomatch hfound

/-- With the timing accepted, the lows that separate are the long ones. -/
theorem reset_iff (hseparator : o.resetSeparatorUs ≤ o.minResetUs)
    (htiming : data.timing (argsOf o config sequence) = []) {i : Nat}
    (hi : i + 1 < data.riseCount) :
    data.reset (argsOf o config sequence) i = true ↔ LongLow data o (data.low i) := by
  constructor
  · exact (((timing_eq_nil_iff data _).mp htiming).2 i hi).reset
  · intro hlong
    apply decide_eq_true
    have hlong : o.minResetUs * 1000 - data.epsilonNs ≤ data.low i := hlong
    show o.resetSeparatorUs * 1000 - data.epsilonNs ≤ data.low i
    linarith

/-- The checker's bursts are those between long lows. -/
theorem isBurst_iff (hseparator : o.resetSeparatorUs ≤ o.minResetUs)
    (htiming : data.timing (argsOf o config sequence) = []) :
    IsBurst data (argsOf o config sequence) start stop ↔ ResetBurst data o start stop := by
  have hreset {i : Nat} (hi : i + 1 < data.riseCount) := reset_iff hseparator htiming hi
  constructor
  · rintro ⟨hlt, hinside, hopens, hcloses, hjoined⟩
    refine ⟨hlt, hinside, ?_, ?_, ?_⟩
    · rcases Nat.eq_zero_or_pos start with hzero | hpos
      · exact .inl hzero
      · exact hopens.imp_right (hreset (by omega)).mp
    · rcases Nat.lt_or_eq_of_le hinside with hmore | hlast
      · exact hcloses.imp_right (hreset (by omega)).mp
      · exact .inl hlast
    · intro i hi hi' hlong
      have hnot := hjoined i hi hi'
      rw [(hreset (by omega)).mpr hlong] at hnot
      exact nomatch hnot
  · rintro ⟨hlt, hinside, hopens, hcloses, hjoined⟩
    refine ⟨hlt, hinside, ?_, ?_, ?_⟩
    · rcases Nat.eq_zero_or_pos start with hzero | hpos
      · exact .inl hzero
      · exact hopens.imp_right (hreset (by omega)).mpr
    · rcases Nat.lt_or_eq_of_le hinside with hmore | hlast
      · exact hcloses.imp_right (hreset (by omega)).mpr
      · exact .inl hlast
    · intro i hi hi'
      rcases hsep : data.reset (argsOf o config sequence) i with - | -
      · rfl
      · exact absurd ((hreset (by omega)).mp hsep) (hjoined i hi hi')

theorem leadingReset_iff :
    data.leadingReset (argsOf o config sequence) start = true ↔ StartObserved data o start := by
  show (decide _ || decide _) = true ↔ _ ∨ _
  rw [Bool.or_eq_true_iff, decide_eq_true_iff, decide_eq_true_iff]
  refine or_congr_right ?_
  show o.minResetUs - data.epsilonNs / 1000 ≤ _ ↔ o.minResetUs * 1000 - data.epsilonNs ≤ _
  constructor
  · intro h
    linarith
  · intro h
    linarith

theorem trailingReset_iff :
    data.trailingReset (argsOf o config sequence) stop = true ↔ EndObserved data o stop := by
  show (decide _ || (decide _ && decide _)) = true ↔ _ ∨ _ ∧ _
  rw [Bool.or_eq_true_iff, Bool.and_eq_true_iff, decide_eq_true_iff, decide_eq_true_iff,
    decide_eq_true_iff]
  refine or_congr_right (and_congr_right fun hfall => ?_)
  have hlast : data.lastFall stop = data.fall (stop - 1) := if_pos (decide_eq_true hfall)
  rw [hlast]
  show o.minResetUs - data.epsilonNs / 1000 ≤ _ ↔ o.minResetUs * 1000 - data.epsilonNs ≤ _
  constructor
  · intro h
    linarith
  · intro h
    linarith

/-! ### The content of a burst -/

theorem mem_patternsFor {profile : PixelType} {color : String} {bits : List Bool}
    (h : (color, bits) ∈ patternsFor profile colors) :
    color ∈ colors ∧ bits = pattern profile color := by
  obtain ⟨color', hmem, heq⟩ := List.mem_map.mp h
  obtain ⟨rfl, rfl⟩ := Prod.mk.inj heq
  exact ⟨List.mem_eraseDups.mp hmem, rfl⟩

/-- The phases at which a burst with a known boundary is read. -/
theorem phase_of_match {args : Args} {patterns : List (String × List Bool)}
    (hany : args.allowAnyColor = false)
    (hknown : data.leadingReset args start = true ∨ data.trailingReset args stop = true)
    (hmatched : data.contentMatches args patterns (24 * length) start stop ≠ []) :
    ∃ p ∈ patterns, data.observed start stop = Digital.repeated p.2
      (if data.leadingReset args start then 0 else (24 * length - (stop - start)) % 24)
      (data.observed start stop).length := by
  have hone : (data.leadingReset args start || data.trailingReset args stop) = true :=
    Bool.or_eq_true_iff.mpr hknown
  unfold Digital.contentMatches at hmatched
  dsimp only at hmatched
  have hnot : ¬ ((data.observed start stop).length ≥ 24 ∧ args.allowAnyColor = true) := by
    rw [hany]
    exact fun h => nomatch h.2
  rw [if_neg hnot] at hmatched
  by_cases hread : data.observed start stop ≠ [] ∧ args.allowAnyColor = false
  · rw [if_pos hread, if_pos hone] at hmatched
    obtain ⟨color, hcolor⟩ := List.exists_mem_of_ne_nil _ hmatched
    obtain ⟨p, hp, -⟩ := List.mem_map.mp hcolor
    obtain ⟨hp, hphase⟩ := List.mem_filter.mp hp
    obtain ⟨phase, hphase, heq⟩ := List.any_eq_true.mp hphase
    rw [List.mem_singleton.mp hphase] at heq
    exact ⟨p, hp, of_decide_eq_true heq⟩
  · rw [if_neg hread] at hmatched
    exact absurd rfl hmatched

/-- Where the first pulse of a burst stands in its frame. -/
def place (data : Digital) (o : Options) (length start stop : Nat) : Nat :=
  if StartObserved data o start then 0 else 24 * length - (stop - start)

/-- A repeated pattern in phase with the place spells the colour. -/
theorem spells_of_repeated {profile : PixelType} {color : String} {pos phase : Nat}
    (hphase : phase % 24 = pos % 24)
    (hfits : pos + (min stop data.completePulses - start) ≤ 24 * length)
    (hsame : data.observed start stop = Digital.repeated (pattern profile color) phase
      (data.observed start stop).length) :
    Spells data start stop (burst profile color length) pos := by
  intro i hi
  have hcount : (data.observed start stop).length = min stop data.completePulses - start := by
    rw [Digital.observed, List.length_map, List.length_range']
  have hin : i < min stop data.completePulses - start := by omega
  have hbit : (data.observed start stop).getD i false = data.bit (start + i) := by
    rw [List.getD_eq_getElem _ _ (hcount ▸ hin)]
    simp only [Digital.observed, List.getElem_map, List.getElem_range', Nat.one_mul]
  refine ⟨?_, ?_⟩
  · rw [length_burst]
    omega
  · rw [← hbit, hsame, getD_repeated _ _ (hcount ▸ hin), getD_burst _ _ (by omega)]
    congr 1
    omega

/-- A clean burst with a known boundary is no longer than a frame, a whole
frame when it is complete, and spells a colour. -/
theorem clean_burst (hany : o.allowAnyColor = false) (hcolors : colors ≠ []) (hlength : length ≠ 0)
    (hclean : data.frameViolations (argsOf o config sequence)
      (patternsFor config.pixelType colors) length start stop = [])
    (hknown : StartObserved data o start ∨ EndObserved data o stop) :
    stop - start ≤ 24 * length ∧
      (StartObserved data o start → EndObserved data o stop → stop - start = 24 * length) ∧
      ∃ color ∈ colors, Spells data start stop (burst config.pixelType color length)
        (place data o length start stop) := by
  rw [Digital.frameViolations, if_neg hlength] at hclean
  obtain ⟨hcount, hcontent⟩ := List.append_eq_nil_iff.mp hclean
  have hcount := fun h => List.cons_ne_nil _ _ (ite_eq_right_iff.mp hcount h)
  have hcontent := fun h => List.cons_ne_nil _ _ (ite_eq_right_iff.mp hcontent h)
  have hlong : stop - start ≤ 24 * length := by
    by_contra hlong
    exact hcount (.inr (by omega))
  refine ⟨hlong, ?_, ?_⟩
  · intro hstart hend
    by_contra hne
    have htrailing : data.trailingReset (argsOf o config sequence) stop = true :=
      trailingReset_iff.mpr hend
    refine hcount (.inl ⟨?_, hne⟩)
    rw [Digital.complete, leadingReset_iff.mpr hstart, htrailing, hasFall_of_trailing htrailing]
    rfl
  · rcases Nat.eq_zero_or_pos (min stop data.completePulses - start) with hnone | hsome
    · -- no complete pulse to read
      obtain ⟨color, hcolor⟩ := List.exists_mem_of_ne_nil _ hcolors
      exact ⟨color, hcolor, fun i hi => absurd hi (by omega)⟩
    · have hobserved : (data.observed start stop).length = min stop data.completePulses - start := by
        rw [Digital.observed, List.length_map, List.length_range']
      have hread : Digital.contentRead length start stop = true := by
        rw [Digital.contentRead, decide_eq_true hlength, decide_eq_true hlong]
        rfl
      have hcheckable : data.checkable (argsOf o config sequence) start stop = true := by
        show (decide _ && (!o.allowAnyColor || _)) = true
        rw [hany, decide_eq_true (by omega)]
        rfl
      have hmatched := fun hnil => hcontent ⟨hread, hcheckable, hnil⟩
      obtain ⟨⟨color, bits⟩, hmem, hsame⟩ := phase_of_match hany
        (hknown.imp leadingReset_iff.mpr trailingReset_iff.mpr) hmatched
      obtain ⟨hcolor, rfl⟩ := mem_patternsFor hmem
      refine ⟨color, hcolor, spells_of_repeated ?_ ?_ hsame⟩
      · unfold place
        simp only [leadingReset_iff]
        split_ifs
        · rfl
        · exact Nat.mod_mod _ _
      · unfold place
        split_ifs
        · omega
        · omega

/-! ### The only burst -/

/-- With a complete frame, every burst has a boundary that was observed: a
burst without any is the whole capture. -/
theorem known_of_frames {patterns : List (String × List Bool)}
    (hframes : (analyzeChannel data (argsOf o config sequence) patterns length).frames ≠ [])
    (h : IsBurst data (argsOf o config sequence) start stop) :
    StartObserved data o start ∨ EndObserved data o stop := by
  by_contra hneither
  obtain ⟨hstart, hend⟩ := not_or.mp hneither
  have hzero : start = 0 := Nat.eq_zero_of_not_pos fun hpos => hstart (.inl hpos)
  have hall : stop = data.riseCount := by
    have hinside := h.inside
    have hlast : ¬ stop < data.riseCount := fun hlt => hend (.inl hlt)
    omega
  obtain ⟨f, hf⟩ := List.exists_mem_of_ne_nil _ hframes
  obtain ⟨first, last, hother, hcomplete, -⟩ := mem_frames_iff.mp hf
  have hnonempty := hother.nonempty
  have hinside := hother.inside
  have hfirst : first = 0 := by
    rcases hother.opens with hzero | hreset
    · exact hzero
    · by_contra hne
      rw [h.joined (first - 1) (by omega) (by omega)] at hreset
      exact nomatch hreset
  obtain ⟨hboth, -⟩ := Bool.and_eq_true_iff.mp hcomplete
  have hleading := (Bool.and_eq_true_iff.mp hboth).1
  rw [hfirst] at hleading
  exact hstart (hzero ▸ leadingReset_iff.mp hleading)

/-! ### A clean channel -/

theorem initialLow_of_clean
    (hclean : data.initialLowViolations (argsOf o config sequence) = [])
    (hinitial : data.initial = true) (hrise : 0 < data.riseCount) :
    LongLow data o data.initialLow ∨
      |data.initialLow - 500| ≤ allowance data o ∨ |data.initialLow - 850| ≤ allowance data o := by
  have hcount : data.count ≠ 0 := by
    intro hzero
    rw [Digital.riseCount, hzero, Digital.first, hinitial] at hrise
    exact nomatch hrise
  rw [Digital.initialLowViolations, if_pos ⟨hinitial, hcount, hrise.ne'⟩] at hclean
  by_cases hseparates : data.separates (argsOf o config sequence) data.initialLow = true
  · rw [if_pos hseparates] at hclean
    left
    by_contra hshort
    have htoo : data.tooShort (argsOf o config sequence) data.initialLow = true :=
      decide_eq_true (not_le.mp hshort)
    rw [if_pos htoo] at hclean
    exact List.cons_ne_nil _ _ hclean
  · rw [if_neg hseparates] at hclean
    right
    by_contra hneither
    obtain ⟨hone, hzero⟩ := not_or.mp hneither
    have hwide : min |data.initialLow - 500| |data.initialLow - 850| >
        data.slack (argsOf o config sequence) :=
      lt_min (not_le.mp hone) (not_le.mp hzero)
    rw [if_pos hwide] at hclean
    exact List.cons_ne_nil _ _ hclean

/-- The cut pulse is counted beside the rises only at the begin. -/
theorem pulses_of_observed (h : StartObserved data o start) :
    pulses data o start stop = stop - start := by
  have hnot : ¬ (start = 0 ∧ data.initial = true ∧ ¬ StartObserved data o 0) := by
    rintro ⟨rfl, -, hnot⟩
    exact hnot h
  rw [pulses, if_neg hnot]
  rfl

/-- Without a whole frame after a cut pulse no burst has too many pulses. -/
theorem pulses_le (hcut : ¬ CutWholeFrame data o length) (hburst : ResetBurst data o start stop)
    (hlong : stop - start ≤ 24 * length) : pulses data o start stop ≤ 24 * length := by
  unfold pulses
  split_ifs with h
  · obtain ⟨rfl, hinitial, hnot⟩ := h
    have hne : stop ≠ 24 * length := by
      rintro rfl
      exact hcut ⟨hinitial, hnot, hburst⟩
    omega
  · exact hlong

theorem channelSound_of_clean (hany : o.allowAnyColor = false)
    (hseparator : o.resetSeparatorUs ≤ o.minResetUs) (hcolors : colors ≠ []) (hlength : length ≠ 0)
    (hclean : Clean data (argsOf o config sequence) (patternsFor config.pixelType colors) length)
    (hcut : ¬ CutWholeFrame data o length) :
    ChannelSound data o config.pixelType colors length := by
  obtain ⟨hhigh, hgap⟩ := (timing_eq_nil_iff data _).mp hclean.timing
  have hframes : (analyzeChannel data (argsOf o config sequence)
      (patternsFor config.pixelType colors) length).frames ≠ [] := by
    have hcount := hclean.count
    rw [frameCountViolations, if_neg hlength] at hcount
    intro hnil
    have hzero : (data.scan (argsOf o config sequence)
        (patternsFor config.pixelType colors) length).frames.length = 0 := congrArg List.length hnil
    exact List.cons_ne_nil _ _ (ite_eq_right_iff.mp (List.append_eq_nil_iff.mp hcount).1 hzero)
  have hbursts {start stop : Nat} (h : ResetBurst data o start stop) :=
    (isBurst_iff hseparator hclean.timing).mpr h
  have hread {start stop : Nat} (h : ResetBurst data o start stop) :=
    clean_burst hany hcolors hlength (hclean.burst (hbursts h)) (known_of_frames hframes (hbursts h))
  refine ⟨?_, ?_, initialLow_of_clean hclean.initialLow, ?_, ?_⟩
  · intro i hi
    have hok : |data.high i - data.highTarget i| ≤ allowance data o := hhigh i hi
    rcases hbit : data.bit i with - | -
    · rw [Digital.highTarget, hbit] at hok
      exact .inl hok
    · rw [Digital.highTarget, hbit] at hok
      exact .inr hok
  · intro i hi
    rcases hreset : data.reset (argsOf o config sequence) i with - | -
    · exact .inr ⟨(hgap i hi).low hreset, (hgap i hi).period hreset⟩
    · exact .inl ((hgap i hi).reset hreset)
  · intro start stop hburst hstart hend
    obtain ⟨-, hwhole, color, hcolor, hspells⟩ := hread hburst
    rw [pulses_of_observed hstart]
    rw [place, if_pos hstart] at hspells
    exact ⟨hwhole hstart hend, color, hcolor, hspells⟩
  · intro start stop hburst hboundary
    obtain ⟨hlong, -, color, hcolor, hspells⟩ := hread hburst
    refine ⟨pulses_le hcut hburst hlong, color, hcolor, _, hspells, ?_, ?_⟩
    · intro hstart
      exact if_pos hstart
    · intro hend
      rw [place, if_neg fun hstart => hboundary ⟨hstart, hend⟩]
      omega

/-- A burst with a cut pulse before a whole frame has one pulse too many. -/
theorem ChannelSound.not_cut {profile : PixelType}
    (h : ChannelSound data o profile colors length) : ¬ CutWholeFrame data o length := by
  rintro ⟨hinitial, hstart, hburst⟩
  obtain ⟨hle, -⟩ := h.boundary 0 (24 * length) hburst fun hboth => hstart hboth.1
  rw [pulses, if_pos ⟨rfl, hinitial, hstart⟩] at hle
  omega

end Channel

/-! ### Soundness -/

theorem sound_of_passes {o : Options} {config : PanelConfig} {channels : Fin 6 → Digital}
    (hany : o.allowAnyColor = false) (hpass : passes o config channels)
    (hcut : ∀ i, ¬ CutWholeFrame (channels i) o (config.stringLengths i)) :
    Sound o config channels := by
  obtain ⟨hseparator, colors, sequence, hchoose, hclean⟩ := passes_spec hpass
  have hallowed : allowed o = colors := by rw [allowed, hchoose]
  refine ⟨fun i hlength => ?_, fun i hlength => ?_⟩
  · rw [hallowed]
    exact channelSound_of_clean hany hseparator (chooseColors_ne_nil hany hchoose) hlength
      (clean_of_violations (hclean i)) (hcut i)
  · have hboundary := (clean_of_violations (hclean i)).boundary
    have hlow := (List.append_eq_nil_iff.mp hboundary).2
    have hnot := fun h => List.cons_ne_nil _ _ (ite_eq_right_iff.mp hlow ⟨hlength, h⟩)
    obtain ⟨hinitial, hcount⟩ := not_or.mp hnot
    exact ⟨Bool.eq_false_of_not_eq_true hinitial, not_not.mp hcount⟩

theorem Sound.not_cut {o : Options} {config : PanelConfig} {channels : Fin 6 → Digital}
    (h : Sound o config channels) (i : Fin 6) :
    ¬ CutWholeFrame (channels i) o (config.stringLengths i) := by
  rcases Nat.eq_zero_or_pos (config.stringLengths i) with hzero | hpos
  · rintro ⟨-, -, hburst⟩
    have hnonempty := hburst.nonempty
    omega
  · exact (h.enabled i hpos.ne').not_cut

/-- **A passing verdict is sound** exactly when no channel begins inside a
pulse that a whole frame of further pulses follows. -/
theorem pass_sound_iff (o : Options) (config : PanelConfig) (channels : Fin 6 → Digital)
    (hany : o.allowAnyColor = false) (hpass : passes o config channels) :
    Sound o config channels ↔
      ∀ i, ¬ CutWholeFrame (channels i) o (config.stringLengths i) :=
  ⟨fun h => h.not_cut, sound_of_passes hany hpass⟩

/-! ### A first pulse that is cut -/

/-- The transitions of `n` zero bits from time `t` on, in nanoseconds. -/
def zeroPulses (t : ℚ) (n : Nat) : List ℚ :=
  (List.range n).flatMap fun i => [(t + 1200 * i) / 10 ^ 9, (t + 1200 * i + 350) / 10 ^ 9]

/-- A high of 200 ns at the begin, 24 further pulses, a reset and a frame. -/
def firstPulseCut : Digital where
  initial := true
  beginS := 0
  endS := 8 / 10 ^ 4
  transitions := 200 / 10 ^ 9 :: (zeroPulses 1050 24 ++ zeroPulses 429000 24)
  range := by norm_num
  increasing := by decide +kernel
  within := by unfold Within; decide +kernel

/-- The capture of a string that stays low. -/
def quietLow : Digital where
  initial := false
  beginS := 0
  endS := 8 / 10 ^ 4
  transitions := []
  range := by norm_num
  increasing := .nil
  within := fun _ h => nomatch h

/-- One pixel on the first string, black expected. -/
def onePixel : PanelConfig where
  pixelType := .ws2812b
  stringLengths := fun i => if i = 0 then 1 else 0
  bounded := by decide

def blackExpected : Options := { colors := ["000000"] }

def firstPulseCutCapture (i : Fin 6) : Digital := if i = 0 then firstPulseCut else quietLow

/-- A frame between two resets. -/
def wholeFrame : Digital where
  initial := false
  beginS := 0
  endS := 8 / 10 ^ 4
  transitions := zeroPulses 400000 24
  range := by norm_num
  increasing := by decide +kernel
  within := by unfold Within; decide +kernel

def wholeFrameCapture (i : Fin 6) : Digital := if i = 0 then wholeFrame else quietLow

instance (o : Options) (config : PanelConfig) (channels : Fin 6 → Digital) :
    Decidable (passes o config channels) := inferInstanceAs (Decidable (_ = _))

theorem wholeFrame_passes : passes blackExpected onePixel wholeFrameCapture := by
  decide +kernel

/-- The verdict on one whole frame is sound. -/
theorem pass_sound_wholeFrame : Sound blackExpected onePixel wholeFrameCapture := by
  apply (pass_sound_iff _ _ _ rfl wholeFrame_passes).mpr
  rintro i ⟨hinitial, -⟩
  have hlow : (wholeFrameCapture i).initial = false := by
    unfold wholeFrameCapture
    split_ifs <;> rfl
  rw [hlow] at hinitial
  exact nomatch hinitial

theorem firstPulseCut_passes : passes blackExpected onePixel firstPulseCutCapture := by
  decide +kernel

theorem firstPulseCut_cut : CutWholeFrame firstPulseCut blackExpected 1 := by
  have hjoined : ∀ i < 23, ¬ LongLow firstPulseCut blackExpected (firstPulseCut.low i) := by
    decide +kernel
  have hcloses : LongLow firstPulseCut blackExpected (firstPulseCut.low 23) := by
    decide +kernel
  refine ⟨rfl, by decide +kernel, by decide, by decide +kernel, .inl rfl, .inr hcloses, ?_⟩
  intro i _ hi
  exact hjoined i (by omega)

/-- A verdict that passes although its first burst has 25 pulses. -/
theorem pass_not_sound : ¬ ∀ (o : Options) (config : PanelConfig) (channels : Fin 6 → Digital),
    o.allowAnyColor = false → passes o config channels → Sound o config channels := by
  intro h
  have hsound := h blackExpected onePixel firstPulseCutCapture rfl firstPulseCut_passes
  exact hsound.not_cut 0 firstPulseCut_cut

end Capture

end Dld
