/-
DldDriver/Capture/Decode.lean

The transmitter and the checker agree on the order of the bits.  The word of
the kernel, the word of user space and the pattern of the checker are the
same 24 bits; the firmware sends them once for each pixel, and the checker
reads the colour back from any fragment whose place in the burst it knows.
What it is given are timestamps: `Fragment` compares them with the edges that
the firmware makes, and the bits are read from the widths.
-/
import DldDriver.Capture.Wire
import DldDriver.Kernel.Main
import DldDriver.Userspace.Common

namespace Dld

namespace Capture

open Interaction

/-! ### Octets and texts -/

/-- An octet of a colour. -/
def octet (rgb : Word) (shift : Nat) : Nat := ((rgb >>> shift) &&& 0xff).toNat

/-- The text of a colour. -/
def hexColor (rgb : Word) : String :=
  String.ofList ([16, 8, 0].flatMap fun shift => hexByte (octet rgb shift))

theorem octet_lt (rgb : Word) (shift : Nat) : octet rgb shift < 256 := by
  have hle : ((rgb >>> shift) &&& 0xff).toNat ≤ (0xff : Word).toNat := by
    rw [BitVec.toNat_and]
    exact Nat.and_le_right
  have h255 : (0xff : Word).toNat = 255 := rfl
  unfold octet
  omega

theorem testBit_octet (rgb : Word) (shift : Nat) {j : Nat} (hj : j < 8) :
    (octet rgb shift).testBit j = rgb.getLsbD (shift + j) := by
  have hmask : ∀ j < 8, (0xff : Word).getLsbD j = true := by decide
  rw [octet, BitVec.testBit_toNat, BitVec.getLsbD_and, hmask j hj, Bool.and_true,
    BitVec.getLsbD_ushiftRight]

/-- Two digits give the octet back. -/
theorem parseHex_hexByte : ∀ n < 256, parseHex (hexByte n) = n := by decide +kernel

theorem packBits_unpackBits : ∀ n < 256, packBits (unpackBits n) = n := by decide +kernel

/-- The digits written are the digits accepted, in upper case already. -/
theorem hexByte_upper : ∀ n < 256,
    (hexByte n).all isHexDigit = true ∧ (hexByte n).map Char.toUpper = hexByte n ∧
      hexDigit (n % 16) ≠ 'x' ∧ hexDigit (n % 16) ≠ 'X' := by decide +kernel

theorem withoutPrefix_of_ne {a b : Char} {rest : List Char} (hx : b ≠ 'x') (hX : b ≠ 'X') :
    withoutPrefix (a :: b :: rest) = a :: b :: rest := by
  unfold withoutPrefix
  split
  · rename_i heq
    exact absurd (List.cons.inj (List.cons.inj heq).2).1 hx
  · rename_i heq
    exact absurd (List.cons.inj (List.cons.inj heq).2).1 hX
  · rfl

theorem octets_hexColor (rgb : Word) :
    octets (hexColor rgb) = [octet rgb 16, octet rgb 8, octet rgb 0] := by
  have hparse (shift : Nat) := parseHex_hexByte _ (octet_lt rgb shift)
  rw [octets, hexColor, String.toList_ofList]
  show [parseHex (hexByte (octet rgb 16)), parseHex (hexByte (octet rgb 8)),
    parseHex (hexByte (octet rgb 0))] = _
  rw [hparse, hparse, hparse]

theorem normalizeColor_hexColor (rgb : Word) :
    normalizeColor (hexColor rgb) = .ok (hexColor rgb) := by
  have hupper (shift : Nat) := hexByte_upper _ (octet_lt rgb shift)
  have hdigits : withoutPrefix ([16, 8, 0].flatMap fun shift => hexByte (octet rgb shift)) =
      [16, 8, 0].flatMap fun shift => hexByte (octet rgb shift) :=
    withoutPrefix_of_ne (hupper 16).2.2.1 (hupper 16).2.2.2
  have hall : ([16, 8, 0].flatMap fun shift => hexByte (octet rgb shift)).all isHexDigit = true := by
    simp only [List.flatMap_cons, List.flatMap_nil, List.all_append, (hupper _).1]
    rfl
  have hmap : ([16, 8, 0].flatMap fun shift => hexByte (octet rgb shift)).map Char.toUpper =
      [16, 8, 0].flatMap fun shift => hexByte (octet rgb shift) := by
    simp only [List.flatMap_cons, List.flatMap_nil, List.map_append, (hupper _).2.1]
    rfl
  rw [normalizeColor, hexColor, String.toList_ofList, hdigits]
  rw [if_pos ⟨rfl, hall⟩, hmap]

/-! ### Patterns -/

/-- The 24 bits of a word in the order in which the firmware sends them. -/
def wireBits (word : Word) : List Bool := (List.range 24).map fun k => word.getLsbD (23 - k)

theorem unpackBits_octet (rgb : Word) (shift : Nat) :
    unpackBits (octet rgb shift) =
      [7, 6, 5, 4, 3, 2, 1, 0].map fun j => rgb.getLsbD (shift + j) := by
  apply List.map_congr_left
  intro j hj
  apply testBit_octet
  have hsmall : ∀ j ∈ [7, 6, 5, 4, 3, 2, 1, 0], j < 8 := by decide
  exact hsmall j hj

theorem length_wireBits (word : Word) : (wireBits word).length = 24 := by
  rw [wireBits, List.length_map, List.length_range]

/-- The checker's pattern is the kernel's word, bit 23 first. -/
theorem pattern_eq (profile : PixelType) (rgb : Word) :
    pattern profile (hexColor rgb) = wireBits (wireColor profile.profileId rgb) := by
  rw [pattern, octets_hexColor]
  cases profile
  all_goals
    simp only [PixelType.order, List.map_cons, List.map_nil, List.getD_cons_zero,
      List.getD_cons_succ, List.flatMap_cons, List.flatMap_nil, unpackBits_octet, wireBits]
    simp [wireColor, PixelType.profileId, List.range_succ, BitVec.getLsbD_or, BitVec.getLsbD_and]

/-- User space and the kernel compute the same word. -/
theorem dldWireColor_eq (profile : PixelType) {rgb : Word} (hrgb : rgb ≤ 0xffffff) :
    dldWireColor profile.profileId rgb = wireColor profile.profileId rgb := by
  have hmask : rgb &&& 0xffffff = rgb := by
    have hlt : rgb.toNat < 2 ^ 24 := by
      have hle : rgb.toNat ≤ (0xffffff : Word).toNat := hrgb
      have hmax : (0xffffff : Word).toNat = 2 ^ 24 - 1 := rfl
      omega
    apply BitVec.eq_of_toNat_eq
    rw [BitVec.toNat_and]
    show rgb.toNat &&& (2 ^ 24 - 1) = rgb.toNat
    rw [Nat.and_two_pow_sub_one_eq_mod, Nat.mod_eq_of_lt hlt]
  cases profile
  · show (((rgb &&& 0xffffff) &&& 0xff00) <<< 8) ||| _ ||| _ = _
    rw [hmask, BitVec.or_comm ((rgb &&& 0xff00) <<< 8)]
    rfl
  all_goals
    unfold dldWireColor
    rw [hmask]
    rfl

/-- Three octets in wire order give the text back. -/
theorem rgbText_pattern (profile : PixelType) (rgb : Word) :
    rgbText profile (pattern profile (hexColor rgb)) = hexColor rgb := by
  have hpack (shift : Nat) := packBits_unpackBits _ (octet_lt rgb shift)
  have htext : rgbText profile (pattern profile (hexColor rgb)) = String.ofList
      ([16, 8, 0].flatMap fun shift => hexByte (packBits (unpackBits (octet rgb shift)))) := by
    rw [pattern, octets_hexColor]
    cases profile <;> rfl
  rw [htext, hexColor]
  simp only [hpack]

/-! ### The content of a fragment -/

/-- The edges of a burst of the firmware. -/
def burstEdges (profile : PixelType) (color : String) (length : Nat) : List (Nat × Bool) :=
  sentEdges Pru.profileTiming (burst profile color length)

section Content

variable {data : Digital} {args : Args} {patterns : List (String × List Bool)} {length : Nat}
  {start stop pos : Nat} {profile : PixelType} {rgb : Word}

theorem Fragment.inside {color : String}
    (h : Fragment data start stop (burstEdges profile color length) pos) :
    pos + (stop - start) ≤ 24 * length := by
  have hfits := h.fits
  rw [burstEdges, length_sentEdges, length_burst] at hfits
  omega

/-- What is observed of a fragment is the pattern from its phase on. -/
theorem observed_fragment
    (h : Fragment data start stop (burstEdges profile (hexColor rgb) length) pos) :
    data.observed start stop = Digital.repeated (pattern profile (hexColor rgb)) (pos % 24)
      (min stop data.completePulses - start) := by
  have hinside := h.inside
  rw [Digital.observed, List.range'_eq_map_range, List.map_map]
  apply List.map_congr_left
  intro i hi
  have hi := List.mem_range.mp hi
  have hbit := Fragment.bit h hi
  show data.bit (start + i) = _
  rw [hbit, getD_burst profile _ (by omega), Nat.add_mod_mod, Nat.add_comm pos]

/-- The phase the checker computes is the one of the fragment. -/
theorem phase_fragment
    (h : Fragment data start stop (burstEdges profile (hexColor rgb) length) pos)
    (hargs : args.Separating) (hburst : IsBurst data args start stop)
    (hknown : data.leadingReset args start = true ∨ data.trailingReset args stop = true) :
    (if data.leadingReset args start then 0 else (24 * length - (stop - start)) % 24) =
      pos % 24 := by
  rcases hleading : data.leadingReset args start with - | -
  · have htrailing : data.trailingReset args stop = true :=
      hknown.resolve_left fun h => by simp [hleading] at h
    have hend := Fragment.ends h hargs hburst htrailing
    rw [length_burst] at hend
    have hpos : 24 * length - (stop - start) = pos := by omega
    rw [hpos]
    rfl
  · have hzero : pos = 0 := Fragment.begins h hargs hburst hleading
    rw [hzero]
    rfl

variable (patterns) in
/-- With any colour allowed, the colour is read back. -/
theorem contentMatches_any (hprofile : args.profile = profile) (hany : args.allowAnyColor = true)
    (h : Fragment data start stop (burstEdges profile (hexColor rgb) length) pos)
    (hargs : args.Separating) (hburst : IsBurst data args start stop)
    (hpulses : 24 ≤ min stop data.completePulses - start)
    (hknown : data.leadingReset args start = true ∨ data.trailingReset args stop = true) :
    data.contentMatches args patterns (24 * length) start stop = [some (hexColor rgb)] := by
  have hphase := phase_fragment h hargs hburst hknown
  have hone : (data.leadingReset args start || data.trailingReset args stop) = true :=
    Bool.or_eq_true_iff.mpr hknown
  have hmod : pos % 24 < 24 := Nat.mod_lt _ (by decide)
  unfold Digital.contentMatches
  dsimp only
  rw [hphase, observed_fragment h, length_repeated, if_pos ⟨hpulses, hany⟩,
    if_pos (repeated_take _ _ hpulses).symm, if_pos hone,
    roll_repeated (length_pattern profile _) hpulses hmod, hprofile, rgbText_pattern]

/-- With colours given, the colour of the fragment is among the matches. -/
theorem mem_contentMatches (hany : args.allowAnyColor = false)
    (hmem : (hexColor rgb, pattern profile (hexColor rgb)) ∈ patterns)
    (h : Fragment data start stop (burstEdges profile (hexColor rgb) length) pos)
    (hargs : args.Separating) (hburst : IsBurst data args start stop)
    (hpulses : 1 ≤ min stop data.completePulses - start) :
    some (hexColor rgb) ∈ data.contentMatches args patterns (24 * length) start stop := by
  have hnot : ¬ (min stop data.completePulses - start ≥ 24 ∧ args.allowAnyColor = true) := by
    rw [hany]
    exact fun hboth => nomatch hboth.2
  have hne : Digital.repeated (pattern profile (hexColor rgb)) (pos % 24)
      (min stop data.completePulses - start) ≠ [] ∧ args.allowAnyColor = false := by
    refine ⟨fun hnil => ?_, hany⟩
    have hlength := congrArg List.length hnil
    rw [length_repeated, List.length_nil] at hlength
    omega
  unfold Digital.contentMatches
  dsimp only
  rw [observed_fragment h, length_repeated, if_neg hnot, if_pos hne]
  refine List.mem_map.mpr ⟨_, List.mem_filter.mpr ⟨hmem, ?_⟩, rfl⟩
  apply List.any_eq_true.mpr
  refine ⟨pos % 24, ?_, decide_eq_true rfl⟩
  by_cases hone : (data.leadingReset args start || data.trailingReset args stop) = true
  · rw [if_pos hone, List.mem_singleton,
      phase_fragment h hargs hburst (Bool.or_eq_true_iff.mp hone)]
  · have hmod : pos % 24 < 24 := Nat.mod_lt _ (by decide)
    rw [if_neg hone]
    exact List.mem_range.mpr hmod

variable (patterns) in
/-- The content that is put on record. -/
theorem frameOf_content (hread : Digital.contentRead length start stop = true)
    (hcheckable : data.checkable args start stop = true) :
    (data.frameOf args patterns length start stop).contentValid =
        some (decide (data.contentMatches args patterns (24 * length) start stop ≠ [])) ∧
      (data.frameOf args patterns length start stop).rgb =
        match data.contentMatches args patterns (24 * length) start stop with
        | [color] => color
        | _ => none := by
  unfold Digital.frameOf
  dsimp only
  rw [if_pos hread, if_pos hcheckable]
  exact ⟨rfl, rfl⟩

theorem contentRead_fragment (hlength : 1 ≤ length)
    (h : Fragment data start stop (burstEdges profile (hexColor rgb) length) pos) :
    Digital.contentRead length start stop = true := by
  have hinside := h.inside
  have hne : length ≠ 0 := by omega
  have hle : stop - start ≤ 24 * length := by omega
  rw [Digital.contentRead, decide_eq_true hne, decide_eq_true hle]
  rfl

/-- One pulse can be checked against given colours, a whole pixel against
any. -/
theorem checkable_fragment
    (h : Fragment data start stop (burstEdges profile (hexColor rgb) length) pos)
    (hpulses : 1 ≤ min stop data.completePulses - start)
    (henough : args.allowAnyColor = false ∨ 24 ≤ min stop data.completePulses - start) :
    data.checkable args start stop = true := by
  have hne : min stop data.completePulses - start ≠ 0 := by omega
  rw [Digital.checkable, observed_fragment h, length_repeated, decide_eq_true hne, Bool.true_and]
  rcases henough with hgiven | hpixel
  · rw [hgiven]
    rfl
  · rw [decide_eq_true hpixel, Bool.or_true]

end Content

/-! ### A capture of one burst -/

/-- Without a separating low the whole channel is one record. -/
theorem single_record {data : Digital} {args : Args} {patterns : List (String × List Bool)}
    {length : Nat} (hrise : 0 < data.riseCount)
    (hlow : ∀ i, i + 1 < data.riseCount → data.reset args i = false) :
    (analyzeChannel data args patterns length).frames ++
        (analyzeChannel data args patterns length).partials =
      [data.frameOf args patterns length 0 data.riseCount] := by
  have hedges : data.edges args = [] := by
    rw [Digital.edges]
    apply List.flatMap_eq_nil_iff.mpr
    intro offset hoffset
    have hnone : (List.range' offset
        (min (min data.completePulses (offset + chunk)) (data.riseCount - 1) - offset)).filter
          (data.reset args) = [] := by
      apply List.filter_eq_nil_iff.mpr
      intro i hi
      obtain ⟨k, hk, rfl⟩ := List.mem_range'.mp hi
      have hlt : offset + 1 * k + 1 < data.riseCount := by omega
      rw [hlow _ hlt]
      exact fun h => by cases h
    show (List.filter (data.reset args) _).map (· + 1) = []
    rw [hnone]
    rfl
  have hne : data.riseCount ≠ 0 := hrise.ne'
  have hscan : data.scan args patterns length =
      data.scanBurst args patterns length {} (0, data.riseCount) := by
    rw [Digital.scan, Digital.bursts, hedges]
    rfl
  have hframes : (analyzeChannel data args patterns length).frames =
      (data.scan args patterns length).frames := rfl
  have hpartials : (analyzeChannel data args patterns length).partials =
      (data.scan args patterns length).partials := rfl
  rw [hframes, hpartials, hscan, Digital.scanBurst]
  dsimp only
  rw [if_neg hne]
  split_ifs
  · rw [(sequenceStep_records _ _).1, (sequenceStep_records _ _).2]
    rfl
  · rfl

/-! ### Transmitter and checker -/

/-- The firmware, streaming `word` on a bank, sends `bits` to every string of
this length, in order, one pulse for each bit. -/
def FirmwareSends (word : Word) (bits : List Bool) (length : Nat) : Prop :=
  ∀ (tm : Pru.Timing) (r : Pru.Regs) (b : Bank) (l : Fin 6 → Word) (s : Fin 6),
    ((Pru.timingGuard tm).exec Pru.silent).2 = true → r.Loaded tm → r.r4 = word →
    (∀ i, l i ≤ maxLength) → s ∈ b.strings → (l s).toNat = length →
    Machine.Steps (Pru.code tm) (Pru.code tm (.sendPixel, r.atPixel b l 0))
        (Pru.bankStream tm b l r.r4)
        (Pru.code tm (.timedEnd, r.atPixel b l (maxOfBank l b).toNat)) ∧
      Pru.edges (Pru.clearAddress b) (pinBit s) 0 (Pru.bankStream tm b l r.r4) = sentEdges tm bits

/-- The record `f` is that of a fragment of `sent`, from pulse `pos` on. -/
def Frame.FragmentOf (f : Frame) (data : Digital) (sent : List (Nat × Bool)) (pos : Nat) : Prop :=
  Fragment data f.observedRiseIndex (f.observedRiseIndex + f.bits) sent pos

/-- With any colour allowed, the checker reads the colour back from every
fragment of 24 bits or more with a boundary that has been observed. -/
def ReadsBack (profile : PixelType) (color : String) (length : Nat) : Prop :=
  ∀ (data : Digital) (args : Args) (patterns : List (String × List Bool)), args.Separating →
    args.profile = profile → args.allowAnyColor = true →
    ∀ f ∈ (analyzeChannel data args patterns length).frames ++
        (analyzeChannel data args patterns length).partials,
      ∀ pos, f.FragmentOf data (burstEdges profile color length) pos →
      24 ≤ f.observedCompletePulses →
      f.missingStartBoundary = false ∨ f.missingEndBoundary = false →
      f.rgb = some color ∧ f.contentValid = some true

/-- With colours given, the colour is among the matches of every fragment. -/
def AmongMatches (profile : PixelType) (color : String) (length : Nat) : Prop :=
  ∀ (data : Digital) (args : Args) (colors : List String), args.Separating →
    args.allowAnyColor = false → color ∈ colors →
    ∀ f ∈ (analyzeChannel data args (patternsFor profile colors) length).frames ++
        (analyzeChannel data args (patternsFor profile colors) length).partials,
      ∀ pos, f.FragmentOf data (burstEdges profile color length) pos →
      1 ≤ f.observedCompletePulses →
      f.contentValid = some true ∧ ∃ start stop,
        f = data.frameOf args (patternsFor profile colors) length start stop ∧
        some color ∈
          data.contentMatches args (patternsFor profile colors) (24 * length) start stop

/-- A channel that shows a stretch of the burst and nothing else has one
record, of all its pulses; a boundary of it is observed where the channel
stays low for the minimum reset. -/
def OneRecord (profile : PixelType) (color : String) (length : Nat) : Prop :=
  ∀ (data : Digital) (args : Args) (patterns : List (String × List Bool)), args.Separating →
    0 < data.riseCount →
    ∀ pos, Fragment data 0 data.riseCount (burstEdges profile color length) pos →
      ∃ f, (analyzeChannel data args patterns length).frames ++
          (analyzeChannel data args patterns length).partials = [f] ∧
        f.FragmentOf data (burstEdges profile color length) pos ∧
        f.bits = data.riseCount ∧ f.observedCompletePulses = data.completePulses ∧
        (args.minResetUs * 1000 ≤ data.lowBefore 0 → f.missingStartBoundary = false) ∧
        (data.completePulses = data.riseCount →
          args.minResetUs * 1000 ≤ data.lowAfter data.riseCount → f.missingEndBoundary = false)

/-- The bits of a burst with their places. -/
theorem zipIdx_burst (profile : PixelType) (rgb : Word) (length : Nat) :
    (burst profile (hexColor rgb) length).zipIdx = (List.range (24 * length)).map fun k =>
      ((wireColor profile.profileId rgb).getLsbD (23 - k % 24), k) := by
  apply List.ext_getElem
  · rw [List.length_zipIdx, length_burst, List.length_map, List.length_range]
  intro k hk _
  have hk : k < 24 * length := by
    rw [List.length_zipIdx, length_burst] at hk
    exact hk
  have hin : k < (burst profile (hexColor rgb) length).length := by
    rw [length_burst]
    exact hk
  have hbit : (burst profile (hexColor rgb) length)[k] =
      (wireColor profile.profileId rgb).getLsbD (23 - k % 24) := by
    have hmod : k % 24 < (wireBits (wireColor profile.profileId rgb)).length := by
      rw [length_wireBits]
      exact Nat.mod_lt _ (by decide)
    rw [← List.getD_eq_getElem _ false hin, getD_burst profile _ hk, pattern_eq,
      List.getD_eq_getElem _ _ hmod]
    simp only [wireBits, List.getElem_map, List.getElem_range]
  rw [List.getElem_zipIdx, hbit, List.getElem_map, List.getElem_range, Nat.zero_add]

theorem firmwareSends_burst (profile : PixelType) (rgb : Word) (length : Nat) (hlength : 1 ≤ length) :
    FirmwareSends (wireColor profile.profileId rgb) (burst profile (hexColor rgb) length) length := by
  intro tm r b l s hguard hr hcolour hl hs hls
  have h := (Pru.timingGuard_iff tm).mp hguard
  have hle := Pru.le_maxOfBank b l hs
  have hmax : maxOfBank l b ≠ 0 := by
    intro h0
    rw [h0, hls] at hle
    exact absurd hle (Nat.not_le.mpr hlength)
  refine ⟨Pru.pixelLoop_steps h hr (Pru.maxOfBank_le b hl) hmax, ?_⟩
  rw [sentEdges, Pru.edges_bankStream h b l r.r4 hs hmax, hls, hcolour, zipIdx_burst,
    List.flatMap_map]

/-- The record of a burst is a fragment where its rises are one. -/
theorem fragmentOf_frameOf {data : Digital} {args : Args} {patterns : List (String × List Bool)}
    {length start stop pos : Nat} {sent : List (Nat × Bool)} (hlt : start < stop) :
    (data.frameOf args patterns length start stop).FragmentOf data sent pos ↔
      Fragment data start stop sent pos := by
  obtain ⟨hbits, hindex, -⟩ := @frameOf_place data args patterns length start stop
  rw [Frame.FragmentOf, hbits, hindex, Nat.add_sub_cancel' hlt.le]

theorem readsBack_burst (profile : PixelType) (rgb : Word) (length : Nat) (hlength : 1 ≤ length) :
    ReadsBack profile (hexColor rgb) length := by
  intro data args patterns hargs hprofile hany f hf pos hfragment hpulses hknown
  obtain ⟨start, stop, hburst, rfl⟩ := mem_records hf
  obtain ⟨-, -, hcount, hstart, -⟩ :=
    @frameOf_place data args patterns length start stop
  have hfragment := (fragmentOf_frameOf hburst.nonempty).mp hfragment
  rw [hcount] at hpulses
  have hboundary : data.leadingReset args start = true ∨ data.trailingReset args stop = true := by
    rw [hstart, missingEnd_iff] at hknown
    simpa using hknown
  have hmatches := contentMatches_any patterns hprofile hany hfragment hargs hburst hpulses hboundary
  obtain ⟨hvalid, hrgb⟩ := frameOf_content patterns (contentRead_fragment hlength hfragment)
    (checkable_fragment hfragment (by omega) (.inr hpulses))
  rw [hmatches] at hvalid hrgb
  exact ⟨hrgb, hvalid⟩

theorem amongMatches_burst (profile : PixelType) (rgb : Word) (length : Nat)
    (hlength : 1 ≤ length) : AmongMatches profile (hexColor rgb) length := by
  intro data args colors hargs hany hmem f hf pos hfragment hpulses
  obtain ⟨start, stop, hburst, rfl⟩ := mem_records hf
  have hfragment := (fragmentOf_frameOf hburst.nonempty).mp hfragment
  rw [frameOf_place.2.2.1] at hpulses
  have hpattern : (hexColor rgb, pattern profile (hexColor rgb)) ∈ patternsFor profile colors :=
    List.mem_map.mpr ⟨_, List.mem_eraseDups.mpr hmem, rfl⟩
  have hmatches := mem_contentMatches hany hpattern hfragment hargs hburst hpulses
  obtain ⟨hvalid, -⟩ := frameOf_content (patternsFor profile colors)
    (contentRead_fragment hlength hfragment) (checkable_fragment hfragment hpulses (.inl hany))
  refine ⟨?_, start, stop, rfl, hmatches⟩
  rw [hvalid, decide_eq_true (List.ne_nil_of_mem hmatches)]

/-- The allowance of the checker is positive. -/
theorem epsilonNs_pos (data : Digital) : 0 < data.epsilonNs :=
  lt_of_lt_of_le (by norm_num) (le_max_left _ _)

theorem oneRecord_burst (profile : PixelType) (rgb : Word) (length : Nat) :
    OneRecord profile (hexColor rgb) length := by
  intro data args patterns hargs hrise pos hfragment
  obtain ⟨hbits, -, hpulses, hstart, -⟩ :=
    @frameOf_place data args patterns length 0 data.riseCount
  have heps := epsilonNs_pos data
  have hlow : ∀ i, i + 1 < data.riseCount → data.reset args i = false := by
    intro i hi
    have hreset := Fragment.reset hfragment hargs (i := i) (by omega)
    rwa [Nat.zero_add] at hreset
  refine ⟨_, single_record hrise hlow, (fragmentOf_frameOf hrise).mpr hfragment, hbits, ?_, ?_, ?_⟩
  · rw [hpulses]
    show min data.riseCount data.fallCount - 0 = data.fallCount
    rw [Nat.sub_zero, Nat.min_eq_right data.fallCount_le]
  · -- the low from the begin of the capture
    intro hlong
    rw [Digital.lowBefore, if_pos rfl] at hlong
    rw [hstart, Digital.leadingReset, decide_eq_true (show _ ≥ _ by linarith), Bool.or_true]
    rfl
  · -- the low up to its end; the last pulse has been seen whole
    intro hwhole hlong
    have hfall : data.hasFall data.riseCount = true := decide_eq_true hwhole.ge
    rw [Digital.lowAfter, if_neg (lt_irrefl _)] at hlong
    rw [missingEnd_iff, Digital.trailingReset, hfall, Digital.lastFall, if_pos hfall,
      decide_eq_true (show _ ≥ _ by linarith), Bool.and_true, Bool.or_true]
    rfl

/-- **Transmitter and checker are inverse.**  The words of the kernel and of
user space are one; the firmware sends the checker's pattern once for each
pixel; and from the widths of what it sends the checker reads it back, from
the one record it makes of a channel that shows the burst as from any other. -/
theorem transmitter_checker_inverse (profile : PixelType) (rgb : Word) (hrgb : rgb ≤ 0xffffff)
    (length : Nat) (hlength : 1 ≤ length) :
    dldWireColor profile.profileId rgb = wireColor profile.profileId rgb ∧
      normalizeColor (hexColor rgb) = .ok (hexColor rgb) ∧
      patternsFor profile [hexColor rgb] =
        [(hexColor rgb, wireBits (wireColor profile.profileId rgb))] ∧
      FirmwareSends (wireColor profile.profileId rgb) (burst profile (hexColor rgb) length) length ∧
      ReadsBack profile (hexColor rgb) length ∧ AmongMatches profile (hexColor rgb) length ∧
      OneRecord profile (hexColor rgb) length := by
  refine ⟨dldWireColor_eq profile hrgb, normalizeColor_hexColor rgb, ?_,
    firmwareSends_burst profile rgb length hlength, readsBack_burst profile rgb length hlength,
    amongMatches_burst profile rgb length hlength, oneRecord_burst profile rgb length⟩
  rw [← pattern_eq]
  rfl

/-! ### The end of two red pixels -/

/-- An export of the firmware's burst, sampled every 20 ns from the low
before pulse 18 to 400 us after the last. -/
def redSuffix : Export where
  size := headerBytes + 8 * 60
  headerSize := headerBytes
  signature := "<SALEAE>"
  version := 0
  kind := 0
  initial := 0
  beginS := some (21 / 10 ^ 6)
  endS := some (457 / 10 ^ 6)
  count := 60
  transitions := ((burstEdges .ws2812b (hexColor 0xff0000) 2).drop 36).map fun (edge, _) =>
    some ((edge / 4 : Nat) * 20 / 10 ^ 9)

theorem redSuffix_accepted : ∃ data, Digital.accept redSuffix = .ok data := by
  have hsome : (Digital.accept redSuffix).toOption.isSome = true := by decide +kernel
  rcases h : Digital.accept redSuffix with e | data
  · rw [h] at hsome
    cases hsome
  · exact ⟨data, rfl⟩

/-- What the export shows. -/
theorem redSuffix_shows : ∀ data ∈ (Digital.accept redSuffix).toOption,
    data.riseCount = 30 ∧ data.completePulses = 30 ∧ 300 * 1000 ≤ data.lowAfter data.riseCount ∧
      Fragment data 0 data.riseCount (burstEdges .ws2812b (hexColor 0xff0000) 2) 18 := by
  decide +kernel

def anyColor : Args := { profile := .ws2812b, allowAnyColor := true }

def redOrGreen : Args := { profile := .ws2812b }

theorem separating_default {args : Args} (hseparator : args.resetSeparatorUs = 50)
    (hminimum : args.minResetUs = 300) : args.Separating := by
  constructor
  · rw [hseparator]
    norm_num
  · rw [hseparator, hminimum]
    norm_num

/-- The end of the burst is enough: its phase is known, and the colour with
it. -/
theorem transmitter_checker_inverse_red :
    wireColor profileWs2812b 0xff0000 = 0x00ff00 ∧
      ∃ data f f', Digital.accept redSuffix = .ok data ∧
        Fragment data 0 data.riseCount (burstEdges .ws2812b (hexColor 0xff0000) 2) 18 ∧
        (analyzeChannel data anyColor [] 2).frames ++ (analyzeChannel data anyColor [] 2).partials =
          [f] ∧
        f.observedCompletePulses = 30 ∧ f.rgb = some "FF0000" ∧
        (analyzeChannel data redOrGreen (patternsFor .ws2812b ["00FF00", "FF0000"]) 2).frames ++
            (analyzeChannel data redOrGreen (patternsFor .ws2812b ["00FF00", "FF0000"]) 2).partials =
          [f'] ∧
        f'.contentValid = some true := by
  obtain ⟨-, -, -, -, hreads, hmatches, hrecord⟩ :=
    transmitter_checker_inverse .ws2812b 0xff0000 (by decide) 2 (by decide)
  have hred : hexColor 0xff0000 = "FF0000" := by decide +kernel
  obtain ⟨data, haccept⟩ := redSuffix_accepted
  obtain ⟨hrises, hpulses, hlong, hfragment⟩ := redSuffix_shows data (by rw [haccept]; rfl)
  have hpositive : 0 < data.riseCount := by omega
  have hany : anyColor.Separating := separating_default rfl rfl
  have hgiven : redOrGreen.Separating := separating_default rfl rfl
  obtain ⟨f, hone, hf, -, hcount, -, hend⟩ :=
    hrecord data anyColor [] hany hpositive 18 hfragment
  obtain ⟨f', hone', hf', -, hcount', -⟩ :=
    hrecord data redOrGreen (patternsFor .ws2812b ["00FF00", "FF0000"]) hgiven hpositive 18 hfragment
  -- more than a pixel, and the reset after it
  have hwhole : 24 ≤ f.observedCompletePulses := by omega
  have hknown : f.missingEndBoundary = false := hend (by omega) hlong
  refine ⟨by decide, data, f, f', haccept, hfragment, hone, by omega, ?_, hone', ?_⟩
  · rw [← hred]
    exact (hreads data anyColor [] hany rfl rfl f (by rw [hone]; exact .head _) 18 hf hwhole
      (.inr hknown)).1
  · exact (hmatches data redOrGreen ["00FF00", "FF0000"] hgiven rfl (by rw [hred]; decide) f'
      (by rw [hone']; exact .head _) 18 hf' (by omega)).1

end Capture

end Dld
