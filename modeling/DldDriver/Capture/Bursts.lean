/-
DldDriver/Capture/Bursts.lean

Facts about the bursts of a channel: the bits of a whole burst, repeated
patterns, the chunked loops as loops over all pulses, the records of the
scan and the boundaries between the bursts.
-/
import DldDriver.Capture.Channel

namespace Dld

namespace Capture

/-! ### Bursts -/

/-- The bits of a burst: the pattern once for each pixel. -/
def burst (profile : PixelType) (color : String) (length : Nat) : List Bool :=
  (List.replicate length (pattern profile color)).flatten

theorem length_pattern (profile : PixelType) (color : String) :
    (pattern profile color).length = 24 := by
  cases profile <;> rfl

theorem length_flatten_replicate {bits : List Bool} (hbits : bits.length = 24) (n : Nat) :
    (List.replicate n bits).flatten.length = 24 * n := by
  simp [hbits, Nat.mul_comm]

/-- A repeated pattern, bit by bit. -/
theorem getD_flatten_replicate {bits : List Bool} (hbits : bits.length = 24) {n j : Nat}
    (hj : j < 24 * n) : (List.replicate n bits).flatten.getD j false = bits.getD (j % 24) false := by
  induction n generalizing j with
  | zero => exact absurd hj (Nat.not_lt_zero j)
  | succ n ih =>
    rw [List.replicate_succ, List.flatten_cons]
    rcases Nat.lt_or_ge j 24 with hlt | hge
    · have hin : j < bits.length := by
        rw [hbits]
        exact hlt
      rw [List.getD_append _ _ _ _ hin, Nat.mod_eq_of_lt hlt]
    · have hout : bits.length ≤ j := by
        rw [hbits]
        exact hge
      rw [List.getD_append_right _ _ _ _ hout, hbits, ih (by omega), ← Nat.mod_eq_sub_mod hge]

theorem getD_burst (profile : PixelType) (color : String) {length j : Nat}
    (hj : j < 24 * length) :
    (burst profile color length).getD j false = (pattern profile color).getD (j % 24) false :=
  getD_flatten_replicate (length_pattern profile color) hj

theorem length_burst (profile : PixelType) (color : String) (length : Nat) :
    (burst profile color length).length = 24 * length :=
  length_flatten_replicate (length_pattern profile color) length

/-! ### Repeated patterns -/

theorem getD_repeated (bits : List Bool) (phase : Nat) {i n : Nat} (hi : i < n) :
    (Digital.repeated bits phase n).getD i false = bits.getD ((i + phase) % 24) false := by
  have hlength : i < (Digital.repeated bits phase n).length := by
    rw [Digital.repeated, List.length_map, List.length_range]
    exact hi
  rw [List.getD_eq_getElem _ _ hlength]
  simp only [Digital.repeated, List.getElem_map, List.getElem_range]

@[simp] theorem length_repeated (bits : List Bool) (phase n : Nat) :
    (Digital.repeated bits phase n).length = n := by
  rw [Digital.repeated, List.length_map, List.length_range]

/-- The first pixel of a repeated pattern, repeated, is the whole. -/
theorem repeated_take (bits : List Bool) (phase : Nat) {n : Nat} (hn : 24 ≤ n) :
    Digital.repeated ((Digital.repeated bits phase n).take 24) 0 n =
      Digital.repeated bits phase n := by
  apply List.map_congr_left
  intro i hi
  have hmod : i % 24 < 24 := Nat.mod_lt _ (by decide)
  have htake : ((Digital.repeated bits phase n).take 24).getD (i % 24) false =
      (Digital.repeated bits phase n).getD (i % 24) false := by
    rw [List.getD_eq_getElem?_getD, List.getElem?_take_of_lt hmod, List.getD_eq_getElem?_getD]
  rw [Nat.add_zero, htake, getD_repeated _ _ (by omega), Nat.mod_add_mod]

/-- Rolling back by the phase. -/
theorem roll_repeated {bits : List Bool} (hbits : bits.length = 24) {phase n : Nat}
    (hn : 24 ≤ n) (hphase : phase < 24) :
    roll ((Digital.repeated bits phase n).take 24) phase = bits := by
  apply List.ext_getElem
  · rw [roll, List.length_map, List.length_range, hbits]
  intro i hi hi'
  have hi : i < 24 := hbits ▸ hi'
  have hmod : (i + 24 - phase % 24) % 24 < 24 := Nat.mod_lt _ (by decide)
  have htake (k : Nat) (hk : k < 24) : ((Digital.repeated bits phase n).take 24).getD k false =
      bits.getD ((k + phase) % 24) false := by
    rw [List.getD_eq_getElem?_getD, List.getElem?_take_of_lt hk, ← List.getD_eq_getElem?_getD,
      getD_repeated _ _ (by omega)]
  have hback : ((i + 24 - phase % 24) % 24 + phase) % 24 = i := by omega
  simp only [roll, List.getElem_map, List.getElem_range]
  rw [htake _ hmod, hback, List.getD_eq_getElem _ _ hi']

/-! ### Chunked loops -/

section Timing

variable (data : Digital) (args : Args)

theorem flag_eq_nil_iff {kind : Violation} {bad : Nat → Bool} {indices : List Nat} :
    flag kind bad indices = [] ↔ ∀ i ∈ indices, bad i = false := by
  rw [flag, List.map_eq_nil_iff, List.filter_eq_nil_iff]
  exact forall₂_congr fun i _ => Bool.not_eq_true _ ▸ Iff.rfl

/-- Every index of a chunked loop, and no other, is in some chunk. -/
theorem forall_chunks {n m : Nat} (hm : m ≤ n) {P : Nat → Prop} :
    (∀ offset ∈ chunkOffsets n, ∀ i ∈ List.range' offset (min m (offset + chunk) - offset), P i) ↔
      ∀ i < m, P i := by
  have hrange : ∀ i, i ∈ (chunkOffsets n).flatMap (fun offset =>
      List.range' offset (min m (offset + chunk) - offset)) ↔ i < m := by
    intro i
    rw [flatMap_chunks hm, List.mem_range]
  constructor
  · intro h i hi
    obtain ⟨offset, hoffset, hmem⟩ := List.mem_flatMap.mp ((hrange i).mpr hi)
    exact h offset hoffset i hmem
  · intro h offset hoffset i hi
    exact h i ((hrange i).mp (List.mem_flatMap.mpr ⟨offset, hoffset, hi⟩))

/-- The gaps lie between the rises. -/
theorem gap_lt_iff {i : Nat} : i < min data.completePulses (data.riseCount - 1) ↔
    i + 1 < data.riseCount := by
  have hle := data.riseCount_le
  show i < min data.fallCount _ ↔ _
  omega

/-- The chunks of the gaps. -/
theorem gapChunk_eq (offset : Nat) :
    min (min data.completePulses (offset + chunk)) (data.riseCount - 1) =
      min (min data.completePulses (data.riseCount - 1)) (offset + chunk) :=
  Nat.min_right_comm _ _ _

/-- The high of a complete pulse is that of its bit. -/
def HighOk (i : Nat) : Prop := |data.high i - data.highTarget i| ≤ data.slack args

/-- A gap is a long enough reset, or the low of the bit before it. -/
structure GapOk (i : Nat) : Prop where
  low : data.reset args i = false → |data.low i - data.lowTarget i| ≤ data.slack args
  period : data.reset args i = false → |data.period i - 1200| ≤ data.slack args
  reset : data.reset args i = true → args.minResetUs * 1000 - data.epsilonNs ≤ data.low i

/-- What it takes for the timing to be accepted, pulse by pulse. -/
theorem timing_eq_nil_iff : data.timing args = [] ↔
    (∀ i < data.completePulses, HighOk data args i) ∧
      ∀ i, i + 1 < data.riseCount → GapOk data args i := by
  have hchunk (offset : Nat) : (data.timingChunk args offset).1 = [] ↔
      (∀ i ∈ List.range' offset (min data.completePulses (offset + chunk) - offset),
        HighOk data args i) ∧
      ∀ i ∈ List.range' offset
          (min (min data.completePulses (data.riseCount - 1)) (offset + chunk) - offset),
        GapOk data args i := by
    rw [← gapChunk_eq]
    simp only [Digital.timingChunk, List.append_eq_nil_iff, flag_eq_nil_iff, decide_eq_false_iff_not,
      gt_iff_lt, not_lt, Bool.and_eq_false_iff, Bool.not_eq_false', Digital.tooShort]
    constructor
    · rintro ⟨⟨⟨hhigh, hlow⟩, hperiod⟩, hshort⟩
      refine ⟨hhigh, fun i hi => ⟨fun hreset => ?_, fun hreset => ?_, fun hreset => ?_⟩⟩
      · exact (hlow i hi).resolve_left fun h => by simp [hreset] at h
      · exact (hperiod i hi).resolve_left fun h => by simp [hreset] at h
      · exact (hshort i hi).resolve_left fun h => by simp [hreset] at h
    · rintro ⟨hhigh, hgaps⟩
      refine ⟨⟨⟨hhigh, fun i hi => ?_⟩, fun i hi => ?_⟩, fun i hi => ?_⟩
      all_goals rcases hreset : data.reset args i with - | -
      · exact .inr ((hgaps i hi).low hreset)
      · exact .inl rfl
      · exact .inr ((hgaps i hi).period hreset)
      · exact .inl rfl
      · exact .inl rfl
      · exact .inr ((hgaps i hi).reset hreset)
  have hgaps : min data.completePulses (data.riseCount - 1) ≤ data.completePulses :=
    Nat.min_le_left _ _
  rw [Digital.timing, List.flatMap_eq_nil_iff]
  constructor
  · intro h
    have hhigh := (forall_chunks le_rfl).mp fun offset ho => ((hchunk offset).mp (h offset ho)).1
    have hgap := (forall_chunks hgaps).mp fun offset ho => ((hchunk offset).mp (h offset ho)).2
    exact ⟨hhigh, fun i hi => hgap i ((gap_lt_iff data).mpr hi)⟩
  · rintro ⟨hhigh, hgap⟩ offset ho
    refine (hchunk offset).mpr ⟨(forall_chunks le_rfl).mpr hhigh offset ho, ?_⟩
    exact (forall_chunks hgaps).mpr (fun i hi => hgap i ((gap_lt_iff data).mp hi)) offset ho

/-- The rises that follow a reset, without chunks. -/
theorem edges_eq : data.edges args =
    ((List.range (min data.completePulses (data.riseCount - 1))).filter (data.reset args)).map
      (· + 1) := by
  have hgaps : min data.completePulses (data.riseCount - 1) ≤ data.completePulses :=
    Nat.min_le_left _ _
  rw [← flatMap_chunks hgaps, List.filter_flatMap, List.map_flatMap, Digital.edges]
  apply List.flatMap_congr
  intro offset _
  show (List.filter (data.reset args) _).map (· + 1) = _
  rw [gapChunk_eq]

theorem mem_edges {e : Nat} : e ∈ data.edges args ↔
    ∃ i, e = i + 1 ∧ i + 1 < data.riseCount ∧ data.reset args i = true := by
  rw [edges_eq, List.mem_map]
  constructor
  · rintro ⟨i, hi, rfl⟩
    obtain ⟨hi, hreset⟩ := List.mem_filter.mp hi
    exact ⟨i, rfl, (gap_lt_iff data).mp (List.mem_range.mp hi), hreset⟩
  · rintro ⟨i, rfl, hi, hreset⟩
    exact ⟨i, List.mem_filter.mpr ⟨List.mem_range.mpr ((gap_lt_iff data).mpr hi), hreset⟩, rfl⟩

theorem edges_increasing : (data.edges args).Pairwise (· < ·) := by
  rw [edges_eq, List.pairwise_map]
  refine (List.pairwise_lt_range.filter _).imp ?_
  intro a b hab
  exact Nat.succ_lt_succ hab

/-! ### Bursts between resets -/

/-- Neighbours in an increasing list with its two ends. -/
theorem mem_zip_cuts {a b : Nat} {es : List Nat} (hes : es.Pairwise (· < ·))
    (ha : ∀ e ∈ es, a < e) (hb : ∀ e ∈ es, e < b) (hab : a < b) {x y : Nat} :
    (x, y) ∈ (a :: es).zip (es ++ [b]) ↔
      (x = a ∨ x ∈ es) ∧ (y = b ∨ y ∈ es) ∧ x < y ∧ ∀ e ∈ es, ¬ (x < e ∧ e < y) := by
  induction es generalizing a with
  | nil =>
    show (x, y) ∈ [(a, b)] ↔ _
    simp only [List.mem_singleton, Prod.mk.injEq, List.not_mem_nil, or_false, false_imp_iff,
      implies_true, and_true]
    constructor
    · rintro ⟨rfl, rfl⟩
      exact ⟨rfl, rfl, hab⟩
    · rintro ⟨rfl, rfl, -⟩
      exact ⟨rfl, rfl⟩
  | cons e es ih =>
    have hes' := List.pairwise_cons.mp hes
    have hae : a < e := ha e (.head _)
    have hrest := ih hes'.2 hes'.1 (fun e' he' => hb e' (.tail _ he')) (hb e (.head _))
    have hlarge {x : Nat} (hx : x = e ∨ x ∈ es) : e ≤ x := by
      rcases hx with rfl | hx
      · exact le_rfl
      · exact (hes'.1 x hx).le
    show (x, y) ∈ (a, e) :: (e :: es).zip (es ++ [b]) ↔ _
    rw [List.mem_cons, hrest]
    simp only [List.mem_cons, Prod.mk.injEq]
    constructor
    · rintro (⟨rfl, rfl⟩ | ⟨hx, hy, hxy, hnone⟩)
      · refine ⟨.inl rfl, .inr (.inl rfl), hae, ?_⟩
        rintro e' he' ⟨-, hlt⟩
        exact absurd (hlarge he') (not_le.mpr hlt)
      · refine ⟨.inr hx, hy.imp_right .inr, hxy, ?_⟩
        rintro e' (rfl | he') hbetween
        · exact absurd (hlarge hx) (not_le.mpr hbetween.1)
        · exact hnone e' he' hbetween
    · rintro ⟨hx, hy, hxy, hnone⟩
      rcases hx with rfl | hx
      · -- the first cut: nothing but `e` can follow
        have hye : ¬ e < y := fun hlt => hnone e (.inl rfl) ⟨hae, hlt⟩
        rcases hy with rfl | rfl | hy
        · exact absurd (hb e (.head _)) hye
        · exact .inl ⟨rfl, rfl⟩
        · exact absurd (hes'.1 y hy) hye
      · refine .inr ⟨hx, ?_, hxy, fun e' he' => hnone e' (.inr he')⟩
        rcases hy with rfl | rfl | hy
        · exact .inl rfl
        · exact absurd hxy (not_lt.mpr (hlarge hx))
        · exact .inr hy

/-- A burst: rises that no reset separates, between resets or the ends of the
capture. -/
structure IsBurst (start stop : Nat) : Prop where
  nonempty : start < stop
  inside : stop ≤ data.riseCount
  opens : start = 0 ∨ data.reset args (start - 1) = true
  closes : stop = data.riseCount ∨ data.reset args (stop - 1) = true
  joined : ∀ i, start ≤ i → i + 1 < stop → data.reset args i = false

/-- The pairs of boundaries are the bursts. -/
theorem mem_bursts_iff {start stop : Nat} :
    (start, stop) ∈ data.bursts args ∧ start ≠ stop ↔ IsBurst data args start stop := by
  rcases Nat.eq_zero_or_pos data.riseCount with hzero | hpos
  · -- no rise at all
    have hedges : data.edges args = [] := by
      apply List.eq_nil_iff_forall_not_mem.mpr
      intro e he
      obtain ⟨i, -, hi, -⟩ := (mem_edges data args).mp he
      omega
    rw [Digital.bursts, hedges, hzero]
    constructor
    · rintro ⟨hmem, hne⟩
      obtain ⟨rfl, rfl⟩ := Prod.mk.inj (List.mem_singleton.mp hmem)
      exact absurd rfl hne
    · intro h
      have hnonempty := h.nonempty
      have hinside := h.inside
      omega
  have hcuts := mem_zip_cuts (edges_increasing data args)
    (fun e he => by obtain ⟨i, rfl, -⟩ := (mem_edges data args).mp he; omega)
    (fun e he => by obtain ⟨i, rfl, hi, -⟩ := (mem_edges data args).mp he; exact hi) hpos
    (x := start) (y := stop)
  rw [Digital.bursts, hcuts]
  constructor
  · rintro ⟨⟨hstart, hstop, hlt, hnone⟩, -⟩
    refine ⟨hlt, ?_, ?_, ?_, ?_⟩
    · rcases hstop with rfl | hstop
      · exact le_rfl
      · obtain ⟨i, rfl, hi, -⟩ := (mem_edges data args).mp hstop
        exact hi.le
    · rcases hstart with rfl | hstart
      · exact .inl rfl
      · obtain ⟨i, rfl, -, hreset⟩ := (mem_edges data args).mp hstart
        exact .inr hreset
    · rcases hstop with rfl | hstop
      · exact .inl rfl
      · obtain ⟨i, rfl, -, hreset⟩ := (mem_edges data args).mp hstop
        exact .inr hreset
    · intro i hi hi'
      rcases hreset : data.reset args i with - | -
      · rfl
      · have hinside : i + 1 < data.riseCount := by
          rcases hstop with rfl | hstop
          · exact hi'
          · obtain ⟨j, rfl, hj, -⟩ := (mem_edges data args).mp hstop
            omega
        exact absurd ⟨by omega, hi'⟩
          (hnone (i + 1) ((mem_edges data args).mpr ⟨i, rfl, hinside, hreset⟩))
  · intro h
    have hne := h.nonempty.ne
    refine ⟨⟨?_, ?_, h.nonempty, ?_⟩, hne⟩
    · rcases h.opens with hzero | hreset
      · exact .inl hzero
      · rcases Nat.eq_zero_or_pos start with hzero | hstart
        · exact .inl hzero
        · have hnonempty := h.nonempty
          have hinside := h.inside
          exact .inr ((mem_edges data args).mpr ⟨start - 1, by omega, by omega, hreset⟩)
    · rcases Nat.lt_or_ge stop data.riseCount with hlt | hge
      · have hreset := h.closes.resolve_left hlt.ne
        have hnonempty := h.nonempty
        exact .inr ((mem_edges data args).mpr ⟨stop - 1, by omega, by omega, hreset⟩)
      · exact .inl (Nat.le_antisymm h.inside hge)
    · rintro e he ⟨hlow, hhigh⟩
      obtain ⟨i, rfl, -, hreset⟩ := (mem_edges data args).mp he
      rw [h.joined i (by omega) hhigh] at hreset
      exact nomatch hreset

end Timing

/-! ### Records -/

section Scan

variable {data : Digital} {args : Args} {patterns : List (String × List Bool)}
  {length start stop : Nat}

theorem sequenceStep_records (s : Digital.Scan) (rgb : Option String) :
    (Digital.sequenceStep args s rgb).frames = s.frames ∧
      (Digital.sequenceStep args s rgb).partials = s.partials := by
  unfold Digital.sequenceStep
  rcases rgb with - | color
  · exact ⟨rfl, rfl⟩
  · dsimp only
    split_ifs <;> exact ⟨rfl, rfl⟩

/-- The frames of the loop are the complete bursts, by induction over the
bursts. -/
theorem foldl_frames (bursts : List (Nat × Nat)) (s : Digital.Scan) :
    (bursts.foldl (data.scanBurst args patterns length) s).frames = s.frames ++
      (bursts.filter fun b => decide (b.2 ≠ b.1) && data.complete args b.1 b.2).map fun b =>
        data.frameOf args patterns length b.1 b.2 := by
  induction bursts generalizing s with
  | nil => exact (List.append_nil _).symm
  | cons b bursts ih =>
    rw [List.foldl_cons, ih]
    unfold Digital.scanBurst
    dsimp only
    split_ifs with hempty hcomplete
    · rw [List.filter_cons_of_neg (by simp [hempty])]
    · rw [List.filter_cons_of_pos (by simp [hempty, hcomplete]), (sequenceStep_records _ _).1,
        List.map_cons, List.append_assoc, List.singleton_append]
    · rw [List.filter_cons_of_neg (by simp [hcomplete])]

/-- The partial frames are the other bursts. -/
theorem foldl_partials (bursts : List (Nat × Nat)) (s : Digital.Scan) :
    (bursts.foldl (data.scanBurst args patterns length) s).partials = s.partials ++
      (bursts.filter fun b => decide (b.2 ≠ b.1) && !data.complete args b.1 b.2).map fun b =>
        data.frameOf args patterns length b.1 b.2 := by
  induction bursts generalizing s with
  | nil => exact (List.append_nil _).symm
  | cons b bursts ih =>
    rw [List.foldl_cons, ih]
    unfold Digital.scanBurst
    dsimp only
    split_ifs with hempty hcomplete
    · rw [List.filter_cons_of_neg (by simp [hempty])]
    · rw [List.filter_cons_of_neg (by simp [hcomplete]), (sequenceStep_records _ _).2]
    · rw [List.filter_cons_of_pos (by simp [hempty, hcomplete]), List.map_cons, List.append_assoc,
        List.singleton_append]

theorem mem_frames_iff {f : Frame} : f ∈ (analyzeChannel data args patterns length).frames ↔
    ∃ start stop, IsBurst data args start stop ∧ data.complete args start stop = true ∧
      f = data.frameOf args patterns length start stop := by
  have hframes : (analyzeChannel data args patterns length).frames =
      (data.scan args patterns length).frames := rfl
  rw [hframes, Digital.scan, foldl_frames]
  constructor
  · intro hf
    have hf := (List.mem_append.mp hf).resolve_left (List.not_mem_nil)
    obtain ⟨b, hb, rfl⟩ := List.mem_map.mp hf
    obtain ⟨hb, hkept⟩ := List.mem_filter.mp hb
    obtain ⟨hne, hcomplete⟩ := Bool.and_eq_true_iff.mp hkept
    have hne := of_decide_eq_true hne
    exact ⟨b.1, b.2, (mem_bursts_iff data args).mp ⟨hb, hne.symm⟩, hcomplete, rfl⟩
  · rintro ⟨start, stop, hburst, hcomplete, rfl⟩
    obtain ⟨hmem, hne⟩ := (mem_bursts_iff data args).mpr hburst
    refine List.mem_append_right _ (List.mem_map.mpr ⟨(start, stop), ?_, rfl⟩)
    exact List.mem_filter.mpr ⟨hmem, by simp [hne.symm, hcomplete]⟩

theorem mem_partials_iff {f : Frame} : f ∈ (analyzeChannel data args patterns length).partials ↔
    ∃ start stop, IsBurst data args start stop ∧ data.complete args start stop = false ∧
      f = data.frameOf args patterns length start stop := by
  have hpartials : (analyzeChannel data args patterns length).partials =
      (data.scan args patterns length).partials := rfl
  rw [hpartials, Digital.scan, foldl_partials]
  constructor
  · intro hf
    have hf := (List.mem_append.mp hf).resolve_left (List.not_mem_nil)
    obtain ⟨b, hb, rfl⟩ := List.mem_map.mp hf
    obtain ⟨hb, hkept⟩ := List.mem_filter.mp hb
    obtain ⟨hne, hcomplete⟩ := Bool.and_eq_true_iff.mp hkept
    have hne := of_decide_eq_true hne
    refine ⟨b.1, b.2, (mem_bursts_iff data args).mp ⟨hb, hne.symm⟩, ?_, rfl⟩
    simpa using hcomplete
  · rintro ⟨start, stop, hburst, hcomplete, rfl⟩
    obtain ⟨hmem, hne⟩ := (mem_bursts_iff data args).mpr hburst
    refine List.mem_append_right _ (List.mem_map.mpr ⟨(start, stop), ?_, rfl⟩)
    exact List.mem_filter.mpr ⟨hmem, by simp [hne.symm, hcomplete]⟩

/-- Every record is that of a burst. -/
theorem mem_records {f : Frame} (hf : f ∈ (analyzeChannel data args patterns length).frames ++
      (analyzeChannel data args patterns length).partials) :
    ∃ start stop, IsBurst data args start stop ∧
      f = data.frameOf args patterns length start stop := by
  rcases List.mem_append.mp hf with hf | hf
  · obtain ⟨start, stop, hburst, -, heq⟩ := mem_frames_iff.mp hf
    exact ⟨start, stop, hburst, heq⟩
  · obtain ⟨start, stop, hburst, -, heq⟩ := mem_partials_iff.mp hf
    exact ⟨start, stop, hburst, heq⟩

theorem sequenceStep_violations (s : Digital.Scan) (rgb : Option String) :
    (args.sequence = [] → (Digital.sequenceStep args s rgb).violations = s.violations) ∧
      ∀ v ∈ s.violations, v ∈ (Digital.sequenceStep args s rgb).violations := by
  unfold Digital.sequenceStep
  rcases rgb with - | color
  · exact ⟨fun _ => rfl, fun v hv => hv⟩
  · dsimp only
    split_ifs with hsequence hpositions
    · exact ⟨fun _ => rfl, fun v hv => hv⟩
    · exact ⟨fun h => absurd h hsequence, fun v hv => List.mem_append_left _ hv⟩
    · exact ⟨fun _ => rfl, fun v hv => hv⟩

/-- What is found at a burst is found by the scan. -/
theorem mem_foldl_violations {bursts : List (Nat × Nat)} {s : Digital.Scan} {v : Violation}
    (hv : v ∈ s.violations ∨ ∃ start stop, (start, stop) ∈ bursts ∧ start ≠ stop ∧
      v ∈ data.frameViolations args patterns length start stop) :
    v ∈ (bursts.foldl (data.scanBurst args patterns length) s).violations := by
  induction bursts generalizing s with
  | nil =>
    rcases hv with hv | ⟨start, stop, hmem, -⟩
    · exact hv
    · exact nomatch hmem
  | cons b bursts ih =>
    rw [List.foldl_cons]
    apply ih
    have hadds (hne : b.2 ≠ b.1) (hv : v ∈ s.violations ++
        data.frameViolations args patterns length b.1 b.2) :
        v ∈ (data.scanBurst args patterns length s b).violations := by
      unfold Digital.scanBurst
      dsimp only
      rw [if_neg hne]
      split_ifs
      · exact (sequenceStep_violations _ _).2 v hv
      · exact hv
    rcases hv with hv | ⟨start, stop, hmem, hne, hv⟩
    · left
      by_cases hne : b.2 = b.1
      · unfold Digital.scanBurst
        dsimp only
        rw [if_pos hne]
        exact hv
      · exact hadds hne (List.mem_append_left _ hv)
    · rcases List.mem_cons.mp hmem with rfl | hmem
      · exact .inl (hadds hne.symm (List.mem_append_right _ hv))
      · exact .inr ⟨start, stop, hmem, hne, hv⟩

/-- What the record of a burst says about its place. -/
theorem frameOf_place :
    (data.frameOf args patterns length start stop).bits = stop - start ∧
      (data.frameOf args patterns length start stop).observedRiseIndex = start ∧
      (data.frameOf args patterns length start stop).observedCompletePulses =
        min stop data.completePulses - start ∧
      (data.frameOf args patterns length start stop).missingStartBoundary =
        !data.leadingReset args start ∧
      (data.frameOf args patterns length start stop).missingEndBoundary =
        (!data.trailingReset args stop || !data.hasFall stop) := by
  unfold Digital.frameOf
  dsimp only
  split_ifs <;> exact ⟨rfl, rfl, rfl, rfl, rfl⟩

/-- The end of a burst is observed with its last fall. -/
theorem hasFall_of_trailing (h : data.trailingReset args stop = true) :
    data.hasFall stop = true := by
  rcases Bool.or_eq_true_iff.mp h with hmore | hend
  · have hmore : stop < data.riseCount := of_decide_eq_true hmore
    have hle := data.riseCount_le
    apply decide_eq_true
    show stop ≤ data.fallCount
    omega
  · exact (Bool.and_eq_true_iff.mp hend).1

theorem missingEnd_iff :
    (data.frameOf args patterns length start stop).missingEndBoundary =
      !data.trailingReset args stop := by
  rw [frameOf_place.2.2.2.2]
  rcases htrailing : data.trailingReset args stop with - | -
  · rfl
  · rw [hasFall_of_trailing htrailing]
    rfl

end Scan

end Capture

end Dld
