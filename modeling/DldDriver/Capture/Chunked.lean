/-
DldDriver/Capture/Chunked.lean

The checker with the size of a chunk as a parameter: the constructor of
`Digital`, the loop over the pulses with its statistics, and the comparison
of the edges of two strings.

    offsetsBy c n    `range(0, n, CHUNK)`
    Distribution     count, minimum, maximum and histogram; the sum, whose
                     rounding depends on the order, is left out

A chunk is a piece of a range.  The violations of the pieces are a
permutation of those of the whole range, and everything else is the same.
-/
import DldDriver.Capture.Analyze
import DldDriver.Capture.Bursts
import Mathlib.Data.PNat.Basic
import Mathlib.Data.List.Perm.Basic
import Mathlib.Order.WithBot
import Mathlib.Algebra.BigOperators.Ring.List

namespace Dld

namespace Capture

/-! ### Pieces of a range -/

/-- `range(0, n, CHUNK)` -/
def offsetsBy (c : ℕ+) (n : Nat) : List Nat :=
  (List.range n).filter fun offset => offset % (c : Nat) = 0

/-- `CHUNK` as it is set. -/
def chunkSize : ℕ+ := ⟨chunk, by decide⟩

theorem offsetsBy_chunkSize (n : Nat) : offsetsBy chunkSize n = chunkOffsets n := rfl

theorem offsetsBy_eq (c : ℕ+) (n : Nat) :
    offsetsBy c n = (List.range ((n + c - 1) / c)).map (· * (c : Nat)) := by
  have hc : 0 < (c : Nat) := c.pos
  induction n with
  | zero =>
    have hnone : (0 + (c : Nat) - 1) / c = 0 := Nat.div_eq_of_lt (by omega)
    rw [hnone]
    rfl
  | succ n ih =>
    rw [offsetsBy, List.range_succ, List.filter_append]
    show offsetsBy c n ++ _ = _
    have hdiv := Nat.div_add_mod n c
    have hmod := Nat.mod_lt n hc
    rw [ih]
    rcases Nat.eq_zero_or_pos (n % c) with hzero | hpos
    · -- a chunk begins at `n`
      have hn : n = c * (n / c) := by omega
      have hcount : (n + c - 1) / c = n / c := by
        have hsplit : n + (c : Nat) - 1 = (c - 1) + c * (n / c) := by omega
        rw [hsplit, Nat.add_mul_div_left _ _ hc, Nat.div_eq_of_lt (by omega), Nat.zero_add]
      have hnext : (n + 1 + c - 1) / c = n / c + 1 := by
        rw [show n + 1 + (c : Nat) - 1 = n + c by omega, Nat.add_div_right _ hc]
      rw [hcount, hnext, List.range_succ, List.map_append]
      simp only [List.map_singleton, List.filter_cons, hzero, decide_true, if_true, List.filter_nil]
      rw [Nat.mul_comm, ← hn]
    · have hsame : (n + 1 + (c : Nat) - 1) / c = (n + c - 1) / c := by
        have hleft : n + 1 + (c : Nat) - 1 = n % c + c * (n / c + 1) := by
          rw [Nat.mul_add]
          omega
        have hright : n + (c : Nat) - 1 = (n % c - 1) + c * (n / c + 1) := by
          rw [Nat.mul_add]
          omega
        have hless : n % c - 1 < c := by omega
        rw [hleft, hright, Nat.add_mul_div_left _ _ hc, Nat.add_mul_div_left _ _ hc,
          Nat.div_eq_of_lt hmod, Nat.div_eq_of_lt hless]
      rw [hsame]
      simp [Nat.ne_of_gt hpos]

/-- Piece by piece is the whole range; `m` is where a second bound cuts the
last pieces short. -/
theorem flatMap_offsetsBy (c : ℕ+) {n m : Nat} (hm : m ≤ n) :
    (offsetsBy c n).flatMap (fun offset => List.range' offset (min m (offset + c) - offset)) =
      List.range m := by
  have hcover : n ≤ (n + c - 1) / c * c := by
    have hc : 0 < (c : Nat) := c.pos
    have hdiv := Nat.div_add_mod (n + c - 1) c
    have hmod := Nat.mod_lt (n + c - 1) hc
    rw [Nat.mul_comm] at hdiv
    omega
  rw [offsetsBy_eq, List.flatMap_map, flatMap_pieces, Nat.min_eq_left (hm.trans hcover)]

/-! ### The constructor -/

/-- The blocks of the transitions. -/
def blocksBy (c : ℕ+) (ts : List Double) : List (List Double) :=
  (offsetsBy c ts.length).map fun offset => (ts.drop offset).take c

theorem blocksBy_ne_nil (c : ℕ+) (ts : List Double) : ∀ block ∈ blocksBy c ts, block ≠ [] := by
  intro block hblock
  obtain ⟨offset, hoffset, rfl⟩ := List.mem_map.mp hblock
  have hlt : offset < ts.length := List.mem_range.mp (List.mem_filter.mp hoffset).1
  have hc : 0 < (c : Nat) := c.pos
  apply List.ne_nil_of_length_pos
  rw [List.length_take, List.length_drop]
  omega

/-- The blocks are the transitions. -/
theorem flatten_blocksBy (c : ℕ+) (ts : List Double) : (blocksBy c ts).flatten = ts := by
  have hpiece (offset : Nat) : (ts.drop offset).take c =
      (List.range' offset (min ts.length (offset + c) - offset)).map fun i => ts.getD i none := by
    apply List.ext_getElem
    · simp only [List.length_take, List.length_drop, List.length_map, List.length_range']
      omega
    · intro i hi hi'
      simp only [List.length_take, List.length_drop] at hi
      have hlt : offset + i < ts.length := by omega
      simp [List.getElem?_eq_getElem hlt]
  have hwhole : (List.range ts.length).map (fun i => ts.getD i none) = ts := by
    apply List.ext_getElem
    · simp
    · intro i hi hi'
      simp [List.getElem?_eq_getElem hi']
  show ((offsetsBy c ts.length).map _).flatten = ts
  simp only [hpiece]
  rw [← List.flatMap_def, ← List.map_flatMap, flatMap_offsetsBy c le_rfl, hwhole]

theorem finiteValues_append (a b : List Double) : finiteValues (a ++ b) =
    (finiteValues a).bind fun xs => (finiteValues b).map (xs ++ ·) := by
  induction a with
  | nil => simp [finiteValues]
  | cons t a ih =>
    cases t with
    | none => rfl
    | some t =>
      show (finiteValues (a ++ b)).map (t :: ·) = ((finiteValues a).map (t :: ·)).bind _
      rw [ih]
      cases finiteValues a <;> cases finiteValues b <;> rfl

section Accept

variable {beginS endS : ℚ} {previous : Option ℚ}

theorem not_decreases_of_pairwise {ts : List ℚ} (h : ts.Pairwise (· < ·)) :
    decreases ts = false := by
  induction ts with
  | nil => rfl
  | cons a ts ih =>
    rcases ts with - | ⟨b, rest⟩
    · rfl
    · obtain ⟨ha, hrest⟩ := List.pairwise_cons.mp h
      show (decide (b ≤ a) || decreases (b :: rest)) = false
      rw [ih hrest, decide_eq_false (not_le.mpr (ha b (.head _)))]
      rfl

/-- A block that is finite and in order is accepted. -/
theorem checkBlock_complete {block : List Double} {ts : List ℚ}
    (hvalues : finiteValues block = some ts) (h : Accepted beginS endS previous ts) :
    checkBlock beginS endS previous block = .ok ts := by
  have hrange : ¬ ((∃ t ∈ ts.head?, t < beginS) ∨ ∃ t ∈ ts.getLast?, t > endS) := by
    rintro (⟨t, ht, hlt⟩ | ⟨t, ht, hlt⟩)
    · exact absurd (h.within t (List.mem_of_mem_head? ht)).1 (not_le.mpr hlt)
    · exact absurd (h.within t (List.mem_of_mem_getLast? ht)).2 (not_le.mpr hlt)
  have horder : ¬ ((∃ p ∈ previous, ∃ t ∈ ts.head?, t ≤ p) ∨ decreases ts = true) := by
    rintro (⟨p, hp, t, ht, hle⟩ | hdecreases)
    · exact absurd (h.after p hp t (List.mem_of_mem_head? ht)) (not_lt.mpr hle)
    · rw [not_decreases_of_pairwise h.increasing] at hdecreases
      cases hdecreases
  rw [checkBlock, hvalues]
  show (if _ then _ else if _ then _ else _) = _
  rw [if_neg hrange, if_neg horder]

/-- The blocks are accepted exactly if their values together are finite, in
range and in order. -/
theorem checkBlocks_iff {blocks : List (List Double)} {ts : List ℚ}
    (hblocks : ∀ block ∈ blocks, block ≠ []) :
    checkBlocks beginS endS previous blocks = .ok ts ↔
      finiteValues blocks.flatten = some ts ∧ Accepted beginS endS previous ts := by
  constructor
  · intro h
    refine ⟨?_, checkBlocks_sound hblocks h⟩
    clear hblocks
    induction blocks generalizing previous ts with
    | nil =>
      cases h
      rfl
    | cons block rest ih =>
      rw [checkBlocks] at h
      rcases hblock : checkBlock beginS endS previous block with e | first
      · rw [hblock] at h
        cases h
      rw [hblock] at h
      dsimp only at h
      rcases hrest : checkBlocks beginS endS first.getLast? rest with e | more
      · rw [hrest] at h
        cases h
      rw [hrest] at h
      cases h
      have hfirst : finiteValues block = some first := by
        unfold checkBlock at hblock
        rcases hvalues : finiteValues block with - | values
        · rw [hvalues] at hblock
          cases hblock
        · rw [hvalues] at hblock
          dsimp only at hblock
          split_ifs at hblock
          cases hblock
          rfl
      rw [List.flatten_cons, finiteValues_append, hfirst, ih hrest]
      rfl
  · rintro ⟨hvalues, haccepted⟩
    induction blocks generalizing previous ts with
    | nil =>
      cases hvalues
      rfl
    | cons block rest ih =>
      rw [List.flatten_cons, finiteValues_append] at hvalues
      obtain ⟨first, hfirst, hsplit⟩ := Option.bind_eq_some_iff.mp hvalues
      obtain ⟨more, hmore, rfl⟩ := Option.map_eq_some_iff.mp hsplit
      have hne := finiteValues_ne_nil (hblocks block (.head _)) hfirst
      obtain ⟨hincreasing, hincreasing', hbetween⟩ := List.pairwise_append.mp haccepted.increasing
      have hblock : Accepted beginS endS previous first :=
        ⟨hincreasing, fun t ht => haccepted.within t (List.mem_append_left _ ht),
          fun p hp t ht => haccepted.after p hp t (List.mem_append_left _ ht)⟩
      have hrest : Accepted beginS endS first.getLast? more := by
        refine ⟨hincreasing', fun t ht => haccepted.within t (List.mem_append_right _ ht), ?_⟩
        exact fun p hp t ht => hbetween p (List.mem_of_mem_getLast? hp) t ht
      rw [checkBlocks, checkBlock_complete hfirst hblock]
      dsimp only
      rw [ih (fun b hb => hblocks b (.tail _ hb)) hmore hrest]

end Accept

/-- `Digital(path)` with `CHUNK` set to `c`. -/
def Digital.acceptBy (c : ℕ+) (x : Export) : Except InputError Digital :=
  match hheader : checkHeader x with
  | .error e => .error e
  | .ok range =>
    match hblocks : checkBlocks range.1 range.2 none (blocksBy c x.transitions) with
    | .error e => .error e
    | .ok ts => .ok {
        initial := decide (x.initial = 1)
        beginS := range.1
        endS := range.2
        transitions := ts
        range := checkHeader_range hheader
        increasing := (checkBlocks_sound (blocksBy_ne_nil _ _) hblocks).increasing
        within := (checkBlocks_sound (blocksBy_ne_nil _ _) hblocks).within }

theorem Digital.acceptBy_chunkSize (x : Export) : Digital.acceptBy chunkSize x = Digital.accept x :=
  rfl

/-- What is accepted, and as what, without chunks. -/
theorem acceptBy_iff (c : ℕ+) (x : Export) (data : Digital) :
    Digital.acceptBy c x = .ok data ↔
      checkHeader x = .ok (data.beginS, data.endS) ∧
        finiteValues x.transitions = some data.transitions ∧
        data.initial = decide (x.initial = 1) := by
  have hblocks (range : ℚ × ℚ) (ts : List ℚ) :
      checkBlocks range.1 range.2 none (blocksBy c x.transitions) = .ok ts ↔
        finiteValues x.transitions = some ts ∧ Accepted range.1 range.2 none ts := by
    rw [checkBlocks_iff (blocksBy_ne_nil c _), flatten_blocksBy]
  constructor
  · intro h
    unfold Digital.acceptBy at h
    split at h
    · cases h
    rename_i range hheader
    split at h
    · cases h
    rename_i ts hts
    cases h
    exact ⟨hheader, ((hblocks range ts).mp hts).1, rfl⟩
  · rintro ⟨hheader, hvalues, hinitial⟩
    have haccepted : Accepted data.beginS data.endS none data.transitions :=
      ⟨data.increasing, data.within, fun p hp => nomatch hp⟩
    have hts := (hblocks (data.beginS, data.endS) data.transitions).mpr ⟨hvalues, haccepted⟩
    unfold Digital.acceptBy
    split
    · rename_i e he
      rw [hheader] at he
      cases he
    rename_i range hrange
    obtain rfl : (data.beginS, data.endS) = range := Except.ok.inj (hheader.symm.trans hrange)
    split
    · rename_i e he
      rw [hts] at he
      cases he
    rename_i ts hts'
    obtain rfl : data.transitions = ts := Except.ok.inj (hts.symm.trans hts')
    obtain ⟨initial, beginS, endS, transitions, range, increasing, within⟩ := data
    obtain rfl : initial = decide (x.initial = 1) := hinitial
    rfl

/-! ### Distributions -/

/-- `class Distribution` over the bins that begin at `edges`; the last bin is
unbounded.  No value is a minimum of infinity. -/
structure Distribution (edges : List ℚ) where
  count : Nat := 0
  minimum : WithTop ℚ := ⊤
  maximum : WithBot ℚ := ⊥
  hist : Fin edges.length → Int := fun _ => 0

/-- The number of values before the edge of bin `i`; after the last edge all
of them. -/
def below (edges ns : List ℚ) (i : Nat) : Int :=
  match edges[i]? with
  | some edge => ns.countP fun v => decide (v < edge)
  | none => ns.length

/-- `np.histogram(ns, bins=HIST_EDGES)[0]`: the differences of neighbouring
counts. -/
def histogram (edges ns : List ℚ) (i : Fin edges.length) : Int :=
  below edges ns (i + 1) - below edges ns i

def Distribution.add {edges : List ℚ} (d : Distribution edges) (ns : List ℚ) :
    Distribution edges :=
  if ns = [] then d
  else
    { count := d.count + ns.length
      minimum := ns.foldl (fun (m : WithTop ℚ) (v : ℚ) => min m v) d.minimum
      maximum := ns.foldl (fun (m : WithBot ℚ) (v : ℚ) => max m v) d.maximum
      hist := fun i => d.hist i + histogram edges ns i }

section Distribution

variable {edges : List ℚ}

theorem below_append (ns ns' : List ℚ) (i : Nat) :
    below edges (ns ++ ns') i = below edges ns i + below edges ns' i := by
  rw [below, below, below]
  cases edges[i]? with
  | none => simp
  | some edge => simp

theorem histogram_append (ns ns' : List ℚ) (i : Fin edges.length) :
    histogram edges (ns ++ ns') i = histogram edges ns i + histogram edges ns' i := by
  rw [histogram, histogram, histogram, below_append, below_append]
  omega

/-- Adding one after the other is adding both. -/
theorem Distribution.add_add (d : Distribution edges) (ns ns' : List ℚ) :
    (d.add ns).add ns' = d.add (ns ++ ns') := by
  by_cases hns : ns = []
  · subst hns
    rfl
  by_cases hns' : ns' = []
  · subst hns'
    rw [List.append_nil]
    rfl
  have hboth : ns ++ ns' ≠ [] := fun h => hns (List.append_eq_nil_iff.mp h).1
  simp only [Distribution.add, if_neg hns, if_neg hns', if_neg hboth, List.foldl_append,
    List.length_append, histogram_append, Nat.add_assoc, Int.add_assoc]

/-- Piece by piece is all at once. -/
theorem Distribution.foldl_add {α : Type} (d : Distribution edges) (pieces : List α)
    (values : α → List ℚ) :
    pieces.foldl (fun d piece => d.add (values piece)) d = d.add (pieces.flatMap values) := by
  induction pieces generalizing d with
  | nil => rfl
  | cons piece rest ih =>
    rw [List.foldl_cons, ih, Distribution.add_add, List.flatMap_cons]

end Distribution

/-! ### The loop over the pulses -/

/-- `args.mode`, with the length of the string where it matters. -/
inductive Mode
  | dld (length : Nat)
  | legacy

/-- `args.mode == 'dld'` -/
def Mode.isDld : Mode → Bool
  | .dld _ => true
  | .legacy => false

/-- `boundary_us` takes the place of the minimum reset. -/
def Mode.boundary (mode : Mode) (args : Args) : Args :=
  match mode with
  | .dld _ => args
  | .legacy => { args with minResetUs := args.resetSeparatorUs }

/-- The keys of `stats`. -/
inductive Stat
  | high
  | low
  | zeroHigh
  | oneHigh
  | zeroDataLow
  | oneDataLow
  | bitPeriod
  | resetLow
  | pixelBoundaryLow
  | pixelBoundaryPeriod
  deriving DecidableEq

namespace Digital

variable (data : Digital) (args : Args)

/-- The complete pulses of the chunk at `offset`. -/
def pulsesBy (c : ℕ+) (offset : Nat) : List Nat :=
  List.range' offset (min data.completePulses (offset + c) - offset)

/-- Its gaps: up to the last rise. -/
def gapsBy (c : ℕ+) (offset : Nat) : List Nat :=
  List.range' offset (min (min data.completePulses (offset + c)) (data.riseCount - 1) - offset)

/-- The timing of some pulses and some gaps. -/
def timingOver (pulses gaps : List Nat) : List Violation :=
  flag .highWidth (fun i => decide (|data.high i - data.highTarget i| > data.slack args)) pulses ++
    flag .lowWidth (fun i => !data.reset args i &&
      decide (|data.low i - data.lowTarget i| > data.slack args)) gaps ++
    flag .bitPeriod (fun i => !data.reset args i &&
      decide (|data.period i - 1200| > data.slack args)) gaps ++
    flag .resetTooShort (fun i => data.reset args i && data.tooShort args (data.low i)) gaps

/-- The rises after a reset among some gaps. -/
def edgesOver (gaps : List Nat) : List Nat := (gaps.filter (data.reset args)).map (· + 1)

/-- What some pulses and some gaps add to a distribution. -/
def valuesOver (isDld : Bool) (pulses gaps : List Nat) : Stat → List ℚ
  | .high => pulses.map data.high
  | .zeroHigh => if isDld then (pulses.filter fun i => !data.bit i).map data.high else []
  | .oneHigh => if isDld then (pulses.filter data.bit).map data.high else []
  | .low => gaps.map data.low
  | .resetLow => (gaps.filter (data.reset args)).map data.low
  | .zeroDataLow =>
    if isDld then (gaps.filter fun i => !data.reset args i && !data.bit i).map data.low else []
  | .oneDataLow =>
    if isDld then (gaps.filter fun i => !data.reset args i && data.bit i).map data.low else []
  | .bitPeriod => (gaps.filter fun i => !data.reset args i).map data.period
  | .pixelBoundaryLow | .pixelBoundaryPeriod => []

def timingBy (c : ℕ+) : List Violation :=
  (offsetsBy c data.completePulses).flatMap fun offset =>
    data.timingOver args (data.pulsesBy c offset) (data.gapsBy c offset)

def edgesBy (c : ℕ+) : List Nat :=
  (offsetsBy c data.completePulses).flatMap fun offset => data.edgesOver args (data.gapsBy c offset)

/-- `boundaries` as pairs of neighbours. -/
def burstsBy (c : ℕ+) : List (Nat × Nat) :=
  (0 :: data.edgesBy args c).zip (data.edgesBy args c ++ [data.riseCount])

/-- The low before the first rise, if the high before it was cut. -/
def initialValues : Stat → List ℚ
  | .low => if data.initial = true ∧ data.count ≠ 0 ∧ data.riseCount ≠ 0 then [data.initialLow] else []
  | _ => []

/-- `pixel_ends` -/
def pixelEnds (start stop : Nat) : List Nat :=
  List.range' (start + 23) ((min (stop - 1) data.completePulses - (start + 23) + 23) / 24) 24

/-- What a burst adds to a distribution. -/
def burstValues (burst : Nat × Nat) (stat : Stat) : List ℚ :=
  if burst.2 = burst.1 ∨ data.leadingReset args burst.1 = false then []
  else match stat with
  | .pixelBoundaryLow => (data.pixelEnds burst.1 burst.2).map data.low
  | .pixelBoundaryPeriod => (data.pixelEnds burst.1 burst.2).map data.period
  | _ => []

/-- `stats[stat]` after the loops. -/
def statsBy (c : ℕ+) (edges : List ℚ) (mode : Mode) (stat : Stat) : Distribution edges :=
  let d : Distribution edges := (offsetsBy c data.completePulses).foldl (fun d offset =>
    d.add (data.valuesOver args mode.isDld (data.pulsesBy c offset) (data.gapsBy c offset) stat)) {}
  let d := d.add (data.initialValues stat)
  (data.burstsBy args c).foldl (fun d burst =>
    d.add (data.burstValues (mode.boundary args) burst stat)) d

/-- A burst in the mode `legacy`: a record and nothing else. -/
def scanLegacy (s : Scan) (burst : Nat × Nat) : Scan :=
  let (start, stop) := burst
  if stop = start then s
  else if data.complete args start stop then
    { s with frames := s.frames ++ [data.record args start stop] }
  else { s with partials := s.partials ++ [data.record args start stop] }

end Digital

/-- What `analyze_channel` reports: the result that is read on, the bursts
and the distributions. -/
structure ChannelReport (edges : List ℚ) where
  result : ChannelResult
  bursts : List (Nat × Nat)
  stats : Stat → Distribution edges

/-- `analyze_channel` with `CHUNK` set to `c`. -/
def analyzeChannelBy (c : ℕ+) (edges : List ℚ) (data : Digital) (args : Args)
    (patterns : List (String × List Bool)) (mode : Mode) : ChannelReport edges :=
  let bursts := data.burstsBy args c
  { bursts := bursts
    stats := data.statsBy args c edges mode
    result := match mode with
      | .dld length =>
        let s := bursts.foldl (data.scanBurst args patterns length) {}
        { data := data
          frames := s.frames
          partials := s.partials
          violations := data.timingBy args c ++ data.initialLowViolations args ++
            data.boundaryViolations args length ++ s.violations ++
            frameCountViolations args length s.frames.length }
      | .legacy =>
        let s := bursts.foldl (data.scanLegacy (mode.boundary args)) {}
        { data := data, frames := s.frames, partials := s.partials, violations := [] } }

/-- The analysis of a channel as it is run. -/
theorem analyzeChannelBy_chunkSize (edges : List ℚ) (data : Digital) (args : Args)
    (patterns : List (String × List Bool)) (length : Nat) :
    (analyzeChannelBy chunkSize edges data args patterns (.dld length)).result =
      analyzeChannel data args patterns length := rfl

/-! ### Without chunks -/

section Whole

variable (data : Digital) (args : Args)

/-- All gaps. -/
def allGaps : List Nat := List.range (min data.completePulses (data.riseCount - 1))

theorem flatMap_pulsesBy (c : ℕ+) : (offsetsBy c data.completePulses).flatMap (data.pulsesBy c) =
    List.range data.completePulses := flatMap_offsetsBy c le_rfl

theorem flatMap_gapsBy (c : ℕ+) : (offsetsBy c data.completePulses).flatMap (data.gapsBy c) =
    allGaps data := by
  rw [allGaps, ← flatMap_offsetsBy c (Nat.min_le_left _ _)]
  apply List.flatMap_congr
  intro offset _
  show List.range' offset _ = _
  rw [Nat.min_right_comm]

theorem flatMap_flag (kind : Violation) (bad : Nat → Bool) (offsets : List Nat)
    (piece : Nat → List Nat) : offsets.flatMap (fun offset => flag kind bad (piece offset)) =
      flag kind bad (offsets.flatMap piece) := by
  rw [flag, List.filter_flatMap, List.map_flatMap]
  rfl

/-- The violations of the pieces are those of the whole, in another order. -/
theorem timingOver_perm (offsets : List Nat) (pulses gaps : Nat → List Nat) :
    (offsets.flatMap fun offset => data.timingOver args (pulses offset) (gaps offset)).Perm
      (data.timingOver args (offsets.flatMap pulses) (offsets.flatMap gaps)) := by
  rw [Digital.timingOver, ← flatMap_flag, ← flatMap_flag, ← flatMap_flag, ← flatMap_flag]
  refine (List.flatMap_append_perm offsets _ _).symm.trans (.append_right _ ?_)
  refine (List.flatMap_append_perm offsets _ _).symm.trans (.append_right _ ?_)
  exact (List.flatMap_append_perm offsets _ _).symm

theorem timingBy_perm (c : ℕ+) : (data.timingBy args c).Perm
    (data.timingOver args (List.range data.completePulses) (allGaps data)) := by
  have hperm := timingOver_perm data args (offsetsBy c data.completePulses) (data.pulsesBy c)
    (data.gapsBy c)
  rw [flatMap_pulsesBy, flatMap_gapsBy] at hperm
  exact hperm

theorem edgesBy_eq (c : ℕ+) : data.edgesBy args c = data.edgesOver args (allGaps data) := by
  rw [Digital.edgesOver, ← flatMap_gapsBy data c, List.filter_flatMap, List.map_flatMap]
  rfl

theorem burstsBy_eq (c c' : ℕ+) : data.burstsBy args c = data.burstsBy args c' := by
  rw [Digital.burstsBy, Digital.burstsBy, edgesBy_eq, edgesBy_eq]

/-- What the pieces add is what the whole adds. -/
theorem flatMap_valuesOver (isDld : Bool) (offsets : List Nat) (pulses gaps : Nat → List Nat)
    (stat : Stat) :
    (offsets.flatMap fun offset => data.valuesOver args isDld (pulses offset) (gaps offset) stat) =
      data.valuesOver args isDld (offsets.flatMap pulses) (offsets.flatMap gaps) stat := by
  have hnone : (offsets.flatMap fun _ => ([] : List ℚ)) = [] := by simp
  cases stat <;> cases isDld <;>
    simp only [Digital.valuesOver, List.filter_flatMap, List.map_flatMap, hnone, if_true,
      Bool.false_eq_true, if_false]

theorem statsBy_eq (c c' : ℕ+) (edges : List ℚ) (mode : Mode) :
    data.statsBy args c edges mode = data.statsBy args c' edges mode := by
  funext stat
  simp only [Digital.statsBy, Distribution.foldl_add, flatMap_valuesOver, flatMap_pulsesBy,
    flatMap_gapsBy]
  rw [burstsBy_eq data args c c']

end Whole

/-! ### The banks -/

/-- The loops over the strings of a bank: the events, what was found, and
`compared_edges`. -/
structure BankScan where
  events : List BankEvent := []
  violations : List Violation := []
  comparedEdges : Nat := 0

/-- The index pairs of two frames whose edges correspond. -/
def sharedPulses (other frame : Frame) : Nat :=
  min frame.observedCompletePulses other.observedCompletePulses

/-- Corresponding edges of two frames, over some indices. -/
def skewsOver (skewS : ℚ) (anchor member : Digital) (other frame : Frame) (indices : List Nat) :
    List Violation :=
  let a := other.observedRiseIndex
  let b := frame.observedRiseIndex
  let skewed (left right : Nat → ℚ) (i : Nat) : Bool :=
    decide (|(right (b + i) - left (a + i)) * 10 ^ 9| > skewS * 10 ^ 9)
  flag .bankRiseSkew (skewed anchor.rise member.rise) indices ++
    flag .bankFallSkew (skewed anchor.fall member.fall) indices

/-- The indices of the chunk at `offset`. -/
def sharedBy (c : ℕ+) (count offset : Nat) : List Nat :=
  List.range' offset (min count (offset + c) - offset)

def edgeSkewsBy (c : ℕ+) (skewS : ℚ) (anchor member : Digital) (other frame : Frame) :
    List Violation :=
  (offsetsBy c (sharedPulses other frame)).flatMap fun offset =>
    skewsOver skewS anchor member other frame (sharedBy c (sharedPulses other frame) offset)

/-- The rises and the falls that are compared, `stop - offset` in each chunk. -/
def comparedBy (c : ℕ+) (other frame : Frame) : Nat :=
  ((offsetsBy c (sharedPulses other frame)).map fun offset =>
    2 * (sharedBy c (sharedPulses other frame) offset).length).sum

/-- One frame of a member against its partner at the anchor. -/
def compareFrameBy (c : ℕ+) (skewS : ℚ) (anchor member : Digital) (anchors : List Frame)
    (s : BankScan) (frame : Frame) : BankScan :=
  match nearest anchors frame.startS with
  | none => s
  | some other =>
    if |other.startS - frame.startS| > skewS then s
    else
      { events := extendEvent s.events other frame
        violations := s.violations ++
          (if frame.rgb ≠ none ∧ other.rgb ≠ none ∧ frame.rgb ≠ other.rgb then
            [.bankPinColorMismatch] else []) ++
          edgeSkewsBy c skewS anchor member other frame
        comparedEdges := s.comparedEdges + comparedBy c other frame }

/-- One member of a bank against the anchor. -/
def compareMemberBy (c : ℕ+) (skewS : ℚ) (anchor : ChannelResult) (s : BankScan)
    (member : ChannelResult) : BankScan :=
  let anchors := candidates anchor
  let frames := candidates member
  frames.foldl (compareFrameBy c skewS anchor.data member.data anchors)
    { s with
      violations := s.violations ++ startMismatches skewS anchors frames ++
        startMismatches skewS frames anchors }

def bankEventsBy (c : ℕ+) (skewS : ℚ) (results : Fin 6 → ChannelResult) (lengths : Fin 6 → Nat)
    (bank : Nat) : BankScan :=
  match longest lengths (members lengths bank) with
  | none => {}
  | some anchor =>
    (((members lengths bank).filter (· ≠ anchor)).map results).foldl
      (compareMemberBy c skewS (results anchor))
      { events := (results anchor).frames.map fun f =>
          { bank := bank, startS := f.startS, lastFallS := f.lastFallS.getD 0, rgb := f.rgb } }

/-- What `check_banks` reports. -/
structure BankReport where
  violations : List Violation
  comparedEdges : Nat

/-- `check_banks` with `CHUNK` set to `c`. -/
def checkBanksBy (c : ℕ+) (args : Args) (results : Fin 6 → ChannelResult)
    (lengths : Fin 6 → Nat) : BankReport :=
  let skewS := skewSeconds args results
  let active := activeBanks lengths
  let banks := active.map (bankEventsBy c skewS results lengths)
  let events := (banks.flatMap (·.events)).mergeSort fun e f => decide (e.startS ≤ f.startS)
  { violations := banks.flatMap (·.violations) ++
      (events.zip events.tail).flatMap fun (previous, current) =>
        cycleViolations skewS active previous current
    comparedEdges := (banks.map (·.comparedEdges)).sum }

section Banks

variable (c c' : ℕ+) (skewS : ℚ)

/-- The events and the violations, as the comparison of the banks has them. -/
def BankScan.found (s : BankScan) : List BankEvent × List Violation := (s.events, s.violations)

theorem compareFrameBy_found (anchor member : Digital) (anchors : List Frame) (s : BankScan)
    (frame : Frame) :
    (compareFrameBy chunkSize skewS anchor member anchors s frame).found =
      compareFrame skewS anchor member anchors s.found frame := by
  unfold compareFrameBy compareFrame
  cases nearest anchors frame.startS with
  | none => rfl
  | some other =>
    dsimp only
    split_ifs <;> rfl

theorem compareMemberBy_found (anchor : ChannelResult) (s : BankScan) (member : ChannelResult) :
    (compareMemberBy chunkSize skewS anchor s member).found =
      compareMember skewS anchor s.found member := by
  unfold compareMemberBy compareMember
  apply (List.foldl_hom BankScan.found _).symm
  intro s frame
  exact (compareFrameBy_found skewS _ _ _ s frame).symm

theorem bankEventsBy_found (results : Fin 6 → ChannelResult) (lengths : Fin 6 → Nat) (bank : Nat) :
    (bankEventsBy chunkSize skewS results lengths bank).found =
      bankEvents skewS results lengths bank := by
  unfold bankEventsBy bankEvents
  cases longest lengths (members lengths bank) with
  | none => rfl
  | some anchor =>
    apply (List.foldl_hom BankScan.found _).symm
    intro s member
    exact (compareMemberBy_found skewS _ s member).symm

/-- The comparison of the banks as it is run. -/
theorem checkBanksBy_chunkSize (args : Args) (results : Fin 6 → ChannelResult)
    (lengths : Fin 6 → Nat) :
    (checkBanksBy chunkSize args results lengths).violations = checkBanks args results lengths := by
  have hbanks (bank : Nat) := bankEventsBy_found (skewSeconds args results) results lengths bank
  have hevents (bank : Nat) : (bankEventsBy chunkSize (skewSeconds args results) results lengths
      bank).events = (bankEvents (skewSeconds args results) results lengths bank).1 :=
    congrArg Prod.fst (hbanks bank)
  have hviolations (bank : Nat) : (bankEventsBy chunkSize (skewSeconds args results) results lengths
      bank).violations = (bankEvents (skewSeconds args results) results lengths bank).2 :=
    congrArg Prod.snd (hbanks bank)
  simp only [checkBanksBy, checkBanks, List.flatMap_map, hevents, hviolations]

/-- Two scans that differ in the order of their violations only. -/
structure BankScan.Alike (s s' : BankScan) : Prop where
  events : s.events = s'.events
  violations : s.violations.Perm s'.violations
  comparedEdges : s.comparedEdges = s'.comparedEdges

theorem flatMap_sharedBy (count : Nat) :
    (offsetsBy c count).flatMap (sharedBy c count) = List.range count :=
  flatMap_offsetsBy c le_rfl

theorem edgeSkewsBy_perm (anchor member : Digital) (other frame : Frame) :
    (edgeSkewsBy c skewS anchor member other frame).Perm
      (skewsOver skewS anchor member other frame (List.range (sharedPulses other frame))) := by
  rw [skewsOver, ← flatMap_sharedBy c, ← flatMap_flag, ← flatMap_flag]
  exact (List.flatMap_append_perm _ _ _).symm

/-- Every shared pulse has two edges. -/
theorem comparedBy_eq (other frame : Frame) :
    comparedBy c other frame = 2 * sharedPulses other frame := by
  have hlength := congrArg List.length (flatMap_sharedBy c (sharedPulses other frame))
  rw [List.length_flatMap, List.length_range] at hlength
  rw [comparedBy, List.sum_map_mul_left, hlength]

theorem BankScan.Alike.refl (s : BankScan) : s.Alike s := ⟨rfl, .refl _, rfl⟩

theorem BankScan.Alike.frame {s s' : BankScan} (h : s.Alike s') (anchor member : Digital)
    (anchors : List Frame) (frame : Frame) :
    (compareFrameBy c skewS anchor member anchors s frame).Alike
      (compareFrameBy c' skewS anchor member anchors s' frame) := by
  unfold compareFrameBy
  cases nearest anchors frame.startS with
  | none => exact h
  | some other =>
    dsimp only
    by_cases hfar : |other.startS - frame.startS| > skewS
    · rw [if_pos hfar, if_pos hfar]
      exact h
    rw [if_neg hfar, if_neg hfar]
    have hskews := (edgeSkewsBy_perm c skewS anchor member other frame).trans
      (edgeSkewsBy_perm c' skewS anchor member other frame).symm
    have hcompared := (comparedBy_eq c other frame).trans (comparedBy_eq c' other frame).symm
    exact
      { events := congrArg (extendEvent · other frame) h.events
        violations := (h.violations.append_right _).append hskews
        comparedEdges := congrArg₂ (· + ·) h.comparedEdges hcompared }

/-- Two loops whose steps keep their states alike. -/
theorem BankScan.Alike.foldl {α : Type} {f f' : BankScan → α → BankScan}
    (hf : ∀ s s' a, s.Alike s' → (f s a).Alike (f' s' a)) {s s' : BankScan} (h : s.Alike s')
    (l : List α) : (l.foldl f s).Alike (l.foldl f' s') := by
  induction l generalizing s s' with
  | nil => exact h
  | cons a l ih => exact ih (hf s s' a h)

theorem bankEventsBy_alike (results : Fin 6 → ChannelResult) (lengths : Fin 6 → Nat) (bank : Nat) :
    (bankEventsBy c skewS results lengths bank).Alike
      (bankEventsBy c' skewS results lengths bank) := by
  unfold bankEventsBy
  cases longest lengths (members lengths bank) with
  | none => exact .refl _
  | some anchor =>
    refine BankScan.Alike.foldl ?_ (.refl _) _
    intro s s' member h
    refine BankScan.Alike.foldl (fun s s' frame h => h.frame c c' skewS _ _ _ frame) ?_ _
    exact ⟨h.events, (h.violations.append_right _).append_right _, h.comparedEdges⟩

/-- The results that have the same data, frames and partials. -/
def ChannelResult.unjudged (r : ChannelResult) : ChannelResult := { r with violations := [] }

/-- What was found at a string alone is not read. -/
theorem bankEventsBy_unjudged (results : Fin 6 → ChannelResult) (lengths : Fin 6 → Nat)
    (bank : Nat) :
    bankEventsBy c skewS (fun i => (results i).unjudged) lengths bank =
      bankEventsBy c skewS results lengths bank := by
  unfold bankEventsBy
  cases longest lengths (members lengths bank) with
  | none => rfl
  | some anchor =>
    dsimp only
    rw [List.foldl_map, List.foldl_map]
    rfl

theorem checkBanksBy_unjudged (args : Args) (results : Fin 6 → ChannelResult)
    (lengths : Fin 6 → Nat) :
    checkBanksBy c args (fun i => (results i).unjudged) lengths =
      checkBanksBy c args results lengths := by
  have hbanks : bankEventsBy c (skewSeconds args results) (fun i => (results i).unjudged) lengths =
      bankEventsBy c (skewSeconds args results) results lengths :=
    funext fun bank => bankEventsBy_unjudged c _ results lengths bank
  have hskew : skewSeconds args (fun i => (results i).unjudged) = skewSeconds args results := rfl
  simp only [checkBanksBy, hskew, hbanks]

/-- The comparison of the banks does not depend on the size of a chunk. -/
theorem checkBanksBy_alike (args : Args) (results : Fin 6 → ChannelResult)
    (lengths : Fin 6 → Nat) :
    (checkBanksBy c args results lengths).violations.Perm
        (checkBanksBy c' args results lengths).violations ∧
      (checkBanksBy c args results lengths).comparedEdges =
        (checkBanksBy c' args results lengths).comparedEdges := by
  have halike (bank : Nat) := bankEventsBy_alike c c' (skewSeconds args results) results lengths bank
  have hevents : (fun bank => (bankEventsBy c (skewSeconds args results) results lengths bank).events)
      = fun bank => (bankEventsBy c' (skewSeconds args results) results lengths bank).events :=
    funext fun bank => (halike bank).events
  constructor
  · simp only [checkBanksBy, List.flatMap_map, hevents]
    apply List.Perm.append_right
    exact List.Perm.flatMap_left _ fun bank _ => (halike bank).violations
  · simp only [checkBanksBy, List.map_map]
    apply congrArg List.sum
    exact List.map_congr_left fun bank _ => (halike bank).comparedEdges

end Banks

/-! ### The size of a chunk does not matter -/

theorem violations_perm (c c' : ℕ+) (edges : List ℚ) (data : Digital) (args : Args)
    (patterns : List (String × List Bool)) (mode : Mode) :
    (analyzeChannelBy c edges data args patterns mode).result.violations.Perm
      (analyzeChannelBy c' edges data args patterns mode).result.violations := by
  cases mode with
  | legacy => exact .refl _
  | dld length =>
    have htiming := (timingBy_perm data args c).trans (timingBy_perm data args c').symm
    simp only [analyzeChannelBy, burstsBy_eq data args c c']
    exact ((((htiming.append_right _).append_right _).append_right _).append_right _)

theorem unjudged_eq (c c' : ℕ+) (edges : List ℚ) (data : Digital) (args : Args)
    (patterns : List (String × List Bool)) (mode : Mode) :
    (analyzeChannelBy c edges data args patterns mode).result.unjudged =
      (analyzeChannelBy c' edges data args patterns mode).result.unjudged := by
  simp only [analyzeChannelBy, burstsBy_eq data args c c']
  cases mode <;> rfl

/-- With chunks of `c` edges the checker accepts the same exports as with
chunks of `whole` edges, one for all of the file say, and reports the same of
every string and of the banks: the number of violations of each kind, the
distributions, the bursts, the frames and the number of compared edges. -/
theorem chunked_eq_whole (c whole : ℕ+) :
    (∀ x data, Digital.acceptBy c x = .ok data ↔ Digital.acceptBy whole x = .ok data) ∧
    (∀ (edges : List ℚ) (data : Digital) (args : Args) (patterns : List (String × List Bool))
        (mode : Mode),
      let chunked := analyzeChannelBy c edges data args patterns mode
      let single := analyzeChannelBy whole edges data args patterns mode
      (∀ kind, chunked.result.violations.count kind = single.result.violations.count kind) ∧
        chunked.stats = single.stats ∧
        chunked.bursts = single.bursts ∧
        chunked.result.frames = single.result.frames ∧
        chunked.result.partials = single.result.partials) ∧
    (∀ (edges : List ℚ) (data : Fin 6 → Digital) (args : Args)
        (patterns : List (String × List Bool)) (lengths : Fin 6 → Nat),
      let chunked := checkBanksBy c args (fun i =>
        (analyzeChannelBy c edges (data i) args patterns (.dld (lengths i))).result) lengths
      let single := checkBanksBy whole args (fun i =>
        (analyzeChannelBy whole edges (data i) args patterns (.dld (lengths i))).result) lengths
      (∀ kind, chunked.violations.count kind = single.violations.count kind) ∧
        chunked.comparedEdges = single.comparedEdges) := by
  constructor
  · intro x data
    rw [acceptBy_iff, acceptBy_iff]
  constructor
  · intro edges data args patterns mode
    have hunjudged := unjudged_eq c whole edges data args patterns mode
    have hframes := congrArg ChannelResult.frames hunjudged
    have hpartials := congrArg ChannelResult.partials hunjudged
    exact ⟨fun kind => (violations_perm c whole edges data args patterns mode).count_eq kind,
      statsBy_eq data args c whole edges mode, burstsBy_eq data args c whole, hframes, hpartials⟩
  · intro edges data args patterns lengths
    dsimp only
    rw [← checkBanksBy_unjudged c, ← checkBanksBy_unjudged whole]
    simp only [unjudged_eq c whole edges _ args patterns _]
    have halike := checkBanksBy_alike c whole args
      (fun i => (analyzeChannelBy whole edges (data i) args patterns (.dld (lengths i))).result.unjudged)
      lengths
    exact ⟨fun kind => halike.1.count_eq kind, halike.2⟩

end Capture

end Dld
