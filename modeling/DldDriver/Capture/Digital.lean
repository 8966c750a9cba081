/-
DldDriver/Capture/Digital.lean

One digital channel of a capture, as `class Digital` of
`src/tools/analyze_capture.py` accepts it.  Timestamps are exact rationals;
what is left of floating point is `epsilon_ns`, the allowance that the
checker derives from the spacing of doubles.

`Digital` carries what its constructor checks, so every value of it is an
accepted channel; `Digital.accept` is the constructor.
-/
import Mathlib.Data.Rat.Floor
import Mathlib.Data.Int.Log
import Mathlib.Data.List.GetD
import Mathlib.Data.List.Pairwise
import Mathlib.Algebra.Order.Field.Basic

namespace Dld

namespace Capture

/-! ### Exports -/

/-- `class InputError`, with its text; the path is left out. -/
structure InputError where
  text : String
  deriving DecidableEq

/-- A double that has been read: `none` is a value that is not finite. -/
abbrev Double := Option ℚ

/-- The header of an export and what follows it. -/
structure Export where
  /-- the size of the file in bytes -/
  size : Nat
  /-- the bytes of the header that could be read -/
  headerSize : Nat
  signature : String
  version : Int
  kind : Int
  initial : Int
  beginS : Double
  endS : Double
  count : Nat
  transitions : List Double

/-- The result of a computation in doubles is finite. -/
def isFinite (x : ℚ) : Bool := decide (|x| < 2 ^ 1024 - 2 ^ 970)

/-- The distance to the next double; `x` is at least one. -/
def spacing (x : ℚ) : ℚ := 2 ^ (Int.log 2 x - 52)

/-- Every timestamp lies between the bounds. -/
def Within (beginS endS : ℚ) (transitions : List ℚ) : Prop :=
  ∀ t ∈ transitions, beginS ≤ t ∧ t ≤ endS

/-- An accepted channel. -/
structure Digital where
  initial : Bool
  beginS : ℚ
  endS : ℚ
  transitions : List ℚ
  range : beginS < endS
  increasing : transitions.Pairwise (· < ·)
  within : Within beginS endS transitions

/-! ### Blocks -/

/-- `CHUNK` -/
abbrev chunk : Nat := 1000000

/-- `range(0, n, CHUNK)` -/
def chunkOffsets (n : Nat) : List Nat := (List.range n).filter fun offset => offset % chunk = 0

theorem mem_chunkOffsets {n offset : Nat} (h : offset ∈ chunkOffsets n) : offset < n :=
  List.mem_range.mp (List.mem_filter.mp h).1

theorem chunkOffsets_eq (n : Nat) :
    chunkOffsets n = (List.range ((n + chunk - 1) / chunk)).map (· * chunk) := by
  have hchunk : chunk = 1000000 := rfl
  induction n with
  | zero => rfl
  | succ n ih =>
    rw [chunkOffsets, List.range_succ, List.filter_append]
    show chunkOffsets n ++ _ = _
    rw [ih, hchunk]
    by_cases hmod : n % 1000000 = 0
    · have hcount : (n + 1 + 1000000 - 1) / 1000000 = (n + 1000000 - 1) / 1000000 + 1 := by omega
      have hlast : (n + 1000000 - 1) / 1000000 * 1000000 = n := by omega
      have hkept : [n].filter (fun offset => offset % 1000000 = 0) = [n] := by simp [hmod]
      rw [hcount, List.range_succ, List.map_append, hkept, List.map_singleton, hlast]
    · have hcount : (n + 1 + 1000000 - 1) / 1000000 = (n + 1000000 - 1) / 1000000 := by omega
      have hdropped : [n].filter (fun offset => offset % 1000000 = 0) = [] := by simp [hmod]
      rw [hcount, hdropped, List.append_nil]

theorem le_chunks_mul (n : Nat) : n ≤ (n + chunk - 1) / chunk * chunk := by
  have hchunk : chunk = 1000000 := rfl
  rw [hchunk]
  omega

/-- The pieces of a range, up to piece `m`. -/
theorem flatMap_pieces (c n m : Nat) :
    (List.range m).flatMap (fun k => List.range' (k * c) (min n (k * c + c) - k * c)) =
      List.range (min n (m * c)) := by
  induction m with
  | zero => simp
  | succ m ih =>
    rw [List.range_succ, List.flatMap_append, ih, List.flatMap_singleton, Nat.succ_mul]
    rcases Nat.le_total n (m * c) with hle | hle
    · have hdone : min n (m * c + c) - m * c = 0 := by omega
      have hsame : min n (m * c + c) = min n (m * c) := by omega
      rw [hdone, hsame]
      simp
    · have hsum : m * c + (min n (m * c + c) - m * c) = min n (m * c + c) := by omega
      rw [Nat.min_eq_right hle, List.range_eq_range', List.range_eq_range',
        ← hsum]
      have happend := @List.range'_append 0 (m * c) (min n (m * c + c) - m * c) 1
      simpa using happend

/-- Chunk by chunk is the whole range; `m` is where a second bound cuts the
last chunks short. -/
theorem flatMap_chunks {n m : Nat} (hm : m ≤ n) :
    (chunkOffsets n).flatMap
        (fun offset => List.range' offset (min m (offset + chunk) - offset)) = List.range m := by
  rw [chunkOffsets_eq, List.flatMap_map, flatMap_pieces,
    Nat.min_eq_left (hm.trans (le_chunks_mul n))]

/-- `np.any(block[1:] <= block[:-1])` -/
def decreases : List ℚ → Bool
  | a :: b :: rest => decide (b ≤ a) || decreases (b :: rest)
  | _ => false

theorem pairwise_of_not_decreases {ts : List ℚ} (h : decreases ts = false) :
    ts.Pairwise (· < ·) := by
  induction ts with
  | nil => exact .nil
  | cons a ts ih =>
    rcases ts with - | ⟨b, rest⟩
    · exact List.pairwise_singleton _ _
    · obtain ⟨hlt, hrest⟩ := Bool.or_eq_false_iff.mp h
      have hlt : a < b := not_le.mp (of_decide_eq_false hlt)
      have hb := ih hrest
      refine List.pairwise_cons.mpr ⟨?_, hb⟩
      intro t ht
      rcases List.mem_cons.mp ht with rfl | ht
      · exact hlt
      · exact hlt.trans ((List.pairwise_cons.mp hb).1 t ht)

/-- The values of a block; all of them have to be finite. -/
def finiteValues : List Double → Option (List ℚ)
  | [] => some []
  | none :: _ => none
  | some t :: rest => (finiteValues rest).map (t :: ·)

/-- The values of one block, checked; `previous` is the last value of the
block before. -/
def checkBlock (beginS endS : ℚ) (previous : Option ℚ) (block : List Double) :
    Except InputError (List ℚ) :=
  match finiteValues block with
  | none => .error ⟨"nonfinite transition timestamp"⟩
  | some ts =>
    if (∃ t ∈ ts.head?, t < beginS) ∨ ∃ t ∈ ts.getLast?, t > endS then
      .error ⟨"transition outside capture range"⟩
    else if (∃ p ∈ previous, ∃ t ∈ ts.head?, t ≤ p) ∨ decreases ts then
      .error ⟨"timestamps must be strictly increasing"⟩
    else .ok ts

def checkBlocks (beginS endS : ℚ) : Option ℚ → List (List Double) → Except InputError (List ℚ)
  | _, [] => .ok []
  | previous, block :: rest =>
    match checkBlock beginS endS previous block with
    | .error e => .error e
    | .ok ts =>
      match checkBlocks beginS endS ts.getLast? rest with
      | .error e => .error e
      | .ok more => .ok (ts ++ more)

theorem finiteValues_ne_nil {block : List Double} {ts : List ℚ} (hne : block ≠ [])
    (h : finiteValues block = some ts) : ts ≠ [] := by
  rcases block with - | ⟨value, rest⟩
  · exact absurd rfl hne
  rcases value with - | t
  · cases h
  · obtain ⟨more, -, rfl⟩ := Option.map_eq_some_iff.mp h
    exact List.cons_ne_nil _ _

/-- Increasing, in range, and after `previous`. -/
structure Accepted (beginS endS : ℚ) (previous : Option ℚ) (ts : List ℚ) : Prop where
  increasing : ts.Pairwise (· < ·)
  within : Within beginS endS ts
  after : ∀ p ∈ previous, ∀ t ∈ ts, p < t

theorem checkBlock_sound {beginS endS : ℚ} {previous : Option ℚ} {block : List Double}
    {ts : List ℚ} (hblock : block ≠ []) (h : checkBlock beginS endS previous block = .ok ts) :
    ts ≠ [] ∧ Accepted beginS endS previous ts := by
  unfold checkBlock at h
  rcases hvalues : finiteValues block with - | values
  · rw [hvalues] at h
    cases h
  rw [hvalues] at h
  dsimp only at h
  split at h
  · cases h
  rename_i hrange
  split at h
  · cases h
  rename_i horder
  cases h
  obtain ⟨hfirst, hlast⟩ := not_or.mp hrange
  obtain ⟨hprevious, hdecreases⟩ := not_or.mp horder
  have hsorted := pairwise_of_not_decreases (Bool.not_eq_true _ ▸ hdecreases)
  refine ⟨finiteValues_ne_nil hblock hvalues, ?_⟩
  rcases ts with - | ⟨first, rest⟩
  · exact ⟨.nil, fun t ht => (nomatch ht), fun _ _ t ht => (nomatch ht)⟩
  have hge (t : ℚ) (ht : t ∈ first :: rest) : first ≤ t := by
    rcases List.mem_cons.mp ht with rfl | ht
    · exact le_rfl
    · exact ((List.pairwise_cons.mp hsorted).1 t ht).le
  have hne : first :: rest ≠ [] := List.cons_ne_nil _ _
  refine ⟨hsorted, fun t ht => ⟨?_, ?_⟩, fun p hp t ht => ?_⟩
  · have hbegin : beginS ≤ first := not_lt.mp fun hlt => hfirst ⟨first, rfl, hlt⟩
    exact hbegin.trans (hge t ht)
  · have hend : (first :: rest).getLast hne ≤ endS :=
      not_lt.mp fun hlt => hlast ⟨_, List.getLast?_eq_some_getLast hne, hlt⟩
    have hle : (first :: rest).Pairwise (· ≤ ·) := hsorted.imp le_of_lt
    exact (hle.rel_getLast ht).trans hend
  · have hlt : p < first := not_le.mp fun hle => hprevious ⟨p, hp, first, rfl, hle⟩
    exact hlt.trans_le (hge t ht)

/-- Block by block, by induction; the last value of a block carries the
order over. -/
theorem checkBlocks_sound {beginS endS : ℚ} {previous : Option ℚ} {blocks : List (List Double)}
    {ts : List ℚ} (hblocks : ∀ block ∈ blocks, block ≠ [])
    (h : checkBlocks beginS endS previous blocks = .ok ts) :
    Accepted beginS endS previous ts := by
  induction blocks generalizing previous ts with
  | nil =>
    cases h
    exact ⟨.nil, fun t ht => (nomatch ht), fun _ _ t ht => (nomatch ht)⟩
  | cons block rest ih =>
    rw [checkBlocks] at h
    rcases hblock : checkBlock beginS endS previous block with e | first
    · rw [hblock] at h
      cases h
    rw [hblock] at h
    dsimp only at h
    rcases hrest : checkBlocks beginS endS first.getLast? rest with e | more
    · rw [hrest] at h
      cases h
    rw [hrest] at h
    cases h
    obtain ⟨hne, hfirst⟩ := checkBlock_sound (hblocks block (.head _)) hblock
    have hmore := ih (fun b hb => hblocks b (.tail _ hb)) hrest
    have hbetween : ∀ t ∈ first, ∀ t' ∈ more, t < t' := by
      intro t ht t' ht'
      have hle : first.Pairwise (· ≤ ·) := hfirst.increasing.imp le_of_lt
      exact (hle.rel_getLast ht).trans_lt
        (hmore.after _ (List.getLast?_eq_some_getLast hne) t' ht')
    refine ⟨List.pairwise_append.mpr ⟨hfirst.increasing, hmore.increasing, hbetween⟩, ?_, ?_⟩
    · intro t ht
      rcases List.mem_append.mp ht with ht | ht
      · exact hfirst.within t ht
      · exact hmore.within t ht
    · intro p hp t ht
      obtain ⟨t', ht'⟩ := List.exists_mem_of_ne_nil first hne
      rcases List.mem_append.mp ht with ht | ht
      · exact hfirst.after p hp t ht
      · exact (hfirst.after p hp t' ht').trans (hbetween t' ht' t ht)

/-! ### The constructor -/

abbrev headerBytes : Nat := 44

/-- The blocks of the transitions. -/
def blocksOf (ts : List Double) : List (List Double) :=
  (chunkOffsets ts.length).map fun offset => (ts.drop offset).take chunk

theorem blocksOf_ne_nil (ts : List Double) : ∀ block ∈ blocksOf ts, block ≠ [] := by
  intro block hblock
  obtain ⟨offset, hoffset, rfl⟩ := List.mem_map.mp hblock
  have hlt := mem_chunkOffsets hoffset
  have hchunk : chunk = 1000000 := rfl
  apply List.ne_nil_of_length_pos
  rw [List.length_take, List.length_drop, hchunk]
  omega

/-- Both ends are finite and in order. -/
def checkRange : Double → Double → Except InputError (ℚ × ℚ)
  | some beginS, some endS =>
    if endS ≤ beginS ∨ isFinite ((endS - beginS) * 10 ^ 9) = false then
      .error ⟨"invalid capture time range"⟩
    else .ok (beginS, endS)
  | _, _ => .error ⟨"invalid capture time range"⟩

theorem checkRange_lt {x y : Double} {range : ℚ × ℚ} (h : checkRange x y = .ok range) :
    range.1 < range.2 := by
  rcases x with - | beginS
  · cases h
  rcases y with - | endS
  · cases h
  rw [checkRange] at h
  split_ifs at h with hrange
  cases h
  exact not_le.mp (not_or.mp hrange).1

/-- The header checks, in their order. -/
def checkHeader (x : Export) : Except InputError (ℚ × ℚ) :=
  if x.headerSize ≠ headerBytes then .error ⟨"truncated header (need 44 bytes)"⟩
  else if x.signature ≠ "<SALEAE>" then .error ⟨"invalid Saleae identifier"⟩
  else if x.version ≠ 0 ∨ x.kind ≠ 0 then
    .error ⟨"unsupported version/type " ++ toString x.version ++ "/" ++ toString x.kind ++
      "; require digital v0"⟩
  else if x.initial ≠ 0 ∧ x.initial ≠ 1 then .error ⟨"initial state must be 0 or 1"⟩
  else match checkRange x.beginS x.endS with
  | .error e => .error e
  | .ok range =>
    if x.size ≠ headerBytes + 8 * x.count then
      .error ⟨"size " ++ toString x.size ++ " differs from header count " ++ toString x.count ++
        " (expected " ++ toString (headerBytes + 8 * x.count) ++ " bytes)"⟩
    else .ok range

theorem checkHeader_range {x : Export} {range : ℚ × ℚ} (h : checkHeader x = .ok range) :
    range.1 < range.2 := by
  rcases hrange : checkRange x.beginS x.endS with e | range'
  · rw [checkHeader, hrange] at h
    split_ifs at h
  · rw [checkHeader, hrange] at h
    split_ifs at h
    cases h
    exact checkRange_lt hrange

/-- `Digital(path)`: an export that passes every check is a channel. -/
def Digital.accept (x : Export) : Except InputError Digital :=
  match hheader : checkHeader x with
  | .error e => .error e
  | .ok range =>
    match hblocks : checkBlocks range.1 range.2 none (blocksOf x.transitions) with
    | .error e => .error e
    | .ok ts => .ok {
        initial := decide (x.initial = 1)
        beginS := range.1
        endS := range.2
        transitions := ts
        range := checkHeader_range hheader
        increasing := (checkBlocks_sound (blocksOf_ne_nil _) hblocks).increasing
        within := (checkBlocks_sound (blocksOf_ne_nil _) hblocks).within }

/-! ### What a channel offers -/

namespace Digital

variable (data : Digital)

def count : Nat := data.transitions.length

/-- The level before the first transition, as a number. -/
abbrev first : Nat := data.initial.toNat

/-- `transitions[i]`; the checker stays inside the array. -/
def transition (i : Nat) : ℚ := data.transitions.getD i 0

/-- `rises[i]` and `falls[i]`: views of the transitions, `[initial::2]` and
`[initial + 1::2]`. -/
def rise (i : Nat) : ℚ := data.transition (data.first + 2 * i)
def fall (i : Nat) : ℚ := data.transition (data.first + 1 + 2 * i)

/-- `len(rises)` and `len(falls)` -/
def riseCount : Nat := (data.count + 1 - data.first) / 2
def fallCount : Nat := (data.count - data.first) / 2

abbrev completePulses : Nat := data.fallCount

def finalState : Bool := data.initial ^^ decide (data.count % 2 = 1)

/-- `epsilon_ns` -/
def epsilonNs : ℚ := max (1 / 100000) (spacing (max (max |data.beginS| |data.endS|) 1) * (4 * 10 ^ 9))

/-- The last pulse may be cut. -/
theorem fallCount_le : data.fallCount ≤ data.riseCount := by
  unfold fallCount riseCount
  omega

theorem riseCount_le : data.riseCount ≤ data.fallCount + 1 := by
  unfold fallCount riseCount
  omega

end Digital

end Capture

end Dld
