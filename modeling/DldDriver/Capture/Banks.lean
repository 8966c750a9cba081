/-
DldDriver/Capture/Banks.lean

`check_banks`: the strings of a bank are compared with the longest of them,
and the complete frames of these anchors have to form the cycle GPIO2, GPIO1,
GPIO0.
-/
import DldDriver.Capture.Channel

namespace Dld

namespace Capture

/-! ### Banks -/

/-- `BANKS` -/
def bankOf : Fin 6 → Nat := ![2, 2, 1, 0, 1, 2]

/-- The enabled strings of a bank. -/
def members (lengths : Fin 6 → Nat) (bank : Nat) : List (Fin 6) :=
  (List.finRange 6).filter fun i => decide (bankOf i = bank) && decide (lengths i ≠ 0)

/-- The banks with an enabled string, in the order of their streams. -/
def activeBanks (lengths : Fin 6 → Nat) : List Nat :=
  [2, 1, 0].filter fun bank => decide (members lengths bank ≠ [])

/-- `max(members, key=…)`: the first of the longest. -/
def longest (lengths : Fin 6 → Nat) : List (Fin 6) → Option (Fin 6)
  | [] => none
  | i :: rest => some (rest.foldl (fun best j => if lengths j > lengths best then j else best) i)

/-- Frames whose start is known, in the order of their starts. -/
def candidates (r : ChannelResult) : List Frame :=
  (r.frames ++ r.partials.filter fun f => !f.missingStartBoundary).mergeSort
    fun f g => decide (f.startS ≤ g.startS)

/-- `np.searchsorted(target, t)` and the neighbours it leaves. -/
def neighbours (target : List Frame) (t : ℚ) : List Frame :=
  let place := (target.filter fun f => decide (f.startS < t)).length
  (if place = 0 then [] else (target[place - 1]?).toList) ++ (target[place]?).toList

/-- The nearest of the neighbours; of two equally near the first. -/
def nearest (target : List Frame) (t : ℚ) : Option Frame :=
  match neighbours target t with
  | [] => none
  | f :: rest => some (rest.foldl (fun best g =>
      if |g.startS - t| < |best.startS - t| then g else best) f)

/-- A frame starts within the skew of `t`. -/
def hasPartner (skewS : ℚ) (target : List Frame) (t : ℚ) : Bool :=
  (neighbours target t).any fun f => decide (|f.startS - t| ≤ skewS)

/-- The frames of `source` that have no partner. -/
def startMismatches (skewS : ℚ) (source target : List Frame) : List Violation :=
  (source.filter fun f => !hasPartner skewS target f.startS).map fun _ => .bankPinStartMismatch

/-! ### Two strings of a bank -/

/-- A complete frame of an anchor; its last fall grows with its partners. -/
structure BankEvent where
  bank : Nat
  startS : ℚ
  lastFallS : ℚ
  rgb : Option String
  deriving DecidableEq

/-- Corresponding edges of two frames, chunk by chunk. -/
def edgeSkews (skewS : ℚ) (anchor member : Digital) (other frame : Frame) : List Violation :=
  let count := min frame.observedCompletePulses other.observedCompletePulses
  let a := other.observedRiseIndex
  let b := frame.observedRiseIndex
  let skewed (left right : Nat → ℚ) (i : Nat) : Bool :=
    decide (|(right (b + i) - left (a + i)) * 10 ^ 9| > skewS * 10 ^ 9)
  (chunkOffsets count).flatMap fun offset =>
    let indices := List.range' offset (min count (offset + chunk) - offset)
    flag .bankRiseSkew (skewed anchor.rise member.rise) indices ++
      flag .bankFallSkew (skewed anchor.fall member.fall) indices

/-- `event['last_fall_s'] = max(…)` of the anchor's frame `other`. -/
def extendEvent (events : List BankEvent) (other frame : Frame) : List BankEvent :=
  match frame.lastFallS with
  | none => events
  | some lastFall => events.map fun event =>
      if event.startS = other.startS then { event with lastFallS := max event.lastFallS lastFall }
      else event

/-- One frame of a member against its partner at the anchor. -/
def compareFrame (skewS : ℚ) (anchor member : Digital) (anchors : List Frame)
    (s : List BankEvent × List Violation) (frame : Frame) : List BankEvent × List Violation :=
  match nearest anchors frame.startS with
  | none => s
  | some other =>
    if |other.startS - frame.startS| > skewS then s
    else
      (extendEvent s.1 other frame,
        s.2 ++ (if frame.rgb ≠ none ∧ other.rgb ≠ none ∧ frame.rgb ≠ other.rgb then
            [.bankPinColorMismatch] else []) ++
          edgeSkews skewS anchor member other frame)

/-- One member of a bank against the anchor. -/
def compareMember (skewS : ℚ) (anchor : ChannelResult) (s : List BankEvent × List Violation)
    (member : ChannelResult) : List BankEvent × List Violation :=
  let anchors := candidates anchor
  let frames := candidates member
  frames.foldl (compareFrame skewS anchor.data member.data anchors)
    (s.1, s.2 ++ startMismatches skewS anchors frames ++ startMismatches skewS frames anchors)

/-- The events of one bank and what was found at its strings. -/
def bankEvents (skewS : ℚ) (results : Fin 6 → ChannelResult) (lengths : Fin 6 → Nat) (bank : Nat) :
    List BankEvent × List Violation :=
  match longest lengths (members lengths bank) with
  | none => ([], [])
  | some anchor =>
    let events := (results anchor).frames.map fun f =>
      { bank := bank, startS := f.startS, lastFallS := f.lastFallS.getD 0, rgb := f.rgb }
    (((members lengths bank).filter (· ≠ anchor)).map results).foldl
      (compareMember skewS (results anchor)) (events, [])

/-! ### The cycle of the banks -/

/-- Two events that follow each other. -/
def cycleViolations (skewS : ℚ) (active : List Nat) (previous current : BankEvent) :
    List Violation :=
  let want := active[(active.idxOf previous.bank + 1) % active.length]?
  (if some current.bank ≠ want then [.bankOrder] else []) ++
    (if current.startS < previous.lastFallS - skewS then [.bankOverlap] else []) ++
    if active.idxOf current.bank > active.idxOf previous.bank ∧ current.rgb ≠ previous.rgb then
      [.bankColorMismatch] else []

/-- `skew_s` -/
def skewSeconds (args : Args) (results : Fin 6 → ChannelResult) : ℚ :=
  (args.bankSkewNs + (List.finRange 6).foldl (fun eps i => max eps (results i).data.epsilonNs) 0) /
    10 ^ 9

def checkBanks (args : Args) (results : Fin 6 → ChannelResult) (lengths : Fin 6 → Nat) :
    List Violation :=
  let skewS := skewSeconds args results
  let active := activeBanks lengths
  let banks := active.map (bankEvents skewS results lengths)
  let events := (banks.flatMap (·.1)).mergeSort fun e f => decide (e.startS ≤ f.startS)
  banks.flatMap (·.2) ++
    (events.zip events.tail).flatMap fun (previous, current) =>
      cycleViolations skewS active previous current

end Capture

end Dld
