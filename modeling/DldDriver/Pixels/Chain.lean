/-
DldDriver/Pixels/Chain.lean

A chain of addressable pixels on one data line.

A pixel keeps the bits of the first `width` pulses after a reset and passes
the further ones on, `delay` ticks later; a low of `reset` ticks is a reset,
and shows what was kept.  A line is the list of its edges:

    (τ, true)    the line is high from tick τ on
    (τ, false)   it is low from tick τ on

An edge to the level that the line already has is none.

`chain_get` is the law of the chain: of a train of pulses every pixel keeps
its own bits, and `showsAt_received` says when it shows them.
-/
import Mathlib.Data.List.Chain
import Mathlib.Data.List.Basic

namespace Pixels

/-- A kind of pixel: the bit it reads from a high of so many ticks, if any. -/
structure Chip where
  width : Nat
  bit : Nat → Option Bool
  reset : Nat
  delay : Nat

abbrev Edge := Nat × Bool

/-- A pixel: the level of its input and the tick since when, the bits kept
since the last reset, and those it shows. -/
structure Pixel where
  level : Bool
  since : Nat
  kept : List (Option Bool)
  shown : List (Option Bool)

namespace Pixel

/-- What a reset shows: the bits kept, if they are as many as they should. -/
def latched (chip : Chip) (p : Pixel) : List (Option Bool) :=
  if chip.width ≤ p.kept.length then p.kept else p.shown

/-- A rise that comes late enough ends a reset. -/
def rise (chip : Chip) (p : Pixel) (τ : Nat) : Pixel :=
  if p.since + chip.reset ≤ τ then
    { level := true, since := τ, kept := [], shown := p.latched chip }
  else { p with level := true, since := τ }

/-- A fall ends a pulse, which is kept or passed on. -/
def fall (chip : Chip) (p : Pixel) (τ : Nat) : Pixel :=
  if p.kept.length < chip.width then
    { p with level := false, since := τ, kept := p.kept ++ [chip.bit (τ - p.since)] }
  else { p with level := false, since := τ }

/-- An edge at the input of a pixel, with what it passes on. -/
def edge (chip : Chip) (p : Pixel) (e : Edge) : Pixel × List Edge :=
  if e.2 = p.level then (p, [])
  else
    match e.2 with
    | true =>
      let p := p.rise chip e.1
      (p, if chip.width ≤ p.kept.length then [(e.1 + chip.delay, true)] else [])
    | false =>
      (p.fall chip e.1, if chip.width ≤ p.kept.length then [(e.1 + chip.delay, false)] else [])

/-- A line at the input of a pixel. -/
def line (chip : Chip) : Pixel → List Edge → Pixel × List Edge
  | p, [] => (p, [])
  | p, e :: es =>
    let (p, out) := p.edge chip e
    let (p, rest) := line chip p es
    (p, out ++ rest)

/-- What a pixel shows at a tick. -/
def showsAt (chip : Chip) (p : Pixel) (τ : Nat) : List (Option Bool) :=
  if p.level = false ∧ p.since + chip.reset ≤ τ then p.latched chip else p.shown

/-- The input has been low for a reset. -/
def AtRest (chip : Chip) (p : Pixel) (τ : Nat) : Prop :=
  p.level = false ∧ p.since + chip.reset ≤ τ

end Pixel

/-- A line at the first pixel of a chain. -/
def chain (chip : Chip) : List Pixel → List Edge → List Pixel
  | [], _ => []
  | p :: ps, es =>
    let (p, out) := p.line chip es
    p :: chain chip ps out

/-! ### Trains of pulses -/

/-- The edges of pulses, each given by its rise and its fall. -/
def edgesOf (pulses : List (Nat × Nat)) : List Edge :=
  pulses.flatMap fun q => [(q.1, true), (q.2, false)]

/-- Pulses without a reset between them. -/
def Train (chip : Chip) (pulses : List (Nat × Nat)) : Prop :=
  pulses.IsChain fun q q' => q'.1 < q.2 + chip.reset

/-- The bit of a pulse. -/
def Chip.read (chip : Chip) (q : Nat × Nat) : Option Bool := chip.bit (q.2 - q.1)

/-- A train a few ticks later. -/
def later (d : Nat) (pulses : List (Nat × Nat)) : List (Nat × Nat) :=
  pulses.map fun q => (q.1 + d, q.2 + d)

section Later

variable {chip : Chip} {pulses : List (Nat × Nat)} {d : Nat}

theorem Train.later (h : Train chip pulses) : Train chip (later d pulses) := by
  refine List.isChain_map_of_isChain _ ?_ h
  intro q q' hgap
  show q'.1 + d < q.2 + d + chip.reset
  omega

theorem read_later (chip : Chip) (q : Nat × Nat) : chip.read (q.1 + d, q.2 + d) = chip.read q := by
  show chip.bit (q.2 + d - (q.1 + d)) = chip.bit (q.2 - q.1)
  rw [Nat.add_sub_add_right]

theorem map_read_later : (Pixels.later d pulses).map chip.read = pulses.map chip.read := by
  rw [Pixels.later, List.map_map]
  exact List.map_congr_left fun q _ => read_later chip q

end Later

/-! ### One pixel -/

namespace Pixel

variable {chip : Chip} {p : Pixel} {es es' : List Edge} {q : Nat × Nat} {qs : List (Nat × Nat)}

theorem line_append : p.line chip (es ++ es') =
    (((p.line chip es).1.line chip es').1, (p.line chip es).2 ++ ((p.line chip es).1.line chip es').2) := by
  induction es generalizing p with
  | nil => rfl
  | cons e es ih => simp only [List.cons_append, line, ih, List.append_assoc]

/-- Falls of a low line are none. -/
theorem line_falls (hlow : p.level = false) (hes : ∀ e ∈ es, e.2 = false) :
    p.line chip es = (p, []) := by
  induction es with
  | nil => rfl
  | cons e es ih =>
    obtain ⟨he, hes⟩ := List.forall_mem_cons.mp hes
    have hedge : p.edge chip e = (p, []) := if_pos (he.trans hlow.symm)
    simp only [line, hedge, ih hes, List.nil_append]

/-- The first pulse after a reset. -/
theorem line_first (hrest : p.AtRest chip q.1) (hwidth : 0 < chip.width) :
    p.line chip [(q.1, true), (q.2, false)] =
      ({ level := false, since := q.2, kept := [chip.read q], shown := p.latched chip }, []) := by
  obtain ⟨hlow, hreset⟩ := hrest
  have hrise : p.edge chip (q.1, true) =
      ({ level := true, since := q.1, kept := [], shown := p.latched chip }, []) := by
    simp [edge, hlow, rise, hreset, hwidth.ne']
  rw [line, hrise]
  simp [line, edge, fall, hwidth, hwidth.ne', Chip.read]

/-- A pulse that the pixel keeps. -/
theorem line_kept (hlow : p.level = false) (hgap : q.1 < p.since + chip.reset)
    (hroom : p.kept.length < chip.width) :
    p.line chip [(q.1, true), (q.2, false)] =
      ({ p with level := false, since := q.2, kept := p.kept ++ [chip.read q] }, []) := by
  have hrise : p.edge chip (q.1, true) = ({ p with level := true, since := q.1 }, []) := by
    simp [edge, hlow, rise, Nat.not_le.mpr hgap, hroom]
  rw [line, hrise]
  simp [line, edge, fall, hroom, Chip.read]

/-- A pulse that the pixel passes on. -/
theorem line_passed (hlow : p.level = false) (hgap : q.1 < p.since + chip.reset)
    (hfull : chip.width ≤ p.kept.length) :
    p.line chip [(q.1, true), (q.2, false)] =
      ({ p with level := false, since := q.2 },
        [(q.1 + chip.delay, true), (q.2 + chip.delay, false)]) := by
  have hrise : p.edge chip (q.1, true) =
      ({ p with level := true, since := q.1 }, [(q.1 + chip.delay, true)]) := by
    simp [edge, hlow, rise, Nat.not_le.mpr hgap, hfull]
  rw [line, hrise]
  simp [line, edge, fall, Nat.not_lt.mpr hfull, hfull]

/-- The tick of the last fall. -/
def lastFall (since : Nat) (pulses : List (Nat × Nat)) : Nat :=
  pulses.foldl (fun _ q => q.2) since

/-- A train behind earlier pulses: the pixel keeps what it has room for, and
passes on the rest.  The induction is on the train; `p` gains a bit or is
full. -/
theorem line_train (hlow : p.level = false)
    (htrain : (q :: qs).IsChain fun q q' => q'.1 < q.2 + chip.reset) (hsince : p.since = q.2) :
    p.line chip (edgesOf qs) =
      ({ p with
          level := false
          since := lastFall p.since qs
          kept := p.kept ++ (qs.take (chip.width - p.kept.length)).map chip.read },
        edgesOf (later chip.delay (qs.drop (chip.width - p.kept.length)))) := by
  induction qs generalizing p q with
  | nil =>
    obtain ⟨level, since, kept, shown⟩ := p
    obtain rfl : level = false := hlow
    simp [edgesOf, line, lastFall, later]
  | cons q' qs ih =>
    obtain ⟨hgap, htrain⟩ := List.isChain_cons_cons.mp htrain
    rw [← hsince] at hgap
    have hsplit : edgesOf (q' :: qs) = [(q'.1, true), (q'.2, false)] ++ edgesOf qs := rfl
    rw [hsplit, line_append]
    by_cases hroom : p.kept.length < chip.width
    · rw [line_kept hlow hgap hroom]
      obtain ⟨n, hn⟩ : ∃ n, chip.width - p.kept.length = n + 1 := ⟨chip.width - p.kept.length - 1, by omega⟩
      have hn' : chip.width - (p.kept.length + 1) = n := by omega
      have hrest := ih (p := { p with level := false, since := q'.2, kept := p.kept ++ [chip.read q'] })
        rfl htrain rfl
      rw [List.length_append, List.length_singleton, hn'] at hrest
      simp only [hrest, hn, List.take_succ_cons, List.drop_succ_cons, List.map_cons, List.append_assoc,
        List.singleton_append, List.nil_append]
      rfl
    · have hfull : chip.width ≤ p.kept.length := Nat.not_lt.mp hroom
      rw [line_passed hlow hgap hfull]
      have hrest := ih (p := { p with level := false, since := q'.2 }) rfl htrain rfl
      have hzero : chip.width - p.kept.length = 0 := by omega
      simp only [hzero, List.take_zero, List.drop_zero, List.map_nil, List.append_nil] at hrest ⊢
      rw [hrest]
      rfl

/-- A train after a reset. -/
theorem line_frame (hrest : p.AtRest chip q.1) (hwidth : 0 < chip.width) (htrain : Train chip (q :: qs)) :
    p.line chip (edgesOf (q :: qs)) =
      ({ level := false
         since := lastFall q.2 qs
         kept := ((q :: qs).take chip.width).map chip.read
         shown := p.latched chip },
        edgesOf (later chip.delay ((q :: qs).drop chip.width))) := by
  have hsplit : edgesOf (q :: qs) = [(q.1, true), (q.2, false)] ++ edgesOf qs := rfl
  obtain ⟨n, hn⟩ : ∃ n, chip.width = n + 1 := ⟨chip.width - 1, by omega⟩
  rw [hsplit, line_append, line_first hrest hwidth]
  have htrain := line_train (p := ⟨false, q.2, [chip.read q], p.latched chip⟩) rfl htrain rfl
  have hroom : chip.width - 1 = n := by omega
  simp only [List.length_singleton, hroom] at htrain
  simp only [htrain, hn, List.take_succ_cons, List.drop_succ_cons, List.map_cons,
    List.singleton_append, List.nil_append]

end Pixel

/-! ### The chain -/

section Chain

variable {chip : Chip} {ps : List Pixel} {p : Pixel} {qs : List (Nat × Nat)} {falls : List Edge}
variable {now : Nat} {i : Nat}

/-- A pixel of the chain behind a train: the one at place `i` has kept its
bits, if the train has come to it. -/
def received (chip : Chip) (qs : List (Nat × Nat)) (i : Nat) (p : Pixel) : Pixel :=
  if chip.width * i < qs.length then
    { level := false
      since := Pixel.lastFall 0 qs + i * chip.delay
      kept := ((qs.drop (chip.width * i)).take chip.width).map chip.read
      shown := p.latched chip }
  else p

/-- Falls alone come to no pixel. -/
theorem chain_falls (hlow : ∀ p ∈ ps, p.level = false) (hfalls : ∀ e ∈ falls, e.2 = false) :
    chain chip ps falls = ps := by
  induction ps generalizing falls with
  | nil => rfl
  | cons p ps ih =>
    obtain ⟨hp, hps⟩ := List.forall_mem_cons.mp hlow
    have hnext : chain chip ps [] = ps := ih hps nofun
    simp only [chain, Pixel.line_falls hp hfalls, hnext]

theorem lastFall_later {d since : Nat} (hne : qs ≠ []) :
    Pixel.lastFall since (later d qs) = Pixel.lastFall 0 qs + d := by
  obtain ⟨q, qs, rfl⟩ := List.exists_cons_of_ne_nil hne
  induction qs generalizing q with
  | nil => rfl
  | cons q' qs ih => exact ih q' (List.cons_ne_nil _ _)

theorem lastFall_drop {n : Nat} (hn : n < qs.length) :
    Pixel.lastFall 0 (qs.drop n) = Pixel.lastFall 0 qs := by
  induction n generalizing qs with
  | zero => rfl
  | succ n ih =>
    obtain ⟨q, qs, rfl⟩ := List.exists_cons_of_ne_nil (List.ne_nil_of_length_pos (by omega : 0 < qs.length))
    have hshort : n < qs.length := Nat.lt_of_succ_lt_succ hn
    obtain ⟨q', qs, rfl⟩ := List.exists_cons_of_ne_nil (List.ne_nil_of_length_pos (by omega : 0 < qs.length))
    exact ih hshort

/-- The pixel behind the first sees what is left of the train. -/
theorem received_succ : received chip (later chip.delay (qs.drop chip.width)) i p =
    received chip qs (i + 1) p := by
  have hlength : (later chip.delay (qs.drop chip.width)).length = qs.length - chip.width := by
    rw [later, List.length_map, List.length_drop]
  have hsucc : chip.width * (i + 1) = chip.width * i + chip.width := Nat.mul_succ _ _
  by_cases h : chip.width * (i + 1) < qs.length
  · have hcome : chip.width * i < qs.length - chip.width := by omega
    have hne : qs.drop chip.width ≠ [] := List.ne_nil_of_length_pos (by rw [List.length_drop]; omega)
    have hlast : Pixel.lastFall 0 (later chip.delay (qs.drop chip.width)) + i * chip.delay =
        Pixel.lastFall 0 qs + (i + 1) * chip.delay := by
      rw [lastFall_later hne, lastFall_drop (by omega), Nat.succ_mul]
      omega
    have hkept : (((later chip.delay (qs.drop chip.width)).drop (chip.width * i)).take chip.width).map
        chip.read = ((qs.drop (chip.width * (i + 1))).take chip.width).map chip.read := by
      rw [List.map_take, List.map_drop, map_read_later, ← List.map_drop, List.drop_drop, ← List.map_take,
        hsucc, Nat.add_comm chip.width]
    rw [received, received, hlength, if_pos hcome, if_pos h, hlast, hkept]
  · rw [received, received, hlength, if_neg (by omega), if_neg h]

/-- **The law of the chain**: every pixel that the train comes to keeps its
own bits of it, and no other pixel is touched. -/
theorem chain_get (hwidth : 0 < chip.width) (htrain : Train chip qs)
    (hrest : ∀ p ∈ ps, p.AtRest chip now) (hnow : ∀ q ∈ qs, now ≤ q.1)
    (hfalls : ∀ e ∈ falls, e.2 = false) (i : Nat) :
    (chain chip ps (edgesOf qs ++ falls))[i]? = ps[i]?.map (received chip qs i) := by
  induction ps generalizing qs falls i with
  | nil => rfl
  | cons p ps ih =>
    cases qs with
    | nil =>
      have huntouched : received chip [] i = id := funext fun p => if_neg (Nat.not_lt_zero _)
      rw [huntouched, Option.map_id_apply]
      exact congrArg (·[i]?) (chain_falls (fun p hp => (hrest p hp).1) hfalls)
    | cons q qs =>
      obtain ⟨hp, hps⟩ := List.forall_mem_cons.mp hrest
      have hfirst : p.AtRest chip q.1 := ⟨hp.1, le_trans hp.2 (hnow q (by simp))⟩
      have hline := Pixel.line_frame hfirst hwidth htrain
      have hfallsLine : Pixel.line chip ⟨false, Pixel.lastFall q.2 qs,
          ((q :: qs).take chip.width).map chip.read, p.latched chip⟩ falls = (_, []) :=
        Pixel.line_falls rfl hfalls
      simp only [chain, Pixel.line_append, hline, hfallsLine]
      cases i with
      | zero =>
        have hcome : chip.width * 0 < (q :: qs).length := Nat.succ_pos _
        simp only [List.getElem?_cons_zero, Option.map_some, received, if_pos hcome]
        rw [Nat.zero_mul]
        rfl
      | succ i =>
        rw [List.getElem?_cons_succ, List.getElem?_cons_succ]
        have hrises : ∀ q' ∈ later chip.delay ((q :: qs).drop chip.width), now ≤ q'.1 := by
          intro q' hq'
          obtain ⟨q'', hq'', rfl⟩ := List.mem_map.mp hq'
          exact le_trans (hnow _ (List.mem_of_mem_drop hq'')) (Nat.le_add_right _ _)
        have hlater : Train chip (later chip.delay ((q :: qs).drop chip.width)) :=
          Train.later (List.IsChain.drop htrain _)
        have htail := @ih (later chip.delay ((q :: qs).drop chip.width)) [] hlater hps hrises nofun i
        rw [htail]
        exact congrArg (Option.map · _) (funext fun p => received_succ)

/-- Where the train has room for pixel `i` and the reset has come to it, it
shows its bits, and is at rest. -/
theorem showsAt_received {τ : Nat} (hwidth : 0 < chip.width) (hfull : chip.width * (i + 1) ≤ qs.length)
    (hτ : Pixel.lastFall 0 qs + i * chip.delay + chip.reset ≤ τ) :
    (received chip qs i p).showsAt chip τ =
        ((qs.drop (chip.width * i)).take chip.width).map chip.read ∧
      (received chip qs i p).AtRest chip τ := by
  have hsucc : chip.width * (i + 1) = chip.width * i + chip.width := Nat.mul_succ _ _
  have hcome : chip.width * i < qs.length := by omega
  have hlength : (((qs.drop (chip.width * i)).take chip.width).map chip.read).length = chip.width := by
    rw [List.length_map, List.length_take, List.length_drop]
    omega
  rw [received, if_pos hcome]
  refine ⟨?_, rfl, hτ⟩
  rw [Pixel.showsAt, if_pos ⟨rfl, hτ⟩, Pixel.latched, if_pos (Nat.le_of_eq hlength.symm)]

/-- Behind the train nothing has come. -/
theorem received_behind (h : qs.length ≤ chip.width * i) : received chip qs i p = p :=
  if_neg (Nat.not_lt.mpr h)

end Chain

end Pixels
