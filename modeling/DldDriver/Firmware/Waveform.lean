/-
DldDriver/Firmware/Waveform.lean

What the pins of a bank see of its stream.

An edge is the cycle of a GPIO store that raises or lowers the pin;
`edges_bankStream` lists the edges of every pin of a granted bank, and
`sendGroup_waveform` puts them together with the run of the firmware from
`SEND_GROUP` to `TIMED_END`.
-/
import DldDriver.Firmware.Stream

namespace Dld

open Interaction

namespace Pru

/-! ### What a pin sees -/

/-- The effect of an event on the pin at `bit` of the GPIO block whose
CLEAR register is `clear`: raised, lowered, or none. -/
def edge (clear : Word) (bit : Nat) : PruEvent → Option Bool
  | ⟨.sbbo address value, _⟩ =>
    if value.getLsbD bit = false then none
    else if address = clear + 4 then some true
    else if address = clear then some false
    else none
  | _ => none

/-- The edges at a pin, each with its cycle, the first event being cycle
`start`. -/
def edges (clear : Word) (bit : Nat) (start : Nat) : List PruEvent → List (Nat × Bool)
  | [] => []
  | e :: t =>
    ((edge clear bit e).map (start, ·)).toList ++ edges clear bit (start + 1) t

section Edges

variable {tm : Timing} {clear mask colour : Word} {bit start : Nat}

theorem edges_append (t t' : List PruEvent) :
    edges clear bit start (t ++ t') =
      edges clear bit start t ++ edges clear bit (start + t.length) t' := by
  induction t generalizing start with
  | nil => simp [edges]
  | cons e t ih => simp [edges, ih, Nat.add_assoc, Nat.add_comm 1]

@[simp] theorem edges_idle (n : Nat) : edges clear bit start (idle n) = [] := by
  induction n generalizing start with
  | zero => rfl
  | succ n ih => simpa [idle, List.replicate_succ, edges, edge, aluEv] using ih

/-- The two edges of a bit that starts at `start`. -/
def pulse (tm : Timing) (one : Bool) (start : Nat) : List (Nat × Bool) :=
  [(start + 1, true), (start + 1 + tm.high one, false)]

theorem edges_bitEvents (h : tm.Admitted) (n : Nat) :
    edges clear bit start (bitEvents tm clear mask colour n) =
      if mask.getLsbD bit then pulse tm (colour.getLsbD n) start else [] := by
  have hhigh : start + 3 + (tm.high (colour.getLsbD n) - 2) =
      start + 1 + tm.high (colour.getLsbD n) := by
    have := h.six_le_high (colour.getLsbD n)
    omega
  cases hmask : mask.getLsbD bit <;>
    simp [bitEvents, edges_append, edges, edge, aluEv, sbboEv, delayEv, pulse, hmask, hhigh]

theorem edges_bitsEvents (h : tm.Admitted) (n : Nat) :
    edges clear bit start (bitsEvents tm clear mask colour n) =
      if mask.getLsbD bit then
        (List.range (n + 1)).flatMap fun k =>
          pulse tm (colour.getLsbD (n - k)) (start + k * tm.bit.toNat)
      else [] := by
  induction n generalizing start with
  | zero => simp [bitsEvents, edges_bitEvents h]
  | succ n ih =>
    rw [bitsEvents_succ, edges_append, edges_bitEvents h, length_bitEvents h, ih]
    split
    · rw [List.range_succ_eq_map (n := n + 1), List.flatMap_cons, List.flatMap_map]
      simp only [Nat.sub_zero, Nat.zero_mul, Nat.add_zero,
        Nat.succ_eq_add_one, Nat.add_sub_add_right]
      congr 2
      funext k
      congr 1
      ring
    · rfl

variable {b : Bank} {l : Fin 6 → Word}

theorem edges_pixels (h : tm.Admitted) (n : Nat) :
    edges (clearAddress b) bit start ((List.range n).flatMap (pixelEvents tm b l colour)) =
      (List.range n).flatMap fun p =>
        if (activeMask b l p).getLsbD bit then
          (List.range 24).flatMap fun k =>
            pulse tm (colour.getLsbD (23 - k)) (start + (24 * p + k) * tm.bit.toNat)
        else [] := by
  induction n with
  | zero => rfl
  | succ n ih =>
    have hlength : ((List.range n).flatMap (pixelEvents tm b l colour)).length =
        n * (24 * tm.bit.toNat) := by
      simp [List.length_flatMap, length_pixelEvents h]
    rw [List.range_succ, List.flatMap_append, edges_append, ih, List.flatMap_append, hlength]
    simp only [List.flatMap_singleton, pixelEvents, edges_bitsEvents h]
    split
    · congr 2
      funext k
      congr 1
      ring
    · rfl

end Edges

theorem getLsbD_foldr_or (xs : List Word) (j : Nat) :
    (xs.foldr (· ||| ·) 0).getLsbD j = xs.any (·.getLsbD j) := by
  induction xs with
  | nil => simp
  | cons x xs ih => rw [List.foldr_cons, BitVec.getLsbD_or, ih, List.any_cons]

/-- Strings of one bank are on different pins. -/
theorem bitAt_pinBit : ∀ b : Bank, ∀ s ∈ b.strings, ∀ s' ∈ b.strings,
    (bitAt (pinBit s')).getLsbD (pinBit s) = decide (s' = s) := by
  rintro (_ | _ | _) <;> decide

/-- The active mask holds the pin of a string until its last pixel. -/
theorem activeMask_pin {b : Bank} {s : Fin 6} (hs : s ∈ b.strings) (l : Fin 6 → Word) (p : Nat) :
    (activeMask b l p).getLsbD (pinBit s) = decide (p < (l s).toNat) := by
  have hpin (s' : Fin 6) (hs' : s' ∈ b.strings) :
      (pinActive l p s').getLsbD (pinBit s) = (decide (p < (l s').toNat) && decide (s' = s)) := by
    rw [pinActive, ← bitAt_pinBit b s hs s' hs']
    split <;> simp [*]
  rw [activeMask, getLsbD_foldr_or, List.any_map, Bool.eq_iff_iff, List.any_eq_true]
  constructor
  · rintro ⟨s', hs', h⟩
    rw [Function.comp_apply, hpin s' hs', Bool.and_eq_true, decide_eq_true_iff (p := s' = s)] at h
    exact h.2 ▸ h.1
  · intro h
    refine ⟨s, hs, ?_⟩
    simpa [hpin s hs] using h

/-! Regrouping a range by pixels. -/

theorem flatMap_range_ite {α : Type} (f : Nat → List α) {m n : Nat} (h : m ≤ n) :
    (List.range n).flatMap (fun p => if p < m then f p else []) = (List.range m).flatMap f := by
  obtain ⟨d, rfl⟩ := Nat.exists_eq_add_of_le h
  rw [List.range_add, List.flatMap_append]
  have hfirst : (List.range m).flatMap (fun p => if p < m then f p else []) =
      (List.range m).flatMap f := by
    apply List.flatMap_congr
    intro p hp
    simp [List.mem_range.mp hp]
  rw [hfirst]
  simp [List.flatMap_map]

theorem flatMap_range_mul {α : Type} (f : Nat → List α) (c m : Nat) :
    (List.range m).flatMap (fun p => (List.range c).flatMap fun k => f (c * p + k)) =
      (List.range (c * m)).flatMap f := by
  induction m with
  | zero => rfl
  | succ m ih =>
    rw [List.range_succ, List.flatMap_append, ih, Nat.mul_succ, List.range_add,
      List.flatMap_append]
    simp [List.flatMap_map]

section Stream

variable {tm : Timing} (h : tm.Admitted) (b : Bank) (l : Fin 6 → Word) (colour : Word)

include h

/-- **The waveform**: a string of length `n` receives `24 * n` pulses, the
colour bits 23 down to 0 once for each pixel, one pulse every `bit` cycles,
whatever its neighbours on the bank do. -/
theorem edges_bankStream {s : Fin 6} (hs : s ∈ b.strings) (hne : maxOfBank l b ≠ 0) :
    edges (clearAddress b) (pinBit s) 0 (bankStream tm b l colour) =
      (List.range (24 * (l s).toNat)).flatMap fun k =>
        pulse tm (colour.getLsbD (23 - k % 24)) (k * tm.bit.toNat) := by
  have hjump : edges (clearAddress b) (pinBit s) 0 (bankStream tm b l colour ++ [aluEv]) =
      edges (clearAddress b) (pinBit s) 0 (bankStream tm b l colour) := by
    rw [edges_append]
    simp [edges, edge, aluEv]
  rw [← hjump, bankStream_append b l colour h hne, edges_pixels h]
  simp only [activeMask_pin hs, decide_eq_true_eq]
  rw [flatMap_range_ite _ (le_maxOfBank b l hs),
    ← flatMap_range_mul (fun k => pulse tm (colour.getLsbD (23 - k % 24)) (k * tm.bit.toNat))]
  apply List.flatMap_congr
  intro p _
  apply List.flatMap_congr
  intro k hk
  rw [Nat.mul_add_mod, Nat.mod_eq_of_lt (List.mem_range.mp hk), Nat.zero_add]

end Stream

/-! ### The stores and the delays -/

/-- The address and the value of a GPIO store. -/
def store : PruEvent → Option (Word × Word)
  | ⟨.sbbo address value, _⟩ => some (address, value)
  | _ => none

/-- SET and CLEAR with one mask. -/
def storePair (clear mask : Word) : List (Word × Word) := [(clear + 4, mask), (clear, mask)]

theorem stores_idle (n : Nat) : (idle n).filterMap store = [] := by
  simp [idle, store, aluEv]

theorem stores_bitEvents (tm : Timing) (clear mask colour : Word) (n : Nat) :
    (bitEvents tm clear mask colour n).filterMap store = storePair clear mask := by
  simp [bitEvents, List.filterMap_cons, store, aluEv, sbboEv, delayEv, stores_idle, storePair]

section Stream

variable {tm : Timing} (h : tm.Admitted) (b : Bank) (l : Fin 6 → Word) (colour : Word)

include h

/-- Every SET is followed by the CLEAR with the same mask: 24 pairs for each
pixel, with the mask of that pixel. -/
theorem stores_bankStream (hne : maxOfBank l b ≠ 0) :
    (bankStream tm b l colour).filterMap store =
      (List.range (24 * (maxOfBank l b).toNat)).flatMap fun k =>
        storePair (clearAddress b) (activeMask b l (k / 24)) := by
  have hjump : (bankStream tm b l colour ++ [aluEv]).filterMap store =
      (bankStream tm b l colour).filterMap store := by
    simp [store, aluEv]
  rw [← hjump, bankStream_append b l colour h hne, List.filterMap_flatMap,
    ← flatMap_range_mul (fun k => storePair (clearAddress b) (activeMask b l (k / 24)))]
  apply List.flatMap_congr
  intro p _
  rw [pixelEvents, bitsEvents, List.filterMap_flatMap]
  apply List.flatMap_congr
  intro k hk
  rw [stores_bitEvents, Nat.mul_add_div (by decide),
    Nat.div_eq_of_lt (List.mem_range.mp hk), Nat.add_zero]

/-- No delay loop is entered with count zero. -/
theorem delay_bankStream {count : Word} (hmem : delayEv count ∈ bankStream tm b l colour) :
    count ≠ 0 := by
  obtain ⟨p, hmem⟩ := mem_bankStream hmem
  obtain h0 | ⟨one, h0⟩ | ⟨final, one, h0⟩ | h0 | h0 := mem_pixelEvents hmem <;>
    simp only [delayEv, aluEv, sbboEv, Sigma.mk.injEq, reduceCtorEq, false_and,
      PruOp.loadDelay.injEq] at h0
  · exact h0.1 ▸ h.highCount_ne_zero one
  · exact h0.1 ▸ h.lowCount_ne_zero final one

end Stream

/-! ### A granted bank -/

/-- **Waveform of a granted bank.**  With timing the start-up guard accepts,
`SEND_GROUP` waits as long as it reads smaller grants; released, it runs
through `bankStream` and nothing else, and ends after the pixels of the
longest string.  Every string receives its own pulses at the period of the
profile, SET and CLEAR carry one mask, a string of length zero is in no
mask, and no delay loop is entered with count zero. -/
theorem sendGroup_waveform {tm : Timing} {r : Regs} {b : Bank} {l : Fin 6 → Word}
    (hguard : ((timingGuard tm).exec silent).2 = true) (hr : r.Loaded tm)
    (hl : ∀ i, l i ≤ maxLength) (hne : ∃ s ∈ b.strings, l s ≠ 0)
    (polls : List Word) (hpolls : ∀ g ∈ polls, g < b.ordinal) :
    let gate := offerEvents b l ++ polls.flatMap pollEvents ++ releaseEvents b
    let stream := bankStream tm b l r.r4
    (∃ last, Machine.Steps (code tm) (code tm (.sendGroup, r.atBank b l)) (gate ++ stream)
        (code tm (.timedEnd, last)) ∧ last.r16 = maxOfBank l b ∧ last.r9 = 0) ∧
      (∀ t q, Machine.Steps (code tm) (code tm (.sendGroup, r.atBank b l)) (gate ++ t) q →
        t <+: stream ∨ stream <+: t) ∧
      stream.length + 1 = (maxOfBank l b).toNat * (24 * tm.bit.toNat) ∧
      (∀ s ∈ b.strings, edges (clearAddress b) (pinBit s) 0 stream =
        (List.range (24 * (l s).toNat)).flatMap fun k =>
          pulse tm (r.r4.getLsbD (23 - k % 24)) (k * tm.bit.toNat)) ∧
      (stream.filterMap store = (List.range (24 * (maxOfBank l b).toNat)).flatMap fun k =>
        storePair (clearAddress b) (activeMask b l (k / 24))) ∧
      (∀ s ∈ b.strings, l s = 0 → ∀ a v, (a, v) ∈ stream.filterMap store →
        v.getLsbD (pinBit s) = false) ∧
      ∀ count, delayEv count ∈ stream → count ≠ 0 := by
  have h := (timingGuard_iff tm).mp hguard
  have hmax : maxOfBank l b ≠ 0 := by
    obtain ⟨s, hs, hls⟩ := hne
    have := le_maxOfBank b l hs
    intro h0
    rw [h0] at this
    exact hls (by bv_omega)
  have hgate := gate_steps tm r hmax polls hpolls
  have hstream := pixelLoop_steps h hr (maxOfBank_le b hl) hmax
  have hstores := stores_bankStream h b l r.r4 hmax
  refine ⟨⟨_, hgate.trans hstream, ?_, ?_⟩, ?_, ?_, ?_, hstores, ?_, ?_⟩
  · simp [Regs.atPixel]
  · exact (activeMask_eq_zero_iff b l _).mpr le_rfl
  · intro t q hq
    rcases hq.of_append hgate with rfl | hq
    · exact .inl List.nil_prefix
    · have hsilent : ∀ e ∈ bankStream tm b l r.r4, Subsingleton (PruOp.Res e.1) := by
        intro e he
        obtain ⟨p, he⟩ := mem_bankStream he
        exact subsingleton_pixelEvents he
      exact (hstream.comparable hsilent hq).symm
  · have hlen := congrArg List.length (bankStream_append b l r.r4 h hmax)
    simpa [List.length_flatMap, length_pixelEvents h] using hlen
  · exact fun s hs => edges_bankStream h b l r.r4 hs hmax
  · intro s hs hls a v hav
    simp only [hstores, List.mem_flatMap, storePair, List.mem_cons, Prod.mk.injEq,
      List.not_mem_nil, or_false] at hav
    obtain ⟨k, -, ⟨-, rfl⟩ | ⟨-, rfl⟩⟩ := hav <;> simp [activeMask_pin hs, hls]
  · exact fun count hmem => delay_bankStream h b l r.r4 hmem

/-- Two pixels on string 0 and one on string 1, after one early poll: string
1 drops out at the pixel boundary and string 0 is not disturbed. -/
theorem sendGroup_waveform_two_one :
    let r := { (default : Regs).load profileTiming with r4 := 0x800001 }
    let l : Fin 6 → Word := ![2, 1, 0, 0, 0, 0]
    let stream := bankStream profileTiming .gpio2 l 0x800001
    (∃ last, Machine.Steps (code profileTiming) (code profileTiming (.sendGroup, r.atBank .gpio2 l))
      (offerEvents .gpio2 l ++ [0].flatMap pollEvents ++ releaseEvents .gpio2 ++ stream)
      (code profileTiming (.timedEnd, last)) ∧ last.r16 = 2) ∧
      stream.length + 1 = 2 * (24 * 240) ∧
      edges gpio2Clear 4 0 stream =
        (List.range 24).flatMap fun k =>
          pulse profileTiming ((0x800001 : Word).getLsbD (23 - k % 24)) (k * 240) := by
  intro r l stream
  have hpolls : ∀ g ∈ [(0 : Word)], g < Bank.gpio2.ordinal := by
    intro g hg
    rw [List.mem_singleton.mp hg]
    decide
  obtain ⟨⟨last, hsteps, h16, -⟩, -, hlength, hedges, -⟩ :=
    sendGroup_waveform (r := r) (b := .gpio2) (l := l) ((timingGuard_iff profileTiming).mpr
      ⟨by decide, by decide, by decide, by decide⟩)
      ⟨rfl, rfl, rfl, rfl, rfl, rfl, rfl⟩ (by decide) ⟨0, by decide⟩ [0] hpolls
  have hedges := hedges 1 (by decide)
  rw [show (maxOfBank l .gpio2).toNat = 2 by decide, show profileTiming.bit.toNat = 240 from rfl]
    at hlength
  rw [show (l 1).toNat = 1 from rfl, show profileTiming.bit.toNat = 240 from rfl] at hedges
  exact ⟨⟨last, hsteps, h16⟩, hlength, hedges⟩

end Pru

end Dld
