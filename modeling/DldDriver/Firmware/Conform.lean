/-
DldDriver/Firmware/Conform.lean

The firmware follows its automaton, whatever the host does.

`Control` is the label invariant: it ties the registers at a label to the
phase of the automaton.  One lemma for each block shows that the block
follows the automaton from there and jumps to labels where `Control` holds
again; `firmware_invariant` puts them together.
-/
import Mathlib.Tactic.FinCases
import DldDriver.Firmware.Protocol
import DldDriver.Firmware.Start

namespace Dld

open Interaction

namespace Pru

/-- The banks after `b` in the pass. -/
def later : Bank → List Bank
  | .gpio2 => [.gpio1, .gpio0]
  | .gpio1 => [.gpio0]
  | .gpio0 => []

/-- The non-empty banks after `b`. -/
def laterNonEmpty (l : Fin 6 → Word) (b : Bank) : List Bank :=
  (later b).filter fun b => maxOfBank l b ≠ 0

/-- The non-empty banks from `b` on. -/
def fromBank (l : Fin 6 → Word) (b : Bank) : List Bank :=
  if maxOfBank l b ≠ 0 then b :: laterNonEmpty l b else laterNonEmpty l b

theorem nonEmpty_eq (l : Fin 6 → Word) : nonEmpty l = fromBank l .gpio2 := by
  simp only [nonEmpty, fromBank, laterNonEmpty, later, Bank.pass, List.filter_cons,
    decide_eq_true_eq]

theorem laterNonEmpty_gpio2 (l : Fin 6 → Word) : laterNonEmpty l .gpio2 = fromBank l .gpio1 := by
  simp only [fromBank, laterNonEmpty, later, List.filter_cons, decide_eq_true_eq]

theorem laterNonEmpty_gpio1 (l : Fin 6 → Word) : laterNonEmpty l .gpio1 = fromBank l .gpio0 := by
  simp only [fromBank, laterNonEmpty, later, List.filter_cons, decide_eq_true_eq]

/-- The phase of a timed stream. -/
def Phase.timed : Phase → Bool
  | .stream .. => true
  | _ => false

section Ops

variable {tm : Timing} {l : Fin 6 → Word} {s : FState}

theorem Phase.timed_of_free {p : Phase} (h : p.free = true) : p.timed = false := by
  cases p <;> first | rfl | cases h

theorem fstep_untimed (h : s.phase.timed = false) (e : PruEvent) :
    fstep tm l s e = stepUntimed tm l s e := by
  unfold fstep
  split
  · simp_all [Phase.timed]
  · rfl

/-- One operation outside a stream. -/
theorem wp_pop {o : PruOp} {Q : FState → o.Res → Prop} (h : s.phase.timed = false)
    (hQ : ∀ v, ConfigReads l ⟨o, v⟩ → ∃ s', stepUntimed tm l s ⟨o, v⟩ = some s' ∧ Q s' v) :
    (firmware tm l).wp (pop o) s Q := by
  intro v hv
  obtain ⟨s', hs', hQ⟩ := hQ v hv
  simpa [firmware, fstep_untimed h, hs'] using hQ

theorem stepAlu_free (h : s.phase.free = true) : stepAlu s = some s := by
  obtain ⟨phase, seq, colour, out⟩ := s
  cases phase <;> first | rfl | cases h

theorem wp_alu {Q : FState → Unit → Prop} (h : s.phase.free = true) (hQ : Q s ()) :
    (firmware tm l).wp alu s Q :=
  wp_pop (Phase.timed_of_free h) fun _ _ => ⟨s, stepAlu_free h, hQ⟩

theorem wp_movImm {Q : FState → Unit → Prop} {v : Word} (h : s.phase.free = true) (hQ : Q s ()) :
    (firmware tm l).wp (movImm v) s Q := by
  rw [movImm, Monitor.wp_bind]
  refine wp_alu h ?_
  rw [Monitor.wp_ite]
  exact ⟨fun _ => wp_alu h hQ, fun _ => hQ⟩

/-! #### One operation and the rest of the program -/

section Bind

variable {α : Type} {Q : FState → α → Prop}

theorem bind_pop {o : PruOp} {f : o.Res → PProg α} (h : s.phase.timed = false)
    (hf : ∀ v, ConfigReads l ⟨o, v⟩ →
      ∃ s', stepUntimed tm l s ⟨o, v⟩ = some s' ∧ (firmware tm l).wp (f v) s' Q) :
    (firmware tm l).wp (pop o >>= f) s Q := by
  rw [Monitor.wp_bind]
  exact wp_pop h hf

theorem bind_alu {f : Unit → PProg α} (h : s.phase.free = true)
    (hf : (firmware tm l).wp (f ()) s Q) : (firmware tm l).wp (alu >>= f) s Q := by
  rw [Monitor.wp_bind]
  exact wp_alu h hf

theorem bind_movImm {v : Word} {f : Unit → PProg α} (h : s.phase.free = true)
    (hf : (firmware tm l).wp (f ()) s Q) : (firmware tm l).wp (movImm v >>= f) s Q := by
  rw [Monitor.wp_bind]
  exact wp_movImm h hf

/-- A store that is due. -/
theorem bind_sbco {off : Off} {v : Word} {f : Unit → PProg α} (h : s.phase.timed = false)
    {s' : FState} (hs' : stepStore tm l s off v = some s')
    (hf : (firmware tm l).wp (f ()) s' Q) : (firmware tm l).wp (sbco off v >>= f) s Q :=
  bind_pop h fun _ _ => ⟨s', hs', hf⟩

/-- A read of the configuration. -/
theorem bind_lengths {i : Fin 6} {f : Word → PProg α} (h : s.phase.timed = false)
    (hs : stepLoad s (.lengths i) (l i) = some s) (hf : (firmware tm l).wp (f (l i)) s Q) :
    (firmware tm l).wp (lbco (.lengths i) >>= f) s Q := by
  refine bind_pop h ?_
  rintro v rfl
  exact ⟨s, hs, hf⟩

end Bind

theorem due_self (s : FState) (off : Off) (v : Word) (p : Phase) :
    due s off v off v p = some (s.stored off v p) := if_pos ⟨rfl, rfl⟩

/-- A program that performs exactly the next events of a stream. -/
theorem wp_stream {α : Type} {p : PProg α} {t left : List PruEvent} {a : α} {b : Bank}
    {bs : List Bank} {seq colour : Word} {out : DldCommand} {Q : FState → α → Prop}
    (h : p.Runs t a) (ht : ∀ e ∈ t, Subsingleton (PruOp.Res e.1))
    (hQ : Q ⟨streaming b bs left, seq, colour, out⟩ a) :
    (firmware tm l).wp p ⟨streaming b bs (t ++ left), seq, colour, out⟩ Q := by
  have hstep (e : PruEvent) (t : List PruEvent) :
      fstep tm l ⟨streaming b bs (e :: t), seq, colour, out⟩ e =
        some ⟨streaming b bs t, seq, colour, out⟩ := by
    rw [streaming, if_neg (List.cons_ne_nil e t)]
    exact if_pos rfl
  have halong : (firmware tm l).SafeAlong ⟨streaming b bs (t ++ left), seq, colour, out⟩ t ∧
      (firmware tm l).run ⟨streaming b bs (t ++ left), seq, colour, out⟩ t =
        ⟨streaming b bs left, seq, colour, out⟩ := by
    clear h ht hQ
    induction t with
    | nil => exact ⟨trivial, rfl⟩
    | cons e t ih =>
      have hnext : (firmware tm l).next ⟨streaming b bs (e :: (t ++ left)), seq, colour, out⟩ e =
          ⟨streaming b bs (t ++ left), seq, colour, out⟩ := by
        simp only [firmware, hstep, Option.getD_some]
      refine ⟨⟨?_, ?_⟩, ?_⟩
      · simp [firmware, hstep]
      · rw [List.cons_append, hnext]
        exact ih.1
      · rw [List.cons_append, Monitor.run_cons, hnext]
        exact ih.2
  exact Monitor.wp_of_runs h ht halong.1 (halong.2 ▸ hQ)

/-- `FATAL` where its first store is due. -/
theorem wp_fatal {cause : Word} {Q : FState → Next → Prop} (h : s.phase.timed = false)
    (hs : stepStore tm l s .errorDetail cause = some (s.stored .errorDetail cause .fatalStatus))
    (hQ : ∀ s', s'.phase = .halted → Q s' none) : (firmware tm l).wp (fatal cause) s Q := by
  refine bind_sbco h hs ?_
  refine bind_movImm rfl ?_
  refine bind_sbco rfl (due_self _ _ _ _) ?_
  exact bind_pop rfl fun _ _ => ⟨_, rfl, hQ _ rfl⟩

end Ops

/-! ### The label invariant -/

/-- What `START` establishes in the settle count and the timing registers,
and every frame keeps. -/
structure ReadyAt (tm : Timing) (l : Fin 6 → Word) (r5 r20 r21 r22 r23 r24 r25 r27 : Word) :
    Prop where
  admitted : tm.Admitted
  r20 : r20 = tm.r20
  r21 : r21 = tm.r21
  r22 : r22 = tm.r22
  r23 : r23 = tm.r23
  r24 : r24 = tm.r24
  r25 : r25 = tm.r25
  r27 : r27 = tm.r27
  lengths : ∀ i, l i ≤ maxLength
  settle : settleCycles l ≤ 2 * r5.toNat

abbrev Ready (tm : Timing) (l : Fin 6 → Word) (r : Regs) : Prop :=
  ReadyAt tm l r.r5 r.r20 r.r21 r.r22 r.r23 r.r24 r.r25 r.r27

theorem ReadyAt.loaded {tm : Timing} {l : Fin 6 → Word} {r : Regs} (h : Ready tm l r) :
    r.Loaded tm :=
  ⟨h.r20, h.r21, h.r22, h.r23, h.r24, h.r25, h.r27⟩

/-- The registers and the phase at a label. -/
def Control (tm : Timing) (l : Fin 6 → Word) : Option (Label × Regs) → FState → Prop
  | some (.start, _), s => s.phase = .boot ∧ s.seq = 0
  | some (.requestLoop, r), s => Ready tm l r ∧ s.phase = .poll ∧ s.seq = r.r3
  | some (.afterGpio2, r), s =>
    Ready tm l r ∧ s.phase = .enter (laterNonEmpty l .gpio2) ∧ s.seq = r.r3 ∧ s.colour = r.r4
  | some (.afterGpio1, r), s =>
    Ready tm l r ∧ s.phase = .enter (laterNonEmpty l .gpio1) ∧ s.seq = r.r3 ∧ s.colour = r.r4
  | some (.afterGpio0, r), s =>
    Ready tm l r ∧ s.phase = .enter [] ∧ s.seq = r.r3 ∧ s.colour = r.r4
  | some (.sendGroup, r), s => ∃ b r', r = r'.atBank b l ∧ Ready tm l r' ∧
    s.phase = .enter (fromBank l b) ∧ s.seq = r.r3 ∧ s.colour = r.r4
  | some (.gateWait, r), s => ∃ b r', r = r'.atGate b l ∧ Ready tm l r' ∧ maxOfBank l b ≠ 0 ∧
    s.phase = .gate b (laterNonEmpty l b) ∧ s.seq = r.r3 ∧ s.colour = r.r4
  | some (.sendPixel, r), s => ∃ b r' p, r = r'.atPixel b l p ∧ Ready tm l r' ∧
    p < (maxOfBank l b).toNat ∧
    s.phase = streaming b (laterNonEmpty l b) (streamFrom tm b l r.r4 p) ∧
    s.seq = r.r3 ∧ s.colour = r.r4
  | some (.timedEnd, r), s => ∃ b r' p, r = r'.atPixel b l p ∧ Ready tm l r' ∧
    s.phase = .drain b (laterNonEmpty l b) 0 ∧ s.seq = r.r3 ∧ s.colour = r.r4
  | none, s => s.phase = .halted

/-! ### The blocks -/

section Blocks

variable {tm : Timing} {l : Fin 6 → Word} {r : Regs} {s : FState}

/-- The block of label `lab` follows the automaton. -/
abbrev Follows (tm : Timing) (l : Fin 6 → Word) (p : PProg Next) (s : FState) : Prop :=
  Machine.Good (firmware tm l) (Control tm l) p s

theorem follows_requestLoop (h : Control tm l (some (.requestLoop, r)) s) :
    Follows tm l (requestLoopBlock r) s := by
  obtain ⟨phase, seq, colour, out⟩ := s
  obtain ⟨hr, rfl : phase = .poll, rfl : seq = r.r3⟩ := h
  refine bind_pop rfl fun v _ => ?_
  by_cases hv : v = r.r3
  · refine ⟨_, if_pos hv, bind_alu rfl ?_⟩
    rw [if_pos hv]
    exact ⟨hr, rfl, rfl⟩
  refine ⟨_, if_neg hv, bind_alu rfl ?_⟩
  rw [if_neg hv]
  refine bind_alu rfl (bind_pop rfl fun grant _ => ?_)
  by_cases hgrant : grant = 0
  · -- the acceptance: three stores, then the colour
    refine ⟨_, if_pos hgrant, bind_alu rfl ?_⟩
    rw [if_neg (not_not.mpr hgrant)]
    refine bind_sbco rfl (if_pos ⟨rfl, hgrant⟩) ?_
    refine bind_sbco rfl (if_pos ⟨rfl, hgrant⟩) ?_
    refine bind_sbco rfl (due_self _ _ _ _) ?_
    refine bind_pop rfl fun c _ => ?_
    by_cases hc : c >>> 24 = 0
    · refine ⟨_, if_pos hc, bind_alu rfl (bind_alu rfl ?_)⟩
      rw [if_neg (by simp [hc])]
      refine bind_movImm rfl (bind_sbco rfl (due_self _ _ _ _) ?_)
      refine bind_movImm rfl (bind_movImm rfl ?_)
      refine bind_lengths rfl rfl (bind_lengths rfl rfl (bind_lengths rfl rfl ?_))
      refine bind_movImm rfl (bind_movImm rfl (bind_movImm rfl (bind_movImm rfl ?_)))
      refine bind_alu rfl ?_
      exact ⟨.gpio2, { r with r3 := v, r4 := c }, rfl, hr, congrArg _ (nonEmpty_eq l), rfl, rfl⟩
    · refine ⟨_, if_neg hc, bind_alu rfl (bind_alu rfl ?_)⟩
      rw [if_pos (by simpa using hc)]
      refine bind_movImm rfl (bind_alu rfl ?_)
      exact wp_fatal rfl (due_self _ _ _ _) fun _ h => h
  · refine ⟨_, if_neg hgrant, bind_alu rfl ?_⟩
    rw [if_pos hgrant]
    refine bind_movImm rfl (bind_alu rfl ?_)
    exact wp_fatal rfl (due_self _ _ _ _) fun _ h => h

theorem follows_afterGpio2 (h : Control tm l (some (.afterGpio2, r)) s) :
    Follows tm l (afterGpio2Block r) s := by
  obtain ⟨phase, seq, colour, out⟩ := s
  obtain ⟨hr, rfl : phase = .enter (laterNonEmpty l .gpio2), rfl : seq = r.r3,
    rfl : colour = r.r4⟩ := h
  refine bind_movImm rfl (bind_movImm rfl (bind_lengths rfl rfl (bind_lengths rfl rfl ?_)))
  refine bind_movImm rfl (bind_movImm rfl (bind_movImm rfl (bind_movImm rfl ?_)))
  refine bind_movImm rfl (bind_alu rfl ?_)
  exact ⟨.gpio1, r, rfl, hr, congrArg _ (laterNonEmpty_gpio2 l), rfl, rfl⟩

theorem follows_afterGpio1 (h : Control tm l (some (.afterGpio1, r)) s) :
    Follows tm l (afterGpio1Block r) s := by
  obtain ⟨phase, seq, colour, out⟩ := s
  obtain ⟨hr, rfl : phase = .enter (laterNonEmpty l .gpio1), rfl : seq = r.r3,
    rfl : colour = r.r4⟩ := h
  refine bind_movImm rfl (bind_movImm rfl (bind_lengths rfl rfl ?_))
  refine bind_movImm rfl (bind_movImm rfl (bind_movImm rfl (bind_movImm rfl ?_)))
  refine bind_movImm rfl (bind_movImm rfl (bind_alu rfl ?_))
  exact ⟨.gpio0, r, rfl, hr, congrArg _ (laterNonEmpty_gpio1 l), rfl, rfl⟩

/-! #### The settle wait -/

section Settle

variable {seq colour : Word} {out : DldCommand}

/-- The phase in which `k` instructions of the settle wait are done. -/
abbrev settling (seq colour : Word) (out : DldCommand) (k : Nat) : FState :=
  ⟨.settle k, seq, colour, out⟩

theorem wp_settle_alu {Q : FState → Unit → Prop} {k : Nat}
    (hQ : Q (settling seq colour out (k + 1)) ()) :
    (firmware tm l).wp alu (settling seq colour out k) Q :=
  wp_pop rfl fun _ _ => ⟨_, rfl, hQ⟩

theorem wp_settle_delayLoop {Q : FState → Unit → Prop} (n k : Nat)
    (hQ : Q (settling seq colour out (k + 2 * (n + 1))) ()) :
    (firmware tm l).wp (delayLoop n) (settling seq colour out k) Q := by
  induction n generalizing k with
  | zero =>
    rw [delayLoop, Monitor.wp_bind]
    exact wp_settle_alu (wp_settle_alu hQ)
  | succ n ih =>
    rw [delayLoop, Monitor.wp_bind]
    refine wp_settle_alu ?_
    rw [Monitor.wp_bind]
    refine wp_settle_alu (ih _ ?_)
    rwa [show k + 1 + 1 + 2 * (n + 1) = k + 2 * (n + 1 + 1) by ring]

/-- `WAIT_SETTLE` counts two cycles for each unit of r5. -/
theorem wp_waitSettle {Q : FState → Unit → Prop} {r5 : Word}
    (hQ : ∀ n, 2 * r5.toNat ≤ n → Q (settling seq colour out n) ()) :
    (firmware tm l).wp (waitSettle r5) ⟨.enter [], seq, colour, out⟩ Q := by
  rw [waitSettle, delay, Monitor.wp_bind]
  refine bind_pop rfl fun _ _ => ⟨_, rfl, ?_⟩
  refine wp_settle_delayLoop _ _ (wp_settle_alu (hQ _ ?_))
  bv_omega

end Settle

theorem follows_afterGpio0 (h : Control tm l (some (.afterGpio0, r)) s) :
    Follows tm l (afterGpio0Block r) s := by
  obtain ⟨phase, seq, colour, out⟩ := s
  obtain ⟨hr, rfl : phase = .enter [], rfl : seq = r.r3, rfl : colour = r.r4⟩ := h
  refine bind_alu rfl ?_
  rw [Monitor.wp_bind]
  refine wp_waitSettle fun n hn => ?_
  have hsettled : settleCycles l ≤ n := hr.settle.trans hn
  refine bind_sbco rfl ((if_pos hsettled).trans (due_self _ _ _ _)) ?_
  refine bind_movImm rfl (bind_sbco rfl (due_self _ _ _ _) ?_)
  refine bind_movImm rfl (bind_sbco rfl (due_self _ _ _ _) (bind_alu rfl ?_))
  exact ⟨hr, rfl, rfl⟩

/-! #### SEND_GROUP -/

/-- The return from `SEND_GROUP`, with or without a stream. -/
theorem control_return {b : Bank} (hr : Ready tm l r) (hphase : s.phase = .enter (laterNonEmpty l b))
    (hseq : s.seq = r.r3) (hcolour : s.colour = r.r4) : Control tm l (some (returnLabel b, r)) s := by
  cases b <;> exact ⟨hr, hphase, hseq, hcolour⟩

theorem wp_includePin {Q : FState → Word → Prop} {r9 endpoint pinMask : Word}
    (h : s.phase.free = true) (hQ : Q s (r9 ||| if 0 < endpoint.toNat then pinMask else 0)) :
    (firmware tm l).wp (includePin r9 endpoint pinMask) s Q := by
  rw [includePin]
  refine bind_alu h ?_
  by_cases he : endpoint = 0
  · rw [if_pos he]
    simpa [he] using hQ
  · rw [if_neg he]
    refine bind_alu h ?_
    rwa [if_pos (by bv_omega)] at hQ

theorem Ready.atBank (b : Bank) (hr : Ready tm l r) : Ready tm l (r.atBank b l) := by
  cases b <;> exact hr

theorem follows_sendGroup (h : Control tm l (some (.sendGroup, r)) s) :
    Follows tm l (sendGroupBlock r) s := by
  obtain ⟨phase, seq, colour, out⟩ := s
  obtain ⟨b, r, rfl, hr, rfl : phase = _, rfl : seq = _, rfl : colour = _⟩ := h
  refine bind_movImm rfl ?_
  rw [Monitor.wp_bind]
  refine wp_includePin rfl ?_
  rw [Monitor.wp_bind]
  refine wp_includePin rfl ?_
  rw [Monitor.wp_bind]
  refine wp_includePin rfl (bind_alu rfl ?_)
  rw [includePins_eq r b l]
  by_cases hempty : activeMask b l 0 = 0
  · have hmax : maxOfBank l b = 0 := by
      rw [activeMask_eq_zero_iff, Nat.le_zero] at hempty
      exact BitVec.eq_of_toNat_eq hempty
    rw [if_pos hempty]
    refine bind_alu rfl ?_
    rw [atBank_r28]
    exact control_return (Ready.atBank b hr) (congrArg _ (if_neg (not_not.mpr hmax))) rfl rfl
  · have hmax : maxOfBank l b ≠ 0 := by
      rw [activeMask_eq_zero_iff, Nat.le_zero] at hempty
      exact fun h0 => hempty (congrArg BitVec.toNat h0)
    rw [if_neg hempty]
    simp only [fromBank, if_pos hmax, atBank_r26]
    refine bind_movImm rfl (bind_sbco rfl (due_self _ _ _ _) ?_)
    refine bind_sbco rfl (due_self _ _ _ _) ?_
    refine ⟨b, r, ?_, hr, hmax, rfl, rfl, rfl⟩
    simp only [Regs.atGate, atBank_r26]

theorem follows_gateWait (h : Control tm l (some (.gateWait, r)) s) :
    Follows tm l (gateWaitBlock r) s := by
  obtain ⟨phase, seq, colour, out⟩ := s
  obtain ⟨b, r, rfl, hr, hmax, rfl : phase = _, rfl : seq = _, rfl : colour = _⟩ := h
  have h26 : (r.atGate b l).r26 = b.ordinal := atBank_r26 r b l
  refine bind_pop rfl fun grant _ => ?_
  rw [h26]
  by_cases hgrant : grant = b.ordinal
  · -- released: two stores, and the stream begins with `MOV r16, 0`
    refine ⟨_, if_pos hgrant, bind_alu rfl ?_⟩
    rw [if_neg (not_not.mpr hgrant)]
    refine bind_movImm rfl (bind_sbco rfl (due_self _ _ _ _) ?_)
    refine bind_movImm rfl (bind_sbco rfl (due_self _ _ _ _) ?_)
    rw [← streamFrom_zero]
    have hmov : (movImm 0).Runs [aluEv] () := by
      apply Prog.Runs.call
      exact .ret _
    refine Monitor.wp_bind.mpr (wp_stream hmov ?_ ?_)
    · intro e he
      rw [List.mem_singleton.mp he]
      exact inferInstanceAs (Subsingleton Unit)
    refine ⟨b, r, 0, ?_, hr, ?_, rfl, rfl, rfl⟩
    · rw [← h26]
      rfl
    · exact Nat.pos_of_ne_zero fun h0 => hmax (BitVec.eq_of_toNat_eq h0)
  · by_cases hless : grant < b.ordinal
    · refine ⟨_, (if_neg hgrant).trans (if_pos hless), bind_alu rfl ?_⟩
      rw [if_pos hgrant]
      refine bind_alu rfl ?_
      rw [if_pos hless]
      exact ⟨b, r, rfl, hr, hmax, rfl, rfl, rfl⟩
    · refine ⟨_, (if_neg hgrant).trans (if_neg hless), bind_alu rfl ?_⟩
      rw [if_pos hgrant]
      refine bind_alu rfl ?_
      rw [if_neg hless]
      refine bind_movImm rfl (bind_alu rfl ?_)
      exact wp_fatal rfl (due_self _ _ _ _) fun _ h => h

theorem follows_sendPixel (h : Control tm l (some (.sendPixel, r)) s) :
    Follows tm l (sendPixelBlock r) s := by
  obtain ⟨phase, seq, colour, out⟩ := s
  obtain ⟨b, r, p, rfl, hr, hp, rfl : phase = _, rfl : seq = _, rfl : colour = _⟩ := h
  have hl := maxOfBank_le b hr.lengths
  have hr4 : (r.atPixel b l p).r4 = r.r4 := by cases b <;> rfl
  rw [hr4]
  by_cases hlast : p + 1 = (maxOfBank l b).toNat
  · have hrun := sendPixel_last hr.admitted (ReadyAt.loaded hr) hl hlast
    rw [← List.append_nil (streamFrom tm b l r.r4 p)]
    refine wp_stream hrun (fun e he => ?_) ?_
    · obtain ⟨q, he⟩ := mem_streamFrom he
      exact subsingleton_pixelEvents he
    exact ⟨b, r, p + 1, rfl, hr, rfl, by cases b <;> rfl, by cases b <;> rfl⟩
  · have hnext : p + 1 < (maxOfBank l b).toNat := by omega
    have hrun := sendPixel_next hr.admitted (ReadyAt.loaded hr) hl hnext
    rw [streamFrom_succ hr.admitted r.r4 hnext]
    refine wp_stream hrun (fun e he => subsingleton_pixelEvents he) ?_
    refine ⟨b, r, p + 1, rfl, hr, hnext, ?_, by cases b <;> rfl, by cases b <;> rfl⟩
    cases b <;> rfl

/-! #### The drain -/

section Drain

variable {b : Bank} {bs : List Bank} {seq colour : Word} {out : DldCommand}

/-- The phase in which `n` CLEARs of the drain are done. -/
abbrev draining (b : Bank) (bs : List Bank) (seq colour : Word) (out : DldCommand) (n : Nat) :
    FState := ⟨.drain b bs n, seq, colour, out⟩

theorem stepStore_drained {n : Nat} (hn : n ≠ 0) :
    stepStore tm l (draining b bs seq colour out n) .bankDone b.ordinal =
      some ((draining b bs seq colour out n).stored .bankDone b.ordinal (.enter bs)) := by
  simp [stepStore, due, hn]

theorem stepStore_undrained :
    stepStore tm l (draining b bs seq colour out drainAttempts) .errorDetail errorBankClear =
      some ((draining b bs seq colour out drainAttempts).stored .errorDetail errorBankClear
        .fatalStatus) := by
  simp [stepStore, due]

/-- `DRAIN_BANK`: at least one CLEAR, and all eight if the bits stay high. -/
theorem wp_drainRetry {Q : FState → Bool → Prop} (n k : Nat) (hk : k + (n + 1) = drainAttempts)
    (hlow : ∀ m, 1 ≤ m → Q (draining b bs seq colour out m) true)
    (hhigh : Q (draining b bs seq colour out drainAttempts) false) :
    (firmware tm l).wp (drainRetry (clearAddress b) (bankMask b) n)
      (draining b bs seq colour out k) Q := by
  have hclear : stepSbbo (draining b bs seq colour out k) (clearAddress b) (bankMask b) =
      some (draining b bs seq colour out (k + 1)) :=
    if_pos ⟨rfl, rfl, by omega⟩
  induction n generalizing k with
  | zero =>
    rw [drainRetry]
    refine bind_pop rfl fun _ _ => ⟨_, hclear, bind_pop rfl fun r0 _ => ⟨_, rfl, ?_⟩⟩
    refine bind_alu rfl (bind_alu rfl ?_)
    rw [Monitor.wp_ite]
    refine ⟨fun _ => hlow _ (by omega), fun _ => bind_alu rfl (bind_alu rfl ?_)⟩
    rw [Monitor.wp_pure, hk]
    exact hhigh
  | succ n ih =>
    rw [drainRetry]
    refine bind_pop rfl fun _ _ => ⟨_, hclear, bind_pop rfl fun r0 _ => ⟨_, rfl, ?_⟩⟩
    refine bind_alu rfl (bind_alu rfl ?_)
    rw [Monitor.wp_ite]
    refine ⟨fun _ => hlow _ (by omega), fun _ => bind_alu rfl (bind_alu rfl ?_)⟩
    exact ih (k + 1) (by omega) (if_pos ⟨rfl, rfl, by omega⟩)

theorem wp_drainBank {Q : FState → Bool → Prop}
    (hlow : ∀ m, 1 ≤ m → Q (draining b bs seq colour out m) true)
    (hhigh : Q (draining b bs seq colour out drainAttempts) false) :
    (firmware tm l).wp (drainBank (clearAddress b) (bankMask b))
      (draining b bs seq colour out 0) Q := by
  refine bind_movImm rfl (bind_alu rfl ?_)
  rw [Monitor.wp_bind]
  refine wp_drainRetry 7 0 rfl (fun m hm => bind_alu rfl (hlow m hm)) (bind_alu rfl hhigh)

end Drain

theorem follows_timedEnd (h : Control tm l (some (.timedEnd, r)) s) :
    Follows tm l (timedEndBlock r) s := by
  obtain ⟨phase, seq, colour, out⟩ := s
  obtain ⟨b, r, p, rfl, hr, rfl : phase = _, rfl : seq = _, rfl : colour = _⟩ := h
  have h7 : (r.atPixel b l p).r7 = clearAddress b := atBank_r7 r b l
  have h8 : (r.atPixel b l p).r8 = bankMask b := atBank_r8 r b l
  have h26 : (r.atPixel b l p).r26 = b.ordinal := atBank_r26 r b l
  have h28 : (r.atPixel b l p).r28 = returnLabel b := atBank_r28 r b l
  refine bind_movImm rfl (bind_alu rfl ?_)
  rw [Monitor.wp_bind, h7, h8]
  refine wp_drainBank (fun m hm => ?_) ?_
  · rw [if_neg (by decide), h26, h28]
    refine bind_sbco rfl (stepStore_drained (by omega)) (bind_alu rfl ?_)
    refine control_return ?_ rfl rfl rfl
    cases b <;> exact hr
  · rw [if_pos rfl]
    exact wp_fatal rfl stepStore_undrained fun _ h => h

/-! #### START -/

/-- A register program and the rest, in a phase where registers are free. -/
theorem bind_register {α β : Type} {p : PProg α} {f : α → PProg β} {Q : FState → β → Prop}
    (hp : Register p) (h : s.phase.free = true)
    (hf : (firmware tm l).wp (f (p.exec silent).2) s Q) :
    (firmware tm l).wp (p >>= f) s Q := by
  rw [Monitor.wp_bind]
  refine Monitor.wp_frame hp ?_ hp.all ?_
  · rintro _ rfl
    have hstep : fstep tm l s aluEv = some s :=
      (fstep_untimed (Phase.timed_of_free h) _).trans (stepAlu_free h)
    simp [firmware, hstep]
  · rintro _ rfl
    exact hf

section Boot

variable {seq colour : Word} {out : DldCommand}

/-- `START` before its stores. -/
abbrev booting (seq colour : Word) (out : DldCommand) : FState := ⟨.boot, seq, colour, out⟩

theorem stepStore_bootFailed {cause : Word} (h : cause ≠ errorNone) :
    stepStore tm l (booting seq colour out) .errorDetail cause =
      some ((booting seq colour out).stored .errorDetail cause .fatalStatus) := by
  rw [stepStore, if_neg (by simp), if_neg h]

theorem stepStore_booted :
    stepStore tm l (booting seq colour out) .errorDetail errorNone =
      some ((booting seq colour out).stored .errorDetail errorNone
        (.publish readyStores.tail)) := by
  rw [stepStore, if_neg (by simp), if_pos rfl]

theorem wp_bootDrainRetry {b : Bank} {Q : FState → Bool → Prop} (n : Nat)
    (hQ : ∀ low, Q (booting seq colour out) low) :
    (firmware tm l).wp (drainRetry (clearAddress b) (bankMask b) n) (booting seq colour out) Q := by
  have hclear : stepSbbo (booting seq colour out) (clearAddress b) (bankMask b) =
      some (booting seq colour out) := if_pos (.inr ⟨b, b.mem_pass, rfl, rfl⟩)
  induction n with
  | zero =>
    refine bind_pop rfl fun _ _ => ⟨_, hclear, bind_pop rfl fun r0 _ => ⟨_, rfl, ?_⟩⟩
    refine bind_alu rfl (bind_alu rfl ?_)
    rw [Monitor.wp_ite]
    exact ⟨fun _ => hQ _, fun _ => bind_alu rfl (bind_alu rfl (hQ _))⟩
  | succ n ih =>
    refine bind_pop rfl fun _ _ => ⟨_, hclear, bind_pop rfl fun r0 _ => ⟨_, rfl, ?_⟩⟩
    refine bind_alu rfl (bind_alu rfl ?_)
    rw [Monitor.wp_ite]
    exact ⟨fun _ => hQ _, fun _ => bind_alu rfl (bind_alu rfl ih)⟩

/-- `CHECK_BANK`: its failures have a cause. -/
theorem wp_checkBank (b : Bank) {Q : FState → Option Word → Prop}
    (hok : Q (booting seq colour out) none)
    (hbad : ∀ cause, cause ≠ errorNone → Q (booting seq colour out) (some cause)) :
    (firmware tm l).wp (checkBank (clearAddress b) (bankMask b)) (booting seq colour out) Q := by
  refine bind_movImm rfl (bind_movImm rfl (bind_alu rfl (bind_pop rfl fun r0 _ => ⟨_, rfl, ?_⟩)))
  refine bind_alu rfl (bind_alu rfl ?_)
  rw [Monitor.wp_ite]
  constructor
  · intro _
    refine bind_movImm rfl (bind_alu rfl ?_)
    exact hbad _ (by decide)
  · intro _
    refine bind_movImm rfl (bind_alu rfl ?_)
    rw [Monitor.wp_bind]
    refine bind_movImm rfl (bind_alu rfl ?_)
    rw [Monitor.wp_bind]
    refine wp_bootDrainRetry _ fun low => bind_alu rfl ?_
    cases low
    · exact hbad _ (by decide)
    · exact hok

theorem wp_bootSettle {Q : FState → Unit → Prop} (r5 : Word) (hQ : Q (booting seq colour out) ()) :
    (firmware tm l).wp (waitSettle r5) (booting seq colour out) Q := by
  have hloop (n : Nat) : Register (delayLoop n) := by
    induction n with
    | zero => exact Prog.emits_bind register_alu fun _ => register_alu
    | succ n ih =>
      exact Prog.emits_bind register_alu fun _ => Prog.emits_bind register_alu fun _ => ih
  rw [waitSettle, delay, Monitor.wp_bind]
  refine bind_pop rfl fun _ _ => ⟨_, rfl, ?_⟩
  rw [← bind_pure (delayLoop _)]
  exact bind_register (hloop _) rfl (wp_alu rfl hQ)

end Boot

/-- The settle count is half the settle time of the longest string, rounded
up. -/
theorem toNat_settleCount {m : Word} (hm : m = [l 0, l 1, l 2, l 3, l 4, l 5].foldl maximum 0)
    (hl : ∀ i, l i ≤ maxLength) :
    ((settleCount m).exec silent).2.toNat = (settleCycles l + 1) / 2 := by
  have hl (i : Fin 6) : (l i).toNat ≤ 300 := hl i
  have htoNat : m.toNat = max (max (maxOfBank l .gpio2).toNat (maxOfBank l .gpio1).toNat)
      (maxOfBank l .gpio0).toNat := by
    simp only [hm, List.foldl_cons, List.foldl_nil, maximum_toNat, maxOfBank]
    grind
  have hle : m.toNat ≤ 300 := by
    simp only [htoNat, maxOfBank, maximum_toNat]
    grind
  rw [exec_settleCount_toNat hle, htoNat, settleCycles]

/-- The settle wait is no longer than it has to be. -/
def Counted (l : Fin 6 → Word) (o : Next) : Prop :=
  ∀ x ∈ o, 2 * x.2.r5.toNat ≤ settleCycles l + 1

/-- `START` follows the automaton, and computes the settle count. -/
theorem wp_start (h : Control tm l (some (.start, r)) s) :
    (firmware tm l).wp (startBlock tm r) s fun s' o => Control tm l o s' ∧ Counted l o := by
  have hfatal {seq colour : Word} {out : DldCommand} {cause : Word} (h : cause ≠ errorNone) :
      (firmware tm l).wp (fatal cause) (booting seq colour out) fun s' o =>
        Control tm l o s' ∧ Counted l o :=
    wp_fatal rfl (stepStore_bootFailed h) fun _ h => ⟨h, by simp [Counted]⟩
  obtain ⟨phase, seq, colour, out⟩ := s
  obtain ⟨rfl : phase = .boot, rfl : seq = 0⟩ := h
  refine bind_pop rfl fun syscfg _ => ⟨_, rfl, bind_alu rfl ?_⟩
  refine bind_pop rfl fun _ _ => ⟨_, rfl, bind_movImm rfl (bind_movImm rfl ?_)⟩
  have hctbir : stepSbbo (booting 0 colour out) 0x00022020 0 = some (booting 0 colour out) := by
    rw [stepSbbo, if_pos (Or.inl ⟨rfl, rfl⟩)]
  refine bind_pop rfl fun _ _ => ⟨_, hctbir, ?_⟩
  -- the configuration
  refine bind_pop rfl fun magic _ => ⟨_, rfl, bind_movImm rfl (bind_alu rfl ?_)⟩
  refine Monitor.wp_ite.mpr ⟨fun _ => ?_, fun _ => ?_⟩
  · exact bind_movImm rfl (bind_alu rfl (hfatal (by decide)))
  refine bind_pop rfl fun abi _ => ⟨_, rfl, bind_alu rfl ?_⟩
  refine Monitor.wp_ite.mpr ⟨fun _ => ?_, fun _ => ?_⟩
  · exact bind_movImm rfl (bind_alu rfl (hfatal (by decide)))
  refine bind_pop rfl fun profile _ => ⟨_, rfl, bind_register (register_profileSupported _) rfl ?_⟩
  refine Monitor.wp_ite.mpr ⟨fun _ => ?_, fun _ => ?_⟩
  · exact bind_movImm rfl (bind_alu rfl (hfatal (by decide)))
  -- the timing
  refine bind_register (register_timingGuard _) rfl ?_
  refine Monitor.wp_ite.mpr ⟨fun _ => ?_, fun htiming => ?_⟩
  · exact bind_movImm rfl (bind_alu rfl (hfatal (by decide)))
  have hadmitted : tm.Admitted := (timingGuard_iff tm).mp (by simpa using htiming)
  refine bind_movImm rfl (bind_movImm rfl (bind_movImm rfl (bind_movImm rfl ?_)))
  refine bind_movImm rfl (bind_movImm rfl (bind_movImm rfl ?_))
  -- the lengths
  refine bind_lengths rfl rfl (bind_lengths rfl rfl (bind_lengths rfl rfl ?_))
  refine bind_lengths rfl rfl (bind_lengths rfl rfl (bind_lengths rfl rfl ?_))
  refine bind_movImm rfl (bind_movImm rfl (bind_register (register_checkLengths _ _ _) rfl ?_))
  cases hmax : ((checkLengths maxLength 0 [l 0, l 1, l 2, l 3, l 4, l 5]).exec silent).2 with
  | none => exact hfatal (by decide)
  | some m =>
  obtain ⟨hrange, hm⟩ := exec_checkLengths hmax
  have hl : ∀ i, l i ≤ maxLength := by
    intro i
    fin_cases i <;> exact hrange _ (by simp)
  refine bind_register (register_settleCount m) rfl ?_
  -- the pins
  refine Monitor.wp_bind.mpr (wp_checkBank .gpio2 ?_ fun _ hcause => hfatal hcause)
  refine Monitor.wp_bind.mpr (wp_checkBank .gpio1 ?_ fun _ hcause => hfatal hcause)
  refine Monitor.wp_bind.mpr (wp_checkBank .gpio0 ?_ fun _ hcause => hfatal hcause)
  refine bind_alu rfl (Monitor.wp_bind.mpr (wp_bootSettle _ ?_))
  -- the publication of READY
  refine bind_movImm rfl (bind_movImm rfl (bind_sbco rfl stepStore_booted ?_))
  refine bind_sbco rfl (due_self _ _ _ _) (bind_sbco rfl (due_self _ _ _ _) ?_)
  refine bind_sbco rfl (due_self _ _ _ _) (bind_sbco rfl (due_self _ _ _ _) ?_)
  refine bind_movImm rfl (bind_sbco rfl (due_self _ _ _ _) ?_)
  have hcount := toNat_settleCount hm hl
  refine ⟨⟨⟨hadmitted, rfl, rfl, rfl, rfl, rfl, rfl, rfl, hl, ?_⟩, rfl, rfl⟩, ?_⟩
  · show settleCycles l ≤ 2 * ((settleCount m).exec silent).2.toNat
    omega
  · intro x hx
    obtain rfl := Option.mem_some_iff.mp hx
    show 2 * ((settleCount m).exec silent).2.toNat ≤ settleCycles l + 1
    omega

theorem follows_start (h : Control tm l (some (.start, r)) s) : Follows tm l (startBlock tm r) s :=
  Monitor.wp_mono (wp_start h) fun _ _ h => h.1


end Blocks

/-- **The firmware follows its automaton**: every block keeps the label
invariant, for every timing, every configuration and every host. -/
theorem firmware_invariant (tm : Timing) (l : Fin 6 → Word) :
    Machine.Invariant (code tm) (firmware tm l) (Control tm l) := by
  rintro ⟨label, r⟩ s h
  cases label
  · exact follows_start h
  · exact follows_requestLoop h
  · exact follows_afterGpio2 h
  · exact follows_afterGpio1 h
  · exact follows_afterGpio0 h
  · exact follows_sendGroup h
  · exact follows_gateWait h
  · exact follows_sendPixel h
  · exact follows_timedEnd h

end Pru

end Dld
