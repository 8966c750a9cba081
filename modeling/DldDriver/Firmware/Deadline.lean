/-
DldDriver/Firmware/Deadline.lean

The deadlines of a run of the firmware from `START`, on the clock of
`Firmware/Clock`:

  * a bank that is granted at time g has stored `bank_done`, or reported its
    drain, before the budget of the bank is over (`bank_in_time`);
  * DONE follows the last `bank_done`, or the acceptance of a request
    without banks, in less than 20 ms (`done_in_time`);
  * DONE comes no earlier than the settle time after a readback
    (`done_not_early`).
-/
import DldDriver.Firmware.Clock
import DldDriver.Firmware.History

namespace Dld

open Interaction

namespace Pru

/-! ### The settle count on the way -/

section Count

variable {tm : Timing} {l : Fin 6 → Word} {α : Type}

/-- Wherever the program jumps to, the settle count is `r5`. -/
def Carries (r5 : Word) (p : PProg Next) : Prop := p.All fun _ o => ∀ x ∈ o, x.2.r5 = r5

variable {r5 : Word}

theorem carries_bind {p : PProg α} {f : α → PProg Next} (h : ∀ a, Carries r5 (f a)) :
    Carries r5 (p >>= f) := by
  unfold Carries
  rw [Prog.all_bind, Prog.all_iff]
  intro _ a _
  exact h a

theorem carries_pure {x : Label × Regs} (h : x.2.r5 = r5) : Carries r5 (pure (some x)) := by
  intro y hy
  rw [← Option.mem_some_iff.mp hy]
  exact h

theorem carries_ite {c : Prop} [Decidable c] {p q : PProg Next} (hp : Carries r5 p)
    (hq : Carries r5 q) : Carries r5 (if c then p else q) := by
  split
  · exact hp
  · exact hq

theorem carries_fatal (cause : Word) : Carries r5 (fatal cause) := by
  repeat
    apply carries_bind
    intro _
  intro y hy
  cases hy

theorem carries_code (r : Regs) {label : Label} (h : label ≠ .start) :
    Carries r.r5 (code tm (label, r)) := by
  cases label with
  | start => exact absurd rfl h
  | requestLoop =>
    apply carries_bind
    intro _
    apply carries_bind
    intro _
    apply carries_ite (carries_pure rfl)
    iterate 3
      apply carries_bind
      intro _
    apply carries_ite
    · apply carries_bind
      intro _
      apply carries_bind
      intro _
      exact carries_fatal _
    iterate 6
      apply carries_bind
      intro _
    apply carries_ite
    · apply carries_bind
      intro _
      apply carries_bind
      intro _
      exact carries_fatal _
    iterate 12
      apply carries_bind
      intro _
    exact carries_pure rfl
  | afterGpio2 | afterGpio1 =>
    iterate 10
      apply carries_bind
      intro _
    exact carries_pure rfl
  | afterGpio0 =>
    iterate 8
      apply carries_bind
      intro _
    exact carries_pure rfl
  | sendGroup =>
    iterate 5
      apply carries_bind
      intro _
    apply carries_ite
    · apply carries_bind
      intro _
      exact carries_pure rfl
    iterate 3
      apply carries_bind
      intro _
    exact carries_pure rfl
  | gateWait =>
    apply carries_bind
    intro _
    apply carries_bind
    intro _
    apply carries_ite
    · apply carries_bind
      intro _
      apply carries_ite (carries_pure rfl)
      apply carries_bind
      intro _
      apply carries_bind
      intro _
      exact carries_fatal _
    iterate 5
      apply carries_bind
      intro _
    exact carries_pure rfl
  | sendPixel =>
    iterate 6
      apply carries_bind
      intro _
    apply carries_ite (carries_pure rfl)
    apply carries_bind
    intro _
    exact carries_pure rfl
  | timedEnd =>
    iterate 3
      apply carries_bind
      intro _
    apply carries_ite (carries_fatal _)
    apply carries_bind
    intro _
    apply carries_bind
    intro _
    exact carries_pure rfl

/-- The label invariant, with the settle count. -/
def Reckoned (tm : Timing) (l : Fin 6 → Word) (o : Next) (s : FState) : Prop :=
  Control tm l o s ∧ ∀ x ∈ o, x.1 ≠ .start → 2 * x.2.r5.toNat ≤ settleCycles l + 1

theorem reckoned_invariant (tm : Timing) (l : Fin 6 → Word) :
    Machine.Invariant (code tm) (firmware tm l) (Reckoned tm l) := by
  rintro ⟨label, r⟩ s ⟨hcontrol, hcount⟩
  by_cases hstart : label = .start
  · subst hstart
    exact Monitor.wp_mono (wp_start hcontrol) fun _ _ h => ⟨h.1, fun x hx _ => h.2 x hx⟩
  · have hcount : 2 * r.r5.toNat ≤ settleCycles l + 1 := hcount _ rfl hstart
    refine Monitor.wp_mono (Monitor.wp_all (firmware_invariant tm l (label, r) s hcontrol)
      (carries_code r hstart)) ?_
    rintro s' o ⟨hcontrol', t, -, hcarried⟩
    refine ⟨hcontrol', fun x hx _ => ?_⟩
    rw [hcarried x hx]
    exact hcount

end Count

/-! ### Runs from `START` -/

/-- The state of the automaton at `START`. -/
def started : FState := ⟨.boot, 0, 0, fun _ => 0⟩

section Run

variable {tm : Timing} {l : Fin 6 → Word} {r₀ : Regs} {now stop : Nat} {y : Label × Regs}
variable {q : PProg Next} {t t' : List PruInstr} {i : PruInstr}

/-- A timed run of the firmware from `START`, in which it reads the
configuration `l`. -/
structure FromStart (tm : Timing) (l : Fin 6 → Word) (r₀ : Regs) (now : Nat) (t : List PruInstr)
    (y : Label × Regs) (q : PProg Next) (stop : Nat) : Prop where
  run : TimedRun tm (.start, r₀) (code tm (.start, r₀)) now t y q stop
  config : ∀ i ∈ t, ConfigReads l i.event

theorem envAlong_of_config {s : FState} (h : ∀ i ∈ t, ConfigReads l i.event) :
    (firmware tm l).EnvAlong s (t.map (·.event)) := by
  induction t generalizing s with
  | nil => trivial
  | cons i t ih => exact ⟨h i (.head _), ih fun j hj => h j (.tail _ hj)⟩

theorem FromStart.inBlock (r₀ : Regs) :
    Machine.InBlock (code tm) (firmware tm l) (Reckoned tm l) (.start, r₀) (code tm (.start, r₀))
      started :=
  .entry (reckoned_invariant tm l) ⟨⟨rfl, rfl⟩, fun x hx hne => by
    obtain rfl := Option.mem_some_iff.mp hx
    exact absurd rfl hne⟩

/-- Every event is one of the automaton, and the record is kept. -/
theorem FromStart.safe (h : FromStart tm l r₀ now t y q stop) :
    (firmware tm l).SafeAlong started (t.map (·.event)) :=
  ((reckoned_invariant tm l).steps (FromStart.inBlock r₀).good h.run.steps
    (envAlong_of_config h.config)).1

/-- The automaton at an event of the run. -/
theorem FromStart.at (h : FromStart tm l r₀ now (t ++ i :: t') y q stop) :
    ∃ s cur, s = (firmware tm l).run started (t.map (·.event)) ∧ Recorded tm l s cur ∧
      FStep tm l s i.event ((firmware tm l).next s i.event) ∧
      (firmware tm l).SafeAlong ((firmware tm l).next s i.event) (t'.map (·.event)) := by
  have hsafe := h.safe
  rw [List.map_append, List.map_cons, Monitor.safeAlong_append] at hsafe
  obtain ⟨hpre, hi, hpost⟩ := hsafe
  obtain ⟨hstate, -, hrec⟩ := recorded_run (h := ⟨started, [], []⟩) rfl hpre
  rw [hstate] at hrec
  exact ⟨_, _, rfl, hrec, FStep.of_safe hi, hpost⟩

end Run

/-! ### Not too early -/

/-- The cycles of the settle wait that lie behind a phase. -/
def Phase.rested (l : Fin 6 → Word) : Phase → Nat
  | .settle n => n
  | .clearError | .finish => settleCycles l
  | _ => 0

section Early

variable {tm : Timing} {l : Fin 6 → Word} {s s' : FState} {e : PruEvent} {x : Label × Regs}

theorem rested_streaming (b : Bank) (bs : List Bank) (left : List PruEvent) :
    (streaming b bs left).rested l = 0 := by
  unfold streaming
  split <;> rfl

/-- An instruction rests no longer than it lasts. -/
theorem FStep.rested {d : Nat} (h : FStep tm l s e s') (hd : Lasts x e.1 d) :
    s'.phase.rested l * cycle ≤ s.phase.rested l * cycle + d := by
  cases h with
  | @settleStart _ _ _ count =>
    have hd : d = cycle := hd
    show 1 * cycle ≤ 0 * cycle + d
    omega
  | @settle _ _ _ n =>
    have hd : d = cycle := hd
    show (n + 1) * cycle ≤ n * cycle + d
    rw [hd, Nat.succ_mul]
  | @settled _ _ _ n hn =>
    show settleCycles l * cycle ≤ n * cycle + d
    exact (Nat.mul_le_mul_right cycle hn).trans (Nat.le_add_right _ d)
  | publish =>
    show (if _ then Phase.poll else _).rested l * cycle ≤ _
    split <;> exact Nat.zero_le _
  | stream =>
    show (streaming _ _ _).rested l * cycle ≤ _
    rw [rested_streaming, Nat.zero_mul]
    exact Nat.zero_le _
  | _ => first | exact Nat.le_add_right _ d | exact Nat.zero_le _

/-- What has been rested since the clock read `base` has been waited. -/
theorem rested_run {base now : Nat} {t : List PruInstr} (h : base + s.phase.rested l * cycle ≤ now)
    (hsafe : (firmware tm l).SafeAlong s (t.map (·.event))) (hpaced : Machine.Paced Lasts now t)
    {pre post : List PruInstr} {j : PruInstr} (ht : t = pre ++ j :: post) :
    base + ((firmware tm l).run s (pre.map (·.event))).phase.rested l * cycle ≤ j.start := by
  induction pre generalizing s now t with
  | nil =>
    subst ht
    cases hpaced
    exact h
  | cons i pre ih =>
    subst ht
    cases hpaced with
    | @cons x e _ d _ hd hrest =>
      obtain ⟨hi, hsafe⟩ := hsafe
      have hstep := (FStep.of_safe hi).rested hd
      exact ih (by omega) hsafe hrest rfl

/-- A stream does not store to the mailbox. -/
theorem sbco_ne_stream {b : Bank} {bs : List Bank} {left cur : List PruEvent} {seq colour : Word}
    {out : DldCommand} (hrec : Recorded tm l ⟨.stream b bs (e :: left), seq, colour, out⟩ cur)
    (off : Off) (v : Word) : e ≠ ⟨.sbco off v, ()⟩ := by
  rintro rfl
  obtain ⟨-, -, -, -, -, -, -, done, -, -, hstream⟩ := hrec
  have hmem : ⟨.sbco off v, ()⟩ ∈ done ++ ⟨.sbco off v, ()⟩ :: left :=
    List.mem_append_right done (.head _)
  rw [hstream] at hmem
  rcases List.mem_cons.mp hmem with heq | hmem
  · cases heq
  · obtain ⟨p, hp⟩ := mem_bankStream hmem
    rcases mem_pixelEvents hp with heq | ⟨_, heq⟩ | ⟨_, _, heq⟩ | heq | heq <;> cases heq

/-- DONE is stored where the settle wait is over. -/
theorem phase_of_done {cur : List PruEvent} (hrec : Recorded tm l s cur)
    (h : FStep tm l s ⟨.sbco .status statusDone, ()⟩ s') : s.phase.rested l = settleCycles l := by
  generalize he : (⟨.sbco .status statusDone, ()⟩ : PruEvent) = e at h
  cases h with
  | finish => rfl
  | publish =>
    obtain ⟨-, hsuffix⟩ := hrec
    cases he
    exact absurd (hsuffix.subset (.head _)) (by decide)
  | boot hboot =>
    subst he
    cases hboot
  | stream => exact absurd he.symm (sbco_ne_stream hrec _ _)
  | _ => cases he

/-- **Not too early**: between a readback and DONE lies the settle time. -/
theorem done_not_early {r₀ : Regs} {now stop : Nat} {y : Label × Regs} {q : PProg Next}
    {pre mid post : List PruInstr} {i j : PruInstr} {address v : Word}
    (h : FromStart tm l r₀ now (pre ++ i :: (mid ++ j :: post)) y q stop)
    (hi : i.event = ⟨.lbbo address, v⟩) (hj : j.event = ⟨.sbco .status statusDone, ()⟩) :
    i.stop + settleCycles l * cycle ≤ j.start := by
  obtain ⟨s, -, hs, -, hread, hsafe⟩ := h.at
  -- the readback is no part of a settle wait
  have hrested : ((firmware tm l).next s i.event).phase.rested l = 0 := by
    rw [hi] at hread ⊢
    generalize he : (⟨.lbbo address, v⟩ : PruEvent) = e at hread
    generalize (firmware tm l).next s e = s' at hread
    cases hread with
    | stream => exact rested_streaming _ _ _
    | boot | drainRead => rfl
    | _ => cases he
  have hwait := rested_run (by rw [hrested, Nat.zero_mul, Nat.add_zero]) hsafe
    (h.run.paced.after).2.2 rfl
  -- and at DONE the settle wait is over
  rw [← List.cons_append, ← List.append_assoc] at h
  obtain ⟨s', cur, hs', hrec, hdone, -⟩ := h.at
  rw [hj] at hdone
  have hrun : (firmware tm l).run ((firmware tm l).next s i.event) (mid.map (·.event)) = s' := by
    rw [hs', hs, List.map_append, Monitor.run_append]
    rfl
  rwa [hrun, phase_of_done hrec hdone] at hwait

end Early

/-! ### Not too late -/

/-- More than any block takes, its settle wait apart. -/
def blockTime : Nat := 40 * access

/-- The cycles of `WAIT_SETTLE`. -/
def settleTime (r5 : Word) : Nat := cycle * (2 * r5.toNat + 2)

/-- The groups after bank `b`. -/
def groupsLeft : Bank → Nat
  | .gpio2 => 2
  | .gpio1 => 1
  | .gpio0 => 0

/-- No bank is left from here, and there is time before `D`. -/
def DoneDue (l : Fin 6 → Word) (D : Nat) : Label × Regs → Nat → Prop
  | (.sendGroup, r), now => ∃ b r', r = Regs.atBank r' b l ∧ fromBank l b = [] ∧ r.r5 ≠ 0 ∧
    now + (2 * groupsLeft b + 2) * blockTime + settleTime r.r5 ≤ D
  | (.afterGpio2, r), now => laterNonEmpty l .gpio2 = [] ∧ r.r5 ≠ 0 ∧
    now + 5 * blockTime + settleTime r.r5 ≤ D
  | (.afterGpio1, r), now => laterNonEmpty l .gpio1 = [] ∧ r.r5 ≠ 0 ∧
    now + 3 * blockTime + settleTime r.r5 ≤ D
  | (.afterGpio0, r), now => r.r5 ≠ 0 ∧ now + blockTime + settleTime r.r5 ≤ D
  | _, _ => False

/-- The store of DONE. -/
def DoneStore (e : PruEvent) : Prop := e = ⟨.sbco .status statusDone, ()⟩

/-- The configuration, and a colour of 24 bits. -/
def FrameReads (l : Fin 6 → Word) (_start _stop : Nat) (e : PruEvent) : Prop :=
  ConfigReads l e ∧ ∀ v : Word, e = ⟨.lbco .wireColor, v⟩ → v >>> 24 = 0

section Late

variable {l : Fin 6 → Word} {D n now : Nat} {x : Label × Regs} {r : Regs} {b : Bank} {α : Type}
variable {Q : α → Nat → Prop}

theorem due_lengths {i : Fin 6} {f : Word → PProg α} (hle : n ≤ D)
    (hf : Due x (FrameReads l) DoneStore D (f (l i)) (n + access) Q) :
    Due x (FrameReads l) DoneStore D (lbco (.lengths i) >>= f) n Q := by
  apply Machine.soon_read (fun _ => lasts_access) hle
  intro v _ _ henv
  obtain rfl : v = l i := henv.1
  exact hf

theorem due_waitSettle {r5 : Word} {f : Unit → PProg α} (h : r5 ≠ 0)
    (hle : n + settleTime r5 ≤ D)
    (hf : Due x (FrameReads l) DoneStore D (f ()) (n + settleTime r5) Q) :
    Due x (FrameReads l) DoneStore D (waitSettle r5 >>= f) n Q := by
  have hruns := Prog.exec_runs silent (waitSettle r5)
  rw [exec_waitSettle h] at hruns
  have hlength : (delayEv r5 :: idle (2 * r5.toNat) ++ [aluEv]).length = 2 * r5.toNat + 2 := by
    simp [idle]
  have hregister : ∀ e ∈ delayEv r5 :: idle (2 * r5.toNat) ++ [aluEv], e = delayEv r5 ∨ e = aluEv := by
    simp [idle]
    tauto
  have hwait : Due x (FrameReads l) DoneStore D (waitSettle r5) n fun _ t =>
      True ∧ t ≤ n + settleTime r5 := by
    intro now hnow
    have htime : settleTime r5 = cycle * (2 * r5.toNat + 2) := rfl
    refine Machine.meets_of_runs (w := cycle) hruns ?_ ?_ ?_ ?_
    · intro e he
      rcases hregister e he with rfl | rfl <;> exact inferInstanceAs (Subsingleton Unit)
    · intro e he d hd
      rcases hregister e he with rfl | rfl <;> exact le_of_eq hd
    · rw [hlength]
      omega
    · intro t ht
      rw [hlength] at ht
      exact ⟨trivial, by omega⟩
  exact hwait.bind fun _ _ => hf

theorem fromBank_eq_nil (h : fromBank l b = []) : maxOfBank l b = 0 ∧ laterNonEmpty l b = [] := by
  unfold fromBank at h
  split at h
  · cases h
  · exact ⟨not_not.mp ‹_›, h⟩

theorem due_includePin {r9 endpoint pinMask : Word} {f : Word → PProg α} (hle : n + 2 * cycle ≤ D)
    (hf : Due x (FrameReads l) DoneStore D
      (f (r9 ||| if 0 < endpoint.toNat then pinMask else 0)) (n + 2 * cycle) Q) :
    Due x (FrameReads l) DoneStore D (includePin r9 endpoint pinMask >>= f) n Q := by
  have hpin : Due x (FrameReads l) DoneStore D (includePin r9 endpoint pinMask) n fun a t =>
      a = (r9 ||| if 0 < endpoint.toNat then pinMask else 0) ∧ t ≤ n + 2 * cycle := by
    apply due_alu (by omega)
    apply Machine.soon_ite
    · intro he
      refine Machine.soon_pure (by omega) fun t ht => ⟨?_, by omega⟩
      simp [he]
    · intro he
      apply due_alu (by omega)
      refine Machine.soon_pure (by omega) fun t ht => ⟨?_, by omega⟩
      rw [if_pos (by bv_omega)]
  apply hpin.bind
  rintro _ rfl
  exact hf

theorem due_setup {label : Label} {r' : Regs} (hV : ∀ t ≤ n, DoneDue l D (label, r') t) (hle : n ≤ D) :
    Due x (FrameReads l) DoneStore D (pure (some (label, r'))) n (Machine.Arrives (DoneDue l D)) := by
  refine Machine.soon_pure hle fun t ht => ?_
  exact ⟨_, rfl, hV t ht⟩

theorem due_sendGroup (hnone : fromBank l b = []) (h5 : r.r5 ≠ 0)
    (hle : n + (2 * groupsLeft b + 2) * blockTime + settleTime r.r5 ≤ D) :
    Due (.sendGroup, r.atBank b l) (FrameReads l) DoneStore D (sendGroupBlock (r.atBank b l)) n
      (Machine.Arrives (DoneDue l D)) := by
  obtain ⟨hmax, hlater⟩ := fromBank_eq_nil hnone
  have hmask : activeMask b l 0 = 0 := by
    rw [activeMask_eq_zero_iff, hmax]
    exact le_rfl
  have hblock : blockTime = 40 * access := rfl
  have haccess : access = 1000 * cycle := rfl
  have hone : blockTime ≤ (2 * groupsLeft b + 2) * blockTime :=
    Nat.le_mul_of_pos_left blockTime (Nat.succ_pos _)
  apply due_movImm (by omega)
  apply due_includePin (by omega)
  apply due_includePin (by omega)
  apply due_includePin (by omega)
  apply due_alu (by omega)
  rw [includePins_eq r b l, if_pos hmask]
  apply due_alu (by omega)
  rw [atBank_r28]
  refine due_setup (fun t ht => ?_) (by omega)
  cases b with
  | gpio2 =>
    refine ⟨hlater, h5, ?_⟩
    show t + 5 * blockTime + settleTime r.r5 ≤ D
    have hle : n + (2 * 2 + 2) * blockTime + settleTime r.r5 ≤ D := hle
    omega
  | gpio1 =>
    refine ⟨hlater, h5, ?_⟩
    show t + 3 * blockTime + settleTime r.r5 ≤ D
    have hle : n + (2 * 1 + 2) * blockTime + settleTime r.r5 ≤ D := hle
    omega
  | gpio0 =>
    refine ⟨h5, ?_⟩
    show t + blockTime + settleTime r.r5 ≤ D
    have hle : n + (2 * 0 + 2) * blockTime + settleTime r.r5 ≤ D := hle
    omega

theorem due_afterGpio2 (hnone : laterNonEmpty l .gpio2 = []) (h5 : r.r5 ≠ 0)
    (hle : n + 5 * blockTime + settleTime r.r5 ≤ D) :
    Due (.afterGpio2, r) (FrameReads l) DoneStore D (afterGpio2Block r) n
      (Machine.Arrives (DoneDue l D)) := by
  have hblock : blockTime = 40 * access := rfl
  have haccess : access = 1000 * cycle := rfl
  apply due_movImm (by omega)
  apply due_movImm (by omega)
  apply due_lengths (by omega)
  apply due_lengths (by omega)
  apply due_movImm (by omega)
  apply due_movImm (by omega)
  apply due_movImm (by omega)
  apply due_movImm (by omega)
  apply due_movImm (by omega)
  apply due_alu (by omega)
  refine due_setup (fun t ht => ⟨.gpio1, r, rfl, ?_, h5, ?_⟩) (by omega)
  · rw [← laterNonEmpty_gpio2]
    exact hnone
  · show t + (2 * 1 + 2) * blockTime + settleTime r.r5 ≤ D
    omega

theorem due_afterGpio1 (hnone : laterNonEmpty l .gpio1 = []) (h5 : r.r5 ≠ 0)
    (hle : n + 3 * blockTime + settleTime r.r5 ≤ D) :
    Due (.afterGpio1, r) (FrameReads l) DoneStore D (afterGpio1Block r) n
      (Machine.Arrives (DoneDue l D)) := by
  have hblock : blockTime = 40 * access := rfl
  have haccess : access = 1000 * cycle := rfl
  apply due_movImm (by omega)
  apply due_movImm (by omega)
  apply due_lengths (by omega)
  apply due_movImm (by omega)
  apply due_movImm (by omega)
  apply due_movImm (by omega)
  apply due_movImm (by omega)
  apply due_movImm (by omega)
  apply due_movImm (by omega)
  apply due_alu (by omega)
  refine due_setup (fun t ht => ⟨.gpio0, r, rfl, ?_, h5, ?_⟩) (by omega)
  · rw [← laterNonEmpty_gpio1]
    exact hnone
  · show t + (2 * 0 + 2) * blockTime + settleTime r.r5 ≤ D
    omega

theorem due_afterGpio0 {P : Next → Nat → Prop} (h5 : r.r5 ≠ 0)
    (hle : n + blockTime + settleTime r.r5 ≤ D) :
    Due (.afterGpio0, r) (FrameReads l) DoneStore D (afterGpio0Block r) n P := by
  have hblock : blockTime = 40 * access := rfl
  have haccess : access = 1000 * cycle := rfl
  apply due_alu (by omega)
  apply due_waitSettle h5 (by omega)
  apply due_access (by omega)
  intro _
  apply due_movImm (by omega)
  apply due_access (by omega)
  intro _
  apply due_movImm (by omega)
  exact due_target (by omega) fun _ => rfl

/-- **No later than**: where no bank is left, DONE is stored by the
deadline. -/
theorem done_meets (tm : Timing) (x : Label × Regs) (now : Nat) (hx : DoneDue l D x now) :
    Machine.Meets (Lasts x) (FrameReads l) DoneStore D (code tm x) now
      (Machine.Arrives (DoneDue l D)) := by
  obtain ⟨label, r⟩ := x
  cases label with
  | sendGroup =>
    obtain ⟨b, r, rfl, hnone, h5, hle⟩ := hx
    have h5' : (r.atBank b l).r5 = r.r5 := by cases b <;> rfl
    rw [h5'] at h5 hle
    exact due_sendGroup hnone h5 hle now le_rfl
  | afterGpio2 => exact due_afterGpio2 hx.1 hx.2.1 hx.2.2 now le_rfl
  | afterGpio1 => exact due_afterGpio1 hx.1 hx.2.1 hx.2.2 now le_rfl
  | afterGpio0 => exact due_afterGpio0 hx.1 hx.2 now le_rfl
  | _ => exact hx.elim

/-! #### The two events before the settle wait -/

/-- What `q` leaves of the block of `x` leads to DONE. -/
def LeadsToDone (l : Fin 6 → Word) (x : Label × Regs) (q : PProg Next) : Prop :=
  ∀ n D, n + 7 * blockTime + settleTime x.2.r5 ≤ D →
    Due x (FrameReads l) DoneStore D q n (Machine.Arrives (DoneDue l D))

theorem due_returned (hlater : laterNonEmpty l b = []) (h5 : r.r5 ≠ 0)
    (hle : n + 6 * blockTime + settleTime r.r5 ≤ D) :
    Due x (FrameReads l) DoneStore D (pure (some (returnLabel b, r))) n
      (Machine.Arrives (DoneDue l D)) := by
  refine due_setup (fun t ht => ?_) (by omega)
  cases b with
  | gpio2 => exact ⟨hlater, h5, by omega⟩
  | gpio1 => exact ⟨hlater, h5, by omega⟩
  | gpio0 => exact ⟨h5, by omega⟩

theorem register_includePin (r9 endpoint pinMask : Word) :
    Register (includePin r9 endpoint pinMask) :=
  Prog.emits_bind register_alu fun _ => Prog.emits_ite (fun _ => Prog.emits_pure _) fun _ =>
    Prog.emits_bind register_alu fun _ => Prog.emits_pure _

/-- A register program has no access among its events. -/
theorem Register.spares {p : PProg α} {K : PruEvent → Prop} (h : Register p) (hK : ¬ K aluEv) :
    p.Emits fun e => ¬ K e :=
  h.mono fun e he => by
    rw [he]
    exact hK

/-- The store of `bank_done` for bank `b` in `TIMED_END`. -/
def DrainedAt (b : Bank) (e : PruEvent) : Prop := e = ⟨.sbco .bankDone b.ordinal, ()⟩

theorem emits_drainRetry (r7 r8 : Word) (k : Nat) :
    (drainRetry r7 r8 k).Emits fun e => ¬ DrainedAt b e := by
  induction k with
  | zero =>
    refine Prog.emits_op_bind.mpr fun _ => ⟨by simp [DrainedAt], ?_⟩
    refine Prog.emits_op_bind.mpr fun _ => ⟨by simp [DrainedAt], ?_⟩
    refine Prog.emits_op_bind.mpr fun _ => ⟨by simp [DrainedAt], ?_⟩
    refine Prog.emits_op_bind.mpr fun _ => ⟨by simp [DrainedAt], ?_⟩
    refine Prog.emits_ite (fun _ => Prog.emits_pure _) fun _ => ?_
    refine Prog.emits_op_bind.mpr fun _ => ⟨by simp [DrainedAt], ?_⟩
    exact Prog.emits_op_bind.mpr fun _ => ⟨by simp [DrainedAt], Prog.emits_pure _⟩
  | succ k ih =>
    refine Prog.emits_op_bind.mpr fun _ => ⟨by simp [DrainedAt], ?_⟩
    refine Prog.emits_op_bind.mpr fun _ => ⟨by simp [DrainedAt], ?_⟩
    refine Prog.emits_op_bind.mpr fun _ => ⟨by simp [DrainedAt], ?_⟩
    refine Prog.emits_op_bind.mpr fun _ => ⟨by simp [DrainedAt], ?_⟩
    refine Prog.emits_ite (fun _ => Prog.emits_pure _) fun _ => ?_
    refine Prog.emits_op_bind.mpr fun _ => ⟨by simp [DrainedAt], ?_⟩
    exact Prog.emits_op_bind.mpr fun _ => ⟨by simp [DrainedAt], ih⟩

theorem leaves_timedEnd {b' : Bank} {p : Nat} (hlater : laterNonEmpty l b = []) (h5 : r.r5 ≠ 0) :
    (timedEndBlock (r.atPixel b' l p)).Leaves (DrainedAt b)
      (LeadsToDone l (.timedEnd, r.atPixel b' l p)) := by
  have h26 : (r.atPixel b' l p).r26 = b'.ordinal := atBank_r26 r b' l
  have h28 : (r.atPixel b' l p).r28 = returnLabel b' := atBank_r28 r b' l
  have h5' : (r.atPixel b' l p).r5 ≠ 0 := by cases b' <;> exact h5
  apply Prog.leaves_bind' ((register_movImm _).spares (by simp [DrainedAt, aluEv]))
  intro _
  apply Prog.leaves_bind' (register_alu.spares (by simp [DrainedAt, aluEv]))
  intro _
  apply Prog.leaves_bind'
  · refine Prog.emits_bind ((register_movImm _).spares (by simp [DrainedAt, aluEv])) fun _ => ?_
    refine Prog.emits_bind (register_alu.spares (by simp [DrainedAt, aluEv])) fun _ => ?_
    refine Prog.emits_bind (emits_drainRetry _ _ _) fun _ => ?_
    exact Prog.emits_bind (register_alu.spares (by simp [DrainedAt, aluEv])) fun _ =>
      Prog.emits_pure _
  intro low
  apply Prog.leaves_ite
  · intro _
    apply Prog.leaves_of_emits
    refine Prog.emits_op_bind.mpr fun _ => ⟨by simp [DrainedAt], ?_⟩
    refine Prog.emits_bind ((register_movImm _).spares (by simp [DrainedAt, aluEv])) fun _ => ?_
    refine Prog.emits_op_bind.mpr fun _ => ⟨by simp [DrainedAt], ?_⟩
    exact Prog.emits_op_bind.mpr fun _ => ⟨by simp [DrainedAt], Prog.emits_pure _⟩
  · intro _
    apply Prog.leaves_op_bind
    intro _
    refine ⟨fun hdrained n D hle => ?_, Prog.leaves_of_emits ?_⟩
    · have hordinal : b'.ordinal = b.ordinal := by
        rw [← h26]
        simpa [DrainedAt] using hdrained
      obtain rfl : b' = b := Bank.ordinal_injective hordinal
      have hle : n + 7 * blockTime + settleTime (r.atPixel b' l p).r5 ≤ D := hle
      have hblock : blockTime = 40 * access := rfl
      have haccess : access = 1000 * cycle := rfl
      apply due_alu (by omega)
      rw [h28]
      exact due_returned hlater h5' (by omega)
    · exact Prog.emits_bind (register_alu.spares (by simp [DrainedAt, aluEv])) fun _ =>
        Prog.emits_pure _

/-- The store of `accepted_seq`. -/
def Accepts (e : PruEvent) : Prop := ∃ v : Word, e = ⟨.sbco .acceptedSeq v, ()⟩

theorem leaves_requestLoop (hnone : nonEmpty l = []) (h5 : r.r5 ≠ 0) :
    (requestLoopBlock r).Leaves Accepts (LeadsToDone l (.requestLoop, r)) := by
  have hspares : ¬ Accepts aluEv := by simp [Accepts, aluEv]
  have hfatal (cause : Word) :
      (do
        movImm cause
        alu
        fatal cause).Emits fun e => ¬ Accepts e := by
    refine Prog.emits_bind ((register_movImm _).spares hspares) fun _ => ?_
    refine Prog.emits_bind (register_alu.spares hspares) fun _ => ?_
    refine Prog.emits_op_bind.mpr fun _ => ⟨by simp [Accepts], ?_⟩
    refine Prog.emits_bind ((register_movImm _).spares hspares) fun _ => ?_
    refine Prog.emits_op_bind.mpr fun _ => ⟨by simp [Accepts], ?_⟩
    exact Prog.emits_op_bind.mpr fun _ => ⟨by simp [Accepts], Prog.emits_pure _⟩
  apply Prog.leaves_op_bind
  intro seq
  refine ⟨fun h => by simp [Accepts] at h, ?_⟩
  apply Prog.leaves_bind' (register_alu.spares hspares)
  intro _
  apply Prog.leaves_ite
  · exact fun _ => trivial
  intro _
  apply Prog.leaves_bind' (register_alu.spares hspares)
  intro _
  apply Prog.leaves_op_bind
  intro grant
  refine ⟨fun h => by simp [Accepts] at h, ?_⟩
  apply Prog.leaves_bind' (register_alu.spares hspares)
  intro _
  apply Prog.leaves_ite
  · exact fun _ => Prog.leaves_of_emits (hfatal _)
  intro _
  apply Prog.leaves_op_bind
  intro _
  refine ⟨fun h => by simp [Accepts] at h, ?_⟩
  apply Prog.leaves_op_bind
  intro _
  refine ⟨fun h => by simp [Accepts] at h, ?_⟩
  apply Prog.leaves_op_bind
  intro _
  constructor
  · -- the rest of the block: the colour, RUNNING and the setup of GPIO2
    intro _ n D hle
    have hle : n + 7 * blockTime + settleTime r.r5 ≤ D := hle
    have hblock : blockTime = 40 * access := rfl
    have haccess : access = 1000 * cycle := rfl
    apply Machine.soon_read (fun _ => lasts_access) (by omega)
    intro colour _ _ henv
    have hcolour : colour >>> 24 = 0 := henv.2 colour rfl
    apply due_alu (by omega)
    apply due_alu (by omega)
    rw [if_neg (not_not.mpr hcolour)]
    apply due_movImm (by omega)
    apply due_access (by omega)
    intro _
    apply due_movImm (by omega)
    apply due_movImm (by omega)
    apply due_lengths (by omega)
    apply due_lengths (by omega)
    apply due_lengths (by omega)
    apply due_movImm (by omega)
    apply due_movImm (by omega)
    apply due_movImm (by omega)
    apply due_movImm (by omega)
    apply due_alu (by omega)
    refine due_setup (fun t ht => ⟨.gpio2, { r with r3 := seq, r4 := colour }, rfl, ?_, h5, ?_⟩)
      (by omega)
    · rw [← nonEmpty_eq]
      exact hnone
    · show t + (2 * 2 + 2) * blockTime + settleTime r.r5 ≤ D
      omega
  · apply Prog.leaves_of_emits
    refine Prog.emits_op_bind.mpr fun colour => ⟨by simp [Accepts], ?_⟩
    refine Prog.emits_bind (register_alu.spares hspares) fun _ => ?_
    refine Prog.emits_bind (register_alu.spares hspares) fun _ => ?_
    refine Prog.emits_ite (fun _ => hfatal _) fun _ => ?_
    refine Prog.emits_bind ((register_movImm _).spares hspares) fun _ => ?_
    refine Prog.emits_op_bind.mpr fun _ => ⟨by simp [Accepts], ?_⟩
    refine Prog.emits_bind ((register_movImm _).spares hspares) fun _ => ?_
    refine Prog.emits_bind ((register_movImm _).spares hspares) fun _ => ?_
    refine Prog.emits_op_bind.mpr fun _ => ⟨by simp [Accepts], ?_⟩
    refine Prog.emits_op_bind.mpr fun _ => ⟨by simp [Accepts], ?_⟩
    refine Prog.emits_op_bind.mpr fun _ => ⟨by simp [Accepts], ?_⟩
    refine Prog.emits_bind ((register_movImm _).spares hspares) fun _ => ?_
    refine Prog.emits_bind ((register_movImm _).spares hspares) fun _ => ?_
    refine Prog.emits_bind ((register_movImm _).spares hspares) fun _ => ?_
    refine Prog.emits_bind ((register_movImm _).spares hspares) fun _ => ?_
    exact Prog.emits_bind (register_alu.spares hspares) fun _ => Prog.emits_pure _

/-! #### Along a run -/

/-- 20 ms. -/
def finalTime : Nat := 20000000

/-- The last `bank_done` of a frame, or the acceptance of one that has no
bank. -/
def LastDone (l : Fin 6 → Word) (i : PruInstr) : Prop :=
  (i.label.1 = .timedEnd ∧ ∃ b, DrainedAt b i.event ∧ ∀ b' ∈ nonEmpty l, b'.ordinal ≤ b.ordinal) ∨
    (i.label.1 = .requestLoop ∧ Accepts i.event ∧ nonEmpty l = [])

theorem laterNonEmpty_eq_nil (h : ∀ b' ∈ nonEmpty l, b'.ordinal ≤ b.ordinal) :
    laterNonEmpty l b = [] := by
  refine List.filter_eq_nil_iff.mpr fun b' hb' hmax => ?_
  have hle := h b' (List.mem_filter.mpr ⟨b'.mem_pass, hmax⟩)
  cases b <;> cases b' <;> first | exact absurd hb' (by decide) | exact absurd hle (by decide)

theorem Ready.r5_ne_zero {tm : Timing} (h : Ready tm l r) : r.r5 ≠ 0 := by
  intro h5
  have hsettle := h.settle
  rw [h5] at hsettle
  exact absurd hsettle (by simp [settleCycles, resetCycles])

/-- With the settle count of the configuration, DONE is well within 20 ms. -/
theorem lastDone_room {r5 : Word} (hcount : 2 * r5.toNat ≤ settleCycles l + 1)
    (hl : ∀ i, l i ≤ maxLength) : access + 7 * blockTime + settleTime r5 < finalTime := by
  have hmax (b : Bank) : (maxOfBank l b).toNat ≤ 300 := maxOfBank_le b hl
  have h2 := hmax .gpio2
  have h1 := hmax .gpio1
  have h0 := hmax .gpio0
  simp only [settleCycles, resetCycles, settleMarginCycles, propagationCycles] at hcount
  simp only [access, blockTime, settleTime, finalTime, cycle]
  omega

end Late

section Run

variable {tm : Timing} {l : Fin 6 → Word} {r₀ : Regs} {now stop : Nat} {y : Label × Regs}
variable {q : PProg Next} {pre post : List PruInstr} {i : PruInstr}

/-- The run after an event at a label. -/
theorem FromStart.leaving {label : Label} {K : PruEvent → Prop}
    {P : Label × Regs → PProg Next → Prop} (h : FromStart tm l r₀ now (pre ++ i :: post) y q stop)
    (hlabel : i.label.1 = label) (hK : K i.event)
    (hleaves : ∀ r s, Reckoned tm l (some (label, r)) s →
      (code tm (label, r)).Leaves K (P (label, r))) :
    ∃ q', P i.label q' ∧ TimedRun tm i.label q' i.stop post y q stop ∧
      Machine.Good (firmware tm l) (Reckoned tm l) q'
        ((firmware tm l).next ((firmware tm l).run started (pre.map (·.event))) i.event) ∧
      i.start ≤ i.stop ∧ i.stop ≤ i.start + access := by
  have hblocks (x : Label × Regs) (s : FState) (hx : Reckoned tm l (some x) s) :
      (code tm x).Leaves K fun q' => x.1 = label → P x q' := by
    obtain ⟨label', r⟩ := x
    by_cases hlabel' : label' = label
    · subst hlabel'
      exact (hleaves r s hx).mono fun _ hq _ => hq
    · exact Prog.leaves_of_forall fun _ h => absurd h hlabel'
  obtain ⟨q', hq', hrun, hgood, hle, hlasts⟩ := h.run.leaving
    (P := fun x q' => x.1 = label → P x q') (reckoned_invariant tm l) (FromStart.inBlock r₀)
    (envAlong_of_config h.config) hblocks hK
  have hlasts := lasts_access hlasts
  exact ⟨q', hq' hlabel, hrun, hgood, hle, by omega⟩

/-- What the last `bank_done`, or the acceptance of a frame without banks,
leaves of its block leads to DONE within 20 ms. -/
theorem FromStart.leadsToDone (h : FromStart tm l r₀ now (pre ++ i :: post) y q stop)
    (hi : LastDone l i) :
    ∃ q', LeadsToDone l i.label q' ∧ TimedRun tm i.label q' i.stop post y q stop ∧
      i.stop + 7 * blockTime + settleTime i.label.2.r5 < i.start + finalTime := by
  let P (x : Label × Regs) (q' : PProg Next) : Prop :=
    LeadsToDone l x q' ∧ access + 7 * blockTime + settleTime x.2.r5 < finalTime
  have hleads : ∃ q', P i.label q' ∧ TimedRun tm i.label q' i.stop post y q stop ∧
      i.stop ≤ i.start + access := by
    rcases hi with ⟨hlabel, b, hevent, hlast⟩ | ⟨hlabel, hevent, hnone⟩
    · have hblock (r : Regs) (s : FState) (hx : Reckoned tm l (some (.timedEnd, r)) s) :
          (timedEndBlock r).Leaves (DrainedAt b) (P (.timedEnd, r)) := by
        obtain ⟨⟨b', r', p, rfl, hr, -⟩, hcount⟩ := hx
        have hroom := lastDone_room (hcount _ rfl (by simp)) hr.lengths
        exact (leaves_timedEnd (laterNonEmpty_eq_nil hlast) hr.r5_ne_zero).mono fun _ hq =>
          ⟨hq, hroom⟩
      obtain ⟨q', hq', hrun, -, -, hle⟩ := h.leaving hlabel hevent hblock
      exact ⟨q', hq', hrun, hle⟩
    · have hblock (r : Regs) (s : FState) (hx : Reckoned tm l (some (.requestLoop, r)) s) :
          (requestLoopBlock r).Leaves Accepts (P (.requestLoop, r)) := by
        obtain ⟨⟨hr, -⟩, hcount⟩ := hx
        have hroom := lastDone_room (hcount _ rfl (by simp)) hr.lengths
        exact (leaves_requestLoop hnone hr.r5_ne_zero).mono fun _ hq => ⟨hq, hroom⟩
      obtain ⟨q', hq', hrun, -, -, hle⟩ := h.leaving hlabel hevent hblock
      exact ⟨q', hq', hrun, hle⟩
  obtain ⟨q', ⟨hleads, hroom⟩, hrun, hle⟩ := hleads
  exact ⟨q', hleads, hrun, by omega⟩

/-- **In time**: DONE follows the last `bank_done`, or the acceptance of a
frame without banks, in less than 20 ms; until then the firmware does not
halt. -/
theorem done_in_time (h : FromStart tm l r₀ now (pre ++ i :: post) y q stop) (hi : LastDone l i)
    (hcolour : ∀ j ∈ post, ∀ v : Word, j.event = ⟨.lbco .wireColor, v⟩ → v >>> 24 = 0) :
    (∃ j ∈ post, DoneStore j.event ∧ j.stop < i.start + finalTime) ∨
      (stop < i.start + finalTime ∧ q ≠ .ret none) := by
  obtain ⟨q', hleads, hrun, hroom⟩ := h.leadsToDone hi
  have hmeets := hleads i.stop _ le_rfl i.stop le_rfl
  have hreads : ∀ j ∈ post, FrameReads l j.start j.stop j.event := fun j hj =>
    ⟨h.config j (by simp [hj]), hcolour j hj⟩
  rcases hrun.meets (fun x now hx => done_meets tm x now hx) hmeets hreads with
    ⟨j, hj, hdone, hle⟩ | ⟨hle, hgoes⟩
  · exact .inl ⟨j, hj, hdone, by omega⟩
  · exact .inr ⟨by omega, hgoes⟩

end Run

end Pru

end Dld
