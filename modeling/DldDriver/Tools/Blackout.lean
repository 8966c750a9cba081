/-
DldDriver/Tools/Blackout.lean

The end of a run of the panel exerciser: without an attempt nothing is sent,
and after one the run comes to its end with every panel black, as long as
`sleep` and `report` return and `send` raises nothing but `OSError`.

While the final black waits, the time left falls by a twentieth of a second
or to zero with every sleep.
-/
import DldDriver.Tools.Pacing
import DldDriver.Interaction.Ends
import Mathlib.Algebra.Order.Floor.Semiring

namespace Dld

namespace Exercise

open Interaction Machine

variable {T : Type} {x : Arguments T}

/-! ### Without an attempt -/

/-- Nothing is sent. -/
def silence : Monitor (Op T) Res Unit where
  env _ _ := True
  safe _ e := attemptOf e = none
  next s _ := s

/-- The end of a run that has not attempted to send. -/
def Unattempted : Option (Label T) → Unit → Prop
  | some (.closing v _), _ => v.attempted = false
  | some (.finishing _ _), _ | some (.finished _), _ | none, _ => True
  | _, _ => False

section

variable [DecidableEq T]

theorem unattempted_invariant :
    ∀ l s, Unattempted (some l) s → (silence (T := T)).wp (code x l) s fun s o => Unattempted o s := by
  have hquiet {α : Type} {p : Call T α} (hp : p.Emits Quiet) {f : α → Call T (Option (Label T))}
      {Q : Unit → Option (Label T) → Prop} (hf : ∀ a, silence.wp (f a) () Q) :
      silence.wp (p >>= f) () Q := by
    rw [Monitor.wp_bind]
    apply Monitor.wp_frame' hp
    · exact fun e he => ⟨he.1, rfl⟩
    · exact hf
  rintro (_ | v | ⟨v, now⟩ | v | ⟨v, raised⟩ | ⟨v, raised⟩ | ⟨v, raised⟩ | ⟨v, raised⟩ | outcome) ⟨⟩ h
  · exact h.elim
  · exact h.elim
  · exact h.elim
  · exact h.elim
  · show Unattempted (some (if v.attempted then _ else _)) ()
    have hnone : v.attempted = false := h
    rw [hnone]
    trivial
  · exact h.elim
  · exact h.elim
  · apply hquiet (snapshot_quiet x _ _)
    intro s
    apply hquiet (report_quiet _)
    rintro (e | ⟨⟩)
    · trivial
    · cases raised <;> trivial
  · trivial

end

/-! ### A shutdown that is left alone -/

/-- What a sleep, a report and a send may do in it. -/
def Cooperative : Event (Op T) Res → Prop
  | ⟨.sleep d, a⟩ => a.value = .ok () ∧ a.start + d ≤ a.stop
  | ⟨.report _, a⟩ => a.value = .ok ()
  | ⟨.send _ _, a⟩ => a.value = .ok () ∨ ∃ text, a.value = .error (.osError text)
  | _ => True

instance : DecidablePred (Cooperative (T := T))
  | ⟨.sleep d, ⟨start, stop, .ok ()⟩⟩ =>
    decidable_of_iff (start + d ≤ stop) ⟨fun h => ⟨rfl, h⟩, fun h => h.2⟩
  | ⟨.sleep _, ⟨_, _, .error _⟩⟩ => isFalse fun h => nomatch h.1
  | ⟨.report _, ⟨_, _, .ok ()⟩⟩ => isTrue rfl
  | ⟨.report _, ⟨_, _, .error _⟩⟩ => isFalse fun h => nomatch h
  | ⟨.send .., ⟨_, _, .ok ()⟩⟩ => isTrue (.inl rfl)
  | ⟨.send .., ⟨_, _, .error (.osError text)⟩⟩ => isTrue (.inr ⟨text, rfl⟩)
  | ⟨.send .., ⟨_, _, .error .keyboardInterrupt⟩⟩ => isFalse (by rintro (h | ⟨_, h⟩) <;> cases h)
  | ⟨.send .., ⟨_, _, .error (.other _)⟩⟩ => isFalse (by rintro (h | ⟨_, h⟩) <;> cases h)
  | ⟨.clock, _⟩ | ⟨.stopped, _⟩ | ⟨.colorAt .., _⟩ => isTrue trivial

def shutdown : Monitor (Op T) Res (Trace T) where
  env h e := Ordered h e ∧ Cooperative e
  safe _ _ := True
  next h e := h ++ [e]

instance (h : Trace T) (e : Event (Op T) Res) : Decidable (shutdown.env h e) :=
  inferInstanceAs (Decidable (Ordered h e ∧ Cooperative e))

@[simp] theorem shutdown_run (h t : Trace T) : shutdown.run h t = h ++ t := by
  induction t generalizing h with
  | nil => simp
  | cons e t ih =>
    rw [Monitor.run_cons, ih]
    simp [shutdown]

section Last

variable [DecidableEq T]

/-- The packet of an attempt at `target`. -/
def packetTo (target : T) (e : Event (Op T) Res) : Option (List UInt8) :=
  (attemptOf e).bind fun (who, packet) => if who = target then some packet else none

/-- The last packet that was attempted. -/
def lastPacket (target : T) (t : Trace T) : Option (List UInt8) :=
  (t.filterMap (packetTo target)).getLast?

theorem lastPacket_append (target : T) (h : Trace T) (e : Event (Op T) Res) :
    lastPacket target (h ++ [e]) = (packetTo target e).or (lastPacket target h) := by
  unfold lastPacket
  rw [List.filterMap_append]
  cases hpacket : packetTo target e with
  | none => simp [hpacket]
  | some packet => simp [hpacket]

/-- Quiet events do not count. -/
theorem lastPacket_quiet (target : T) (h : Trace T) {e : Event (Op T) Res}
    (he : attemptOf e = none) : lastPacket target (h ++ [e]) = lastPacket target h := by
  rw [lastPacket_append, packetTo, he]
  rfl

theorem lastPacket_send (target who : T) (h : Trace T) (packet : List UInt8)
    (a : Answer (Except Exn Unit)) : lastPacket who (h ++ [⟨.send target packet, a⟩]) =
      if target = who then some packet else lastPacket who h := by
  rw [lastPacket_append]
  show (if target = who then some packet else none).or _ = _
  split_ifs <;> rfl

/-- Every panel is black. -/
def AllBlack (x : Arguments T) (h : Trace T) : Prop :=
  ∀ target ∈ x.targets, lastPacket target h = some blackPacket

end Last

section Shutdown

variable {α : Type} {h : Trace T}

theorem shutdown_clock {f : ℚ → Call T α} {Q : Trace T → α → Prop}
    (hk : ∀ a, Ordered h ⟨.clock, a⟩ → shutdown.wp (f a.value) (h ++ [⟨.clock, a⟩]) Q) :
    shutdown.wp (Call.clock >>= f) h Q :=
  fun a ha => ⟨trivial, hk a ha.1⟩

/-- A report returns. -/
theorem shutdown_report {event : Report T} {f : Except Exn Unit → Call T α}
    {Q : Trace T → α → Prop}
    (hk : ∀ a, shutdown.wp (f (.ok ())) (h ++ [⟨.report event, a⟩]) Q) :
    shutdown.wp (Call.report event >>= f) h Q := by
  rintro ⟨start, stop, value⟩ ⟨-, hvalue⟩
  obtain rfl : value = .ok () := hvalue
  exact ⟨trivial, hk _⟩

variable [DecidableEq T] {v : Vars T} {target : T} {rgb : List PyValue} {packet : List UInt8}

/-- What a call leaves: no exception, and the last packets as they were. -/
def Returned (h : Trace T) (h' : Trace T) (r : Vars T × Except Exn Unit) : Prop :=
  r.2 = .ok () ∧ ∀ who, lastPacket who h' = lastPacket who h

theorem shutdown_sendDone : shutdown.wp (sendDone v target rgb) h (Returned h) := by
  unfold sendDone
  dsimp only
  split_ifs
  · apply shutdown_report
    intro a
    exact ⟨rfl, fun who => lastPacket_quiet who h rfl⟩
  · exact ⟨rfl, fun who => rfl⟩

theorem shutdown_sendFailed (text : String) :
    shutdown.wp (sendFailed v target text) h (Returned h) := by
  apply shutdown_clock
  intro c _
  have hclock (who : T) := lastPacket_quiet who h (e := ⟨.clock, c⟩) rfl
  show shutdown.wp (if _ then _ else _) _ _
  split_ifs
  · apply shutdown_report
    intro a
    refine ⟨rfl, fun who => ?_⟩
    exact (lastPacket_quiet who _ rfl).trans (hclock who)
  · exact ⟨rfl, hclock⟩

theorem shutdown_attempt : shutdown.wp (attempt x v target rgb packet) h fun h' r =>
    r.2 = .ok () ∧
      ∀ who, lastPacket who h' = if target = who then some packet else lastPacket who h := by
  rintro ⟨start, stop, value⟩ ⟨-, hvalue⟩
  refine ⟨trivial, ?_⟩
  apply shutdown_clock
  intro c _
  have hlast (who : T) : lastPacket who
      (h ++ [⟨.send target packet, ⟨start, stop, value⟩⟩] ++ [⟨.clock, c⟩]) =
        if target = who then some packet else lastPacket who h :=
    (lastPacket_quiet who _ rfl).trans (lastPacket_send target who h packet _)
  have hreturned {p : Call T (Vars T × Except Exn Unit)}
      (hp : shutdown.wp p (h ++ [⟨.send target packet, ⟨start, stop, value⟩⟩] ++ [⟨.clock, c⟩])
        (Returned (h ++ [⟨.send target packet, ⟨start, stop, value⟩⟩] ++ [⟨.clock, c⟩]))) :
      shutdown.wp p (h ++ [⟨.send target packet, ⟨start, stop, value⟩⟩] ++ [⟨.clock, c⟩])
        fun h' r => r.2 = .ok () ∧
          ∀ who, lastPacket who h' = if target = who then some packet else lastPacket who h := by
    apply Monitor.wp_mono hp
    rintro h' r ⟨hok, hsame⟩
    exact ⟨hok, fun who => (hsame who).trans (hlast who)⟩
  rcases hvalue with hdone | ⟨text, hfailed⟩
  · obtain rfl : value = .ok () := hdone
    exact hreturned shutdown_sendDone
  · obtain rfl : value = .error (.osError text) := hfailed
    exact hreturned (shutdown_sendFailed text)

/-- Black packets for all targets of the list. -/
theorem shutdown_attemptAll {items : List (T × List PyValue × List UInt8)}
    (hblack : ∀ item ∈ items, item.2.2 = blackPacket) :
    shutdown.wp (attemptAll x v items) h fun h' r => r.2 = .ok () ∧ ∀ who,
      who ∈ items.map (·.1) ∨ lastPacket who h = some blackPacket →
        lastPacket who h' = some blackPacket := by
  induction items generalizing v h with
  | nil =>
    refine ⟨rfl, ?_⟩
    rintro who (hwho | hlast)
    · cases hwho
    · exact hlast
  | cons item items ih =>
    obtain ⟨target, rgb, packet⟩ := item
    obtain rfl : packet = blackPacket := hblack _ (.head _)
    rw [attemptAll, Monitor.wp_bind]
    apply Monitor.wp_mono shutdown_attempt
    rintro h' ⟨v', r⟩ ⟨hok, hlast⟩
    obtain rfl : r = .ok () := hok
    apply Monitor.wp_mono (ih fun item hitem => hblack item (.tail _ hitem))
    rintro h'' r ⟨hok, hall⟩
    refine ⟨hok, fun who hwho => hall who ?_⟩
    rw [hlast who]
    rcases eq_or_ne target who with rfl | hne
    · exact .inr (if_pos rfl)
    · rw [if_neg hne]
      refine hwho.imp_left fun hmem => ?_
      exact (List.mem_cons.mp hmem).resolve_left hne.symm

/-- The final black reaches every panel. -/
theorem shutdown_transmit : shutdown.wp
    (transmit x v (List.replicate x.targets.length [.int 0, .int 0, .int 0])) h fun h' r =>
      r.2 = .ok () ∧ AllBlack x h' := by
  have hencode (n : Nat) : (List.replicate n [PyValue.int 0, .int 0, .int 0]).mapM encodeColor =
      .ok (List.replicate n blackPacket) := by
    induction n with
    | zero => rfl
    | succ n ih =>
      rw [List.replicate_succ, List.mapM_cons, ih]
      rfl
  rw [transmit, hencode]
  have hpackets : ∀ item ∈ x.targets.zip ((List.replicate x.targets.length
      [PyValue.int 0, .int 0, .int 0]).zip (List.replicate x.targets.length blackPacket)),
      item.2.2 = blackPacket := by
    intro item hitem
    exact List.eq_of_mem_replicate (List.of_mem_zip (List.of_mem_zip hitem).2).2
  apply Monitor.wp_mono (shutdown_attemptAll hpackets)
  rintro h' r ⟨hok, hall⟩
  refine ⟨hok, fun target htarget => hall target (.inl ?_)⟩
  show target ∈ List.map Prod.fst _
  rw [List.map_fst_zip (by simp)]
  exact htarget

end Shutdown

/-! ### It ends -/

/-- The time the last event ended at. -/
def lastStop (h : Trace T) : ℚ :=
  match h.getLast? with
  | some e => e.2.stop
  | none => 0

@[simp] theorem lastStop_append (h : Trace T) (e : Event (Op T) Res) :
    lastStop (h ++ [e]) = e.2.stop := by
  simp [lastStop]

theorem lastStop_le {h : Trace T} {e : Event (Op T) Res} (hne : h ≠ []) (henv : Ordered h e) :
    lastStop h ≤ e.2.start := by
  unfold lastStop
  rw [List.getLast?_eq_getLast_of_ne_nil hne]
  exact henv.after _ (List.getLast_mem hne)

/-- The number of sleeps that are left before the final black. -/
def naps (v : Vars T) (h : Trace T) : Nat := ⌈(v.nextFrame - lastStop h) * 20⌉₊

def shutdownRank : Label T → Trace T → Nat
  | .closing v _, h => naps v h + 4
  | .waiting v _, h => naps v h + 3
  | .blackout _ _, _ => 2
  | .finishing _ _, _ => 1
  | _, _ => 0

/-- A shutdown after an attempt. -/
def ShutdownInv [DecidableEq T] (x : Arguments T) : Label T → Trace T → Prop
  | .closing v _, h => v.attempted = true ∧ h ≠ []
  | .waiting _ _, h => h ≠ []
  | .blackout _ _, _ => True
  | .finishing _ _, h | .finished _, h => AllBlack x h
  | _, _ => False

/-- A sleep shortens the wait. -/
theorem naps_sleep {v : Vars T} {h h' : Trace T} {now : ℚ} (hnow : lastStop h ≤ now)
    (hwait : 0 < v.nextFrame - now)
    (hslept : now + min (1 / 20) (v.nextFrame - now) ≤ lastStop h') : naps v h' < naps v h := by
  have hpos : 0 < (v.nextFrame - lastStop h) * 20 := by linarith
  rcases le_total (1 / 20) (v.nextFrame - now) with hlong | hshort
  · rw [min_eq_left hlong] at hslept
    have hless : (v.nextFrame - lastStop h') * 20 ≤ (v.nextFrame - lastStop h) * 20 - 1 := by linarith
    have hceil : naps v h' ≤ ⌈(v.nextFrame - lastStop h) * 20 - 1⌉₊ := Nat.ceil_mono hless
    rw [Nat.ceil_sub_one] at hceil
    have hone : 0 < naps v h := Nat.ceil_pos.mpr hpos
    unfold naps at *
    omega
  · rw [min_eq_right hshort] at hslept
    have hzero : naps v h' = 0 := Nat.ceil_eq_zero.mpr (by linarith)
    rw [hzero]
    exact Nat.ceil_pos.mpr hpos

section Ends

variable [DecidableEq T]

theorem shutdown_block (l : Label T) (h : Trace T) (hI : ShutdownInv x l h) :
    shutdown.wp (code x l) h
      (Descends (AllBlack x) (ShutdownInv x) shutdownRank (shutdownRank l h)) := by
  rcases l with _ | v | ⟨v, now⟩ | v | ⟨v, raised⟩ | ⟨v, raised⟩ | ⟨v, raised⟩ | ⟨v, raised⟩ | outcome
  · exact hI.elim
  · exact hI.elim
  · exact hI.elim
  · exact hI.elim
  · obtain ⟨hattempted, hne⟩ := hI
    rw [code, hattempted]
    exact ⟨hne, Nat.lt_succ_self _⟩
  · apply shutdown_clock
    intro (c : Answer ℚ) hc
    have hread : c.start ≤ c.value ∧ c.value ≤ c.stop := hc.reads
    have hstart : lastStop h ≤ c.value := (lastStop_le hI hc).trans hread.1
    show shutdown.wp (if _ then _ else _) _ _
    by_cases hdue : v.nextFrame - c.value ≤ 0
    · rw [if_pos hdue]
      exact ⟨trivial, Nat.lt_of_lt_of_le (Nat.lt_succ_self 2) (Nat.le_add_left 3 _)⟩
    · rw [if_neg hdue]
      rintro ⟨start, stop, value⟩ ⟨henv, hvalue, hslept⟩
      obtain rfl : value = .ok () := hvalue
      refine ⟨trivial, List.append_ne_nil_of_right_ne_nil _ (List.cons_ne_nil _ _), ?_⟩
      have hafter : c.stop ≤ start := henv.after ⟨.clock, c⟩ (List.mem_append_right _ (.head _))
      have hslept : start + min (1 / 20) (v.nextFrame - c.value) ≤ stop := hslept
      apply Nat.add_lt_add_right
      apply naps_sleep hstart (not_le.mp hdue)
      show _ ≤ lastStop (_ ++ [_])
      rw [lastStop_append]
      show c.value + min (1 / 20) (v.nextFrame - c.value) ≤ stop
      linarith
  · rw [code, Monitor.wp_bind]
    apply Monitor.wp_mono shutdown_transmit
    rintro h' ⟨v', r⟩ ⟨hok, hblack⟩
    obtain rfl : r = .ok () := hok
    exact ⟨hblack, Nat.lt_succ_self 1⟩
  · have hkeeps (h : Trace T) {e : Event (Op T) Res} (he : attemptOf e = none) (hblack : AllBlack x h) :
        AllBlack x (h ++ [e]) :=
      fun target htarget => (lastPacket_quiet target h he).trans (hblack target htarget)
    rintro c ⟨-, -⟩
    refine ⟨trivial, ?_⟩
    apply shutdown_report
    intro a
    have hblack := hkeeps _ (e := ⟨.report _, a⟩) rfl (hkeeps h (e := ⟨.clock, c⟩) rfl hI)
    cases raised with
    | none => exact ⟨hblack, Nat.lt_succ_self 0⟩
    | some e => exact ⟨hblack, Nat.lt_succ_self 0⟩
  · exact hI

/-- **The shutdown ends**, with every panel black. -/
theorem shutdown_ends {v : Vars T} {h : Trace T} (raised : Option Exn) (hattempted : v.attempted = true)
    (hne : h ≠ []) : Ends (code x) shutdown (AllBlack x) (code x (.closing v raised)) h :=
  ends_of_rank (L := ShutdownInv x) shutdownRank shutdown_block ⟨hattempted, hne⟩

end Ends

/-! ### Runs -/

/-- The times of a trace: calls follow each other, and the clock is read
while it is asked for. -/
def InTime (t : Trace T) : Prop :=
  t.Pairwise (fun e e' => e.2.stop ≤ e'.2.start) ∧ ∀ e ∈ t, e.2.start ≤ e.2.stop ∧ ReadsClock e

instance (t : Trace T) : Decidable (InTime t) := inferInstanceAs (Decidable (_ ∧ _))

theorem InTime.left {t t' : Trace T} (h : InTime (t ++ t')) : InTime t :=
  ⟨(List.pairwise_append.mp h.1).1, fun e he => h.2 e (List.mem_append_left _ he)⟩

theorem envAlong_of_inTime {h t : Trace T} (htime : InTime (h ++ t)) :
    (timeline x).EnvAlong h t := by
  induction t generalizing h with
  | nil => trivial
  | cons e t ih =>
    obtain ⟨hpairwise, hall⟩ := htime
    have hbefore := (List.pairwise_append.mp hpairwise).2.2
    obtain ⟨hforward, hreads⟩ := hall e (List.mem_append_right _ (.head _))
    refine ⟨⟨fun y hy => hbefore y hy e (.head _), hforward, hreads⟩, ih ?_⟩
    show InTime (h ++ [e] ++ t)
    rw [List.append_assoc]
    exact ⟨hpairwise, hall⟩

section Runs

variable [DecidableEq T]

/-- Along a run every attempt is allowed, and what holds at the labels holds
where the run has come to. -/
theorem run_good {t : Trace T} {q : Prog (Op T) Res (Option (Label T))}
    (h : Steps (code x) (code x .start) t q) (htime : InTime t) :
    (∀ pre e post, t = pre ++ e :: post → ∀ target packet, attemptOf e = some (target, packet) →
      Allowed x pre target packet e.2.start) ∧ Good (timeline x) (Inv x) q t := by
  obtain ⟨hsafe, hgood⟩ := code_invariant.steps (code_invariant .start [] rfl) h
    (envAlong_of_inTime htime)
  rw [timeline_run] at hgood
  refine ⟨?_, hgood⟩
  rintro pre e post rfl
  have hat := hsafe.at
  rwa [timeline_run] at hat

/-- At the end of the body of `try`. -/
theorem base_closing {t : Trace T} {v : Vars T} {raised : Option Exn}
    (h : Steps (code x) (code x .start) t (.ret (some (.closing v raised)))) (htime : InTime t) :
    Base x v t := (run_good h htime).2

/-- **The panel exerciser**, over every run and everything its surroundings
may do: attempts at a target are an interval apart; every packet is within
the budget; a frame with a refused color is not sent, and only black after
it; without an attempt the shutdown sends nothing; and after one it ends,
if it is left alone, with every panel black. -/
theorem runExercise_conforms (x : Arguments T) :
    (∀ t q, Steps (code x) (code x .start) t q → InTime t →
      (∀ pre e mid e' post target p p', t = pre ++ e :: mid ++ e' :: post →
        attemptOf e = some (target, p) → attemptOf e' = some (target, p') →
        e.2.start + 1 / x.fps ≤ e'.2.start) ∧
      (∀ e ∈ t, ∀ target p, attemptOf e = some (target, p) → InBudget p) ∧
      ∀ pre e mid e' post target p, t = pre ++ e :: mid ++ e' :: post → Refused e →
        attemptOf e' = some (target, p) → p = blackPacket) ∧
    (∀ (v : Vars T) colors, (∃ rgb ∈ colors, ∀ packet, encodeColor rgb ≠ .ok packet) →
      ∃ text, transmit x v colors = pure (v, .error (.other text))) ∧
    ∀ t v raised, Steps (code x) (code x .start) t (.ret (some (.closing v raised))) → InTime t →
      ((∀ e ∈ t, attemptOf e = none) → ∀ t' q,
        Steps (code x) (.ret (some (.closing v raised))) t' q → ∀ e ∈ t', attemptOf e = none) ∧
      ((∃ e ∈ t, attemptOf e ≠ none) →
        Ends (code x) shutdown (AllBlack x) (.ret (some (.closing v raised))) t ∧
        ∀ t', Steps (code x) (.ret (some (.closing v raised))) t' (.ret none) →
          shutdown.EnvAlong t t' → ∀ target ∈ x.targets,
            lastPacket target (t ++ t') = some blackPacket) := by
  refine ⟨?_, ?_, ?_⟩
  · -- what an attempt keeps to is said of every attempt after every beginning
    intro t q hrun htime
    obtain ⟨hallowed, -⟩ := run_good hrun htime
    refine ⟨?_, ?_, ?_⟩
    · intro pre e mid e' post target p p' ht he he'
      exact (hallowed _ e' post ht target p' he').paced e (by simp) p he
    · intro e he target p hattempt
      obtain ⟨pre, post, rfl⟩ := List.append_of_mem he
      exact (hallowed pre e post rfl target p hattempt).budgeted
    · intro pre e mid e' post target p ht hrefused he'
      exact (hallowed _ e' post ht target p he').whole ⟨e, by simp, hrefused⟩
  · rintro v colors ⟨rgb, hrgb, hrefused⟩
    exact transmit_refused hrgb hrefused
  · intro t v raised hrun htime
    have hbase := base_closing hrun htime
    constructor
    · -- nothing was attempted: `attempted` is false and stays so
      intro hnone t' q ht'
      have hattempted : v.attempted = false := by
        rw [Bool.eq_false_iff]
        intro htrue
        obtain ⟨e, he, hattempt⟩ := hbase.attempted.mp htrue
        exact hattempt (hnone e he)
      have hgood : Good silence Unattempted
          (.ret (some (.closing v raised)) : Prog (Op T) Res (Option (Label T))) () := hattempted
      have hsafe := (Invariant.steps unattempted_invariant hgood ht'
        (Monitor.envAlong_of_forall (fun _ _ => trivial) _ _)).1
      intro e he
      obtain ⟨pre, post, rfl⟩ := List.append_of_mem he
      exact hsafe.at
    · -- something was: the rank leads through the wait to the final black
      rintro ⟨e, he, hattempt⟩
      have hends : Ends (code x) shutdown (AllBlack x) (.ret (some (.closing v raised))) t :=
        .jump (shutdown_ends raised (hbase.attempted.mpr ⟨e, he, hattempt⟩) (List.ne_nil_of_mem he))
      refine ⟨hends, fun t' ht' henv => ?_⟩
      have hblack := hends.halted ht' henv
      rwa [shutdown_run] at hblack

end Runs

/-! ### One panel -/

/-- One panel at ten packets a second. -/
def onePanel : Arguments Unit where
  targets := [()]
  fps := 10
  seed := .int 0
  duration := none
  rate := by norm_num
  lasting := nofun
  panels := List.cons_ne_nil _ _
  unique := List.nodup_singleton _

/-- What a call takes: a sleep the time it was asked for, another a
millisecond. -/
def Op.seconds : Op Unit → ℚ
  | .sleep d => d
  | _ => 1 / 1000

/-- A signal comes after ten milliseconds. -/
def Op.answer (now : ℚ) : (o : Op Unit) → Val o
  | .clock => now
  | .stopped => .ok (if now < 1 / 100 then none else some "signal_15")
  | .sleep _ | .report _ | .send .. => .ok ()
  | .colorAt scene position panelIndex panelCount cycle seed =>
    match Exercise.colorAt library (some scene) (some position) (.int panelIndex)
      (.int panelCount) (.int cycle) seed with
    | .ok rgb => .ok (List.ofFn fun i => .int (rgb i))
    | .error text => .error (.other text)

/-- The surroundings at the time `now`. -/
def promptly (now : ℚ) (o : Op Unit) : Option (Res o × ℚ) :=
  some (⟨now, now + o.seconds, o.answer now⟩, now + o.seconds)

/-- From the start to the end of the body of `try`. -/
def oneFrame : Option (Trace Unit × Option (Label Unit)) :=
  (unroll (code onePanel) 4 (code onePanel .start)).tryExec promptly 0

/-- And from there to the end. -/
def oneShutdown (r : Trace Unit × Option (Label Unit)) :
    Option (Trace Unit × Option (Label Unit)) :=
  (unroll (code onePanel) 9 (.ret r.2)).tryExec promptly (lastStop r.1)

/-- The body of `try` has ended without an exception. -/
def Label.closesQuietly : Option (Label Unit) → Bool
  | some (.closing _ none) => true
  | _ => false

theorem Label.closesQuietly_iff {l : Option (Label Unit)} :
    Label.closesQuietly l = true ↔ ∃ v, l = some (.closing v none) := by
  constructor
  · intro h
    unfold closesQuietly at h
    split at h
    · exact ⟨_, rfl⟩
    · cases h
  · rintro ⟨v, rfl⟩
    rfl

theorem runExercise_conforms_onePanel :
    ∃ t v t', Steps (code onePanel) (code onePanel .start) t (.ret (some (.closing v none))) ∧
      Steps (code onePanel) (.ret (some (.closing v none))) t' (.ret none) ∧
      InTime (t ++ t') ∧ shutdown.EnvAlong t t' ∧
      t.filterMap attemptOf = [((), [0, 0, 0, 3, 255, 0, 0])] ∧
      t'.filterMap attemptOf = [((), blackPacket)] ∧
      (∀ pre e mid e' post target p p', t ++ t' = pre ++ e :: mid ++ e' :: post →
        attemptOf e = some (target, p) → attemptOf e' = some (target, p') →
        e.2.start + 1 / 10 ≤ e'.2.start) ∧
      lastPacket () (t ++ t') = some blackPacket := by
  have hframe : ∃ r, oneFrame = some r := Option.isSome_iff_exists.mp (by decide +kernel)
  have hends : ∀ r ∈ oneFrame, Label.closesQuietly r.2 ∧
      r.1.filterMap attemptOf = [((), [0, 0, 0, 3, 255, 0, 0])] ∧
      (oneShutdown r).isSome ∧ ∀ r' ∈ oneShutdown r, r'.2.isNone ∧ InTime (r.1 ++ r'.1) ∧
        shutdown.EnvAlong r.1 r'.1 ∧ r'.1.filterMap attemptOf = [((), blackPacket)] := by
    decide +kernel
  obtain ⟨⟨t, l⟩, hframe⟩ := hframe
  obtain ⟨hquietly, hsent, hshutdown, hends⟩ := hends _ hframe
  obtain ⟨⟨t', l'⟩, hshutdown⟩ := Option.isSome_iff_exists.mp hshutdown
  obtain ⟨hnone, htime, henv, hblack⟩ := hends _ hshutdown
  dsimp only at hquietly hsent hnone htime henv hblack
  obtain ⟨v, rfl⟩ := Label.closesQuietly_iff.mp hquietly
  obtain rfl : l' = none := Option.isNone_iff_eq_none.mp hnone
  -- the two halves of the run, and the theorem at their join
  have hrun := Steps.of_unroll (Prog.tryExec_runs hframe)
  have hrest := Steps.of_unroll (Prog.tryExec_runs hshutdown)
  obtain ⟨hconforms, -, hcloses⟩ := runExercise_conforms onePanel
  obtain ⟨hpaced, -, -⟩ := hconforms (t ++ t') _ (hrun.trans hrest) htime
  have hattempt : ∃ e ∈ t, attemptOf e ≠ none := by
    have hmem : ((), [0, 0, 0, 3, 255, 0, 0]) ∈ t.filterMap attemptOf := hsent ▸ .head _
    obtain ⟨e, he, hsome⟩ := List.mem_filterMap.mp hmem
    exact ⟨e, he, hsome ▸ Option.some_ne_none _⟩
  obtain ⟨-, hlast⟩ := (hcloses t v none hrun htime.left).2 hattempt
  exact ⟨t, v, t', hrun, hrest, htime, henv, hsent, hblack, hpaced,
    hlast t' hrest henv () (.head _)⟩

end Exercise

end Dld
