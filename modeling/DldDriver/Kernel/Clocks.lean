/-
DldDriver/Kernel/Clocks.lean

Clock before access.

An access to a block whose clock is off aborts the bus.  `clocked` watches
the helper: inside a region in which the CPU is masked it remembers which
clocks were last read as functional, and an access is safe only if the
block's clock is among them.  Leaving the region forgets everything.

`Clean p` says that `p` is safe wherever it starts; a function that opens
its own region is clean, one that runs inside a region has a specification
with what it needs and keeps.  `clean_quietIoctl` covers the whole
helper.
-/
import DldDriver.Kernel.Footprint

namespace Dld

open Interaction

/-- The clock register of the block a register belongs to. -/
def clockOf : Reg → Option Nat
  | .mailbox _ | .pruControl _ => some prussClock
  | .cpsw _ => some cpswClock
  | .gpio bank _ => some (gpioClocks bank)
  | .engine i _ => some (engines i).clockOffset
  | .clocks _ => none

/-- Whether the CPU is masked, and the clocks last read as functional since. -/
structure Region where
  masked : Bool
  known : Nat → Bool

/-- Outside of every region. -/
def Region.outside : Region := ⟨false, fun _ => false⟩

/-- A region just entered. -/
def Region.entered : Region := ⟨true, fun _ => false⟩

/-- The clock of `r` is known to be functional. -/
def Region.Covers (s : Region) (r : Reg) : Prop :=
  ∀ c, clockOf r = some c → s.masked = true ∧ s.known c = true

/-- The region after clock `c` was read, functional or not. -/
def Region.learn (s : Region) (c : Nat) (functional : Bool) : Region :=
  { s with known := Function.update s.known c functional }

/-- Reading one clock teaches nothing about another. -/
theorem Region.learn_known_of_ne (s : Region) {c c' : Nat} (functional : Bool) (h : c' ≠ c) :
    (s.learn c functional).known c' = s.known c' := by
  simp [Region.learn, h]

/-- The region after an event. -/
def Region.next (s : Region) : KEvent → Region
  | ⟨.readl (.clocks c), v⟩ => s.learn c (decide (Functional v))
  | ⟨.localIrqSave, _⟩ => .entered
  | ⟨.localIrqRestore _, _⟩ => .outside
  | _ => s

/-- Clock before access, as a monitor. -/
def clocked : Monitor KOp KOp.Res Region where
  env _ _ := True
  safe s e := match e with
    | ⟨.readl r, _⟩ | ⟨.writel _ r, _⟩ => s.Covers r
    | _ => True
  next := Region.next

/-- No register at all. -/
def registerless : Access := { calls := fun _ => True }

/-- Reads of the mailbox. -/
def mailboxReads : Access := { reads := (Reg.isMailbox · = true), calls := fun _ => True }

/-- Safe wherever it starts. -/
def Clean {α : Type} (p : KProg α) : Prop := ∀ s, clocked.wp p s fun _ _ => True

section Rules

variable {α β : Type} {p : KProg α} {f : α → KProg β} {s : Region}

theorem Clean.bind (hp : Clean p) (hf : ∀ a, Clean (f a)) : Clean (p >>= f) := by
  intro s
  rw [Monitor.wp_bind]
  exact Monitor.wp_mono (hp s) fun s' a _ => hf a s'

theorem clean_pure (a : α) : Clean (pure a : KProg α) := fun _ => trivial

theorem Clean.ite {c : Prop} [Decidable c] {q : KProg α} (hp : c → Clean p) (hq : ¬ c → Clean q) :
    Clean (if c then p else q) := fun s => Monitor.wp_ite.mpr ⟨fun h => hp h s, fun h => hq h s⟩

/-- Inside a region, accesses whose clocks are known and no masking. -/
theorem wp_covered {Q : Region → α → Prop} {a : Access} (hp : p.Emits a.allows)
    (hread : ∀ r, a.reads r → clockOf r ≠ none ∧ s.Covers r) (hwrite : ∀ r, a.writes r → s.Covers r)
    (hmask : ¬ a.masks) (hQ : ∀ r, Q s r) : clocked.wp p s Q := by
  refine Monitor.wp_frame' hp ?_ hQ
  rintro ⟨op, v⟩ he
  cases op with
  | readl r =>
    obtain ⟨hne, hcovers⟩ := hread r he
    refine ⟨hcovers, ?_⟩
    cases r <;> first | rfl | exact absurd rfl hne
  | writel w r => exact ⟨hwrite r he, rfl⟩
  | localIrqSave | localIrqRestore => exact absurd he hmask
  | _ => exact ⟨trivial, rfl⟩

/-- A program that touches no register and does not mask. -/
theorem wp_registerless {Q : Region → α → Prop} (hp : p.Emits registerless.allows)
    (hQ : ∀ r, Q s r) : clocked.wp p s Q :=
  wp_covered hp (fun _ h => h.elim) (fun _ h => h.elim) id hQ

theorem clean_registerless (hp : p.Emits registerless.allows) : Clean p :=
  fun _ => wp_registerless hp fun _ => trivial

theorem clean_op (o : KOp) (ho : ∀ r, registerless.allows ⟨o, r⟩) : Clean (kop o) :=
  clean_registerless ((Prog.emits_op o).mpr ho)

end Rules

theorem clean_traced {α : Type} {f : KFn} {result : α → Int} {p : KProg α} (hp : Clean p) :
    Clean (traced f result p) :=
  (clean_op (.enter f) fun _ => trivial).bind fun _ => hp.bind fun a =>
    (clean_op (.leave f (result a)) fun _ => trivial).bind fun _ => clean_pure a

section Functions

variable {s : Region}

/-! ### Regions -/

theorem wp_maskCpu {Q : Region → Word → Prop} (hQ : ∀ flags, Q .entered flags) :
    clocked.wp maskCpu s Q :=
  fun _ _ => ⟨trivial, fun flags _ => ⟨trivial, fun _ _ => ⟨trivial, hQ flags⟩⟩⟩

theorem wp_unmaskCpu {Q : Region → Unit → Prop} (flags : Word) (hQ : Q .outside ()) :
    clocked.wp (unmaskCpu flags) s Q :=
  fun _ _ => ⟨trivial, fun _ _ => ⟨trivial, hQ⟩⟩

theorem clean_unmaskCpu (flags : Word) : Clean (unmaskCpu flags) :=
  fun _ => wp_unmaskCpu flags trivial

/-- A body that is safe in a region it finds open opens a clean one. -/
theorem Clean.masked {α : Type} {f : Word → KProg α}
    (hf : ∀ flags, clocked.wp (f flags) .entered fun _ _ => True) : Clean (maskCpu >>= f) :=
  fun _ => Monitor.wp_bind.mpr (wp_maskCpu hf)

theorem wp_readClock {Q : Region → Word → Prop} (c : Nat)
    (hQ : ∀ v, Q (s.learn c (decide (Functional v))) v) :
    clocked.wp (readl (.clocks c)) s Q :=
  fun v _ => ⟨fun _ h => (nomatch h), hQ v⟩

theorem wp_mailboxFunctional {Q : Region → Bool → Prop}
    (hQ : ∀ ok, Q (s.learn prussClock ok) ok) :
    clocked.wp mailboxFunctional s Q :=
  Monitor.wp_bind.mpr (wp_readClock prussClock fun _ => hQ _)

/-- PRUSS was found functional. -/
theorem covers_pruss {r : Reg} (hr : clockOf r = some prussClock) (hs : s.masked = true)
    (hknown : s.known prussClock = true) : s.Covers r := by
  intro c hc
  obtain rfl : prussClock = c := Option.some.inj (hr.symm.trans hc)
  exact ⟨hs, hknown⟩

/-- A body that touches the mailbox only, in a region with PRUSS functional. -/
theorem wp_mailbox {α : Type} {p : KProg α} {Q : Region → α → Prop} (hp : p.Emits mailboxReads.allows)
    (hs : s.masked = true) (hknown : s.known prussClock = true) (hQ : ∀ a, Q s a) :
    clocked.wp p s Q := by
  refine wp_covered hp (fun r hr => ?_) (fun _ h => h.elim) id hQ
  cases r <;> first | exact ⟨by simp [clockOf], covers_pruss rfl hs hknown⟩ | cases hr

/-! ### The engines -/

/-- The two regions differ in what is known of engine clocks only. -/
def Region.SameBut (s s' : Region) : Prop :=
  s'.masked = s.masked ∧ ∀ c, (∀ i, c ≠ (engines i).clockOffset) → s'.known c = s.known c

theorem Region.SameBut.refl (s : Region) : s.SameBut s := ⟨rfl, fun _ _ => rfl⟩

theorem Region.SameBut.trans {s s' s'' : Region} (h : s.SameBut s') (h' : s'.SameBut s'') :
    s.SameBut s'' :=
  ⟨h'.1.trans h.1, fun c hc => (h'.2 c hc).trans (h.2 c hc)⟩

theorem wp_engineIdle (i : Fin 6) (hs : s.masked = true) :
    clocked.wp (engineIdle i) s fun s' _ => s.SameBut s' := by
  refine Monitor.wp_bind.mpr (wp_readClock _ fun clock => ?_)
  have hsame : s.SameBut (s.learn (engines i).clockOffset (decide (Functional clock))) :=
    ⟨rfl, fun c hc => Function.update_of_ne (hc i) _ _⟩
  refine Monitor.wp_ite.mpr ⟨fun _ => hsame, fun _ => ?_⟩
  refine Monitor.wp_ite.mpr ⟨fun _ => hsame, fun hmode => ?_⟩
  -- the status is read with the engine's own clock functional
  simp only [not_or, not_not] at hmode
  have hclock : Functional clock := functional_of_mode hmode.1 hmode.2
  refine fun status _ => ⟨?_, ?_⟩
  · rintro c ⟨⟩
    exact ⟨hs, by simp [Region.learn, hclock]⟩
  · exact Monitor.wp_ite.mpr ⟨fun _ => hsame, fun _ => hsame⟩

theorem wp_enginesIdle (is : List (Fin 6)) (hs : s.masked = true) :
    clocked.wp (enginesIdle is) s fun s' _ => s.SameBut s' := by
  induction is generalizing s with
  | nil => exact .refl s
  | cons i rest ih =>
    refine Monitor.wp_bind.mpr (Monitor.wp_mono (wp_engineIdle i hs) fun s' blocked hsame => ?_)
    cases blocked with
    | some status => exact hsame
    | none => exact Monitor.wp_mono (ih (hsame.1.trans hs)) fun _ _ h => hsame.trans h

theorem wp_otherDmaIdle (request : DldQuietSend) (hs : s.masked = true) :
    clocked.wp (otherDmaIdle request) s fun s' _ => s.SameBut s' := by
  refine Monitor.wp_bind.mpr (Monitor.wp_mono (wp_enginesIdle _ hs) fun s' blocked hsame => ?_)
  cases blocked <;> exact hsame

/-- The admission loop is clean if one attempt is. -/
theorem clean_dldAdmissionWait {attempt : DldQuietSend → KProg (DldQuietSend × Int × Bool)}
    (hattempt : ∀ request, Clean (attempt request)) (request : DldQuietSend) (idleOnly : Bool) :
    Clean (dldAdmissionWait ktimeGet attempt usleepRange request idleOnly) := by
  have htime : Clean ktimeGet := clean_op .ktimeGet fun _ => trivial
  have hpause : Clean usleepRange := clean_op .usleepRange fun _ => trivial
  have hloop (deadline : Int) (n : Nat) (request : DldQuietSend) :
      Clean (admissionLoop ktimeGet attempt usleepRange idleOnly deadline n request) := by
    induction n generalizing request with
    | zero => exact clean_pure _
    | succ n ih =>
      refine htime.bind fun now => Clean.ite (fun _ => clean_pure _) fun _ => ?_
      refine (hattempt request).bind fun ⟨request, result, granted⟩ => ?_
      refine Clean.ite (fun _ => hpause.bind fun _ => ih request) fun _ => ?_
      refine Clean.ite (fun _ => htime.bind fun now => ?_) fun _ => clean_pure _
      exact Clean.ite (fun _ => clean_pure _) fun _ => clean_pure _
  exact htime.bind fun now => hloop _ _ request

theorem clean_waitOtherDma (request : DldQuietSend) : Clean (waitOtherDma request) := by
  refine clean_dldAdmissionWait (fun request => Clean.masked fun flags => ?_) request true
  refine Monitor.wp_bind.mpr (Monitor.wp_mono (wp_otherDmaIdle request rfl) fun s' r _ => ?_)
  exact (clean_unmaskCpu flags).bind (fun _ => clean_pure _) s'

/-! ### Preflight -/

theorem clean_fixedCpu (policy : Bool) : Clean (fixedCpu policy) :=
  clean_registerless (emits_fixedCpu policy)

/-- In the region `body` runs only if PRUSS is functional. -/
theorem wp_ifFunctional {α : Type} {body skip : KProg α} (hs : s.masked = true)
    (hbody : ∀ s' : Region, s'.masked = true → s'.known prussClock = true →
      clocked.wp body s' fun _ _ => True)
    (hskip : ∀ s', clocked.wp skip s' fun _ _ => True) :
    clocked.wp (mailboxFunctional >>= fun functional => if functional then body else skip) s
      fun _ _ => True := by
  refine Monitor.wp_bind.mpr (wp_mailboxFunctional fun ok => ?_)
  refine Monitor.wp_ite.mpr ⟨fun hok => hbody _ hs ?_, fun _ => hskip _⟩
  simpa [Region.learn] using hok

theorem clean_checkPlatform (request : DldQuietSend) : Clean (checkPlatform request) := by
  refine (clean_op .numOnlineCpus fun _ => trivial).bind fun _ =>
    Clean.ite (fun _ => clean_pure _) fun _ => ?_
  refine (clean_op .cpuOnline fun _ => trivial).bind fun _ =>
    Clean.ite (fun _ => clean_pure _) fun _ => ?_
  refine (clean_op .cpufreqCpuGet fun _ => trivial).bind fun policy => ?_
  refine (clean_fixedCpu policy).bind fun _ => Clean.ite (fun _ => clean_pure _) fun _ => ?_
  have hpreempt : Clean (kop .preemptDisable) ∧ Clean (kop .preemptEnable) :=
    ⟨fun _ _ _ => ⟨trivial, trivial⟩, fun _ _ _ => ⟨trivial, trivial⟩⟩
  refine hpreempt.1.bind fun _ => ?_
  refine (clean_registerless emits_pmuReady).bind fun _ => ?_
  refine hpreempt.2.bind fun _ =>
    Clean.ite (fun _ => clean_pure _) fun _ => ?_
  refine Clean.masked fun flags => wp_ifFunctional rfl (fun s' hs hknown => ?_) fun s' => ?_
  · refine Monitor.wp_bind.mpr (wp_mailbox (emits_validate (fun _ => rfl) _) hs hknown fun r => ?_)
    exact (clean_unmaskCpu flags).bind (fun _ => clean_pure _) s'
  · exact (clean_unmaskCpu flags).bind (fun _ => clean_pure _) s'

theorem clean_acquireSystem (request : DldQuietSend) (held : Held) :
    Clean (acquireSystem request held) := by
  refine (clean_op .rtnlTrylock fun _ => trivial).bind fun _ =>
    Clean.ite (fun _ => clean_pure _) fun _ => ?_
  refine (clean_registerless emits_acquireNet).bind fun ⟨net, usable⟩ =>
    Clean.ite (fun _ => clean_pure _) fun _ => ?_
  refine (clean_op .pmRuntimeGetSync fun _ => trivial).bind fun _ =>
    Clean.ite (fun _ => clean_pure _) fun _ => ?_
  refine (clean_waitOtherDma request).bind fun ⟨request, error⟩ =>
    Clean.ite (fun _ => clean_pure _) fun _ => ?_
  exact (clean_op .signalPending fun _ => trivial).bind fun _ =>
    Clean.ite (fun _ => clean_pure _) fun _ => clean_pure _

/-! ### The gate and the bank -/

theorem clean_waitGate (request : DldQuietSend) (ordinal : Word) (final : Bool) :
    Clean (waitGate request ordinal final) := by
  have htime : Clean ktimeGet := clean_op .ktimeGet fun _ => trivial
  have hpause : Clean usleepRange := clean_op .usleepRange fun _ => trivial
  have hbatch : (gateBatch request ordinal final).Emits mailboxReads.allows :=
    emits_gateBatch (fun _ => rfl) _ _ _
  have hloop (deadline : Int) (n : Nat) :
      Clean (waitGateLoop request ordinal final deadline n) := by
    induction n with
    | zero => exact clean_pure _
    | succ n ih =>
      refine htime.bind fun now => Clean.ite (fun _ => clean_pure _) fun _ => ?_
      refine Clean.masked fun flags => Monitor.wp_bind.mpr (wp_mailboxFunctional fun ok => ?_)
      refine Monitor.wp_ite.mpr ⟨fun _ => ?_, fun hok => ?_⟩
      · exact (clean_unmaskCpu flags).bind (fun _ => clean_pure _) _
      · refine Monitor.wp_bind.mpr (wp_mailbox hbatch rfl (by simpa [Region.learn] using hok) ?_)
        refine fun ⟨status, error, isMatch⟩ => (clean_unmaskCpu flags).bind (fun _ => ?_) _
        refine Clean.ite (fun _ => clean_pure _) fun _ => ?_
        refine Clean.ite (fun _ => htime.bind fun _ => clean_pure _) fun _ => ?_
        exact hpause.bind fun _ => ih
  exact clean_traced (htime.bind fun now => hloop _ _)

theorem wp_grantBank {Q : Region → DldQuietSend × Int → Prop} (request : DldQuietSend) (bank : Bank)
    (hs : s.masked = true) (hknown : s.known prussClock = true) (hQ : ∀ r, Q s r) :
    clocked.wp (grantBank request bank) s Q := by
  have hcovers (off : Off) : s.Covers (.mailbox off) := covers_pruss rfl hs hknown
  have hgrant : (grantBank request bank).Emits (Access.allows
      { reads := (Reg.isMailbox · = true), writes := (Reg.isMailbox · = true) }) :=
    emits_grantBank rfl rfl request bank
  refine wp_covered hgrant (fun r hr => ?_) (fun r hr => ?_) id hQ
  · cases r <;> first | exact ⟨by simp [clockOf], hcovers _⟩ | cases hr
  · cases r <;> first | exact hcovers _ | cases hr

theorem wp_withdrawBank (request : DldQuietSend) (bank : Bank) (error : Int)
    (hs : s.masked = true) : clocked.wp (withdrawBank request bank error) s fun s' _ =>
      s'.masked = true ∧ s'.known cpswClock = s.known cpswClock := by
  refine Monitor.wp_ite.mpr ⟨fun _ => ?_, fun _ => ⟨hs, rfl⟩⟩
  refine Monitor.wp_bind.mpr (wp_mailboxFunctional fun ok => ?_)
  have hkeep : (s.learn prussClock ok).known cpswClock = s.known cpswClock :=
    s.learn_known_of_ne ok (by decide)
  refine Monitor.wp_ite.mpr ⟨fun hok => ?_, fun _ => ⟨hs, hkeep⟩⟩
  have hcovers {r : Reg} (hr : clockOf r = some prussClock) : (s.learn prussClock ok).Covers r :=
    covers_pruss hr hs (by simpa [Region.learn] using hok)
  exact fun _ _ => ⟨hcovers rfl, fun _ _ => ⟨hcovers rfl, fun _ _ => ⟨trivial, hs, hkeep⟩⟩⟩

/-- The CPSW clock is known where the control word was changed. -/
theorem wp_restoreDma (request : DldQuietSend) (bank : Bank) (changedDma : Option Word)
    (error : Int) (hs : s.masked = true) (hcpsw : changedDma ≠ none → s.known cpswClock = true) :
    clocked.wp (restoreDma request bank changedDma error) s fun _ _ => True := by
  cases changedDma with
  | none => trivial
  | some saved =>
    have hcovers (o : Nat) : s.Covers (.cpsw o) := by
      rintro c ⟨⟩
      exact ⟨hs, hcpsw (by simp)⟩
    have hemits : (restoreDma request bank (some saved) error).Emits (Access.allows
        { reads := (Reg.isCpsw · = true), writes := (Reg.isCpsw · = true) }) :=
      emits_restoreDma (fun _ => rfl) (fun _ => rfl) _ _ _ _
    refine wp_covered hemits (fun r hr => ?_) (fun r hr => ?_) id fun _ => trivial
    · cases r <;> first | exact ⟨by simp [clockOf], hcovers _⟩ | cases hr
    · cases r <;> first | exact hcovers _ | cases hr

theorem wp_finishBank (request : DldQuietSend) (bank : Bank) (changedDma : Option Word)
    (flags start : Word) (error : Int) (hs : s.masked = true)
    (hcpsw : changedDma ≠ none → s.known cpswClock = true) :
    clocked.wp (finishBank request bank changedDma flags start error) s fun _ _ => True := by
  refine Monitor.wp_bind.mpr (Monitor.wp_mono (wp_withdrawBank request bank error hs) ?_)
  rintro s' _ ⟨hs', hknown⟩
  refine Monitor.wp_bind.mpr (Monitor.wp_mono (wp_restoreDma _ _ _ _ hs' fun h => ?_) ?_)
  · exact hknown.trans (hcpsw h)
  · rintro s'' ⟨request, error⟩ -
    refine (clean_op .ccnt fun _ => trivial).bind (fun _ => ?_) s''
    exact (clean_unmaskCpu flags).bind fun _ => clean_pure _

theorem wp_drainDma (request : DldQuietSend) (bank : Bank) (saved : Word) (hs : s.masked = true)
    (hknown : s.known cpswClock = true) :
    clocked.wp (drainDma request bank saved) s fun s' _ => s' = s := by
  have hcovers (o : Nat) : s.Covers (.cpsw o) := by
    rintro c ⟨⟩
    exact ⟨hs, hknown⟩
  have hemits : (drainDma request bank saved).Emits (Access.allows
      { reads := (Reg.isCpsw · = true), writes := (Reg.isCpsw · = true) }) :=
    emits_drainDma (fun _ => rfl) (fun _ => rfl) _ _ _
  refine wp_covered hemits (fun r hr => ?_) (fun r hr => ?_) id fun _ => rfl
  · cases r <;> first | exact ⟨by simp [clockOf], hcovers _⟩ | cases hr
  · cases r <;> first | exact hcovers _ | cases hr

/-- The admission keeps the region, with PRUSS known where it succeeds and
CPSW where it has changed the control word. -/
theorem wp_admitBank (request : DldQuietSend) (policy : Bool) (bank : Bank)
    (hs : s.masked = true) : clocked.wp (admitBank request policy bank) s fun s' attempt =>
      s'.masked = true ∧ (attempt.error = 0 → s'.known prussClock = true) ∧
        (attempt.changedDma ≠ none → s'.known cpswClock = true) := by
  have hpruss (i : Fin 6) : prussClock ≠ (engines i).clockOffset := by revert i; decide
  have hcpsw (i : Fin 6) : cpswClock ≠ (engines i).clockOffset := by revert i; decide
  refine Monitor.wp_bind.mpr (wp_registerless (emits_fixedCpu policy) fun fixed => ?_)
  refine Monitor.wp_ite.mpr ⟨fun _ => ⟨hs, fun h => (nomatch h), fun h => absurd rfl h⟩, fun _ => ?_⟩
  refine Monitor.wp_bind.mpr (wp_registerless emits_pmuReady fun ready => ?_)
  refine Monitor.wp_ite.mpr ⟨fun _ => ⟨hs, fun h => (nomatch h), fun h => absurd rfl h⟩, fun _ => ?_⟩
  refine Monitor.wp_bind.mpr (wp_mailboxFunctional fun ok => ?_)
  refine Monitor.wp_ite.mpr ⟨fun _ => ⟨hs, fun h => (nomatch h), fun h => absurd rfl h⟩, fun hok => ?_⟩
  -- the first pass over the engines
  have hs₁ : (s.learn prussClock ok).masked = true := hs
  have hknown₁ : (s.learn prussClock ok).known prussClock = true := by
    simpa [Region.learn] using hok
  refine Monitor.wp_bind.mpr (Monitor.wp_mono (wp_otherDmaIdle request hs₁) ?_)
  rintro s₂ ⟨request, error⟩ hsame₂
  have hs₂ := hsame₂.1.trans hs₁
  have hknown₂ := (hsame₂.2 _ hpruss).trans hknown₁
  refine Monitor.wp_ite.mpr ⟨fun h => ⟨hs₂, fun h0 => absurd h0 h, fun h => absurd rfl h⟩, fun _ => ?_⟩
  refine Monitor.wp_bind.mpr (wp_readClock cpswClock fun status => ?_)
  have hknown₃ : (s₂.learn cpswClock (decide (Functional status))).known prussClock = true :=
    (s₂.learn_known_of_ne _ (by decide)).trans hknown₂
  refine Monitor.wp_ite.mpr ⟨fun _ => ⟨hs₂, fun h => (nomatch h), fun h => absurd rfl h⟩, ?_⟩
  intro hstatus
  have hcpsw₃ : (s₂.learn cpswClock (decide (Functional status))).known cpswClock = true := by
    simpa [Region.learn] using hstatus
  -- CPSW
  refine fun saved _ => ⟨?_, ?_⟩
  · rintro c ⟨⟩
    exact ⟨hs₂, hcpsw₃⟩
  refine Monitor.wp_ite.mpr ⟨fun _ => ⟨hs₂, fun h => (nomatch h), fun h => absurd rfl h⟩, fun _ => ?_⟩
  refine Monitor.wp_bind.mpr (Monitor.wp_mono (wp_drainDma request bank saved hs₂ hcpsw₃) ?_)
  rintro _ attempt rfl
  refine Monitor.wp_ite.mpr ⟨fun h => ⟨hs₂, fun h0 => absurd h0 h, fun _ => hcpsw₃⟩, fun _ => ?_⟩
  -- the second pass
  refine Monitor.wp_bind.mpr (Monitor.wp_mono (wp_otherDmaIdle _ hs₂) ?_)
  rintro s₄ ⟨request, error⟩ hsame₄
  exact ⟨hsame₄.1.trans hs₂, fun _ => (hsame₄.2 _ hpruss).trans hknown₃,
    fun _ => (hsame₄.2 _ hcpsw).trans hcpsw₃⟩

theorem clean_tryBank (request : DldQuietSend) (policy : Bool) (bank : Bank) :
    Clean (tryBank request policy bank) := by
  refine clean_traced (Clean.masked fun flags => ?_)
  refine Monitor.wp_bind.mpr (wp_registerless ((Prog.emits_op _).mpr fun _ => trivial) fun start => ?_)
  refine Monitor.wp_bind.mpr (Monitor.wp_mono (wp_admitBank _ policy bank rfl) ?_)
  rintro s ⟨request, changedDma, error⟩ ⟨hs, hpruss, hcpsw⟩
  refine Monitor.wp_ite.mpr ⟨fun _ => wp_finishBank _ _ _ _ _ _ hs hcpsw, fun herror => ?_⟩
  refine Monitor.wp_bind.mpr (wp_grantBank request bank hs (hpruss (not_not.mp herror)) fun r => ?_)
  exact wp_finishBank _ _ _ _ _ _ hs hcpsw

theorem clean_runBank (request : DldQuietSend) (policy : Bool) (bank : Bank) :
    Clean (runBank request policy bank) :=
  clean_traced (clean_dldAdmissionWait (fun request =>
    (clean_tryBank request policy bank).bind fun _ => clean_pure _) request false)

end Functions

end Dld
