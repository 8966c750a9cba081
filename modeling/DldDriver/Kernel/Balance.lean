/-
DldDriver/Kernel/Balance.lean

What `perform_send` takes and what it gives back.

`balance` watches six resources beside the `exclusion` of the CPU: its state
counts how often each is held.  A release is safe only of what is held, and
whatever may sleep is safe only with the CPU as it was on entry.

`Inert` operations concern neither; the bodies of the masked regions perform
nothing else.  A function that opens its own regions `Keeps` the state it
starts in, and only `checkPlatform`, `acquireSystem` and `sendDone` change what is held.
-/
import DldDriver.Kernel.Restore

namespace Dld

open Interaction

/-! ### The resources -/

/-- What a call of `perform_send` may hold. -/
inductive KResource
  | sendMutex
  | onlineCpus
  | policy
  | rtnl
  | net
  | power
  deriving DecidableEq

/-- The resource an event takes.  The usage count of runtime PM is taken
even on an error. -/
def acquired : KEvent → Option KResource
  | ⟨.mutexTrylock, true⟩ => some .sendMutex
  | ⟨.getOnlineCpus, _⟩ => some .onlineCpus
  | ⟨.cpufreqCpuGet, true⟩ => some .policy
  | ⟨.rtnlTrylock, true⟩ => some .rtnl
  | ⟨.devGetByName, true⟩ => some .net
  | ⟨.pmRuntimeGetSync, _⟩ => some .power
  | _ => none

/-- The resource an event gives back. -/
def released : KEvent → Option KResource
  | ⟨.mutexUnlock, _⟩ => some .sendMutex
  | ⟨.putOnlineCpus, _⟩ => some .onlineCpus
  | ⟨.cpufreqCpuPut, _⟩ => some .policy
  | ⟨.rtnlUnlock, _⟩ => some .rtnl
  | ⟨.devPut, _⟩ => some .net
  | ⟨.pmRuntimePut, _⟩ => some .power
  | _ => none

/-- How often `t` takes a resource. -/
def acquisitions (o : KResource) (t : List KEvent) : Nat :=
  t.countP fun e => decide (acquired e = some o)

/-- How often `t` gives a resource back. -/
def releasings (o : KResource) (t : List KEvent) : Nat :=
  t.countP fun e => decide (released e = some o)

/-! ### The monitor -/

/-- The pauses, `cond_resched`, and the services of the kernel that may put
the caller to sleep. -/
def MaySleep (e : KEvent) : Prop :=
  match e.1 with
  | .usleepRange | .condResched => True
  | _ => acquired e ≠ none ∨ released e ≠ none

/-- How often each resource is held, and the CPU. -/
structure Balance where
  held : KResource → Nat
  cpu : Cpu

/-- The balance after an event. -/
def Balance.next (s : Balance) (e : KEvent) : Balance where
  held o := s.held o + (if acquired e = some o then 1 else 0) -
    (if released e = some o then 1 else 0)
  cpu := exclusion.next s.cpu e

/-- Nothing is given back that is not held, and nothing sleeps but with the
CPU as on entry. -/
def balance (entry : Cpu) : Monitor KOp KOp.Res Balance where
  env s e := exclusion.env s.cpu e
  safe s e := (∀ o, released e = some o → 0 < s.held o) ∧ (MaySleep e → s.cpu = entry)
  next := Balance.next

/-- Nothing is held. -/
def Balance.empty (entry : Cpu) : Balance := ⟨fun _ => 0, entry⟩

/-- Operations that take nothing, give nothing back, leave the CPU alone and
do not sleep. -/
def Inert : KOp → Prop
  | .usleepRange | .condResched | .preemptDisable | .preemptEnable | .localIrqSave
  | .localFiqDisable | .localIrqRestore _ | .mutexTrylock | .mutexUnlock | .getOnlineCpus
  | .putOnlineCpus | .cpufreqCpuGet | .cpufreqCpuPut | .rtnlTrylock | .rtnlUnlock
  | .devGetByName | .devPut | .pmRuntimeGetSync | .pmRuntimePut => False
  | _ => True

section Monitor

variable {entry : Cpu} {s : Balance}

theorem Inert.acquired_eq {e : KEvent} (he : Inert e.1) : acquired e = none := by
  obtain ⟨op, v⟩ := e
  cases op <;> first | rfl | exact he.elim

theorem Inert.released_eq {e : KEvent} (he : Inert e.1) : released e = none := by
  obtain ⟨op, v⟩ := e
  cases op <;> first | rfl | exact he.elim

theorem Inert.not_maySleep {e : KEvent} (he : Inert e.1) : ¬ MaySleep e := by
  have hacquired := he.acquired_eq
  have hreleased := he.released_eq
  obtain ⟨op, v⟩ := e
  cases op <;> first | exact he.elim | simp [MaySleep, hacquired, hreleased]

theorem Inert.cpu_next {e : KEvent} (he : Inert e.1) (cpu : Cpu) : exclusion.next cpu e = cpu := by
  obtain ⟨op, v⟩ := e
  cases op <;> first | rfl | exact he.elim

theorem Inert.next_eq {e : KEvent} (he : Inert e.1) (s : Balance) : s.next e = s := by
  obtain ⟨held, cpu⟩ := s
  simp [Balance.next, he.acquired_eq, he.released_eq, he.cpu_next]

/-- Along a safe run the counts balance: what was held and what was taken is
what is held and what was given back. -/
theorem held_run {t : List KEvent} (hsafe : (balance entry).SafeAlong s t) (o : KResource) :
    ((balance entry).run s t).held o + releasings o t = s.held o + acquisitions o t := by
  induction t generalizing s with
  | nil => rfl
  | cons e t ih =>
    have hstep : (s.next e).held o + (if released e = some o then 1 else 0) =
        s.held o + (if acquired e = some o then 1 else 0) := by
      have hpos := hsafe.1.1 o
      show s.held o + _ - _ + _ = _
      by_cases hr : released e = some o
      · have := hpos hr
        rw [if_pos hr]
        omega
      · rw [if_neg hr]
        omega
    have hrest := ih hsafe.2
    show ((balance entry).run (s.next e) t).held o + _ = _
    simp only [releasings, acquisitions, List.countP_cons, decide_eq_true_eq] at hrest ⊢
    show _ + (_ + _) = _ + (_ + _)
    have hrest' : ((balance entry).run (s.next e) t).held o +
        t.countP (fun e => decide (released e = some o)) = (s.next e).held o +
        t.countP (fun e => decide (acquired e = some o)) := hrest
    omega

/-- The CPU of the monitor is the CPU after the events. -/
theorem cpu_run (t : List KEvent) :
    ((balance entry).run s t).cpu = exclusion.run s.cpu t := by
  induction t generalizing s with
  | nil => rfl
  | cons e t ih => exact ih

/-- What the environment promises depends on the CPU only. -/
theorem balance_envAlong {t : List KEvent} (h : exclusion.EnvAlong s.cpu t) :
    (balance entry).EnvAlong s t := by
  induction t generalizing s with
  | nil => trivial
  | cons e t ih => exact ⟨h.1, ih h.2⟩

end Monitor

/-! ### The bodies of the regions -/

/-- A program all of whose operations are inert. -/
def Still {α : Type} (p : KProg α) : Prop := p.Emits fun e => Inert e.1

section Bodies

variable {α β : Type} {p : KProg α}

theorem Still.bind {f : α → KProg β} (hp : Still p) (hf : ∀ a, Still (f a)) : Still (p >>= f) :=
  Prog.emits_bind hp hf

theorem still_pure (a : α) : Still (pure a : KProg α) := Prog.emits_pure a

theorem still_op (o : KOp) (ho : Inert o) : Still (kop o) := (Prog.emits_op o).mpr fun _ => ho

theorem Still.ite {c : Prop} [Decidable c] {q : KProg α} (hp : c → Still p) (hq : ¬ c → Still q) :
    Still (if c then p else q) := Prog.emits_ite hp hq

theorem still_readl (r : Reg) : Still (readl r) := still_op _ trivial

theorem still_writel (v : Word) (r : Reg) : Still (writel v r) := still_op _ trivial

theorem still_drainWrites : Still drainWrites := still_op _ trivial

theorem still_ccnt : Still ccnt := still_op _ trivial

theorem still_mailboxFunctional : Still mailboxFunctional :=
  (still_readl _).bind fun _ => still_pure _

theorem still_fixedCpu (policy : Bool) : Still (fixedCpu policy) := by
  have hop (o : KOp) (ho : Inert o) {f : o.Res → KProg Bool} (c : o.Res → Prop)
      [∀ r, Decidable (c r)] (hf : ∀ r, Still (f r)) :
      Still (kop o >>= fun r => if c r then pure false else f r) :=
    (still_op o ho).bind fun r => Still.ite (fun _ => still_pure _) fun _ => hf r
  apply hop .numOnlineCpus trivial
  intro _
  apply hop .cpuOnline trivial
  intro _
  apply Still.ite (fun _ => still_pure _)
  intro _
  apply hop .policyMin trivial
  intro _
  apply hop .policyMax trivial
  intro _
  exact (still_op .policyCur trivial).bind fun _ => still_pure _

theorem still_pmuReady : Still pmuReady := by
  unfold Still pmuReady kop ccnt
  simp only [Prog.emits_op_bind, Prog.emits_ite_iff, Prog.emits_pure]
  simp [kop, Inert, Prog.emits_op_bind]

theorem still_engineIdle (i : Fin 6) : Still (engineIdle i) := by
  apply (still_readl _).bind
  intro clock
  apply Still.ite (fun _ => still_pure _)
  intro _
  apply Still.ite (fun _ => still_pure _)
  intro _
  exact (still_readl _).bind fun _ => Still.ite (fun _ => still_pure _) fun _ => still_pure _

theorem still_enginesIdle (is : List (Fin 6)) : Still (enginesIdle is) := by
  induction is with
  | nil => exact still_pure _
  | cons i rest ih =>
    apply (still_engineIdle i).bind
    intro blocked
    cases blocked with
    | none => exact ih
    | some status => exact still_pure _

theorem still_otherDmaIdle (request : DldQuietSend) : Still (otherDmaIdle request) := by
  apply (still_enginesIdle _).bind
  intro blocked
  cases blocked <;> exact still_pure _

theorem still_snapshot (request : DldQuietSend) : Still (snapshot request) := by
  unfold Still snapshot readl kop
  simp only [Prog.emits_op_bind]
  simp [Inert]

theorem still_validate (request : DldQuietSend) : Still (validate request) := by
  have hlengths (is : List (Fin 6)) : Still (lengthsMatch request is) := by
    induction is with
    | nil => exact still_pure _
    | cons i rest ih =>
      exact (still_readl _).bind fun _ => Still.ite (fun _ => still_pure _) fun _ => ih
  -- each word is read and compared
  have hword (off : Off) (v : Word) {q : KProg (DldQuietSend × Int)} (hq : Still q) :
      Still (readl (.mailbox off) >>= fun word =>
        if word ≠ v then pure (request, -eProto) else q) :=
    (still_readl _).bind fun _ => Still.ite (fun _ => still_pure _) fun _ => hq
  apply Still.ite (fun _ => still_pure _)
  intro _
  apply Still.ite (fun _ => still_pure _)
  intro _
  apply hword .magic
  apply hword .abiVersion
  apply hword .profileId
  apply (hlengths _).bind
  intro same
  apply Still.ite (fun _ => still_pure _)
  intro _
  exact (still_snapshot request).bind fun _ => still_pure _

theorem still_gateBatch (request : DldQuietSend) (ordinal : Word) (final : Bool) :
    Still (gateBatch request ordinal final) := by
  apply (still_readl _).bind
  intro status
  apply (still_readl _).bind
  intro error
  apply (still_readl _).bind
  intro accepted
  apply Still.ite
  · exact fun _ => (still_readl _).bind fun _ => still_pure _
  · exact fun _ => (still_readl _).bind fun _ => still_pure _

theorem still_timerStart (r2 r3 : Word) : Still (timerStart r2 r3) := by
  have hloop (r4 : Word) (n : Nat) : Still (timerLoop r2 r4 n) := by
    induction n with
    | zero => exact still_ccnt.bind fun _ => Still.ite (fun _ => still_pure _) fun _ => still_pure _
    | succ n ih => exact still_ccnt.bind fun _ => Still.ite (fun _ => still_pure _) fun _ => ih
  exact still_ccnt.bind fun r4 => hloop r4 _

theorem still_grantBank (request : DldQuietSend) (bank : Bank) :
    Still (grantBank request bank) := by
  have hbarrier : Still (kop .barrier) := still_op _ trivial
  have hentry (cycles cap : Word) : Still (dldQuietBankEntry bank.ordinal cycles cap) := by
    apply (still_timerStart _ _).bind
    intro warm
    apply Still.ite (fun _ => still_pure _)
    intro _
    apply hbarrier.bind
    intro _
    apply (still_writel _ _).bind
    intro _
    apply hbarrier.bind
    intro _
    apply (still_timerStart _ _).bind
    intro elapsed
    exact hbarrier.bind fun _ => (still_readl _).bind fun _ => still_pure _
  apply (hentry _ _).bind
  intro r
  apply Still.ite (fun _ => still_pure _)
  intro _
  exact Still.ite (fun _ => still_pure _) fun _ => still_pure _

theorem still_drainDma (request : DldQuietSend) (bank : Bank) (saved : Word) :
    Still (drainDma request bank saved) := by
  have hloop (start : Word) (n : Nat) (status : Word) : Still (drainLoop start n status) := by
    induction n generalizing status with
    | zero => exact still_pure _
    | succ n ih =>
      apply (still_readl _).bind
      intro status
      apply Still.ite (fun _ => still_pure _)
      intro _
      apply Still.ite (fun _ => still_pure _)
      intro _
      exact still_ccnt.bind fun _ => Still.ite (fun _ => still_pure _) fun _ => ih _
  apply (still_writel _ _).bind
  intro _
  apply still_drainWrites.bind
  intro _
  apply (still_readl _).bind
  intro control
  apply Still.ite (fun _ => still_pure _)
  intro _
  apply still_ccnt.bind
  intro start
  apply (hloop _ _ _).bind
  intro r
  exact still_ccnt.bind fun _ => Still.ite (fun _ => still_pure _) fun _ => still_pure _

theorem still_admitBank (request : DldQuietSend) (policy : Bool) (bank : Bank) :
    Still (admitBank request policy bank) := by
  apply (still_fixedCpu policy).bind
  intro fixed
  apply Still.ite (fun _ => still_pure _)
  intro _
  apply still_pmuReady.bind
  intro ready
  apply Still.ite (fun _ => still_pure _)
  intro _
  apply still_mailboxFunctional.bind
  intro functional
  apply Still.ite (fun _ => still_pure _)
  intro _
  apply (still_otherDmaIdle request).bind
  intro r
  apply Still.ite (fun _ => still_pure _)
  intro _
  apply (still_readl _).bind
  intro status
  apply Still.ite (fun _ => still_pure _)
  intro _
  apply (still_readl _).bind
  intro saved
  apply Still.ite (fun _ => still_pure _)
  intro _
  apply (still_drainDma _ _ _).bind
  intro attempt
  apply Still.ite (fun _ => still_pure _)
  intro _
  exact (still_otherDmaIdle _).bind fun _ => still_pure _

theorem still_withdrawBank (request : DldQuietSend) (bank : Bank) (error : Int) :
    Still (withdrawBank request bank error) := by
  apply Still.ite _ (fun _ => still_pure _)
  intro _
  apply still_mailboxFunctional.bind
  intro functional
  apply Still.ite _ (fun _ => still_pure _)
  intro _
  exact (still_writel _ _).bind fun _ => (still_writel _ _).bind fun _ => still_drainWrites

theorem still_restoreDma (request : DldQuietSend) (bank : Bank) (changedDma : Option Word)
    (error : Int) : Still (restoreDma request bank changedDma error) := by
  cases changedDma with
  | none => exact still_pure _
  | some saved =>
    apply (still_writel _ _).bind
    intro _
    apply still_drainWrites.bind
    intro _
    apply (still_readl _).bind
    intro control
    apply still_drainWrites.bind
    intro _
    exact Still.ite (fun _ => still_pure _) fun _ => still_pure _

theorem still_pollCores (request : DldQuietSend) (pending : Word) (cores : List (Fin 2)) :
    Still (pollCores request pending cores) := by
  induction cores generalizing request pending with
  | nil => exact still_pure _
  | cons core rest ih =>
    apply Still.ite (fun _ => ih _ _)
    intro _
    apply (still_readl _).bind
    intro control
    exact Still.ite (fun _ => (still_writel _ _).bind fun _ => ih _ _) fun _ => ih _ _

theorem still_clearBanks (request : DldQuietSend) (banks : List (Fin 3)) :
    Still (clearBanks request banks) := by
  have hloop (bank : Fin 3) (n : Nat) : Still (clearLoop bank n) := by
    induction n with
    | zero => exact still_pure _
    | succ n ih =>
      apply (still_writel _ _).bind
      intro _
      apply still_drainWrites.bind
      intro _
      exact (still_readl _).bind fun _ => Still.ite (fun _ => still_pure _) fun _ => ih
  induction banks generalizing request with
  | nil => exact still_pure _
  | cons bank rest ih =>
    apply (still_readl _).bind
    intro clock
    apply Still.ite (fun _ => ih _)
    intro _
    exact (hloop bank 8).bind fun _ => Still.ite (fun _ => ih _) fun _ => ih _

theorem still_publish (request : DldQuietSend) : Still (publish request) := by
  apply (still_writel _ _).bind
  intro _
  apply (still_writel _ _).bind
  intro _
  apply (still_op .barrier trivial).bind
  intro _
  exact (still_writel _ _).bind fun _ => still_drainWrites

end Bodies

/-! ### The regions -/

section Regions

variable {α β : Type} {entry : Cpu} {s : Balance}

/-- What is still changes nothing. -/
theorem Still.wp {p : KProg α} {Q : Balance → α → Prop} (hp : Still p) (hQ : ∀ a, Q s a) :
    (balance entry).wp p s Q := by
  refine Monitor.wp_frame' hp ?_ hQ
  intro e he
  refine ⟨⟨fun o ho => ?_, fun hsleep => absurd hsleep he.not_maySleep⟩, he.next_eq s⟩
  rw [he.released_eq] at ho
  cases ho

/-- The state inside a region. -/
def Balance.masked (s : Balance) : Balance :=
  { s with cpu := ⟨s.cpu.preempt + 1, s.cpu.cpsr ||| irqMask ||| fiqMask⟩ }

/-- An event that gives nothing back and does not sleep. -/
theorem balance_safe {e : KEvent} (hreleased : released e = none) (hawake : ¬ MaySleep e) :
    (balance entry).safe s e :=
  ⟨fun _ ho => (nomatch hreleased.symm.trans ho), fun hsleep => absurd hsleep hawake⟩

/-- The operations on the masks do not sleep. -/
theorem not_none_or : ¬ ((none : Option KResource) ≠ none ∨ (none : Option KResource) ≠ none) := by
  simp

theorem balance_maskCpu {Q : Balance → Word → Prop}
    (hQ : Q s.masked s.cpu.cpsr) : (balance entry).wp maskCpu s Q := by
  intro _ _
  refine ⟨balance_safe rfl not_none_or, fun flags hflags => ?_⟩
  obtain rfl : flags = s.cpu.cpsr := hflags
  refine ⟨balance_safe rfl not_none_or, fun _ _ => ?_⟩
  exact ⟨balance_safe rfl not_none_or, hQ⟩

theorem balance_unmaskCpu {Q : Balance → Unit → Prop} (hQ : Q s ()) :
    (balance entry).wp (unmaskCpu s.cpu.cpsr) s.masked Q := by
  have hback : (s.masked.next ⟨.localIrqRestore s.cpu.cpsr, ()⟩).next ⟨.preemptEnable, ()⟩ = s := by
    obtain ⟨held, ⟨preempt, cpsr⟩⟩ := s
    show (⟨held, ⟨preempt + 1 - 1, _⟩⟩ : Balance) = ⟨held, ⟨preempt, cpsr⟩⟩
    rw [Int.add_sub_cancel]
    exact congrArg (fun cpsr => (⟨held, ⟨preempt, cpsr⟩⟩ : Balance)) (restored_cpsr cpsr)
  intro _ _
  refine ⟨balance_safe rfl not_none_or, fun _ _ => ⟨balance_safe rfl not_none_or, ?_⟩⟩
  show Q ((s.masked.next _).next _) ()
  rw [hback]
  exact hQ

/-- Outside of every region `p` is safe, and leaves the state as it was. -/
def Keeps (entry : Cpu) (p : KProg α) : Prop :=
  ∀ s : Balance, s.cpu = entry → (balance entry).wp p s fun s' _ => s' = s

theorem Keeps.bind {p : KProg α} {f : α → KProg β} (hp : Keeps entry p)
    (hf : ∀ a, Keeps entry (f a)) : Keeps entry (p >>= f) := by
  intro s hs
  refine Monitor.wp_bind.mpr (Monitor.wp_mono (hp s hs) ?_)
  rintro s' a rfl
  exact hf a s' hs

theorem keeps_pure (a : α) : Keeps entry (pure a : KProg α) := fun _ _ => rfl

theorem Keeps.ite {c : Prop} [Decidable c] {p q : KProg α} (hp : c → Keeps entry p)
    (hq : ¬ c → Keeps entry q) : Keeps entry (if c then p else q) :=
  fun s hs => Monitor.wp_ite.mpr ⟨fun h => hp h s hs, fun h => hq h s hs⟩

theorem Still.keeps {p : KProg α} (hp : Still p) : Keeps entry p :=
  fun _ _ => hp.wp fun _ => rfl

theorem keeps_op (o : KOp) (ho : Inert o) : Keeps entry (kop o) := (still_op o ho).keeps

/-- A pause, outside of every region. -/
theorem keeps_usleepRange : Keeps entry usleepRange := by
  intro s hs r _
  exact ⟨⟨fun o ho => (nomatch ho), fun _ => hs⟩, rfl⟩

theorem keeps_condResched : Keeps entry (kop .condResched) := by
  intro s hs r _
  exact ⟨⟨fun o ho => (nomatch ho), fun _ => hs⟩, rfl⟩

theorem keeps_traced {f : KFn} {result : α → Int} {p : KProg α} (hp : Keeps entry p) :
    Keeps entry (traced f result p) :=
  (keeps_op (.enter f) trivial).bind fun _ => hp.bind fun a =>
    (keeps_op (.leave f (result a)) trivial).bind fun _ => keeps_pure a

/-- What runs in a region, with the saved `flags` still to be restored. -/
def Within (entry : Cpu) (p : Word → KProg α) : Prop :=
  ∀ s : Balance, s.cpu = entry → (balance entry).wp (p s.cpu.cpsr) s.masked fun s' _ => s' = s

theorem Within.keeps {p : Word → KProg α} (hp : Within entry p) : Keeps entry (maskCpu >>= p) :=
  fun s hs => Monitor.wp_bind.mpr (balance_maskCpu (hp s hs))

theorem Within.bind {p : KProg α} {f : Word → α → KProg β} (hp : Still p)
    (hf : ∀ a, Within entry fun flags => f flags a) : Within entry fun flags => p >>= f flags :=
  fun s hs => Monitor.wp_bind.mpr (hp.wp fun a => hf a s hs)

theorem Within.ite {c : Prop} [Decidable c] {p q : Word → KProg α} (hp : c → Within entry p)
    (hq : ¬ c → Within entry q) : Within entry fun flags => if c then p flags else q flags :=
  fun s hs => Monitor.wp_ite.mpr ⟨fun h => hp h s hs, fun h => hq h s hs⟩

/-- The region ends, and the rest follows. -/
theorem within_unmask {q : KProg α} (hq : Keeps entry q) :
    Within entry fun flags => unmaskCpu flags >>= fun _ => q :=
  fun s hs => Monitor.wp_bind.mpr (balance_unmaskCpu (hq s hs))

end Regions

/-! ### The functions -/

section Functions

variable {entry : Cpu}

theorem keeps_ktimeGet : Keeps entry ktimeGet := keeps_op .ktimeGet trivial

/-- The admission loop keeps what one attempt keeps. -/
theorem keeps_dldAdmissionWait {attempt : DldQuietSend → KProg (DldQuietSend × Int × Bool)}
    (hattempt : ∀ request, Keeps entry (attempt request)) (request : DldQuietSend)
    (idleOnly : Bool) :
    Keeps entry (dldAdmissionWait ktimeGet attempt usleepRange request idleOnly) := by
  have hloop (deadline : Int) (n : Nat) (request : DldQuietSend) :
      Keeps entry (admissionLoop ktimeGet attempt usleepRange idleOnly deadline n request) := by
    induction n generalizing request with
    | zero => exact keeps_pure _
    | succ n ih =>
      apply keeps_ktimeGet.bind
      intro now
      apply Keeps.ite (fun _ => keeps_pure _)
      intro _
      apply (hattempt request).bind
      rintro ⟨request, result, granted⟩
      apply Keeps.ite (fun _ => keeps_usleepRange.bind fun _ => ih request)
      intro _
      apply Keeps.ite _ (fun _ => keeps_pure _)
      intro _
      apply keeps_ktimeGet.bind
      intro now
      exact Keeps.ite (fun _ => keeps_pure _) fun _ => keeps_pure _
  exact keeps_ktimeGet.bind fun now => hloop _ _ request

theorem keeps_waitOtherDma (request : DldQuietSend) : Keeps entry (waitOtherDma request) := by
  apply keeps_dldAdmissionWait
  intro request
  apply Within.keeps
  apply Within.bind (still_otherDmaIdle request)
  rintro ⟨request, error⟩
  exact within_unmask (keeps_pure _)

theorem keeps_waitGate (request : DldQuietSend) (ordinal : Word) (final : Bool) :
    Keeps entry (waitGate request ordinal final) := by
  have hloop (deadline : Int) (n : Nat) :
      Keeps entry (waitGateLoop request ordinal final deadline n) := by
    induction n with
    | zero => exact keeps_pure _
    | succ n ih =>
      apply keeps_ktimeGet.bind
      intro now
      apply Keeps.ite (fun _ => keeps_pure _)
      intro _
      apply Within.keeps
      apply Within.bind still_mailboxFunctional
      intro functional
      apply Within.ite (fun _ => within_unmask (keeps_pure _))
      intro _
      apply Within.bind (still_gateBatch request ordinal final)
      rintro ⟨status, error, isMatch⟩
      apply within_unmask
      apply Keeps.ite (fun _ => keeps_pure _)
      intro _
      apply Keeps.ite (fun _ => keeps_ktimeGet.bind fun _ => keeps_pure _)
      exact fun _ => keeps_usleepRange.bind fun _ => ih
  exact keeps_traced (keeps_ktimeGet.bind fun now => hloop _ _)

theorem within_finishBank (request : DldQuietSend) (bank : Bank) (changedDma : Option Word)
    (start : Word) (error : Int) :
    Within entry fun flags => finishBank request bank changedDma flags start error := by
  apply Within.bind (still_withdrawBank request bank error)
  intro _
  apply Within.bind (still_restoreDma request bank changedDma error)
  rintro ⟨request, error⟩
  apply Within.bind still_ccnt
  intro now
  exact within_unmask (keeps_pure _)

theorem keeps_tryBank (request : DldQuietSend) (policy : Bool) (bank : Bank) :
    Keeps entry (tryBank request policy bank) := by
  apply keeps_traced
  apply Within.keeps
  apply Within.bind still_ccnt
  intro start
  apply Within.bind (still_admitBank _ policy bank)
  intro attempt
  apply Within.ite (fun _ => within_finishBank _ _ _ _ _)
  intro _
  apply Within.bind (still_grantBank _ bank)
  rintro ⟨request, error⟩
  exact within_finishBank _ _ _ _ _

theorem keeps_runBank (request : DldQuietSend) (policy : Bool) (bank : Bank) :
    Keeps entry (runBank request policy bank) := by
  apply keeps_traced
  apply keeps_dldAdmissionWait
  intro request
  exact (keeps_tryBank request policy bank).bind fun _ => keeps_pure _

theorem keeps_failedFrameCleanup (request : DldQuietSend) :
    Keeps entry (failedFrameCleanup request) := by
  have hdisable : Keeps entry (disableCores request) := by
    apply Within.keeps
    apply Within.bind still_mailboxFunctional
    intro functional
    apply Within.ite
    · intro _
      apply Within.bind (still_writel _ _)
      intro _
      apply Within.bind (still_writel _ _)
      intro _
      apply Within.bind (still_writel _ _)
      intro _
      apply Within.bind still_drainWrites
      exact fun _ => within_unmask (keeps_pure _)
    · exact fun _ => within_unmask (keeps_pure _)
  have hstop (deadline : Int) (n : Nat) (request : DldQuietSend) (pending : Word) :
      Keeps entry (stopLoop deadline n request pending) := by
    induction n generalizing request pending with
    | zero => exact keeps_pure _
    | succ n ih =>
      apply Keeps.ite (fun _ => keeps_pure _)
      intro _
      apply keeps_ktimeGet.bind
      intro now
      apply Keeps.ite (fun _ => keeps_pure _)
      intro _
      apply Within.keeps
      apply Within.bind still_mailboxFunctional
      intro functional
      apply Within.ite (fun _ => within_unmask (keeps_pure _))
      intro _
      apply Within.bind (still_pollCores request pending _)
      rintro ⟨request, pending⟩
      apply Within.bind still_drainWrites
      intro _
      apply within_unmask
      exact Keeps.ite (fun _ => keeps_usleepRange.bind fun _ => ih _ _) fun _ => ih _ _
  apply keeps_traced
  apply hdisable.bind
  intro request
  apply keeps_ktimeGet.bind
  intro now
  apply (hstop _ _ _ _).bind
  rintro ⟨request, pending⟩
  apply Within.keeps
  apply Within.bind (still_clearBanks _ _)
  intro request
  exact within_unmask (keeps_pure _)

theorem keeps_sendBanks (request : DldQuietSend) (policy : Bool) (banks : List Bank) :
    Keeps entry (sendBanks request policy banks) := by
  induction banks generalizing request with
  | nil =>
    apply (keeps_waitGate _ _ _).bind
    intro error
    exact Keeps.ite (fun _ => keeps_pure _) fun _ => keeps_pure _
  | cons bank rest ih =>
    apply Keeps.ite (fun _ => ih _)
    intro _
    apply (keeps_waitGate _ _ _).bind
    intro error
    apply Keeps.ite (fun _ => keeps_pure _)
    intro _
    apply (keeps_runBank _ policy bank).bind
    rintro ⟨request, error⟩
    apply Keeps.ite (fun _ => keeps_pure _)
    exact fun _ => keeps_condResched.bind fun _ => ih _

theorem keeps_submittedDone (request : DldQuietSend) (error : Int) :
    Keeps entry (submittedDone request error) := by
  have hrest (request : DldQuietSend) (error : Int) : Within entry fun flags =>
      unmaskCpu flags >>= fun _ => if error ≠ 0 then failedFrameCleanup request >>=
        fun request => pure (request, error) else pure (request, error) := by
    apply within_unmask
    apply Keeps.ite _ (fun _ => keeps_pure _)
    exact fun _ => (keeps_failedFrameCleanup request).bind fun _ => keeps_pure _
  apply Within.keeps
  apply Within.bind still_mailboxFunctional
  intro functional
  apply Within.ite
  · exact fun _ => Within.bind (still_snapshot request) fun _ => hrest _ _
  · exact fun _ => hrest _ _

theorem keeps_sendFrame (request : DldQuietSend) (policy : Bool) :
    Keeps entry (sendFrame request policy) := by
  apply Within.keeps
  apply Within.bind still_mailboxFunctional
  intro functional
  apply Within.ite (fun _ => within_unmask (keeps_pure _))
  intro _
  apply Within.bind (still_publish _)
  intro _
  apply within_unmask
  exact (keeps_sendBanks _ policy _).bind fun r => keeps_submittedDone r.1 r.2

end Functions

/-! ### Taking and giving back -/

/-- How often each resource is held between the mutex and the label `done`. -/
def holdings (held : Held) : KResource → Nat
  | .sendMutex | .onlineCpus => 1
  | .policy => held.policy.toNat
  | .rtnl => held.rtnl.toNat
  | .net => held.net.toNat
  | .power => held.power.toNat

/-- The state between the mutex and the label `done`. -/
def Balance.holding (entry : Cpu) (held : Held) : Balance := ⟨holdings held, entry⟩

section Resources

variable {α : Type} {entry : Cpu} {s : Balance} {held : Held}

/-- What keeps the state, and the rest. -/
theorem Keeps.wp_bind {β : Type} {p : KProg α} {f : α → KProg β} {Q : Balance → β → Prop}
    (hp : Keeps entry p) (hs : s.cpu = entry) (hf : ∀ a, (balance entry).wp (f a) s Q) :
    (balance entry).wp (p >>= f) s Q := by
  refine Monitor.wp_bind.mpr (Monitor.wp_mono (hp s hs) ?_)
  rintro s' a rfl
  exact hf a

theorem Balance.next_holding {e : KEvent} {held' : Held}
    (hheld : ∀ o, (Balance.next (.holding entry held) e).held o = holdings held' o)
    (hcpu : exclusion.next entry e = entry) :
    Balance.next (.holding entry held) e = .holding entry held' := by
  have hheld := funext hheld
  show (⟨(Balance.next (.holding entry held) e).held, exclusion.next entry e⟩ : Balance) = _
  rw [hheld, hcpu]
  rfl

/-- An operation that takes a resource, or fails to. -/
theorem balance_take {o : KOp} {f : o.Res → KProg α} {Q : Balance → α → Prop}
    (held' : o.Res → Held) (hreleased : ∀ r, released ⟨o, r⟩ = none)
    (hheld : ∀ r k, (Balance.next (.holding entry held) ⟨o, r⟩).held k = holdings (held' r) k)
    (hcpu : ∀ r, exclusion.next entry ⟨o, r⟩ = entry)
    (hf : ∀ r, (balance entry).wp (f r) (.holding entry (held' r)) Q) :
    (balance entry).wp (kop o >>= f) (.holding entry held) Q := by
  intro r _
  refine ⟨⟨fun _ ho => (nomatch (hreleased r).symm.trans ho), fun _ => rfl⟩, ?_⟩
  show (balance entry).wp (f r) (Balance.next (.holding entry held) ⟨o, r⟩) Q
  rw [Balance.next_holding (hheld r) (hcpu r)]
  exact hf r

theorem balance_checkPlatform (request : DldQuietSend) :
    (balance entry).wp (checkPlatform request) (.holding entry {}) fun s' r =>
      s' = .holding entry r.2.1 ∧ r.2.1 = { policy := r.2.1.policy } := by
  apply (keeps_op .numOnlineCpus trivial).wp_bind rfl
  intro online
  refine Monitor.wp_ite.mpr ⟨fun _ => ⟨rfl, rfl⟩, fun _ => ?_⟩
  apply (keeps_op .cpuOnline trivial).wp_bind rfl
  intro cpu0
  refine Monitor.wp_ite.mpr ⟨fun _ => ⟨rfl, rfl⟩, fun _ => ?_⟩
  refine balance_take (fun policy => { policy := policy }) (fun _ => rfl)
    (fun policy k => by cases policy <;> cases k <;> rfl) (fun _ => rfl) fun policy => ?_
  apply (still_fixedCpu policy).keeps.wp_bind rfl
  intro fixed
  refine Monitor.wp_ite.mpr ⟨fun _ => ⟨rfl, rfl⟩, fun _ => ?_⟩
  -- the PMU is read with preemption off
  have hpmu {f : Bool → KProg (DldQuietSend × Held × Int)}
      {Q : Balance → DldQuietSend × Held × Int → Prop} {s : Balance}
      (hf : ∀ ready, (balance entry).wp (f ready) s Q) :
      (balance entry).wp (kop .preemptDisable >>= fun _ => pmuReady >>= fun ready =>
        kop .preemptEnable >>= fun _ => f ready) s Q := by
    refine Monitor.wp_op_bind fun _ _ => ⟨balance_safe rfl not_none_or, ?_⟩
    refine Monitor.wp_bind.mpr (still_pmuReady.wp fun ready => ?_)
    refine Monitor.wp_op_bind fun _ _ => ⟨balance_safe rfl not_none_or, ?_⟩
    have hback : (s.next ⟨.preemptDisable, ()⟩).next ⟨.preemptEnable, ()⟩ = s := by
      obtain ⟨held, ⟨preempt, cpsr⟩⟩ := s
      exact congrArg (fun n => (⟨held, ⟨n, cpsr⟩⟩ : Balance)) (Int.add_sub_cancel preempt 1)
    show (balance entry).wp (f ready) ((s.next ⟨.preemptDisable, ()⟩).next _) Q
    rw [hback]
    exact hf ready
  apply hpmu
  intro ready
  refine Monitor.wp_ite.mpr ⟨fun _ => ⟨rfl, rfl⟩, fun _ => ?_⟩
  -- the validation of the mailbox is a region of its own
  refine Monitor.wp_bind.mpr (balance_maskCpu ?_)
  refine Monitor.wp_bind.mpr (still_mailboxFunctional.wp fun functional => ?_)
  refine Monitor.wp_ite.mpr ⟨fun _ => ?_, fun _ => ?_⟩
  · refine Monitor.wp_bind.mpr ((still_validate _).wp fun r => ?_)
    refine Monitor.wp_bind.mpr (balance_unmaskCpu ?_)
    exact ⟨rfl, rfl⟩
  · refine Monitor.wp_bind.mpr ((still_pure _).wp fun r => ?_)
    refine Monitor.wp_bind.mpr (balance_unmaskCpu ?_)
    exact ⟨rfl, rfl⟩

theorem balance_acquireNet (hnet : held.net = false) :
    (balance entry).wp acquireNet (.holding entry held) fun s' r =>
      s' = .holding entry { held with net := r.1 } := by
  refine balance_take (fun net => { held with net := net }) (fun _ => rfl)
    (fun net k => ?_) (fun _ => rfl) fun net => ?_
  · obtain ⟨policy, net', rtnl, power⟩ := held
    obtain rfl : net' = false := hnet
    cases net <;> cases k <;> rfl
  refine Monitor.wp_ite.mpr ⟨?_, fun hheld => ?_⟩
  · rintro rfl
    rfl
  obtain rfl : net = true := by simpa using hheld
  apply (keeps_op .netifRunning trivial).wp_bind rfl
  intro running
  refine Monitor.wp_ite.mpr ⟨fun _ => rfl, fun _ => ?_⟩
  apply (keeps_op .devParent trivial).wp_bind rfl
  intro parent
  refine Monitor.wp_ite.mpr ⟨fun _ => rfl, fun _ => ?_⟩
  apply (keeps_op .driverIsCpsw trivial).wp_bind rfl
  exact fun _ => rfl

theorem balance_acquireSystem (request : DldQuietSend) (policy : Bool) :
    (balance entry).wp (acquireSystem request { policy := policy })
      (.holding entry { policy := policy }) fun s' r => s' = .holding entry r.2.1 := by
  refine balance_take (fun rtnl => { policy := policy, rtnl := rtnl }) (fun _ => rfl)
    (fun rtnl k => by cases rtnl <;> cases k <;> rfl) (fun _ => rfl) fun rtnl => ?_
  refine Monitor.wp_ite.mpr ⟨?_, fun hrtnl => ?_⟩
  · rintro rfl
    rfl
  obtain rfl : rtnl = true := by simpa using hrtnl
  -- the device, and what is asked of it
  refine Monitor.wp_bind.mpr (Monitor.wp_mono (balance_acquireNet rfl) ?_)
  rintro _ ⟨net, usable⟩ rfl
  refine Monitor.wp_ite.mpr ⟨fun _ => rfl, fun _ => ?_⟩
  -- the usage count is taken whatever `pm_runtime_get_sync` returns
  refine balance_take (fun _ => { policy := policy, rtnl := true, net := net, power := true })
    (fun _ => rfl) (fun _ k => by cases k <;> rfl) (fun _ => rfl) fun error => ?_
  refine Monitor.wp_ite.mpr ⟨fun _ => rfl, fun _ => ?_⟩
  apply (keeps_waitOtherDma request).wp_bind rfl
  rintro ⟨request, error⟩
  refine Monitor.wp_ite.mpr ⟨fun _ => rfl, fun _ => ?_⟩
  apply (keeps_op .signalPending trivial).wp_bind rfl
  intro pending
  exact Monitor.wp_ite.mpr ⟨fun _ => rfl, fun _ => rfl⟩

theorem balance_preflight (request : DldQuietSend) :
    (balance entry).wp (preflight request) (.holding entry {}) fun s' r =>
      s' = .holding entry r.2.1 := by
  refine Monitor.wp_bind.mpr (Monitor.wp_mono (balance_checkPlatform request) ?_)
  rintro _ ⟨request, held, error⟩ ⟨rfl, hheld⟩
  refine Monitor.wp_ite.mpr ⟨fun _ => rfl, fun _ => ?_⟩
  show (balance entry).wp (acquireSystem request held) (.holding entry held) _
  rw [show held = { policy := held.policy } from hheld]
  exact balance_acquireSystem request held.policy

/-- A guarded release of what is held if the guard says so. -/
theorem balance_give {c : Bool} {o : KOp} {f : o.Res → KProg α} {p : KProg α} (k : KResource)
    (held : Held) {held' : Held} {Q : Balance → α → Prop} (hreleased : ∀ r, released ⟨o, r⟩ = some k)
    (hc : holdings held k = c.toNat) (hcpu : ∀ r, exclusion.next entry ⟨o, r⟩ = entry)
    (hheld : c = true → ∀ r k',
      (Balance.next (.holding entry held) ⟨o, r⟩).held k' = holdings held' k')
    (hnone : c = false → held = held')
    (hf : ∀ r, (balance entry).wp (f r) (.holding entry held') Q)
    (hp : (balance entry).wp p (.holding entry held') Q) :
    (balance entry).wp (if c = true then kop o >>= f else p) (.holding entry held) Q := by
  refine Monitor.wp_ite.mpr ⟨fun htrue => ?_, fun hfalse => ?_⟩
  · intro r _
    refine ⟨⟨fun k' hk' => ?_, fun _ => rfl⟩, ?_⟩
    · obtain rfl : k = k' := Option.some.inj ((hreleased r).symm.trans hk')
      show 0 < holdings held k
      rw [hc, htrue]
      exact Nat.one_pos
    · show (balance entry).wp (f r) (Balance.next (.holding entry held) ⟨o, r⟩) Q
      rw [Balance.next_holding (hheld htrue r) (hcpu r)]
      exact hf r
  · rw [hnone (by simpa using hfalse)]
    exact hp

/-- The label `done` gives back everything that is held. -/
theorem balance_sendDone (request : DldQuietSend) (held : Held) :
    (balance entry).wp (sendDone request held) (.holding entry held) fun s' _ =>
      s' = .empty entry := by
  obtain ⟨policy, net, rtnl, power⟩ := held
  have hlast : (balance entry).wp (kop .putOnlineCpus >>= fun _ => kop .mutexUnlock)
      (.holding entry {}) fun s' _ => s' = .empty entry := by
    have hone {s : Balance} {e : KEvent} {k : KResource} (hk : released e = some k)
        (hheld : s.held k = 1) (hcpu : s.cpu = entry) : (balance entry).safe s e := by
      refine ⟨fun k' hk' => ?_, fun _ => hcpu⟩
      obtain rfl : k = k' := Option.some.inj (hk.symm.trans hk')
      rw [hheld]
      exact Nat.one_pos
    refine Monitor.wp_op_bind fun _ _ => ⟨hone (k := .onlineCpus) rfl rfl rfl, ?_⟩
    refine Monitor.wp_op.mpr fun _ _ => ⟨hone (k := .sendMutex) rfl rfl rfl, ?_⟩
    show (⟨_, entry⟩ : Balance) = ⟨_, entry⟩
    congr 1
    funext k
    cases k <;> rfl
  have hpolicy := balance_give (c := policy) (o := .cpufreqCpuPut) .policy
    ⟨policy, false, false, false⟩ (fun _ => rfl) rfl (fun _ => rfl)
    (fun hc _ k => by subst hc; cases k <;> rfl) (fun hc => by rw [hc]) (fun _ => hlast) hlast
  have hrtnl := balance_give (c := rtnl) (o := .rtnlUnlock) .rtnl
    ⟨policy, false, rtnl, false⟩ (fun _ => rfl) rfl (fun _ => rfl)
    (fun hc _ k => by subst hc; cases k <;> rfl) (fun hc => by rw [hc]) (fun _ => hpolicy) hpolicy
  have hnet := balance_give (c := net) (o := .devPut) .net
    ⟨policy, net, rtnl, false⟩ (fun _ => rfl) rfl (fun _ => rfl)
    (fun hc _ k => by subst hc; cases k <;> rfl) (fun hc => by rw [hc]) (fun _ => hrtnl) hrtnl
  have hpower := balance_give (c := power) (o := .pmRuntimePut) .power
    ⟨policy, net, rtnl, power⟩ (fun _ => rfl) rfl (fun _ => rfl)
    (fun hc _ k => by subst hc; cases k <;> rfl) (fun hc => by rw [hc]) (fun _ => hnet) hnet
  refine Monitor.wp_ite.mpr ⟨fun _ => ?_, fun _ => hpower⟩
  exact (keeps_op .prErrRatelimited trivial).wp_bind rfl fun _ => hpower

/-- From the trylock to the return. -/
theorem balance_performSend (request : DldQuietSend) :
    (balance entry).wp (performSend request) (.empty entry) fun s' _ => s' = .empty entry := by
  refine Monitor.wp_op_bind fun locked _ => ⟨⟨fun _ ho => (nomatch ho), fun _ => rfl⟩, ?_⟩
  refine Monitor.wp_ite.mpr ⟨?_, fun hlocked => ?_⟩
  · rintro rfl
    rfl
  obtain rfl : locked = true := by simpa using hlocked
  refine Monitor.wp_op_bind fun _ _ => ⟨⟨fun _ ho => (nomatch ho), fun _ => rfl⟩, ?_⟩
  have hheld : ((Balance.empty entry).next ⟨.mutexTrylock, true⟩).next ⟨.getOnlineCpus, ()⟩ =
      .holding entry {} := by
    show (⟨_, entry⟩ : Balance) = ⟨_, entry⟩
    congr 1
    funext k
    cases k <;> rfl
  show (balance entry).wp _ (((Balance.empty entry).next ⟨.mutexTrylock, true⟩).next
    ⟨.getOnlineCpus, ()⟩) _
  rw [hheld]
  refine Monitor.wp_bind.mpr (Monitor.wp_mono (balance_preflight _) ?_)
  rintro _ ⟨request, held, error⟩ rfl
  have hdone (request : DldQuietSend) (error : Int) :
      (balance entry).wp (sendDone request held >>= fun _ => pure (request, error))
        (.holding entry held) fun s' _ => s' = .empty entry :=
    Monitor.wp_bind.mpr (balance_sendDone request held)
  refine Monitor.wp_ite.mpr ⟨fun _ => hdone _ _, fun _ => ?_⟩
  exact (keeps_sendFrame request held.policy).wp_bind rfl fun r => hdone r.1 r.2

end Resources

/-! ### The whole call -/

/-- The trylock comes first, and a call that fails it does nothing else. -/
theorem performSend_trylock (request : DldQuietSend) :
    (performSend request).All fun t _ =>
      ∃ locked rest, t = ⟨.mutexTrylock, locked⟩ :: rest ∧ (locked = false → rest = []) := by
  intro locked
  cases locked with
  | false => exact ⟨false, [], rfl, fun _ => rfl⟩
  | true => exact Prog.all_of_forall fun t _ => ⟨true, t, rfl, fun h => (nomatch h)⟩

/-- **Balance of `perform_send`.**  Whatever the surroundings answer, every
resource is given back exactly as often as it was taken, at no moment more
often than it was taken, and nothing happens after a trylock that failed.
The masks of the CPU and its preemption count are those of the entry on
return, and wherever the call may sleep. -/
theorem performSend_balanced (entry : Cpu) (request : DldQuietSend) (t : List KEvent)
    (result : DldQuietSend × Int) (hrun : (performSend request).Runs t result)
    (henv : exclusion.EnvAlong entry t) :
    (∀ o, releasings o t = acquisitions o t) ∧
    (∀ o pre post, t = pre ++ post → releasings o pre ≤ acquisitions o pre) ∧
    (∃ locked rest, t = ⟨.mutexTrylock, locked⟩ :: rest ∧ (locked = false → rest = [])) ∧
    exclusion.run entry t = entry ∧
    ∀ pre e post, t = pre ++ e :: post → MaySleep e → exclusion.run entry pre = entry := by
  obtain ⟨hsafe, hend⟩ := Monitor.wp_runs (balance_performSend request) hrun
    (balance_envAlong (s := .empty entry) henv)
  refine ⟨fun o => ?_, ?_, Prog.all_iff.mp (performSend_trylock request) t result hrun, ?_, ?_⟩
  · have hcount := held_run hsafe o
    rw [hend] at hcount
    simpa [Balance.empty] using hcount
  · rintro o pre post rfl
    have hcount := held_run (Monitor.safeAlong_append.mp hsafe).1 o
    simp only [Balance.empty] at hcount
    omega
  · have hcpu : ((balance entry).run (.empty entry) t).cpu = exclusion.run entry t := cpu_run t
    rw [hend] at hcpu
    exact hcpu.symm
  · rintro pre e post rfl hsleep
    have hcpu := hsafe.at.2 hsleep
    rw [cpu_run] at hcpu
    exact hcpu

/-- `local_irq_save` reads the CPSR. -/
def savesCpsr (c : Cpu) : KEvent → Bool
  | ⟨.localIrqSave, flags⟩ => flags == c.cpsr
  | _ => true

theorem savesCpsr_iff {c : Cpu} {e : KEvent} : savesCpsr c e = true ↔ exclusion.env c e := by
  obtain ⟨op, v⟩ := e
  cases op with
  | localIrqSave => exact beq_iff_eq
  | _ => exact ⟨fun _ => trivial, fun _ => rfl⟩

instance (c : Cpu) (e : KEvent) : Decidable (exclusion.env c e) :=
  decidable_of_iff (savesCpsr c e = true) savesCpsr_iff

/-- A frame of one bank, sent with nothing masked on entry. -/
theorem performSend_balanced_oneBank :
    let run := (performSend oneBankRequest).execWith Board.answer oneBankBoard
    run.2.2 = 0 ∧ acquisitions .power run.1 = 1 ∧
      (∀ o, releasings o run.1 = acquisitions o run.1) ∧ exclusion.run ⟨0, 0⟩ run.1 = ⟨0, 0⟩ := by
  have hbalanced := performSend_balanced ⟨0, 0⟩ oneBankRequest _ _
    (Prog.execWith_runs Board.answer oneBankBoard _) (by decide +kernel)
  exact ⟨by decide +kernel, by decide +kernel, hbalanced.1, hbalanced.2.2.2.1⟩

end Dld
