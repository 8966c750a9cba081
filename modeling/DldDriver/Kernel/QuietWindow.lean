/-
DldDriver/Kernel/QuietWindow.lean

The quiet window: what has been seen before a bank is granted, and what
has been seen before a register is touched.

The first half carries clock before access through the publication and the
cleanup, so that it covers `quiet_ioctl` (`clean_quietIoctl`).  The second
half reads the monitor back as a fact about the trace: the last read of the
block's clock, in the region the CPU was masked in, was functional.
-/
import DldDriver.Kernel.Admission
import DldDriver.Kernel.Clocks

namespace Dld

open Interaction

section Functions

variable {s : Region}

/-! ### One access -/

/-- An operation that touches no register is safe everywhere. -/
theorem clean_kop (o : KOp) (ho : ∀ s r, clocked.safe s ⟨o, r⟩) : Clean (kop o) :=
  fun s r _ => ⟨ho s r, trivial⟩

theorem wp_writel {v : Word} {r : Reg} {Q : Region → Unit → Prop} (hr : s.Covers r)
    (hQ : Q s ()) : clocked.wp (writel v r) s Q :=
  fun _ _ => ⟨hr, hQ⟩

theorem wp_drainWrites {Q : Region → Unit → Prop} (hQ : Q s ()) :
    clocked.wp drainWrites s Q :=
  fun _ _ => ⟨trivial, hQ⟩

/-! ### The cleanup -/

/-- Leaving the region and returning. -/
theorem wp_leaveRegion {α : Type} (flags : Word) (a : α) :
    clocked.wp (unmaskCpu flags >>= fun _ => pure a) s fun _ _ => True :=
  (clean_unmaskCpu flags).bind (fun _ => clean_pure a) s

theorem clean_disableCores (request : DldQuietSend) : Clean (disableCores request) := by
  apply Clean.masked
  intro flags
  apply wp_ifFunctional rfl
  · intro s' hs hknown
    have hcovers {r : Reg} (hr : clockOf r = some prussClock) : s'.Covers r :=
      covers_pruss hr hs hknown
    refine Monitor.wp_bind.mpr (wp_writel (hcovers rfl) ?_)
    refine Monitor.wp_bind.mpr (wp_writel (hcovers rfl) ?_)
    refine Monitor.wp_bind.mpr (wp_writel (hcovers rfl) ?_)
    refine Monitor.wp_bind.mpr (wp_drainWrites ?_)
    exact wp_leaveRegion flags request
  · intro s'
    exact wp_leaveRegion flags _

/-- Polling touches PRU control only. -/
theorem wp_pollCores {Q : Region → DldQuietSend × Word → Prop} (request : DldQuietSend)
    (pending : Word) (cores : List (Fin 2)) (hs : s.masked = true)
    (hknown : s.known prussClock = true) (hQ : ∀ r, Q s r) :
    clocked.wp (pollCores request pending cores) s Q := by
  have hemits : (pollCores request pending cores).Emits (Access.allows
      { reads := (Reg.isCore · = true), writes := (Reg.isCore · = true) }) :=
    emits_pollCores (fun _ => rfl) (fun _ => rfl) _ _ _
  refine wp_covered hemits (fun r hr => ?_) (fun r hr => ?_) id hQ
  · cases r <;> first | exact ⟨by simp [clockOf], covers_pruss rfl hs hknown⟩ | cases hr
  · cases r <;> first | exact covers_pruss rfl hs hknown | cases hr

theorem clean_stopLoop (deadline : Int) (n : Nat) (request : DldQuietSend) (pending : Word) :
    Clean (stopLoop deadline n request pending) := by
  induction n generalizing request pending with
  | zero => exact clean_pure _
  | succ n ih =>
    refine Clean.ite (fun _ => clean_pure _) fun _ => ?_
    refine (clean_op .ktimeGet fun _ => trivial).bind fun now =>
      Clean.ite (fun _ => clean_pure _) fun _ => ?_
    -- every poll opens its own region and reads the clock again
    apply Clean.masked
    intro flags
    refine Monitor.wp_bind.mpr (wp_mailboxFunctional fun ok => ?_)
    refine Monitor.wp_ite.mpr ⟨fun _ => wp_leaveRegion flags _, fun hok => ?_⟩
    have hknown : (Region.entered.learn prussClock ok).known prussClock = true := by
      simpa [Region.learn] using hok
    refine Monitor.wp_bind.mpr (wp_pollCores _ _ _ rfl hknown ?_)
    rintro ⟨request, pending⟩
    refine Monitor.wp_bind.mpr (wp_drainWrites ?_)
    refine (clean_unmaskCpu flags).bind (fun _ => Clean.ite (fun _ => ?_) fun _ => ih _ _) _
    exact (clean_op .usleepRange fun _ => trivial).bind fun _ => ih _ _

/-- Clearing a bank whose clock is known leaves the region as it is. -/
theorem wp_clearLoop {Q : Region → Bool → Prop} (bank : Fin 3) (n : Nat) (hs : s.masked = true)
    (hknown : s.known (gpioClocks bank) = true) (hQ : ∀ low, Q s low) :
    clocked.wp (clearLoop bank n) s Q := by
  have hcovers (o : Nat) : s.Covers (.gpio bank o) := by
    rintro c ⟨⟩
    exact ⟨hs, hknown⟩
  induction n with
  | zero => exact hQ false
  | succ n ih =>
    refine Monitor.wp_bind.mpr (wp_writel (hcovers _) ?_)
    refine Monitor.wp_bind.mpr (wp_drainWrites ?_)
    refine Monitor.wp_op_bind fun data _ => ⟨hcovers _, ?_⟩
    exact Monitor.wp_ite.mpr ⟨fun _ => hQ true, fun _ => ih⟩

theorem wp_clearBanks (request : DldQuietSend) (banks : List (Fin 3)) (hs : s.masked = true) :
    clocked.wp (clearBanks request banks) s fun _ _ => True := by
  induction banks generalizing request s with
  | nil => trivial
  | cons bank rest ih =>
    refine Monitor.wp_bind.mpr (wp_readClock (gpioClocks bank) fun clock => ?_)
    refine Monitor.wp_ite.mpr ⟨fun _ => ih _ hs, fun hclock => ?_⟩
    have hknown : (s.learn (gpioClocks bank) (decide (Functional clock))).known
        (gpioClocks bank) = true := by
      simpa [Region.learn] using hclock
    refine Monitor.wp_bind.mpr (wp_clearLoop bank 8 hs hknown fun low => ?_)
    exact Monitor.wp_ite.mpr ⟨fun _ => ih _ hs, fun _ => ih _ hs⟩

theorem clean_failedFrameCleanup (request : DldQuietSend) : Clean (failedFrameCleanup request) := by
  apply clean_traced
  refine (clean_disableCores request).bind fun request => ?_
  refine (clean_op .ktimeGet fun _ => trivial).bind fun now => ?_
  refine (clean_stopLoop _ _ _ _).bind fun r => ?_
  apply Clean.masked
  intro flags
  exact Monitor.wp_bind.mpr (Monitor.wp_mono (wp_clearBanks _ _ rfl) fun _ _ _ =>
    wp_leaveRegion flags _)

/-! ### perform_send -/

theorem wp_publish {Q : Region → Unit → Prop} (request : DldQuietSend) (hs : s.masked = true)
    (hknown : s.known prussClock = true) (hQ : Q s ()) : clocked.wp (publish request) s Q := by
  have hcovers (off : Off) : s.Covers (.mailbox off) := covers_pruss rfl hs hknown
  refine Monitor.wp_bind.mpr (wp_writel (hcovers _) ?_)
  refine Monitor.wp_bind.mpr (wp_writel (hcovers _) ?_)
  refine Monitor.wp_bind.mpr (wp_drainWrites ?_)
  refine Monitor.wp_bind.mpr (wp_writel (hcovers _) ?_)
  exact wp_drainWrites hQ

theorem clean_sendBanks (request : DldQuietSend) (policy : Bool) (banks : List Bank) :
    Clean (sendBanks request policy banks) := by
  induction banks generalizing request with
  | nil =>
    refine (clean_waitGate _ _ _).bind fun error => ?_
    exact Clean.ite (fun _ => clean_pure _) fun _ => clean_pure _
  | cons bank rest ih =>
    refine Clean.ite (fun _ => ih request) fun _ => ?_
    refine (clean_waitGate _ _ _).bind fun error => Clean.ite (fun _ => clean_pure _) fun _ => ?_
    refine (clean_runBank _ _ _).bind fun ⟨request, error⟩ =>
      Clean.ite (fun _ => clean_pure _) fun _ => ?_
    exact (clean_op .condResched fun _ => trivial).bind fun _ => ih request

theorem clean_submittedDone (request : DldQuietSend) (error : Int) :
    Clean (submittedDone request error) := by
  have hrest (flags : Word) (request : DldQuietSend) (error : Int) :
      Clean (unmaskCpu flags >>= fun _ => if error ≠ 0 then failedFrameCleanup request >>=
        fun request => pure (request, error) else pure (request, error)) := by
    refine (clean_unmaskCpu flags).bind fun _ => Clean.ite (fun _ => ?_) fun _ => clean_pure _
    exact (clean_failedFrameCleanup request).bind fun _ => clean_pure _
  apply Clean.masked
  intro flags
  refine wp_ifFunctional rfl (fun s' hs hknown => ?_) fun s' => hrest flags _ _ s'
  refine Monitor.wp_bind.mpr (wp_mailbox (emits_snapshot (fun _ => rfl) _) hs hknown fun r => ?_)
  exact hrest flags r error s'

theorem clean_sendFrame (request : DldQuietSend) (policy : Bool) :
    Clean (sendFrame request policy) := by
  apply Clean.masked
  intro flags
  refine Monitor.wp_bind.mpr (wp_mailboxFunctional fun ok => ?_)
  refine Monitor.wp_ite.mpr ⟨fun _ => wp_leaveRegion flags _, fun hok => ?_⟩
  have hknown : (Region.entered.learn prussClock ok).known prussClock = true := by
    simpa [Region.learn] using hok
  refine Monitor.wp_bind.mpr (wp_publish _ rfl hknown ?_)
  refine (clean_unmaskCpu flags).bind (fun _ => ?_) _
  exact (clean_sendBanks _ policy _).bind fun r => clean_submittedDone r.1 r.2

theorem clean_sendDone (request : DldQuietSend) (held : Held) : Clean (sendDone request held) := by
  have hop (o : KOp) (ho : ∀ s r, clocked.safe s ⟨o, r⟩) {f : o.Res → KProg Unit} {q : KProg Unit}
      {c : Prop} [Decidable c] (hf : ∀ r, Clean (f r)) (hq : Clean q) :
      Clean (if c then kop o >>= f else q) :=
    Clean.ite (fun _ => (clean_kop o ho).bind hf) fun _ => hq
  have hlast : Clean (kop .putOnlineCpus >>= fun _ => kop .mutexUnlock) :=
    (clean_kop .putOnlineCpus fun _ _ => trivial).bind fun _ => clean_kop .mutexUnlock fun _ _ => trivial
  have hpolicy := hop .cpufreqCpuPut (fun _ _ => trivial) (c := held.policy = true)
    (fun _ => hlast) hlast
  have hrtnl := hop .rtnlUnlock (fun _ _ => trivial) (c := held.rtnl = true)
    (fun _ => hpolicy) hpolicy
  have hnet := hop .devPut (fun _ _ => trivial) (c := held.net = true) (fun _ => hrtnl) hrtnl
  have hpower := hop .pmRuntimePut (fun _ _ => trivial) (c := held.power = true)
    (fun _ => hnet) hnet
  exact hop .prErrRatelimited (fun _ _ => trivial) (fun _ => hpower) hpower

theorem clean_performSend (request : DldQuietSend) : Clean (performSend request) := by
  refine (clean_kop .mutexTrylock fun _ _ => trivial).bind fun locked =>
    Clean.ite (fun _ => clean_pure _) fun _ => ?_
  refine (clean_kop .getOnlineCpus fun _ _ => trivial).bind fun _ => ?_
  have hrest (request : DldQuietSend) (held : Held) (error : Int) :
      Clean (sendDone request held >>= fun _ => pure (request, error)) :=
    (clean_sendDone request held).bind fun _ => clean_pure _
  refine Clean.bind ?_ fun ⟨request, held, error⟩ => Clean.ite (fun _ => hrest _ _ _) fun _ => ?_
  · refine (clean_checkPlatform _).bind fun ⟨request, held, error⟩ => ?_
    exact Clean.ite (fun _ => clean_pure _) fun _ => clean_acquireSystem request held
  · exact (clean_sendFrame request held.policy).bind fun ⟨request, error⟩ => hrest _ _ _

/-- **Clock before access**, for the whole system call. -/
theorem clean_quietIoctl (command : Word) : Clean (quietIoctl command) := by
  refine Clean.ite (fun _ => clean_pure _) fun _ => ?_
  refine (clean_kop .capable fun _ _ => trivial).bind fun _ =>
    Clean.ite (fun _ => clean_pure _) fun _ => ?_
  refine (clean_kop .copyFromUser fun _ _ => trivial).bind fun user => ?_
  cases user with
  | none => exact clean_pure _
  | some request =>
    refine (clean_performSend _).bind fun ⟨request, result⟩ => ?_
    refine (clean_kop (.copyToUser _) fun _ _ => trivial).bind fun copied => ?_
    exact Clean.ite (fun _ => clean_pure _) fun _ => clean_pure _

end Functions

/-! ### Reading the monitor back -/

/-- `inside` is what has happened since the CPU was masked. -/
def InRegion (inside pre : List KEvent) : Prop :=
  ∃ before flags, pre = before ++ ⟨.localIrqSave, flags⟩ :: inside ∧
    ∀ e ∈ inside, e.1 ≠ .localIrqSave ∧ ∀ flags, e.1 ≠ .localIrqRestore flags

/-- The last of the reads of clock `c` found it functional. -/
def LastFunctional (c : Nat) (inside : List KEvent) : Prop :=
  ∃ between v after, inside = between ++ ⟨.readl (.clocks c), v⟩ :: after ∧ Functional v ∧
    ∀ e ∈ after, e.1 ≠ .readl (.clocks c)

/-- In the region `pre` ends in, clock `c` was last read as functional. -/
def ClockFunctional (c : Nat) (pre : List KEvent) : Prop :=
  ∃ inside, InRegion inside pre ∧ LastFunctional c inside

/-- An access to a register. -/
def Touches (e : KEvent) (r : Reg) : Prop :=
  (∃ v, e = ⟨.readl r, v⟩) ∨ ∃ w, e = ⟨.writel w r, ()⟩

theorem InRegion.snoc {inside pre : List KEvent} {e : KEvent} (h : InRegion inside pre)
    (hsave : e.1 ≠ .localIrqSave) (hrestore : ∀ flags, e.1 ≠ .localIrqRestore flags) :
    InRegion (inside ++ [e]) (pre ++ [e]) := by
  obtain ⟨before, flags, rfl, hinside⟩ := h
  refine ⟨before, flags, by simp, fun e' he' => ?_⟩
  rcases List.mem_append.mp he' with he' | he'
  · exact hinside e' he'
  · obtain rfl := List.mem_singleton.mp he'
    exact ⟨hsave, hrestore⟩

theorem LastFunctional.snoc {c : Nat} {inside : List KEvent} {e : KEvent}
    (h : LastFunctional c inside) (he : e.1 ≠ .readl (.clocks c)) :
    LastFunctional c (inside ++ [e]) := by
  obtain ⟨between, v, after, rfl, hv, hafter⟩ := h
  refine ⟨between, v, after ++ [e], by simp, hv, fun e' he' => ?_⟩
  rcases List.mem_append.mp he' with he' | he'
  · exact hafter e' he'
  · obtain rfl := List.mem_singleton.mp he'
    exact he

/-- What the monitor remembers is what the trace shows. -/
def Region.Reads (s : Region) (pre : List KEvent) : Prop :=
  s.masked = true → ∃ inside, InRegion inside pre ∧ ∀ c, s.known c = true → LastFunctional c inside

theorem Region.Reads.snoc {s : Region} {pre : List KEvent} {e : KEvent} (h : s.Reads pre) :
    (s.next e).Reads (pre ++ [e]) := by
  obtain ⟨op, v⟩ := e
  -- an event the monitor does not watch
  have hother (hnext : s.next ⟨op, v⟩ = s) (hsave : op ≠ .localIrqSave)
      (hrestore : ∀ flags, op ≠ .localIrqRestore flags) (hread : ∀ c, op ≠ .readl (.clocks c)) :
      (s.next ⟨op, v⟩).Reads (pre ++ [⟨op, v⟩]) := by
    rw [hnext]
    intro hs
    obtain ⟨inside, hin, hknown⟩ := h hs
    exact ⟨_, hin.snoc hsave hrestore, fun c hc => (hknown c hc).snoc (hread c)⟩
  cases op with
  | localIrqSave => exact fun _ => ⟨[], ⟨pre, v, rfl, by simp⟩, fun c hc => nomatch hc⟩
  | localIrqRestore flags => exact fun hs => nomatch hs
  | readl r =>
    cases r with
    | clocks c =>
      intro hs
      obtain ⟨inside, hin, hknown⟩ := h hs
      refine ⟨_, hin.snoc (by simp) (by simp), fun c' hc' => ?_⟩
      by_cases hc : c' = c
      · -- the clock just read
        subst hc
        have hv : Functional v := by simpa [Region.next, Region.learn] using hc'
        exact ⟨inside, v, [], rfl, hv, by simp⟩
      · have hc' : s.known c' = true := (s.learn_known_of_ne _ hc).symm.trans hc'
        exact (hknown c' hc').snoc (by simpa using Ne.symm hc)
    | _ => exact hother rfl (by simp) (by simp) (by simp)
  | _ => exact hother rfl (by simp) (by simp) (by simp)

theorem clocked_reads (pre : List KEvent) : (clocked.run .outside pre).Reads pre := by
  induction pre using List.reverseRecOn with
  | nil => exact fun hs => nomatch hs
  | append_singleton pre e ih =>
    rw [Monitor.run_append]
    exact ih.snoc

/-- A program that is clean touches no block before its clock. -/
theorem Clean.clockFunctional {α : Type} {p : KProg α} {pre post : List KEvent} {e : KEvent}
    {a : α} (hp : Clean p) (hrun : p.Runs (pre ++ e :: post) a) {r : Reg} {c : Nat}
    (he : Touches e r) (hr : clockOf r = some c) : ClockFunctional c pre := by
  have henv : clocked.EnvAlong .outside (pre ++ e :: post) :=
    Monitor.envAlong_of_forall (fun _ _ => trivial) _ _
  have hsafe := (Monitor.wp_runs (hp .outside) hrun henv).1.at
  have hcovers : (clocked.run .outside pre).Covers r := by
    rcases he with ⟨v, rfl⟩ | ⟨w, rfl⟩ <;> exact hsafe
  obtain ⟨hmasked, hknown⟩ := hcovers c hr
  obtain ⟨inside, hin, hlast⟩ := clocked_reads pre hmasked
  exact ⟨inside, hin, hlast c hknown⟩

/-! ### The quiet window -/

/-- **Admission and clocks.**  A grant store of `try_bank` comes, in the
region that `try_bank` opened, after a complete admission; and no step of
the system call touches a block unless its clock, last read in the same
region, was functional. -/
theorem quietWindow :
    (∀ (request : DldQuietSend) (policy : Bool) (bank : Bank) (pre post : List KEvent) (v : Word)
        (result : DldQuietSend × Int),
      (tryBank request policy bank).Runs
        (pre ++ ⟨.writel v (.mailbox .bankGrant), ()⟩ :: post) result →
      v = bank.ordinal ∧ GrantedAfter pre) ∧
    ∀ (command : Word) (pre post : List KEvent) (e : KEvent) (result : Int × Option DldQuietSend),
      (quietIoctl command).Runs (pre ++ e :: post) result →
      ∀ r c, Touches e r → clockOf r = some c → ClockFunctional c pre := by
  constructor
  · intro request policy bank pre post v result hrun
    have hrule := (Monitor.history_runs (tryBank_wp request policy) hrun).1 pre _ post rfl
    exact hrule.1 v rfl
  · intro command pre post e result hrun r c he hr
    exact (clean_quietIoctl command).clockFunctional hrun he hr

/-- A bank granted on a cooperative board, and a mailbox access of its frame. -/
theorem quietWindow_oneBank :
    (∃ pre v, (∃ post, ((tryBank oneBankRequest true .gpio0).execWith Board.answer oneBankBoard).1 =
        pre ++ ⟨.writel v (.mailbox .bankGrant), ()⟩ :: post) ∧
      v = Bank.gpio0.ordinal ∧ GrantedAfter pre) ∧
    ∃ pre e off, (∃ post, ((quietIoctl dldQuietIoctlSend).execWith Board.answer oneBankBoard).1 =
        pre ++ e :: post) ∧ Touches e (.mailbox off) ∧ ClockFunctional prussClock pre := by
  constructor
  · have hrun := Prog.execWith_runs Board.answer oneBankBoard (tryBank oneBankRequest true .gpio0)
    obtain ⟨pre, e, post, heq, he⟩ := exists_split (t := ((tryBank oneBankRequest true
      .gpio0).execWith Board.answer oneBankBoard).1) (p := storesGrant fun _ => true)
      (by decide +kernel)
    obtain ⟨w, rfl, -⟩ := exists_of_storesGrant he
    rw [heq] at hrun
    exact ⟨pre, w, ⟨post, heq⟩, quietWindow.1 _ _ _ _ _ _ _ hrun⟩
  · have hrun := Prog.execWith_runs Board.answer oneBankBoard (quietIoctl dldQuietIoctlSend)
    obtain ⟨pre, e, post, heq, he⟩ := exists_split (t := ((quietIoctl
      dldQuietIoctlSend).execWith Board.answer oneBankBoard).1) (p := readsMailbox)
      (by decide +kernel)
    obtain ⟨off, w, rfl⟩ := exists_of_readsMailbox he
    rw [heq] at hrun
    exact ⟨pre, _, off, ⟨post, heq⟩, .inl ⟨w, rfl⟩,
      quietWindow.2 _ _ _ _ _ hrun _ _ (.inl ⟨w, rfl⟩) rfl⟩

end Dld
