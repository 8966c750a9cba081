/-
DldDriver/Kernel/Admission.lean

What `try_bank` has seen when it grants a bank.

Each check of the admission leaves a segment in the trace; the `Seen`
predicates say what a segment that passed its check looks like, event by
event.  A grant store is preceded, in the region that `try_bank` opened, by
all of them in order (`tryBank_wp`).
-/
import DldDriver.Kernel.Footprint

namespace Dld

open Interaction

/-! ### The segments -/

/-- The CPU at its one frequency, only CPU0 online. -/
def FixedCpuSeen (t : List KEvent) : Prop :=
  t = [⟨.numOnlineCpus, (1 : Word)⟩, ⟨.cpuOnline, true⟩, ⟨.policyMin, requiredCpuKhz⟩,
    ⟨.policyMax, requiredCpuKhz⟩, ⟨.policyCur, requiredCpuKhz⟩]

/-- The cycle counter owned, enabled, undivided and advancing. -/
def PmuSeen (t : List KEvent) : Prop :=
  ∃ control enabled before after : Word,
    t = [⟨.cycleEvent, true⟩, ⟨.cycleEventState, perfEventStateActive⟩, ⟨.cycleEventIdx, (0 : Int)⟩,
      ⟨.pmcr, control⟩, ⟨.pmcntenset, enabled⟩, ⟨.ccnt, before⟩, ⟨.ccnt, after⟩] ∧
    control &&& 1 ≠ 0 ∧ control &&& 8 = 0 ∧ enabled &&& bitAt 31 ≠ 0 ∧ after ≠ before

/-- A block's clock found functional. -/
def ClockSeen (clock : Nat) (t : List KEvent) : Prop :=
  ∃ v : Word, t = [⟨.readl (.clocks clock), v⟩] ∧ Functional v

/-- An engine's module disabled; a transfer controller also in standby. -/
def Disabled (i : Fin 6) (clock : Word) : Prop :=
  clock &&& 3 = 0 ∧ (clock >>> 16) &&& 3 = 3 ∧ (i < 3 ∨ clock &&& bitAt 18 ≠ 0)

/-- One engine found idle. -/
def EngineSeen (i : Fin 6) (t : List KEvent) : Prop :=
  (∃ clock : Word, t = [⟨.readl (.clocks (engines i).clockOffset), clock⟩] ∧ Disabled i clock) ∨
  ∃ clock status : Word, t = [⟨.readl (.clocks (engines i).clockOffset), clock⟩,
    ⟨.readl (.engine i (engines i).statusOffset), status⟩] ∧
    Functional clock ∧ status &&& (engines i).busyMask = 0

/-- The engines of the list found idle, one after the other. -/
def EnginesSeen : List (Fin 6) → List KEvent → Prop
  | [], t => t = []
  | i :: rest, t => ∃ t₁ t₂, t = t₁ ++ t₂ ∧ EngineSeen i t₁ ∧ EnginesSeen rest t₂

/-- Both passes over the six engines. -/
def OtherDmaSeen (t : List KEvent) : Prop := EnginesSeen (List.finRange 6 ++ List.finRange 6) t

/-- CMD_IDLE clear, set, and read back with no other bit changed. -/
def CommandIdleSeen (t : List KEvent) : Prop :=
  ∃ saved : Word, saved &&& cpswCommandIdle = 0 ∧
    t = [⟨.readl (.cpsw cpswDmaControl), saved⟩,
      ⟨.writel (saved ||| cpswCommandIdle) (.cpsw cpswDmaControl), ()⟩, ⟨.barrier, ()⟩,
      ⟨.readl (.cpsw cpswDmaControl), saved ||| cpswCommandIdle⟩]

/-- A poll of the drain: a status without error and not idle, then the
counter inside the limit. -/
def drainPoll (p : Word × Word) : List KEvent :=
  [⟨.readl (.cpsw cpswDmaStatus), p.1⟩, ⟨.ccnt, p.2⟩]

/-- The drain: fewer than 100000 polls, none with an error bit, idle, or at
the cycle limit; then a status that is idle and has no error bit. -/
def DrainSeen (t : List KEvent) : Prop :=
  ∃ (start : Word) (polls : List (Word × Word)) (status now : Word),
    t = ⟨.ccnt, start⟩ :: polls.flatMap drainPoll ++
      [⟨.readl (.cpsw cpswDmaStatus), status⟩, ⟨.ccnt, now⟩] ∧
    polls.length < 100000 ∧
    (∀ p ∈ polls, p.1 &&& cpswErrorMask = 0 ∧ p.1 &&& cpswIdle = 0 ∧
      p.2 - start < dmaDrainCyclesLimit) ∧
    status &&& cpswErrorMask = 0 ∧ status &&& cpswIdle ≠ 0

/-- A complete admission. -/
def AdmissionSeen (t : List KEvent) : Prop :=
  ∃ cpu pmu pruss dma cpsw command drain dma' : List KEvent,
    t = cpu ++ pmu ++ pruss ++ dma ++ cpsw ++ command ++ drain ++ dma' ∧
    FixedCpuSeen cpu ∧ PmuSeen pmu ∧ ClockSeen prussClock pruss ∧ OtherDmaSeen dma ∧
    ClockSeen cpswClock cpsw ∧ CommandIdleSeen command ∧ DrainSeen drain ∧ OtherDmaSeen dma'

/-! ### The checks -/

theorem fixedCpu_all (policy : Bool) :
    (fixedCpu policy).All fun t ok => ok = true → policy = true ∧ FixedCpuSeen t := by
  unfold fixedCpu kop FixedCpuSeen
  simp only [Prog.all_op_bind, Prog.all_ite, Prog.all_pure]
  refine fun online => ⟨fun _ h => (by cases h), fun honline cpu0 => ?_⟩
  refine ⟨fun _ h => (by cases h), fun hcpu0 => ⟨fun _ h => (by cases h), fun hpolicy min => ?_⟩⟩
  refine ⟨fun _ h => (by cases h), fun hmin max => ⟨fun _ h => (by cases h), fun hmax cur hcur => ?_⟩⟩
  obtain rfl : online = 1 := not_not.mp honline
  obtain rfl : min = requiredCpuKhz := not_not.mp hmin
  obtain rfl : max = requiredCpuKhz := not_not.mp hmax
  obtain rfl : cur = requiredCpuKhz := of_decide_eq_true hcur
  obtain rfl : cpu0 = true := by simpa using hcpu0
  exact ⟨by simpa using hpolicy, rfl⟩

theorem pmuReady_all : pmuReady.All fun t ok => ok = true → PmuSeen t := by
  unfold pmuReady kop ccnt PmuSeen
  simp only [kop, Prog.all_op_bind, Prog.all_ite, Prog.all_pure]
  refine fun event => ⟨fun _ h => (by cases h), fun hevent state => ?_⟩
  refine ⟨fun _ h => (by cases h), fun hstate idx => ⟨fun _ h => (by cases h), fun hidx => ?_⟩⟩
  refine fun control enabled => ⟨fun _ h => (by cases h), fun hcontrol before after hafter => ?_⟩
  simp only [not_or, not_not] at hcontrol
  obtain rfl : event = true := by simpa using hevent
  obtain rfl : state = perfEventStateActive := not_not.mp hstate
  obtain rfl : idx = 0 := not_not.mp hidx
  exact ⟨control, enabled, before, after, rfl, hcontrol.1, hcontrol.2.1, hcontrol.2.2,
    of_decide_eq_true hafter⟩

theorem mailboxFunctional_all :
    mailboxFunctional.All fun t ok => ok = true → ClockSeen prussClock t := by
  intro clock hclock
  exact ⟨clock, rfl, of_decide_eq_true hclock⟩

theorem engineIdle_all (i : Fin 6) :
    (engineIdle i).All fun t blocked => blocked = none → EngineSeen i t := by
  unfold engineIdle readl kop
  simp only [Prog.all_op_bind, Prog.all_ite, Prog.all_pure]
  refine fun clock => ⟨fun hdisabled _ => .inl ⟨clock, rfl, hdisabled⟩, fun _ => ?_⟩
  refine ⟨fun _ h => (by cases h), fun hmode status => ⟨fun _ h => (by cases h), fun hbusy _ => ?_⟩⟩
  simp only [not_or, not_not] at hmode
  exact .inr ⟨clock, status, rfl, functional_of_mode hmode.1 hmode.2, not_not.mp hbusy⟩

theorem enginesIdle_all (is : List (Fin 6)) :
    (enginesIdle is).All fun t blocked => blocked = none → EnginesSeen is t := by
  induction is with
  | nil => exact fun _ => rfl
  | cons i rest ih =>
    rw [enginesIdle, Prog.all_bind]
    refine Prog.all_mono (engineIdle_all i) fun t blocked ht => ?_
    cases blocked with
    | some status => exact fun h => by cases h
    | none => exact Prog.all_mono ih fun t' blocked ht' hnone => ⟨t, t', rfl, ht rfl, ht' hnone⟩

theorem otherDmaIdle_all (request : DldQuietSend) :
    (otherDmaIdle request).All fun t result => result.2 = 0 → OtherDmaSeen t := by
  rw [otherDmaIdle, Prog.all_bind]
  refine Prog.all_mono (enginesIdle_all _) fun t blocked ht => ?_
  cases blocked with
  | some block => exact fun h => by cases h
  | none =>
    intro _
    rw [List.append_nil]
    exact ht rfl

theorem drainLoop_all (start : Word) (n : Nat) (status : Word) :
    (drainLoop start n status).All fun t r => r.2.1 = 0 → r.2.2 = false →
      ∃ polls : List (Word × Word), t = polls.flatMap drainPoll ++
          [⟨.readl (.cpsw cpswDmaStatus), r.1⟩] ∧ polls.length < n ∧
        (∀ p ∈ polls, p.1 &&& cpswErrorMask = 0 ∧ p.1 &&& cpswIdle = 0 ∧
          p.2 - start < dmaDrainCyclesLimit) ∧
        r.1 &&& cpswErrorMask = 0 ∧ r.1 &&& cpswIdle ≠ 0 := by
  induction n generalizing status with
  | zero => exact fun _ h => nomatch h
  | succ n ih =>
    unfold drainLoop readl ccnt kop
    simp only [Prog.all_op_bind, Prog.all_ite, Prog.all_pure]
    refine fun status => ⟨fun _ h => (by cases h), fun herror => ⟨fun hidle _ _ => ?_, fun hidle => ?_⟩⟩
    · exact ⟨[], rfl, Nat.succ_pos n, by simp, not_not.mp herror, hidle⟩
    · refine fun now => ⟨fun _ h => (by cases h), fun hlimit => ?_⟩
      refine Prog.all_mono (ih status) fun t r ht h0 hcap => ?_
      obtain ⟨polls, rfl, hlen, hpolls, hend⟩ := ht h0 hcap
      refine ⟨(status, now) :: polls, rfl, Nat.succ_lt_succ hlen, ?_, hend⟩
      refine List.forall_mem_cons.mpr ⟨⟨not_not.mp herror, not_not.mp hidle, ?_⟩, hpolls⟩
      exact BitVec.not_le.mp hlimit

theorem drainDma_all (request : DldQuietSend) (bank : Bank) (saved : Word) :
    (drainDma request bank saved).All fun t attempt => attempt.error = 0 →
      ∃ drain, t = [⟨.writel (saved ||| cpswCommandIdle) (.cpsw cpswDmaControl), ()⟩,
          ⟨.barrier, ()⟩, ⟨.readl (.cpsw cpswDmaControl), saved ||| cpswCommandIdle⟩] ++ drain ∧
        DrainSeen drain := by
  unfold drainDma writel drainWrites readl ccnt kop
  simp only [Prog.all_bind, Prog.all_op, Prog.all_ite, Prog.all_pure]
  refine fun _ _ control => ⟨fun _ h => (by cases h), fun hcontrol start => ?_⟩
  obtain rfl : control = saved ||| cpswCommandIdle := not_not.mp hcontrol
  refine Prog.all_mono (drainLoop_all start 100000 0) fun t r ht now => ⟨fun hbad h0 => ?_, ?_⟩
  · -- an error, or the poll cap, or a status that is not idle
    have hne (x : Int) : (if x = 0 then -eTimedout else x) ≠ 0 := by
      split
      · decide
      · assumption
    exact absurd h0 (hne _)
  · intro hgood _
    obtain ⟨status, error, capped⟩ := r
    simp only [not_or, not_not] at hgood
    obtain ⟨h0, hidle⟩ := hgood
    cases capped with
    | true => cases h0
    | false =>
      obtain ⟨polls, rfl, hlen, hpolls, herror, hidle⟩ := ht h0 rfl
      exact ⟨_, rfl, start, polls, status, now, by simp, hlen, hpolls, herror, hidle⟩

theorem admitBank_all (request : DldQuietSend) (policy : Bool) (bank : Bank) :
    (admitBank request policy bank).All fun t attempt =>
      attempt.error = 0 → AdmissionSeen t := by
  unfold admitBank readl kop
  simp only [Prog.all_bind, Prog.all_op, Prog.all_ite, Prog.all_pure]
  refine Prog.all_mono (fixedCpu_all policy) fun cpu ok hcpu => ⟨fun _ h => (by cases h), fun hok => ?_⟩
  refine Prog.all_mono pmuReady_all fun pmu ok' hpmu => ⟨fun _ h => (by cases h), fun hok' => ?_⟩
  refine Prog.all_mono mailboxFunctional_all fun pruss ok'' hpruss =>
    ⟨fun _ h => (by cases h), fun hok'' => ?_⟩
  refine Prog.all_mono (otherDmaIdle_all request) fun dma r hdma => ⟨fun h h0 => absurd h0 h, ?_⟩
  refine fun herror clock => ⟨fun _ h => (by cases h), fun hclock saved => ?_⟩
  refine ⟨fun _ h => (by cases h), fun hsaved => ?_⟩
  refine Prog.all_mono (drainDma_all r.1 bank saved) fun command attempt hdrain =>
    ⟨fun h h0 => absurd h0 h, fun hattempt => ?_⟩
  refine Prog.all_mono (otherDmaIdle_all attempt.request) fun dma' r' hdma' h0 => ?_
  obtain ⟨drain, rfl, hseen⟩ := hdrain (not_not.mp hattempt)
  refine ⟨cpu, pmu, pruss, dma, [⟨.readl (.clocks cpswClock), clock⟩],
    [⟨.readl (.cpsw cpswDmaControl), saved⟩,
      ⟨.writel (saved ||| cpswCommandIdle) (.cpsw cpswDmaControl), ()⟩, ⟨.barrier, ()⟩,
      ⟨.readl (.cpsw cpswDmaControl), saved ||| cpswCommandIdle⟩], drain, dma', by simp, ?_⟩
  refine ⟨(hcpu (by simpa using hok)).2, hpmu (by simpa using hok'), hpruss (by simpa using hok''),
    hdma (not_not.mp herror), ⟨clock, rfl, not_not.mp hclock⟩, ?_, hseen, hdma' h0⟩
  exact ⟨saved, not_not.mp hsaved, rfl⟩

/-! ### try_bank -/

/-- The entry to `try_bank` up to its admission. -/
def tryBankEntry (flags start : Word) : List KEvent :=
  [⟨.enter .tryBank, ()⟩, ⟨.preemptDisable, ()⟩, ⟨.localIrqSave, flags⟩, ⟨.localFiqDisable, ()⟩,
    ⟨.ccnt, start⟩]

/-- The counter reads of the first, warming timer. -/
def Warm (t : List KEvent) : Prop :=
  ∀ e ∈ t, (∃ now : Word, e = ⟨.ccnt, now⟩) ∨ e = ⟨.barrier, ()⟩

/-- What an admission does: it reads, it writes CPSW, it stays masked. -/
def admitting : Access := { reads := fun _ => True, writes := (Reg.isCpsw · = true) }

/-- The grant of `bank` at the end of `pre`: the CPU masked, a complete
admission, the warm timer. -/
def GrantedAfter (pre : List KEvent) : Prop :=
  ∃ (flags start : Word) (admission warm : List KEvent),
    pre = tryBankEntry flags start ++ admission ++ warm ∧ AdmissionSeen admission ∧
      (∀ e ∈ admission, admitting.allows e) ∧ Warm warm

/-- A grant store comes after an admission, and an entry to `try_bank` only
at the start. -/
def GrantRule (bank : Bank) (pre : List KEvent) (e : KEvent) : Prop :=
  (∀ v, e = ⟨.writel v (.mailbox .bankGrant), ()⟩ → v = bank.ordinal ∧ GrantedAfter pre) ∧
    (e.1 = .enter .tryBank → pre = [])

/-- Every access but the grant store, and no call. -/
def noGrant : Access := { reads := fun _ => True, writes := (· ≠ .mailbox .bankGrant), masks := True }

theorem grantRule_of_noGrant {bank : Bank} {pre : List KEvent} {e : KEvent}
    (h : noGrant.allows e) : GrantRule bank pre e := by
  refine ⟨?_, ?_⟩
  · rintro v rfl
    exact absurd rfl h
  · obtain ⟨op, v⟩ := e
    rintro ⟨⟩
    exact absurd h id

section TryBank

variable {bank : Bank} {pre : List KEvent}

/-- The frame rule of the grant rule, with what the complete runs satisfy. -/
theorem grant_wp {α : Type} {p : KProg α} {R : List KEvent → α → Prop}
    {Q : List KEvent → α → Prop} (hp : p.Emits noGrant.allows) (hR : p.All R)
    (hQ : ∀ t a, R t a → Q (pre ++ t) a) : (Monitor.history (GrantRule bank)).wp p pre Q :=
  Monitor.history_wp hp (fun _ _ he => grantRule_of_noGrant he) hR hQ

theorem grant_frame {α : Type} {p : KProg α} {Q : List KEvent → α → Prop}
    (hp : p.Emits noGrant.allows) (hQ : ∀ t a, Q (pre ++ t) a) :
    (Monitor.history (GrantRule bank)).wp p pre Q :=
  grant_wp hp (Prog.all_of_forall fun _ _ => trivial) fun t a _ => hQ t a

theorem timerStart_warm (r2 r3 : Word) : (timerStart r2 r3).All fun t _ => Warm t := by
  have hccnt : ccnt.Emits fun e => ∃ now : Word, e = ⟨.ccnt, now⟩ :=
    (Prog.emits_op KOp.ccnt).mpr fun now => ⟨now, rfl⟩
  have hloop (r4 : Word) (n : Nat) :
      (timerLoop r2 r4 n).Emits fun e => ∃ now : Word, e = ⟨.ccnt, now⟩ := by
    induction n with
    | zero =>
      refine Prog.emits_bind hccnt fun now => ?_
      exact Prog.emits_ite (fun _ => Prog.emits_pure _) fun _ => Prog.emits_pure _
    | succ n ih =>
      exact Prog.emits_bind hccnt fun now => Prog.emits_ite (fun _ => Prog.emits_pure _) fun _ => ih
  have hstart := Prog.emits_bind hccnt fun r4 => hloop r4 (r3 - 1).toNat
  exact Prog.all_mono hstart.all fun t _ ht e he => .inl (ht e he)

theorem bankEntry_wp (flags start : Word) {admission : List KEvent} (cycles cap : Word)
    (hpre : pre = tryBankEntry flags start ++ admission) (hadmission : AdmissionSeen admission)
    (hadmitting : ∀ e ∈ admission, admitting.allows e) :
    (Monitor.history (GrantRule bank)).wp (dldQuietBankEntry bank.ordinal cycles cap) pre
      fun _ _ => True := by
  refine Monitor.wp_bind.mpr (grant_wp (emits_timerStart _ _) (timerStart_warm _ _)
    fun warm _ hwarm => Monitor.wp_ite.mpr ⟨fun _ => trivial, fun _ => ?_⟩)
  refine Monitor.history_op_bind fun _ => ⟨grantRule_of_noGrant trivial, ?_⟩
  refine Monitor.history_op_bind fun _ => ⟨?_, ?_⟩
  · -- the store itself
    refine ⟨?_, nofun⟩
    rintro v ⟨⟩
    refine ⟨rfl, flags, start, admission, warm ++ [⟨.barrier, ()⟩], ?_, hadmission, hadmitting, ?_⟩
    · rw [hpre]
      show tryBankEntry flags start ++ admission ++ warm ++ [⟨.barrier, ()⟩] = _
      rw [List.append_assoc _ warm]
    · intro e he
      rcases List.mem_append.mp he with he | he
      · exact hwarm e he
      · exact .inr (List.mem_singleton.mp he)
  · refine Monitor.history_op_bind fun _ => ⟨grantRule_of_noGrant trivial, ?_⟩
    refine Monitor.wp_bind.mpr (grant_frame (emits_timerStart _ _) fun _ _ => ?_)
    refine Monitor.history_op_bind fun _ => ⟨grantRule_of_noGrant trivial, ?_⟩
    exact Monitor.history_op_bind fun _ => ⟨grantRule_of_noGrant trivial, trivial⟩

/-- **Admission.**  A grant store of `try_bank` comes after a complete
admission in the same masked region. -/
theorem tryBank_wp (request : DldQuietSend) (policy : Bool) :
    (Monitor.history (GrantRule bank)).wp (tryBank request policy bank) [] fun _ _ => True := by
  -- entry, and the masking of the CPU
  refine Monitor.history_op_bind fun _ => ⟨⟨nofun, fun _ => rfl⟩, ?_⟩
  refine Monitor.wp_bind.mpr (Monitor.wp_bind.mpr ?_)
  refine Monitor.history_op_bind fun _ => ⟨grantRule_of_noGrant trivial, ?_⟩
  refine Monitor.history_op_bind fun flags => ⟨grantRule_of_noGrant trivial, ?_⟩
  refine Monitor.history_op_bind fun _ => ⟨grantRule_of_noGrant trivial, ?_⟩
  refine Monitor.history_op_bind fun start => ⟨grantRule_of_noGrant trivial, ?_⟩
  -- the admission
  have hadmits (request : DldQuietSend) : (admitBank request policy bank).Emits admitting.allows :=
    emits_admitBank (fun _ => trivial) (fun _ _ => trivial) (fun _ => trivial) (fun _ => rfl) _ _ _
  have hnoGrant (e : KEvent) (he : admitting.allows e) : noGrant.allows e :=
    Access.allows_mono (a := admitting) (b := noGrant) (fun _ _ => trivial)
      (fun r hr => by rintro rfl; cases hr) (fun _ => trivial) (fun _ hf => hf) e he
  refine Monitor.wp_bind.mpr (grant_wp ((hadmits _).mono hnoGrant)
    (Prog.all_and (admitBank_all _ policy bank) (hadmits _).all) ?_)
  rintro admission attempt ⟨hadmission, hadmitting⟩
  -- what follows the grant touches the grant no more
  have hfinish (request : DldQuietSend) (error : Int) (pre : List KEvent) :
      (Monitor.history (GrantRule bank)).wp
        (finishBank request bank attempt.changedDma flags start error) pre fun pre a =>
          (Monitor.history (GrantRule bank)).wp (kop (.leave .tryBank a.2) >>= fun _ => pure a)
            pre fun _ _ => True := by
    refine grant_frame (emits_finishBank trivial (fun _ => trivial) (fun _ => trivial)
      (fun _ => by simp [noGrant]) (by simp [noGrant]) (by simp [noGrant]) _ _ _ _ _ _) fun _ _ => ?_
    exact Monitor.history_op_bind fun _ => ⟨⟨nofun, nofun⟩, trivial⟩
  refine Monitor.wp_ite.mpr ⟨fun _ => hfinish _ _ _, fun herror => ?_⟩
  refine Monitor.wp_bind.mpr (Monitor.wp_bind.mpr ?_)
  refine Monitor.wp_mono (bankEntry_wp flags start _ _ rfl (hadmission (not_not.mp herror))
    hadmitting) ?_
  rintro pre ⟨observed, elapsed⟩ -
  refine Monitor.wp_ite.mpr ⟨fun _ => hfinish _ _ _, fun _ => ?_⟩
  exact Monitor.wp_ite.mpr ⟨fun _ => hfinish _ _ _, fun _ => hfinish _ _ _⟩

end TryBank

end Dld
