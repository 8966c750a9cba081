/-
DldDriver/Kernel/Discipline.lean

The discipline of a frame, under an arbitrary mailbox and arbitrary
hardware: when `perform_send` may store a grant, when it may try a bank
again, and what it has seen when it returns zero.

    FrameRule request h e     event e is allowed after the history h

The rule is checked along the code (`performSend_frame`), one lemma for
each function; the loop over the banks carries that every earlier grant is
smaller and that nothing has failed.
-/
import DldDriver.Kernel.Admission

namespace Dld

open Interaction

/-! ### What a successful wait has seen -/

/-- The store of `v` to `bank_grant`. -/
def grantStore (v : Word) : KEvent := ⟨.writel v (.mailbox .bankGrant), ()⟩

/-- One poll, with the CPU masked from its first event to its last. -/
def gatePoll (flags clock status error accepted : Word) (last : Off) (v : Word) : List KEvent :=
  [⟨.preemptDisable, ()⟩, ⟨.localIrqSave, flags⟩, ⟨.localFiqDisable, ()⟩,
    ⟨.readl (.clocks prussClock), clock⟩, ⟨.readl (.mailbox .status), status⟩,
    ⟨.readl (.mailbox .errorDetail), error⟩, ⟨.readl (.mailbox .acceptedSeq), accepted⟩,
    ⟨.readl (.mailbox last), v⟩, ⟨.localIrqRestore flags, ()⟩, ⟨.preemptEnable, ()⟩]

/-- What happens before the poll that matches: reads, no stores, no calls. -/
def polling : Access := { reads := fun _ => True, masks := True }

/-- A call of `wait_gate` that returned zero.  Its last poll began before the
deadline and was over before it; it found no error, `status`, `seq`
accepted, and `v` in the word `last`. -/
def GateSeen (timeout : Int) (status seq : Word) (last : Off) (v : Word) (t : List KEvent) : Prop :=
  ∃ (start now later : Int) (polls : List KEvent) (flags clock : Word),
    t = ⟨.enter .waitGate, ()⟩ :: ⟨.ktimeGet, start⟩ :: polls ++
      ⟨.ktimeGet, now⟩ :: gatePoll flags clock status 0 seq last v ++
      [⟨.ktimeGet, later⟩, ⟨.leave .waitGate 0, ()⟩] ∧
    (∀ e ∈ polls, polling.allows e) ∧ now < start + timeout ∧ later < start + timeout ∧
    Functional clock

/-- The wait for bank `b` of request `seq`. -/
def BankSeen (seq : Word) (b : Bank) : List KEvent → Prop :=
  GateSeen gateTimeoutNs statusWaitBank seq .bankReady b.ordinal

/-- The final wait of request `seq`. -/
def DoneSeen (seq : Word) : List KEvent → Prop :=
  GateSeen finalTimeoutNs statusDone seq .completionSeq seq

/-! ### The rule -/

/-- Every function has returned zero so far, except that an attempt may have
returned the error that is retried. -/
def NoFailure (h : List KEvent) : Prop :=
  ∀ f r, (⟨.leave f r, ()⟩ : KEvent) ∈ h → r = 0 ∨ (f = .tryBank ∧ r = -eAgain)

/-- What has happened when the grant of bank `b` is stored. -/
structure GrantOk (request : DldQuietSend) (b : Bank) (h : List KEvent) : Prop where
  nonempty : bankLength request b ≠ 0
  increasing : ∀ w, grantStore w ∈ h → w < b.ordinal
  waited : ∃ before gate after, h = before ++ gate ++ after ∧
    BankSeen (request.previousSeq + 1) b gate ∧ ∀ e ∈ after, e.1 ≠ .enter .waitGate
  noFailure : NoFailure h

/-- No grant has been stored since `run_bank` was last entered. -/
def Ungranted (h : List KEvent) : Prop :=
  ∃ before after, h = before ++ ⟨.enter .runBank, ()⟩ :: after ∧
    ∀ e ∈ after, e.1 ≠ .enter .runBank ∧ ∀ w, e ≠ grantStore w

/-- The grants and the attempts of a frame. -/
def FrameRule (request : DldQuietSend) (h : List KEvent) (e : KEvent) : Prop :=
  (∀ v, e = grantStore v → v ≠ 0 → ∃ b : Bank, v = b.ordinal ∧ GrantOk request b h) ∧
    (e.1 = .enter .tryBank → Ungranted h)

/-- The non-empty banks, as a mask. -/
def nonEmptyMask (request : DldQuietSend) : Word :=
  Bank.pass.foldl (fun mask b => if bankLength request b ≠ 0 then mask ||| b.bit else mask) 0

/-- Everything but grants and attempts. -/
def apart : Access :=
  { reads := fun _ => True
    writes := (· ≠ .mailbox .bankGrant)
    masks := True
    calls := (· ≠ .tryBank) }

theorem frameRule_of_ne {request : DldQuietSend} {h : List KEvent} {e : KEvent}
    (hgrant : ∀ v, e ≠ grantStore v) (htry : e.1 ≠ .enter .tryBank) : FrameRule request h e :=
  ⟨fun v he => absurd he (hgrant v), fun he => absurd he htry⟩

theorem frameRule_of_apart {request : DldQuietSend} {h : List KEvent} {e : KEvent}
    (he : apart.allows e) : FrameRule request h e := by
  refine frameRule_of_ne ?_ ?_
  · rintro v rfl
    exact he rfl
  · obtain ⟨op, v⟩ := e
    rintro ⟨⟩
    exact he rfl

/-! ### What the functions keep of the request -/

/-- The input fields, and whether the request has been published. -/
def DldQuietSend.core (r : DldQuietSend) : DldQuietSend :=
  { r.clearOutputs with submitted := r.submitted }

/-- The fields that no function before the grant changes. -/
def Frozen (r r' : DldQuietSend) : Prop :=
  r'.core = r.core ∧ r'.requestSeq = r.requestSeq ∧
    r'.completedMask = r.completedMask

theorem Frozen.refl (r : DldQuietSend) : Frozen r r := ⟨rfl, rfl, rfl⟩

theorem Frozen.trans {r r' r'' : DldQuietSend} (h : Frozen r r') (h' : Frozen r' r'') :
    Frozen r r'' :=
  ⟨h'.1.trans h.1, h'.2.1.trans h.2.1, h'.2.2.trans h.2.2⟩

theorem bankLength_congr {r r' : DldQuietSend} (h : r'.core = r.core) (b : Bank) :
    bankLength r' b = bankLength r b := by
  have hlengths : r'.stringLengths = r.stringLengths := by
    have := congrArg DldQuietSend.stringLengths h
    exact this
  cases b <;> simp only [bankLength, hlengths]

theorem otherDmaIdle_frozen (request : DldQuietSend) :
    (otherDmaIdle request).All fun _ a => Frozen request a.1 := by
  rw [otherDmaIdle, Prog.all_bind]
  refine Prog.all_of_forall fun t blocked => ?_
  cases blocked with
  | none => exact ⟨rfl, rfl, rfl⟩
  | some block => exact ⟨rfl, rfl, rfl⟩

theorem drainDma_frozen (request : DldQuietSend) (bank : Bank) (saved : Word) :
    (drainDma request bank saved).All fun _ attempt => Frozen request attempt.request := by
  unfold drainDma writel drainWrites readl ccnt kop
  simp only [Prog.all_bind, Prog.all_op, Prog.all_ite, Prog.all_pure]
  refine fun _ _ control => ⟨fun _ => ⟨rfl, rfl, rfl⟩, fun _ start => ?_⟩
  refine Prog.all_of_forall fun t r now => ⟨fun _ => ?_, fun _ => ?_⟩
  · exact ⟨rfl, rfl, rfl⟩
  · exact ⟨rfl, rfl, rfl⟩

theorem admitBank_frozen (request : DldQuietSend) (policy : Bool) (bank : Bank) :
    (admitBank request policy bank).All fun _ attempt => Frozen request attempt.request := by
  unfold admitBank readl kop
  simp only [Prog.all_bind, Prog.all_op, Prog.all_ite, Prog.all_pure]
  refine Prog.all_of_forall fun _ _ => ⟨fun _ => ⟨rfl, rfl, rfl⟩, fun _ => ?_⟩
  refine Prog.all_of_forall fun _ _ => ⟨fun _ => ⟨rfl, rfl, rfl⟩, fun _ => ?_⟩
  refine Prog.all_of_forall fun _ _ => ⟨fun _ => .refl _, fun _ => ?_⟩
  refine Prog.all_mono (otherDmaIdle_frozen request) fun _ r hdma => ⟨fun _ => hdma, fun _ clock => ?_⟩
  refine ⟨fun _ => hdma, fun _ saved => ⟨fun _ => hdma, fun _ => ?_⟩⟩
  refine Prog.all_mono (drainDma_frozen r.1 bank saved) fun _ attempt hdrain =>
    ⟨fun _ => hdma.trans hdrain, fun _ => ?_⟩
  refine Prog.all_mono (otherDmaIdle_frozen attempt.request) fun _ r' hdma' => ?_
  exact (hdma.trans hdrain).trans hdma'

/-- A grant routine that returns does not ask to be tried again, and marks
its bank as completed exactly when it returns zero. -/
theorem grantBank_all (request : DldQuietSend) (bank : Bank) :
    (grantBank request bank).All fun _ a =>
      a.1.core = request.core ∧ a.1.requestSeq = request.requestSeq ∧
        a.2 ≠ -eAgain ∧ (a.2 = 0 → a.1.completedMask = request.completedMask ||| bank.bit) := by
  have htime : (-eTime : Int) ≠ -eAgain := by decide
  have htimedout : (-eTimedout : Int) ≠ -eAgain := by decide
  have hzero : (0 : Int) ≠ -eAgain := by decide
  rw [grantBank, Prog.all_bind]
  refine Prog.all_of_forall fun t r => Prog.all_ite.mpr ⟨fun _ => ?_, fun _ => Prog.all_ite.mpr
    ⟨fun _ => ?_, fun _ => ?_⟩⟩
  · exact ⟨rfl, rfl, htime, fun h => by cases h⟩
  · exact ⟨rfl, rfl, htimedout, fun h => by cases h⟩
  · exact ⟨rfl, rfl, hzero, fun _ => rfl⟩

/-- The restoration can only turn the result into `-EIO`. -/
theorem finishBank_all (request : DldQuietSend) (bank : Bank) (changedDma : Option Word)
    (flags start : Word) (error : Int) :
    (finishBank request bank changedDma flags start error).All fun _ a =>
      Frozen request a.1 ∧ (a.2 = error ∨ a.2 = -eIo) := by
  have hrestore : (restoreDma request bank changedDma error).All fun _ a =>
      Frozen request a.1 ∧ (a.2 = error ∨ a.2 = -eIo) := by
    cases changedDma with
    | none => exact ⟨.refl _, .inl rfl⟩
    | some saved =>
      unfold restoreDma writel drainWrites readl kop
      simp only [Prog.all_bind, Prog.all_op, Prog.all_ite, Prog.all_pure]
      exact fun _ _ control _ => ⟨fun _ => ⟨⟨rfl, rfl, rfl⟩, .inr trivial⟩, fun _ => ⟨.refl _, .inl trivial⟩⟩
  rw [finishBank, Prog.all_bind]
  refine Prog.all_of_forall fun _ _ => ?_
  rw [Prog.all_bind]
  refine Prog.all_mono hrestore fun _ a ha => ?_
  simp only [Prog.all_bind]
  exact Prog.all_of_forall fun _ _ => Prog.all_of_forall fun _ _ => ha

/-! ### The traces of the functions -/

theorem traced_all {α : Type} {f : KFn} {result : α → Int} {p : KProg α}
    {Q : List KEvent → α → Prop}
    (h : p.All fun t a => Q (⟨.enter f, ()⟩ :: t ++ [⟨.leave f (result a), ()⟩]) a) :
    (traced f result p).All Q := by
  unfold traced kop
  simp only [Prog.all_bind, Prog.all_op, Prog.all_pure]
  exact fun _ => Prog.all_mono h fun t a ht _ => by simpa using ht

/-- The status, the word and the value that a poll waits for. -/
def wantedStatus (final : Bool) : Word := if final then statusDone else statusWaitBank

def wantedOff (final : Bool) : Off := if final then .completionSeq else .bankReady

def wantedValue (request : DldQuietSend) (ordinal : Word) (final : Bool) : Word :=
  if final then request.requestSeq else ordinal

theorem gateBatch_all (request : DldQuietSend) (ordinal : Word) (final : Bool) :
    (gateBatch request ordinal final).All fun t r => r.2.2 = true →
      r.1 = wantedStatus final ∧
        t = [⟨.readl (.mailbox .status), r.1⟩, ⟨.readl (.mailbox .errorDetail), r.2.1⟩,
          ⟨.readl (.mailbox .acceptedSeq), request.requestSeq⟩,
          ⟨.readl (.mailbox (wantedOff final)), wantedValue request ordinal final⟩] := by
  unfold gateBatch readl kop
  simp only [Prog.all_op_bind, Prog.all_ite, Prog.all_pure]
  refine fun status error accepted => ⟨fun hfinal v hmatch => ?_, fun hfinal v hmatch => ?_⟩
  · obtain ⟨rfl, rfl, rfl⟩ := of_decide_eq_true hmatch
    subst hfinal
    exact ⟨rfl, rfl⟩
  · obtain ⟨rfl, rfl, rfl⟩ := of_decide_eq_true hmatch
    obtain rfl : final = false := by simpa using hfinal
    exact ⟨rfl, rfl⟩

theorem waitGateLoop_all (request : DldQuietSend) (ordinal : Word) (final : Bool) (deadline : Int)
    (n : Nat) : (waitGateLoop request ordinal final deadline n).All fun t r => r = 0 →
      ∃ (now later : Int) (polls : List KEvent) (flags clock : Word),
        t = polls ++ ⟨.ktimeGet, now⟩ ::
          gatePoll flags clock (wantedStatus final) 0 request.requestSeq (wantedOff final)
            (wantedValue request ordinal final) ++ [⟨.ktimeGet, later⟩] ∧
        (∀ e ∈ polls, polling.allows e) ∧ now < deadline ∧ later < deadline ∧ Functional clock := by
  induction n with
  | zero => exact fun h => by cases h
  | succ n ih =>
    have hbatch := Prog.all_and (gateBatch_all request ordinal final)
      (emits_gateBatch (a := polling) (fun _ => trivial) request ordinal final).all
    unfold waitGateLoop maskCpu unmaskCpu mailboxFunctional usleepRange ktimeGet readl kop
    simp only [Prog.all_bind, Prog.all_op, Prog.all_ite, Prog.all_pure]
    refine fun now => ⟨fun _ h => (by cases h), fun hnow => ?_⟩
    refine fun _ flags _ clock => ⟨fun _ _ _ h => (by cases h), fun hclock => ?_⟩
    have hclock : Functional clock := by simpa using hclock
    refine Prog.all_mono hbatch fun t r ht => ?_
    obtain ⟨status, error, isMatch⟩ := r
    obtain ⟨hseen, hpolling⟩ := ht
    refine fun _ _ => ⟨fun _ h => (by cases h), fun herror => ⟨fun hmatch later hlater => ?_, ?_⟩⟩
    · -- this poll matched
      obtain ⟨hstatus, rfl⟩ := hseen hmatch
      have hzero : error = 0 := by simpa using fun h => herror (.inl h)
      have hlater : later < deadline := by
        by_contra h
        simp [h] at hlater
      simp only at hstatus
      subst hstatus hzero
      exact ⟨now, later, [], flags, clock, by simp [gatePoll], by simp, by omega, hlater, hclock⟩
    · -- a later poll matched
      refine fun _ _ => Prog.all_mono ih fun t' r ht' h0 => ?_
      obtain ⟨now', later, polls, flags', clock', rfl, hpolls, hrest⟩ := ht' h0
      refine ⟨now', later, ⟨.ktimeGet, now⟩ :: ⟨.preemptDisable, ()⟩ :: ⟨.localIrqSave, flags⟩ ::
        ⟨.localFiqDisable, ()⟩ :: ⟨.readl (.clocks prussClock), clock⟩ :: t ++
        ⟨.localIrqRestore flags, ()⟩ :: ⟨.preemptEnable, ()⟩ :: ⟨.usleepRange, ()⟩ :: polls,
        flags', clock', by simp, ?_, hrest⟩
      intro e he
      simp only [List.mem_append, List.mem_cons] at he
      rcases he with (rfl | rfl | rfl | rfl | rfl | he) | rfl | rfl | rfl | he
      all_goals first | trivial | exact hpolling e he | exact hpolls e he

/-- A wait that returns zero has seen what it waited for. -/
theorem waitGate_all (request : DldQuietSend) (ordinal : Word) (final : Bool) :
    (waitGate request ordinal final).All fun t r => r = 0 →
      GateSeen (if final then finalTimeoutNs else gateTimeoutNs) (wantedStatus final)
        request.requestSeq (wantedOff final) (wantedValue request ordinal final) t := by
  apply traced_all
  intro start
  refine Prog.all_mono (waitGateLoop_all request ordinal final _ 200) fun t r ht h0 => ?_
  obtain ⟨now, later, polls, flags, clock, rfl, hrest⟩ := ht h0
  subst h0
  exact ⟨start, now, later, polls, flags, clock, by simp, hrest⟩

/-- Inside an attempt: anything but calls. -/
def attempting : Access := { reads := fun _ => True, writes := fun _ => True, masks := True }

/-- What an attempt leaves behind. -/
structure AttemptResult (request : DldQuietSend) (bank : Bank) (t : List KEvent)
    (a : DldQuietSend × Int) : Prop where
  inputs : a.1.core = request.core
  requestSeq : a.1.requestSeq = request.requestSeq
  completed : a.2 = 0 → a.1.completedMask = request.completedMask ||| bank.bit
  retried : a.2 = -eAgain → a.1.completedMask = request.completedMask ∧ ∀ w, grantStore w ∉ t
  granted : ∀ w, grantStore w ∈ t → w = bank.ordinal
  entered : ∀ f, (⟨.enter f, ()⟩ : KEvent) ∈ t → f = .tryBank
  left : ∀ f r, (⟨.leave f r, ()⟩ : KEvent) ∈ t → f = .tryBank ∧ r = a.2

/-- The body of `try_bank`, between its entry and its return. -/
theorem tryBank_body (request : DldQuietSend) (policy : Bool) (bank : Bank) :
    (maskCpu >>= fun flags => ccnt >>= fun start => admitBank request policy bank >>= fun attempt =>
      if attempt.error ≠ 0 then
        finishBank attempt.request bank attempt.changedDma flags start attempt.error
      else grantBank attempt.request bank >>= fun r =>
        finishBank r.1 bank attempt.changedDma flags start r.2).All fun t a =>
      (∀ e ∈ t, attempting.allows e) ∧ a.1.core = request.core ∧
        a.1.requestSeq = request.requestSeq ∧
        (a.2 = 0 → a.1.completedMask = request.completedMask ||| bank.bit) ∧
        (a.2 = -eAgain → a.1.completedMask = request.completedMask ∧ ∀ w, grantStore w ∉ t) := by
  have hweaken (e : KEvent) (he : noGrant.allows e) : attempting.allows e :=
    Access.allows_mono (a := noGrant) (b := attempting) (fun _ _ => trivial) (fun _ _ => trivial)
      (fun _ => trivial) (fun _ hf => hf) e he
  have hfinish (r : DldQuietSend) (changedDma : Option Word) (flags start : Word) (error : Int) :
      (finishBank r bank changedDma flags start error).Emits noGrant.allows :=
    emits_finishBank trivial (fun _ => trivial) (fun _ => trivial) (fun _ => by simp [noGrant])
      (by simp [noGrant]) (by simp [noGrant]) _ _ _ _ _ _
  have hstore (t : List KEvent) (ht : ∀ e ∈ t, noGrant.allows e) (w : Word) : grantStore w ∉ t :=
    fun hw => ht _ hw rfl
  have hio : (-eIo : Int) ≠ -eAgain := by decide
  have hio' : (-eIo : Int) ≠ 0 := by decide
  rw [Prog.all_bind]
  refine Prog.all_mono (emits_maskCpu (a := noGrant) trivial).all fun t₁ flags ht₁ => ?_
  refine Prog.all_op_bind.mpr fun start => Prog.all_bind.mpr ?_
  have hadmits : (admitBank request policy bank).Emits noGrant.allows :=
    emits_admitBank (fun _ => trivial) (fun _ _ => trivial) (fun _ => trivial)
      (fun _ => by simp [noGrant]) _ _ _
  refine Prog.all_mono (Prog.all_and (admitBank_frozen request policy bank) hadmits.all) ?_
  rintro t₂ attempt ⟨hfrozen, ht₂⟩
  have hpre (t : List KEvent) (ht : ∀ e ∈ t, noGrant.allows e) :
      ∀ e ∈ t₁ ++ (⟨.ccnt, start⟩ :: (t₂ ++ t)), noGrant.allows e := by
    intro e he
    simp only [List.mem_append, List.mem_cons] at he
    rcases he with he | rfl | he | he
    · exact ht₁ e he
    · trivial
    · exact ht₂ e he
    · exact ht e he
  refine Prog.all_ite.mpr ⟨fun herror => ?_, fun _ => ?_⟩
  · -- the admission failed: no grant
    refine Prog.all_mono (Prog.all_and (finishBank_all _ bank _ flags start _)
      (hfinish _ _ _ _ _).all) ?_
    rintro t₃ a ⟨⟨hfinished, hresult⟩, ht₃⟩
    have hall := hpre t₃ ht₃
    have hfrozen' := hfrozen.trans hfinished
    refine ⟨fun e he => hweaken e (hall e he), hfrozen'.1, hfrozen'.2.1, fun h0 => ?_,
      fun _ => ⟨hfrozen'.2.2, hstore _ hall⟩⟩
    rcases hresult with hresult | hresult
    · exact absurd (hresult.symm.trans h0) herror
    · exact absurd (hresult.symm.trans h0) hio'
  · -- the grant routine ran: no retry
    rw [Prog.all_bind]
    have hgrant : (grantBank attempt.request bank).Emits attempting.allows :=
      emits_grantBank trivial trivial _ _
    refine Prog.all_mono (Prog.all_and (grantBank_all attempt.request bank) hgrant.all) ?_
    rintro t₃ ⟨r, error⟩ ⟨⟨hinputs, hseq, hretry, hcompleted⟩, ht₃⟩
    refine Prog.all_mono (Prog.all_and (finishBank_all _ bank _ flags start _)
      (hfinish _ _ _ _ _).all) ?_
    rintro t₄ a ⟨⟨hfinished, hresult⟩, ht₄⟩
    refine ⟨?_, (hfinished.1.trans hinputs).trans hfrozen.1,
      (hfinished.2.1.trans hseq).trans hfrozen.2.1, fun h0 => ?_, fun hagain => ?_⟩
    · intro e he
      simp only [List.mem_append, List.mem_cons] at he
      rcases he with he | rfl | he | he | he
      · exact hweaken e (ht₁ e he)
      · trivial
      · exact hweaken e (ht₂ e he)
      · exact ht₃ e he
      · exact hweaken e (ht₄ e he)
    · rcases hresult with hresult | hresult
      · have hmask := hcompleted (hresult.symm.trans h0)
        exact hfinished.2.2.trans (hmask.trans (by rw [hfrozen.2.2]))
      · exact absurd (hresult.symm.trans h0) hio'
    · rcases hresult with hresult | hresult
      · exact absurd (hresult.symm.trans hagain) hretry
      · exact absurd (hresult.symm.trans hagain) hio

theorem tryBank_all (request : DldQuietSend) (policy : Bool) (bank : Bank) :
    (tryBank request policy bank).All (AttemptResult request bank) := by
  have hgranted : (tryBank request policy bank).All fun t _ =>
      ∀ w, grantStore w ∈ t → w = bank.ordinal := by
    refine Prog.all_iff.mpr fun t a hrun w hw => ?_
    obtain ⟨pre, post, rfl⟩ := List.append_of_mem hw
    have hrule := (Monitor.history_runs (tryBank_wp request policy) hrun).1 pre _ post rfl
    exact (hrule.1 w rfl).1
  have hbody : (tryBank request policy bank).All fun t a =>
      (∀ w, grantStore w ∈ t → w = bank.ordinal) → AttemptResult request bank t a := by
    apply traced_all
    refine Prog.all_mono (tryBank_body { request with stage := stageDma } policy bank) ?_
    rintro t a ⟨ht, hinputs, hseq, hcompleted, hretried⟩ hgranted
    refine ⟨hinputs, hseq, hcompleted, fun hagain => ⟨(hretried hagain).1, ?_⟩, hgranted, ?_, ?_⟩
    · intro w hw
      simp only [List.cons_append, List.mem_cons, List.mem_append, List.not_mem_nil, or_false] at hw
      rcases hw with hw | hw | hw
      · cases hw
      · exact (hretried hagain).2 w hw
      · cases hw
    · intro f hf
      simp only [List.cons_append, List.mem_cons, List.mem_append, List.not_mem_nil, or_false] at hf
      rcases hf with hf | hf | hf
      · cases hf
        rfl
      · exact (ht _ hf).elim
      · cases hf
    · intro f r hf
      simp only [List.cons_append, List.mem_cons, List.mem_append, List.not_mem_nil, or_false] at hf
      rcases hf with hf | hf | hf
      · cases hf
      · exact (ht _ hf).elim
      · cases hf
        exact ⟨rfl, rfl⟩
  exact Prog.all_mono (Prog.all_and hgranted hbody) fun t a h => h.2 h.1

/-! ### The rule along the code -/

section Frame

variable {request r : DldQuietSend} {bank : Bank} {h : List KEvent}

/-- Between the entry to `run_bank` and a grant: attempts that are retried. -/
def Retrying (e : KEvent) : Prop :=
  (∀ w, e ≠ grantStore w) ∧ (∀ f, e.1 = .enter f → f = .tryBank) ∧
    ∀ f x, e = ⟨.leave f x, ()⟩ → f = .tryBank ∧ x = -eAgain

/-- The entry, the admission and the warm timer are neither grants nor calls. -/
theorem retrying_of_grantedAfter {pre : List KEvent} (hpre : GrantedAfter pre) :
    ∀ e ∈ pre, Retrying e := by
  obtain ⟨flags, start, admission, warm, rfl, -, hadmitting, hwarm⟩ := hpre
  intro e he
  rcases List.mem_append.mp he with he | he
  · rcases List.mem_append.mp he with he | he
    · simp only [tryBankEntry, List.mem_cons, List.not_mem_nil, or_false] at he
      rcases he with rfl | rfl | rfl | rfl | rfl
      · exact ⟨nofun, fun f hf => by cases hf; rfl, nofun⟩
      all_goals exact ⟨nofun, nofun, nofun⟩
    · have hallowed := hadmitting e he
      obtain ⟨op, v⟩ := e
      refine ⟨?_, ?_, ?_⟩
      · rintro w ⟨⟩
        cases hallowed
      · rintro f ⟨⟩
        exact hallowed.elim
      · rintro f x ⟨⟩
        exact hallowed.elim
  · rcases hwarm e he with ⟨now, rfl⟩ | rfl
    all_goals exact ⟨nofun, nofun, nofun⟩

/-- The history in which `run_bank` is about to try the bank. -/
structure Trying (request : DldQuietSend) (bank : Bank) (h : List KEvent) : Prop where
  nonempty : bankLength request bank ≠ 0
  increasing : ∀ w, grantStore w ∈ h → w < bank.ordinal
  waited : ∃ before gate after, h = before ++ gate ++ ⟨.enter .runBank, ()⟩ :: after ∧
    BankSeen (request.previousSeq + 1) bank gate ∧ ∀ e ∈ after, Retrying e
  noFailure : NoFailure h

theorem Trying.append {t : List KEvent} (htry : Trying request bank h)
    (ht : ∀ e ∈ t, Retrying e) : Trying request bank (h ++ t) := by
  refine ⟨htry.nonempty, fun w hw => ?_, ?_, fun f x hx => ?_⟩
  · rcases List.mem_append.mp hw with hw | hw
    · exact htry.increasing w hw
    · exact absurd rfl ((ht _ hw).1 w)
  · obtain ⟨before, gate, after, rfl, hgate, hafter⟩ := htry.waited
    refine ⟨before, gate, after ++ t, by simp, hgate, fun e he => ?_⟩
    exact (List.mem_append.mp he).elim (hafter e) (ht e)
  · rcases List.mem_append.mp hx with hx | hx
    · exact htry.noFailure f x hx
    · exact .inr ((ht _ hx).2.2 f x rfl)

theorem Trying.ungranted (htry : Trying request bank h) : Ungranted h := by
  obtain ⟨before, gate, after, rfl, -, hafter⟩ := htry.waited
  refine ⟨before ++ gate, after, rfl, fun e he => ⟨fun henter => ?_, (hafter e he).1⟩⟩
  exact nomatch (hafter e he).2.1 _ henter

theorem Trying.grantOk (htry : Trying request bank h) : GrantOk request bank h := by
  refine ⟨htry.nonempty, htry.increasing, ?_, htry.noFailure⟩
  obtain ⟨before, gate, after, rfl, hgate, hafter⟩ := htry.waited
  refine ⟨before, gate, ⟨.enter .runBank, ()⟩ :: after, rfl, hgate, fun e he => ?_⟩
  rcases List.mem_cons.mp he with rfl | he
  · exact nofun
  · exact fun henter => nomatch (hafter e he).2.1 _ henter

/-- One attempt keeps the rule. -/
theorem tryBank_frame (policy : Bool) (htry : Trying request bank h) :
    (Monitor.history (FrameRule request)).wp (tryBank r policy bank) h fun h' a =>
      ∃ t, h' = h ++ t ∧ AttemptResult r bank t a := by
  have hframe : (Monitor.history (FrameRule request)).wp (tryBank r policy bank) h
      fun _ _ => True := by
    refine Monitor.history_shift (tryBank_wp r policy) (fun t e hrule => ⟨?_, ?_⟩) fun _ _ h => h
    · intro v he _
      obtain ⟨rfl, hgranted⟩ := hrule.1 v he
      exact ⟨bank, rfl, (htry.append (retrying_of_grantedAfter hgranted)).grantOk⟩
    · intro he
      obtain rfl : t = [] := hrule.2 he
      rw [List.append_nil]
      exact htry.ungranted
  refine Monitor.wp_mono (Monitor.wp_all hframe (tryBank_all r policy bank)) ?_
  rintro h' a ⟨-, t, rfl, ht⟩
  exact ⟨t, Monitor.history_run, ht⟩

/-- What `run_bank` leaves behind if it returns zero. -/
def BankResult (r : DldQuietSend) (bank : Bank) (h : List KEvent) (a : DldQuietSend × Int) : Prop :=
  a.1.core = r.core ∧ a.1.requestSeq = r.requestSeq ∧
    (a.2 = 0 → a.1.completedMask = r.completedMask ||| bank.bit ∧ NoFailure h ∧
      ∀ w, grantStore w ∈ h → w ≤ bank.ordinal)

/-- The loop of attempts. -/
theorem admissionLoop_frame (policy : Bool) (deadline : Int) (n : Nat)
    (htry : Trying request bank h) :
    (Monitor.history (FrameRule request)).wp
      (admissionLoop ktimeGet (bankAdmissionAttempt policy bank) usleepRange false deadline n r) h
      (BankResult r bank) := by
  have htimedout : (-eTimedout : Int) ≠ 0 := by decide
  induction n generalizing h r with
  | zero => exact ⟨rfl, rfl, fun h0 => absurd h0 htimedout⟩
  | succ n ih =>
    refine Monitor.history_op_bind fun now => ⟨frameRule_of_ne nofun nofun, ?_⟩
    have hclock : Retrying ⟨.ktimeGet, now⟩ := ⟨nofun, nofun, nofun⟩
    replace htry := htry.append (t := [⟨.ktimeGet, now⟩]) (by simpa using hclock)
    refine Monitor.wp_ite.mpr ⟨fun _ => ⟨rfl, rfl, fun h0 => absurd h0 htimedout⟩, fun _ => ?_⟩
    refine Monitor.wp_bind.mpr (Monitor.wp_bind.mpr (Monitor.wp_mono
      (tryBank_frame (r := r) policy htry) ?_))
    rintro _ ⟨r', error⟩ ⟨t, rfl, ht⟩
    refine Monitor.wp_ite.mpr ⟨fun hagain => ?_, fun _ => Monitor.wp_ite.mpr
      ⟨fun hidle => (nomatch hidle.2), fun _ => ?_⟩⟩
    · -- no grant was stored: the bank may be tried again
      obtain ⟨hmask, hnone⟩ := ht.retried hagain.1
      have hpause : Retrying ⟨.usleepRange, ()⟩ := ⟨nofun, nofun, nofun⟩
      have hretry : ∀ e ∈ t, Retrying e := by
        refine fun e he => ⟨?_, ?_, ?_⟩
        · rintro w rfl
          exact hnone w he
        · obtain ⟨op, v⟩ := e
          rintro f ⟨⟩
          exact ht.entered f he
        · rintro f x rfl
          exact ⟨(ht.left f x he).1, (ht.left f x he).2.trans hagain.1⟩
      refine Monitor.history_op_bind fun _ => ⟨frameRule_of_ne nofun nofun, ?_⟩
      have hnext := (htry.append hretry).append (t := [⟨.usleepRange, ()⟩]) (by simpa using hpause)
      refine Monitor.wp_mono (ih (r := r') hnext) ?_
      rintro h' a ⟨hinputs, hseq, hdone⟩
      have hmask : r'.completedMask = r.completedMask := hmask
      refine ⟨hinputs.trans ht.inputs, hseq.trans ht.requestSeq, fun h0 => ?_⟩
      rw [← hmask]
      exact hdone h0
    · -- the attempt is the last
      refine ⟨ht.inputs, ht.requestSeq, fun h0 => ⟨ht.completed h0, fun f x hx => ?_, fun w hw => ?_⟩⟩
      · rcases List.mem_append.mp hx with hx | hx
        · exact htry.noFailure f x hx
        · exact .inl ((ht.left f x hx).2.trans h0)
      · rcases List.mem_append.mp hw with hw | hw
        · exact BitVec.le_of_lt (htry.increasing w hw)
        · rw [ht.granted w hw]
          exact BitVec.le_refl _

theorem runBank_frame (policy : Bool) (hnonempty : bankLength request bank ≠ 0)
    (hincreasing : ∀ w, grantStore w ∈ h → w < bank.ordinal)
    (hwaited : ∃ before gate, h = before ++ gate ∧ BankSeen (request.previousSeq + 1) bank gate)
    (hnoFailure : NoFailure h) :
    (Monitor.history (FrameRule request)).wp (runBank r policy bank) h
      (BankResult r bank) := by
  refine Monitor.history_op_bind fun _ => ⟨frameRule_of_ne nofun nofun, ?_⟩
  have htry : Trying request bank (h ++ [⟨.enter .runBank, ()⟩]) := by
    refine ⟨hnonempty, fun w hw => ?_, ?_, fun f x hx => ?_⟩
    · rcases List.mem_append.mp hw with hw | hw
      · exact hincreasing w hw
      · exact nomatch List.mem_singleton.mp hw
    · obtain ⟨before, gate, rfl, hgate⟩ := hwaited
      exact ⟨before, gate, [], rfl, hgate, by simp⟩
    · rcases List.mem_append.mp hx with hx | hx
      · exact hnoFailure f x hx
      · exact nomatch List.mem_singleton.mp hx
  refine Monitor.wp_bind.mpr (Monitor.history_op_bind fun now =>
    ⟨frameRule_of_ne nofun nofun, ?_⟩)
  have hclock : Retrying ⟨.ktimeGet, now⟩ := ⟨nofun, nofun, nofun⟩
  have htry := htry.append (t := [⟨.ktimeGet, now⟩]) (by simpa using hclock)
  refine Monitor.wp_mono (admissionLoop_frame (r := r) policy _ _ htry) ?_
  rintro h' a ⟨hinputs, hseq, hdone⟩
  refine Monitor.history_op_bind fun _ => ⟨frameRule_of_ne nofun nofun, ?_⟩
  refine ⟨hinputs, hseq, fun h0 => ?_⟩
  obtain ⟨hmask, hnoFailure, hgrants⟩ := hdone h0
  refine ⟨hmask, fun f x hx => ?_, fun w hw => ?_⟩
  · rcases List.mem_append.mp hx with hx | hx
    · exact hnoFailure f x hx
    · cases List.mem_singleton.mp hx
      exact .inl h0
  · rcases List.mem_append.mp hw with hw | hw
    · exact hgrants w hw
    · exact nomatch List.mem_singleton.mp hw

end Frame

/-! ### What the parts of perform_send keep -/

/-- What the checks before the publication keep. -/
def Kept (r r' : DldQuietSend) : Prop := r'.core = r.core ∧ r'.completedMask = r.completedMask

theorem Kept.trans {r r' r'' : DldQuietSend} (h : Kept r r') (h' : Kept r' r'') : Kept r r'' :=
  ⟨h'.1.trans h.1, h'.2.trans h.2⟩

theorem validate_kept (request : DldQuietSend) :
    (validate request).All fun _ a => Kept request a.1 := by
  have hsnapshot : (snapshot request).All fun _ r => Kept request r := by
    unfold snapshot readl kop
    simp only [Prog.all_op_bind, Prog.all_pure]
    exact fun _ _ _ _ _ _ _ _ => ⟨rfl, rfl⟩
  unfold validate readl kop
  simp only [Prog.all_bind, Prog.all_op, Prog.all_ite, Prog.all_pure]
  refine ⟨fun _ => ⟨rfl, rfl⟩, fun _ => ⟨fun _ => ⟨rfl, rfl⟩, fun _ magic => ?_⟩⟩
  refine ⟨fun _ => ⟨rfl, rfl⟩, fun _ abi => ⟨fun _ => ⟨rfl, rfl⟩, fun _ profile => ?_⟩⟩
  refine ⟨fun _ => ⟨rfl, rfl⟩, fun _ => Prog.all_of_forall fun _ _ => ?_⟩
  exact ⟨fun _ => ⟨rfl, rfl⟩, fun _ => Prog.all_mono hsnapshot fun _ _ h => h⟩

theorem checkPlatform_kept (request : DldQuietSend) :
    (checkPlatform request).All fun _ a => Kept request a.1 := by
  unfold checkPlatform kop
  simp only [Prog.all_bind, Prog.all_op, Prog.all_ite, Prog.all_pure]
  refine fun online => ⟨fun _ => ⟨rfl, rfl⟩, fun _ cpu0 => ⟨fun _ => ⟨rfl, rfl⟩, fun _ policy => ?_⟩⟩
  refine Prog.all_of_forall fun _ _ => ⟨fun _ => ⟨rfl, rfl⟩, fun _ _ => ?_⟩
  refine Prog.all_of_forall fun _ _ _ => ⟨fun _ => ⟨rfl, rfl⟩, fun _ => ?_⟩
  refine Prog.all_of_forall fun _ flags => Prog.all_of_forall fun _ ok => ⟨fun _ => ?_, fun _ => ?_⟩
  · refine Prog.all_mono (validate_kept _) fun _ a ha => ?_
    exact Prog.all_of_forall fun _ _ => ha
  · exact Prog.all_of_forall fun _ _ => ⟨rfl, rfl⟩

/-- The admission loop keeps what one attempt keeps. -/
theorem waitOtherDma_kept (request : DldQuietSend) :
    (waitOtherDma request).All fun _ a => Kept request a.1 := by
  have hattempt (r : DldQuietSend) : (otherDmaAttempt r).All fun _ a => Kept r a.1 := by
    refine Prog.all_bind.mpr (Prog.all_of_forall fun _ flags => Prog.all_bind.mpr ?_)
    refine Prog.all_mono (otherDmaIdle_frozen r) fun _ a ha => Prog.all_bind.mpr ?_
    exact Prog.all_of_forall fun _ _ => ⟨ha.1, ha.2.2⟩
  have hloop (deadline : Int) (n : Nat) (r : DldQuietSend) (hr : Kept request r) :
      (admissionLoop ktimeGet otherDmaAttempt usleepRange true deadline n r).All fun _ a =>
        Kept request a.1 := by
    induction n generalizing r with
    | zero => exact hr
    | succ n ih =>
      refine Prog.all_op_bind.mpr fun now => Prog.all_ite.mpr ⟨fun _ => hr, fun _ => ?_⟩
      refine Prog.all_bind.mpr (Prog.all_mono (hattempt r) fun _ a ha => ?_)
      have hr' : Kept request a.1 := hr.trans ha
      refine Prog.all_ite.mpr ⟨fun _ => Prog.all_op_bind.mpr fun _ => ih _ hr', fun _ => ?_⟩
      refine Prog.all_ite.mpr ⟨fun _ => Prog.all_op_bind.mpr fun _ => ?_, fun _ => hr'⟩
      exact Prog.all_ite.mpr ⟨fun _ => hr', fun _ => hr'⟩
  exact Prog.all_op_bind.mpr fun now => hloop _ _ request ⟨rfl, rfl⟩

theorem setBudgets_kept (request : DldQuietSend) (banks : List Bank) :
    Kept request (setBudgets request banks).1 := by
  have hbudget (r : DldQuietSend) (budgets : Fin 3 → Word) :
      Kept r { r with budgetCycles := budgets } := ⟨rfl, rfl⟩
  induction banks generalizing request with
  | nil => exact ⟨rfl, rfl⟩
  | cons bank rest ih =>
    -- an empty bank has no budget
    simp only [setBudgets]
    split
    · split
      · exact hbudget _ _
      · exact (hbudget _ _).trans (ih _)
    · split
      · exact hbudget _ _
      · exact (hbudget _ _).trans (ih _)

theorem acquireSystem_kept (request : DldQuietSend) (held : Held) :
    (acquireSystem request held).All fun _ a => Kept request a.1 := by
  unfold acquireSystem kop
  simp only [Prog.all_bind, Prog.all_op, Prog.all_ite, Prog.all_pure]
  refine fun rtnl => ⟨fun _ => ⟨rfl, rfl⟩, fun _ => Prog.all_of_forall fun _ net => ?_⟩
  refine ⟨fun _ => ⟨rfl, rfl⟩, fun _ power => ⟨fun _ => ⟨rfl, rfl⟩, fun _ => ?_⟩⟩
  refine Prog.all_mono (waitOtherDma_kept request) fun _ a ha => ?_
  exact ⟨fun _ => ha, fun _ pending => ⟨fun _ => ha, fun _ => ha.trans (setBudgets_kept a.1 _)⟩⟩

theorem preflight_kept (request : DldQuietSend) :
    (preflight request).All fun _ a => Kept request a.1 := by
  refine Prog.all_bind.mpr (Prog.all_mono (checkPlatform_kept request) ?_)
  rintro _ ⟨r, held, error⟩ hr
  refine Prog.all_ite.mpr ⟨fun _ => hr, fun _ => ?_⟩
  exact Prog.all_mono (acquireSystem_kept r held) fun _ a ha => hr.trans ha

/-- The exit path returns zero only if it was reached with zero. -/
theorem submittedDone_kept (request : DldQuietSend) (error : Int) :
    (submittedDone request error).All fun _ a => a.2 = 0 →
      error = 0 ∧ a.1.completedMask = request.completedMask := by
  have hsnapshot : (snapshot request).All fun _ r => Kept request r := by
    unfold snapshot readl kop
    simp only [Prog.all_op_bind, Prog.all_pure]
    exact fun _ _ _ _ _ _ _ _ => ⟨rfl, rfl⟩
  unfold submittedDone
  simp only [Prog.all_bind, Prog.all_ite, Prog.all_pure]
  refine Prog.all_of_forall fun _ flags => Prog.all_of_forall fun _ ok => ⟨fun _ => ?_, fun _ => ?_⟩
  · refine Prog.all_mono hsnapshot fun _ r hr => Prog.all_of_forall fun _ _ => ?_
    refine ⟨fun herror => Prog.all_of_forall fun _ _ h0 => absurd h0 herror, fun herror _ => ?_⟩
    exact ⟨not_not.mp herror, hr.2⟩
  · refine Prog.all_of_forall fun _ _ => ⟨fun herror => ?_, fun herror h0 => ?_⟩
    · exact Prog.all_of_forall fun _ _ h0 => absurd h0 herror
    · split at h0
      · cases h0
      · rename_i h
        exact absurd h0 h

/-! ### The whole frame -/

section PerformSend

variable {request : DldQuietSend} {h : List KEvent}

/-- A successful wait stores nothing and returns zero. -/
theorem GateSeen.events {timeout : Int} {status seq v : Word} {last : Off} {t : List KEvent}
    (ht : GateSeen timeout status seq last v t) :
    ∀ e ∈ t, (∀ w, e ≠ grantStore w) ∧ ∀ f x, e = ⟨.leave f x, ()⟩ → x = 0 := by
  obtain ⟨start, now, later, polls, flags, clock, rfl, hpolls, -⟩ := ht
  have hquiet (e : KEvent) (he : polling.allows e) :
      (∀ w, e ≠ grantStore w) ∧ ∀ f x, e = ⟨.leave f x, ()⟩ → x = 0 := by
    refine ⟨?_, ?_⟩
    · rintro w rfl
      exact he.elim
    · rintro f x rfl
      exact he.elim
  intro e he
  simp only [gatePoll, List.cons_append, List.mem_append, List.mem_cons, List.not_mem_nil,
    or_false] at he
  rcases he with rfl | rfl | (he | he) | rfl | rfl
  · exact ⟨nofun, nofun⟩
  · exact hquiet _ trivial
  · exact hquiet e (hpolls e he)
  · rcases he with rfl | rfl | rfl | rfl | rfl | rfl | rfl | rfl | rfl | rfl | rfl
    all_goals exact hquiet _ trivial
  · exact hquiet _ trivial
  · refine ⟨nofun, ?_⟩
    rintro f x ⟨⟩
    rfl

/-- What one call of `wait_gate` adds to the history. -/
theorem waitGate_frame (r : DldQuietSend) (ordinal : Word) (final : Bool) :
    (Monitor.history (FrameRule request)).wp (waitGate r ordinal final) h fun h' error =>
      ∃ t, h' = h ++ t ∧ (error = 0 →
        GateSeen (if final then finalTimeoutNs else gateTimeoutNs) (wantedStatus final)
          r.requestSeq (wantedOff final) (wantedValue r ordinal final) t) :=
  Monitor.history_wp (emits_waitGate trivial (fun _ => trivial) (fun _ => trivial)
    (show KFn.waitGate ≠ .tryBank by decide) r ordinal final)
    (fun _ _ he => frameRule_of_apart he) (waitGate_all r ordinal final) fun t _ ht => ⟨t, rfl, ht⟩

/-- The mask once the banks of the list are completed. -/
def completedAfter (request : DldQuietSend) (mask : Word) (banks : List Bank) : Word :=
  banks.foldl (fun mask b => if bankLength request b ≠ 0 then mask ||| b.bit else mask) mask

/-- The loop over the banks: every earlier grant is below the banks left,
and nothing has failed. -/
theorem sendBanks_frame (r : DldQuietSend) (policy : Bool) (banks : List Bank)
    (hcore : ∀ b, bankLength r b = bankLength request b)
    (hseq : r.requestSeq = request.previousSeq + 1)
    (hsorted : banks.Pairwise fun b b' => b.ordinal < b'.ordinal)
    (hgrants : ∀ w, grantStore w ∈ h → ∀ b ∈ banks, w < b.ordinal) (hnoFailure : NoFailure h) :
    (Monitor.history (FrameRule request)).wp (sendBanks r policy banks) h fun h' a =>
      a.2 = 0 → a.1.completedMask = completedAfter request r.completedMask banks ∧
        ∃ before done, h' = before ++ done ∧ DoneSeen (request.previousSeq + 1) done := by
  induction banks generalizing r h with
  | nil =>
    refine Monitor.wp_bind.mpr (Monitor.wp_mono (waitGate_frame _ 0 true) ?_)
    rintro _ error ⟨t, rfl, ht⟩
    refine Monitor.wp_ite.mpr ⟨fun h0 _ => ⟨rfl, h, t, rfl, ?_⟩, fun h0 h0' => absurd h0' h0⟩
    rw [DoneSeen, ← hseq]
    exact ht h0
  | cons bank rest ih =>
    obtain ⟨hlater, hsorted⟩ := List.pairwise_cons.mp hsorted
    refine Monitor.wp_ite.mpr ⟨fun hempty => ?_, fun hnonempty => ?_⟩
    · -- an empty bank is skipped
      have hskip : completedAfter request r.completedMask (bank :: rest) =
          completedAfter request r.completedMask rest := by
        simp [completedAfter, (hcore bank).symm.trans hempty]
      rw [hskip]
      exact ih r hcore hseq hsorted (fun w hw b hb => hgrants w hw b (.tail _ hb)) hnoFailure
    refine Monitor.wp_bind.mpr (Monitor.wp_mono (waitGate_frame _ bank.ordinal false) ?_)
    rintro _ error ⟨gate, rfl, hgate⟩
    refine Monitor.wp_ite.mpr ⟨fun h0 h0' => absurd h0' h0, fun h0 => ?_⟩
    have hgate : BankSeen (request.previousSeq + 1) bank gate := by
      rw [BankSeen, ← hseq]
      exact hgate (not_not.mp h0)
    have hgrants' (w : Word) (hw : grantStore w ∈ h ++ gate) (b : Bank) (hb : b ∈ bank :: rest) :
        w < b.ordinal := by
      rcases List.mem_append.mp hw with hw | hw
      · exact hgrants w hw b hb
      · exact absurd rfl ((hgate.events _ hw).1 w)
    have hnoFailure' : NoFailure (h ++ gate) := by
      intro f x hx
      rcases List.mem_append.mp hx with hx | hx
      · exact hnoFailure f x hx
      · exact .inl ((hgate.events _ hx).2 f x rfl)
    have hnonempty' : bankLength request bank ≠ 0 := fun h0 => hnonempty ((hcore bank).trans h0)
    refine Monitor.wp_bind.mpr (Monitor.wp_mono (runBank_frame policy hnonempty'
      (fun w hw => hgrants' w hw bank (.head _)) ⟨h, gate, rfl, hgate⟩ hnoFailure') ?_)
    rintro h₁ ⟨r', error⟩ ⟨hinputs, hseq', hdone⟩
    refine Monitor.wp_ite.mpr ⟨fun h0 h0' => absurd h0' h0, fun h0 => ?_⟩
    obtain ⟨hmask, hnoFailure₁, hgrants₁⟩ := hdone (not_not.mp h0)
    refine Monitor.history_op_bind fun _ => ⟨frameRule_of_ne nofun nofun, ?_⟩
    have hstep : completedAfter request r.completedMask (bank :: rest) =
        completedAfter request r'.completedMask rest := by
      have hmask : r'.completedMask = r.completedMask ||| bank.bit := hmask
      simp only [completedAfter, List.foldl_cons, hmask, if_pos hnonempty']
    rw [hstep]
    refine ih r' (fun b => ?_) (hseq'.trans hseq) hsorted (fun w hw b hb => ?_) fun f x hx => ?_
    · exact (bankLength_congr hinputs b).trans (hcore b)
    · rcases List.mem_append.mp hw with hw | hw
      · show w.toNat < b.ordinal.toNat
        exact Nat.lt_of_le_of_lt (hgrants₁ w hw) (hlater b hb)
      · exact nomatch List.mem_singleton.mp hw
    · rcases List.mem_append.mp hx with hx | hx
      · exact hnoFailure₁ f x hx
      · exact nomatch List.mem_singleton.mp hx

/-- The wait, after which nothing is granted any more, is the end of the frame. -/
def FrameDone (request : DldQuietSend) (h : List KEvent) : Prop :=
  ∃ before done after, h = before ++ done ++ after ∧ DoneSeen (request.previousSeq + 1) done ∧
    ∀ w, grantStore w ∉ after

theorem FrameDone.append {t : List KEvent} (hdone : FrameDone request h)
    (ht : ∀ w, grantStore w ∉ t) : FrameDone request (h ++ t) := by
  obtain ⟨before, done, after, rfl, hseen, hafter⟩ := hdone
  refine ⟨before, done, after ++ t, by simp, hseen, fun w hw => ?_⟩
  exact (List.mem_append.mp hw).elim (hafter w) (ht w)

/-- From the publication to `done`. -/
theorem sendFrame_frame (r : DldQuietSend) (policy : Bool) (hkept : r.core = request.clearOutputs.core)
    (hempty : ∀ e ∈ h, ¬ ∃ f x, e = ⟨.leave f x, ()⟩) (hgrants : ∀ w, grantStore w ∉ h) :
    (Monitor.history (FrameRule request)).wp (sendFrame r policy) h fun h' a =>
      a.2 = 0 → a.1.completedMask = completedAfter request r.completedMask Bank.pass ∧
        FrameDone request h' := by
  have hprevious : r.previousSeq = request.previousSeq := by
    have := congrArg DldQuietSend.previousSeq hkept
    exact this
  have hinputs (b : Bank) : bankLength request.clearOutputs b = bankLength request b := by
    cases b <;> rfl
  have hnodev : (-eNodev : Int) ≠ 0 := by decide
  have happart {t : List KEvent} (ht : ∀ e ∈ t, apart.allows e) (w : Word) : grantStore w ∉ t :=
    fun hw => ht _ hw rfl
  have hmasked {α : Type} {p : KProg α} (hp : p.Emits polling.allows)
      {h : List KEvent} {Q : List KEvent → α → Prop}
      (hQ : ∀ t a, (∀ e ∈ t, polling.allows e) → Q (h ++ t) a) :
      (Monitor.history (FrameRule request)).wp p h Q := by
    refine Monitor.history_wp hp (fun _ e he => frameRule_of_apart ?_) hp.all hQ
    exact Access.allows_mono (a := polling) (b := apart) (fun _ _ => trivial) (fun _ hw => hw.elim)
      (fun _ => trivial) (fun _ hc => hc.elim) e he
  refine Monitor.wp_bind.mpr (hmasked (emits_maskCpu trivial) fun t₁ flags ht₁ => ?_)
  refine Monitor.wp_bind.mpr (hmasked (emits_mailboxFunctional fun _ => trivial) fun t₂ ok ht₂ => ?_)
  refine Monitor.wp_ite.mpr ⟨fun _ => ?_, fun _ => ?_⟩
  · refine Monitor.wp_bind.mpr (hmasked (emits_unmaskCpu trivial _) fun t₃ _ _ => ?_)
    exact fun h0 => absurd h0 hnodev
  -- the publication
  refine Monitor.wp_bind.mpr ?_
  refine Monitor.history_op_bind fun _ => ⟨⟨fun v hv h0 => ?_, ?_⟩, ?_⟩
  · cases hv
    exact absurd rfl h0
  · rintro ⟨⟩
  have hword {off : Off} (hoff : off ≠ .bankGrant) {v : Word} {u : Unit} {h : List KEvent} :
      FrameRule request h ⟨.writel v (.mailbox off), u⟩ :=
    frameRule_of_apart fun heq => hoff (Reg.mailbox.inj heq)
  refine Monitor.history_op_bind fun _ => ⟨hword (by decide), ?_⟩
  refine Monitor.history_op_bind fun _ => ⟨frameRule_of_ne nofun nofun, ?_⟩
  refine Monitor.history_op_bind fun _ => ⟨hword (by decide), ?_⟩
  refine Monitor.history_op_bind fun _ => ⟨frameRule_of_ne nofun nofun, ?_⟩
  refine Monitor.wp_bind.mpr (hmasked (emits_unmaskCpu trivial _) fun t₃ _ ht₃ => ?_)
  refine Monitor.wp_bind.mpr (Monitor.wp_mono (sendBanks_frame _ policy Bank.pass
    (fun b => (bankLength_congr hkept b).trans (hinputs b)) (congrArg (· + 1) hprevious) (by decide) ?_ ?_) ?_)
  · -- the only store so far is the zero of the publication
    intro w hw b _
    have hw0 : w = 0 := by
      simp only [List.mem_append, List.mem_singleton] at hw
      rcases hw with (((((((hw | hw) | hw) | hw) | hw) | hw) | hw) | hw) | hw
      · exact absurd hw (hgrants w)
      · exact (ht₁ _ hw).elim
      · exact (ht₂ _ hw).elim
      · cases hw
        rfl
      · cases hw
      · cases hw
      · cases hw
      · cases hw
      · exact (ht₃ _ hw).elim
    subst hw0
    cases b <;> decide
  · intro f x hx
    simp only [List.mem_append, List.mem_singleton] at hx
    rcases hx with (((((((hx | hx) | hx) | hx) | hx) | hx) | hx) | hx) | hx
    · exact absurd ⟨f, x, rfl⟩ (hempty _ hx)
    · exact (ht₁ _ hx).elim
    · exact (ht₂ _ hx).elim
    · cases hx
    · cases hx
    · cases hx
    · cases hx
    · cases hx
    · exact (ht₃ _ hx).elim
  · -- the exit path
    rintro h' ⟨r', error⟩ hsent
    have hdone : (submittedDone r' error).Emits apart.allows :=
      emits_submittedDone trivial (fun _ => trivial) (show _ ≠ _ by simp) (fun _ => show _ ≠ _ by simp)
        (fun _ _ => show _ ≠ _ by simp) (show KFn.failedFrameCleanup ≠ .tryBank by decide) _ _
    refine Monitor.history_wp hdone (fun _ _ he => frameRule_of_apart he)
      (Prog.all_and (submittedDone_kept r' error) hdone.all) ?_
    rintro t a ⟨ha, ht⟩ h0
    obtain ⟨herror, hmask⟩ := ha h0
    obtain ⟨hcompleted, before, done, rfl, hseen⟩ := hsent herror
    have hframe : FrameDone request (before ++ done) :=
      ⟨before, done, [], (List.append_nil _).symm, hseen, by simp⟩
    exact ⟨hmask.trans hcompleted, hframe.append (happart ht)⟩

theorem performSend_frame (request : DldQuietSend) :
    (Monitor.history (FrameRule request)).wp (performSend request.clearOutputs) [] fun h a =>
      a.2 = 0 → a.1.completedMask = nonEmptyMask request ∧ FrameDone request h := by
  have hbusy : (-eBusy : Int) ≠ 0 := by decide
  refine Monitor.history_op_bind fun locked => ⟨frameRule_of_ne nofun nofun, ?_⟩
  refine Monitor.wp_ite.mpr ⟨fun _ h0 => absurd h0 hbusy, fun _ => ?_⟩
  refine Monitor.history_op_bind fun _ => ⟨frameRule_of_ne nofun nofun, ?_⟩
  -- before the publication nothing is stored and nothing has returned
  have hpreflight : (preflight { request.clearOutputs with stage := stageValidate }).Emits
      polling.allows :=
    emits_preflight trivial (fun _ => trivial) (fun _ => trivial) (fun _ _ => trivial) _
  have hapart (e : KEvent) (he : polling.allows e) : apart.allows e :=
    Access.allows_mono (a := polling) (b := apart) (fun _ _ => trivial) (fun _ hw => hw.elim)
      (fun _ => trivial) (fun _ hc => hc.elim) e he
  refine Monitor.wp_bind.mpr (Monitor.history_wp hpreflight
    (fun _ e he => frameRule_of_apart (hapart e he))
    (Prog.all_and (preflight_kept _) hpreflight.all) ?_)
  rintro t ⟨r, held, error⟩ ⟨⟨hcore, hmask⟩, ht⟩
  have hrelease {h : List KEvent} (r : DldQuietSend) (error : Int)
      (hdone : error = 0 → r.completedMask = nonEmptyMask request ∧ FrameDone request h) :
      (Monitor.history (FrameRule request)).wp
        (sendDone r held >>= fun _ => pure (r, error)) h fun h a =>
          a.2 = 0 → a.1.completedMask = nonEmptyMask request ∧ FrameDone request h := by
    have hnever (e : KEvent) (he : Releases e) : (∀ v, e ≠ grantStore v) ∧ e.1 ≠ .enter .tryBank := by
      obtain ⟨op, v⟩ := e
      refine ⟨?_, ?_⟩
      · rintro w ⟨⟩
        exact he
      · rintro ⟨⟩
        exact he
    refine Monitor.wp_bind.mpr (Monitor.history_wp (emits_sendDone r held)
      (fun _ e he => frameRule_of_ne (hnever e he).1 (hnever e he).2) (emits_sendDone r held).all ?_)
    intro t _ ht h0
    obtain ⟨hmask, hframe⟩ := hdone h0
    exact ⟨hmask, hframe.append fun w hw => (hnever _ (ht _ hw)).1 w rfl⟩
  refine Monitor.wp_ite.mpr ⟨fun herror => hrelease r error fun h0 => absurd h0 herror, fun _ => ?_⟩
  have hbefore (e : KEvent) (he : e ∈ [] ++ [⟨.mutexTrylock, locked⟩] ++ [⟨.getOnlineCpus, ()⟩] ++ t) :
      (∀ w, e ≠ grantStore w) ∧ ∀ f x, e ≠ ⟨.leave f x, ()⟩ := by
    simp only [List.nil_append, List.mem_append, List.mem_singleton] at he
    rcases he with (rfl | rfl) | he
    · exact ⟨nofun, nofun⟩
    · exact ⟨nofun, nofun⟩
    · refine ⟨?_, ?_⟩
      · rintro w rfl
        exact (ht _ he).elim
      · rintro f x rfl
        exact (ht _ he).elim
  refine Monitor.wp_bind.mpr (Monitor.wp_mono (sendFrame_frame r held.policy ?_ ?_ ?_) ?_)
  · exact hcore
  · rintro e he ⟨f, x, rfl⟩
    exact (hbefore _ he).2 f x rfl
  · exact fun w hw => (hbefore _ hw).1 w rfl
  · rintro h ⟨r', error⟩ hsent
    refine hrelease r' error fun h0 => ?_
    obtain ⟨hcompleted, hframe⟩ := hsent h0
    have hmask : r.completedMask = 0 := hmask
    rw [hmask] at hcompleted
    exact ⟨hcompleted, hframe⟩

end PerformSend

/-- **The grant discipline.**  In every run of `perform_send`, whatever the
mailbox and the hardware answer: a grant is stored for a non-empty bank, above
every earlier one, after its wait and after no failure; a bank is tried again
only while its grant has not been stored; and zero is returned only if the
completed banks are the non-empty ones and the final wait saw the frame done. -/
theorem grant_discipline (request : DldQuietSend) (t : List KEvent) (a : DldQuietSend × Int)
    (hrun : (performSend request.clearOutputs).Runs t a) :
    (∀ pre v post, t = pre ++ grantStore v :: post → v ≠ 0 →
      ∃ b : Bank, v = b.ordinal ∧ GrantOk request b pre) ∧
    (∀ pre post, t = pre ++ ⟨.enter .tryBank, ()⟩ :: post → Ungranted pre) ∧
    (a.2 = 0 → a.1.completedMask = nonEmptyMask request ∧ FrameDone request t) := by
  obtain ⟨hrule, hresult⟩ := Monitor.history_runs (performSend_frame request) hrun
  refine ⟨fun pre v post ht hv => ?_, fun pre post ht => ?_, hresult⟩
  · exact (hrule pre _ post ht).1 v rfl hv
  · exact (hrule pre _ post ht).2 rfl

/-- A frame of one bank on a cooperative board returns zero: its bank was
granted, and its final wait saw it done. -/
theorem grant_discipline_oneBank :
    ((performSend oneBankRequest.clearOutputs).execWith Board.answer oneBankBoard).2.2 = 0 ∧
      (∃ pre v post, ((performSend oneBankRequest.clearOutputs).execWith Board.answer
          oneBankBoard).1 = pre ++ grantStore v :: post ∧ v ≠ 0 ∧
        ∃ b : Bank, v = b.ordinal ∧ GrantOk oneBankRequest b pre) ∧
      FrameDone oneBankRequest ((performSend oneBankRequest.clearOutputs).execWith Board.answer
        oneBankBoard).1 := by
  have hrun := Prog.execWith_runs Board.answer oneBankBoard (performSend oneBankRequest.clearOutputs)
  have hzero : ((performSend oneBankRequest.clearOutputs).execWith Board.answer oneBankBoard).2.2 =
      0 := by decide +kernel
  have hdiscipline := grant_discipline oneBankRequest _ _ hrun
  refine ⟨hzero, ?_, (hdiscipline.2.2 hzero).2⟩
  obtain ⟨pre, e, post, heq, he⟩ := exists_split (t := ((performSend
    oneBankRequest.clearOutputs).execWith Board.answer oneBankBoard).1)
    (p := storesGrant fun v => decide (v ≠ 0)) (by decide +kernel)
  obtain ⟨v, rfl, hkeep⟩ := exists_of_storesGrant he
  have hv : v ≠ 0 := of_decide_eq_true hkeep
  exact ⟨pre, v, post, heq, hv, hdiscipline.1 pre v post heq hv⟩

end Dld
