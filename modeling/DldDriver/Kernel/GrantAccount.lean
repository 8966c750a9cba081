/-
DldDriver/Kernel/GrantAccount.lean

What `try_bank` makes of the result of the grant routine.  The routine
returns a difference of the cycle counter and two flags in one word;
`try_bank` takes them apart again (`decodeGrant`).  The account of the run
says what really happened:

    FaithfulAccount     the request, *granted and the withdrawal agree with
                        the account
    InRange             the differences stay clear of the flags

`grant_account_iff`: the first holds exactly under the second.
-/
import DldDriver.Kernel.QuietSpin
import DldDriver.Kernel.Cleanup

namespace Dld

open Interaction

/-! ### The decoding -/

/-- What `try_bank` does with the result of the routine. -/
def decodeGrant (request : DldQuietSend) (bank : Bank) (observed elapsed : Word) :
    DldQuietSend × Int :=
  let request := { request with
    elapsedCycles := Function.update request.elapsedCycles bank.index
      (elapsed &&& ~~~(timerFault ||| grantWithheld))
    grantedMask :=
      if elapsed &&& grantWithheld = 0 then request.grantedMask ||| bank.bit
      else request.grantedMask
    bankDone := observed }
  if elapsed &&& timerFault ≠ 0 then
    ({ request with timerFaultMask := request.timerFaultMask ||| bank.bit }, -eTime)
  else if observed ≠ bank.ordinal then (request, -eTimedout)
  else ({ request with completedMask := request.completedMask ||| bank.bit }, 0)

theorem grantBank_eq (request : DldQuietSend) (bank : Bank) :
    grantBank request bank =
      dldQuietBankEntry bank.ordinal (request.budgetCycles bank.index) timerIterationCap >>= fun r =>
        pure (decodeGrant { request with stage := stageBank } bank r.1 r.2) := by
  show (_ >>= _) = _
  congr 1
  funext r
  show (if r.2 &&& timerFault ≠ 0 then _ else if r.1 ≠ bank.ordinal then _ else _) =
    pure (if r.2 &&& timerFault ≠ 0 then _ else if r.1 ≠ bank.ordinal then _ else _)
  by_cases hfault : r.2 &&& timerFault ≠ 0
  · rw [if_pos hfault, if_pos hfault]
  · rw [if_neg hfault, if_neg hfault]
    by_cases hobserved : r.1 ≠ bank.ordinal
    · rw [if_pos hobserved, if_pos hobserved]
    · rw [if_neg hobserved, if_neg hobserved]

/-! ### Flags and differences -/

/-- A word survives the removal of the flags only without them. -/
theorem and_not_flags_iff (x : Word) :
    x &&& ~~~(timerFault ||| grantWithheld) = x ↔
      x &&& timerFault = 0 ∧ x &&& grantWithheld = 0 := by
  constructor
  · intro h
    constructor
    · rw [← h, BitVec.and_assoc, show ~~~(timerFault ||| grantWithheld) &&& timerFault = 0#32 by
        decide, BitVec.and_zero]
      rfl
    · rw [← h, BitVec.and_assoc, show ~~~(timerFault ||| grantWithheld) &&& grantWithheld = 0#32 by
        decide, BitVec.and_zero]
      rfl
  · rintro ⟨hfault, hwithheld⟩
    have hsplit : x = (x &&& ~~~(timerFault ||| grantWithheld)) |||
        ((x &&& timerFault) ||| (x &&& grantWithheld)) := by
      rw [← BitVec.and_or_distrib_left, ← BitVec.and_or_distrib_left,
        show ~~~(timerFault ||| grantWithheld) ||| (timerFault ||| grantWithheld) = BitVec.allOnes 32 by
          decide, BitVec.and_allOnes]
    rw [hfault, hwithheld] at hsplit
    simpa using hsplit.symm

/-- The flag of the guard does not touch the flag of the grant. -/
theorem fault_and_withheld (x : Word) :
    (x ||| timerFault) &&& grantWithheld = x &&& grantWithheld := by
  rw [BitVec.and_comm, BitVec.and_or_distrib_left, show grantWithheld &&& timerFault = 0#32 by decide,
    BitVec.or_zero, BitVec.and_comm]

theorem withheld_and_fault (x : Word) :
    (x ||| grantWithheld) &&& timerFault = x &&& timerFault := by
  rw [BitVec.and_comm, BitVec.and_or_distrib_left, show timerFault &&& grantWithheld = 0#32 by decide,
    BitVec.or_zero, BitVec.and_comm]

/-- Setting a bank's bit changes nothing only where it is set. -/
theorem or_bit_eq_self_iff (x : Word) (bank : Bank) : x ||| bank.bit = x ↔ x &&& bank.bit ≠ 0 := by
  constructor
  · intro h
    rw [← h]
    exact or_bit_and_bit x bank
  · intro h
    have hbit : x &&& bank.bit = bank.bit := and_bitAt h
    rw [show x ||| bank.bit = x ||| (x &&& bank.bit) by rw [hbit]]
    apply BitVec.eq_of_getLsbD_eq
    intro i _
    rw [BitVec.getLsbD_or, BitVec.getLsbD_and]
    cases x.getLsbD i <;> rfl

/-! ### An attempt that runs the routine -/

instance (a : SpinAccount) (cycles : Word) : Decidable (a.Expired cycles) :=
  inferInstanceAs (Decidable (_ ∨ ∃ t ∈ a.timed, _))

/-- The single observation found the ordinal. -/
def SpinAccount.Observed (a : SpinAccount) (ordinal : Word) : Prop :=
  ∃ t ∈ a.timed, t.2 = ordinal

instance (a : SpinAccount) (ordinal : Word) : Decidable (a.Observed ordinal) :=
  inferInstanceAs (Decidable (∃ t ∈ a.timed, _))

/-- The counter difference of the timing the routine ended with. -/
def SpinAccount.difference (a : SpinAccount) : Word :=
  match a.timed with
  | none => a.warm.last
  | some (m, _) => m.last

/-- Stored, no guard expired, and observed. -/
def SpinAccount.Done (a : SpinAccount) (cycles ordinal : Word) : Prop :=
  a.Stored ∧ ¬ a.Expired cycles ∧ a.Observed ordinal

instance (a : SpinAccount) (cycles ordinal : Word) : Decidable (a.Done cycles ordinal) :=
  inferInstanceAs (Decidable (_ ∧ _ ∧ _))

section Attempt

variable (policy : Bool) (bank : Bank) (request : DldQuietSend)

/-- The budget of the bank. -/
def budget : Word := request.budgetCycles bank.index

/-- A run of `bank_admission_attempt` in which the routine ran with account
`a` and `withdrawal` was done at the label `restore`. -/
def RoutineRun (t : List KEvent) (result : DldQuietSend × Int × Bool) (a : SpinAccount)
    (withdrawal : List KEvent) : Prop :=
  ∃ (flags start now : Word) (admission restoration : List KEvent) (attempt : Attempt)
      (final : DldQuietSend × Int),
    t = tryBankEntry flags start ++ (admission ++ a.events bank.ordinal) ++ withdrawal ++
      restoration ++ tryBankExit flags now final.2 ∧
    (admitBank { request with stage := stageDma } policy bank).Runs admission attempt ∧
    attempt.error = 0 ∧ a.Valid (budget bank request) timerIterationCap.toNat ∧
    (let result := a.result (budget bank request)
     let decoded := decodeGrant { attempt.request with stage := stageBank } bank result.1 result.2
     (withdrawBank decoded.1 bank decoded.2).Runs withdrawal () ∧
      (restoreDma decoded.1 bank attempt.changedDma decoded.2).Runs restoration final) ∧
    result.1 = { final.1 with
      irqOffCycles := Function.update final.1.irqOffCycles bank.index (now - start) } ∧
    result.2 = (final.2, decide (result.1.grantedMask &&& bank.bit ≠ 0))

/-- The grant of the bank is out: stored in this attempt, or before it. -/
def GrantOut (a : SpinAccount) : Prop := request.grantedMask &&& bank.bit ≠ 0 ∨ a.Stored

/-- The kernel's account of a grant is what really happened. -/
structure FaithfulAccount (result : DldQuietSend × Int × Bool) (a : SpinAccount)
    (withdrawal : List KEvent) : Prop where
  granted : result.1.grantedMask =
    if a.Stored then request.grantedMask ||| bank.bit else request.grantedMask
  fault : result.1.timerFaultMask =
    if a.Expired (budget bank request) then request.timerFaultMask ||| bank.bit
    else request.timerFaultMask
  completed : result.1.completedMask =
    if a.Done (budget bank request) bank.ordinal then request.completedMask ||| bank.bit
    else request.completedMask
  elapsed : ¬ a.Expired (budget bank request) → result.1.elapsedCycles bank.index = a.difference
  /-- `*granted`, as `dld_admission_wait` gets it -/
  reported : result.2.2 = true ↔ GrantOut bank request a
  /-- the immediate withdrawal of the PRU at `restore` -/
  withdrawn : withdrawal ≠ [] ↔
    GrantOut bank request a ∧ ¬ a.Done (budget bank request) bank.ordinal

/-- The differences stay clear of the flags they share the word with. -/
structure InRange (a : SpinAccount) : Prop where
  warm : 16 ≤ a.warm.last → a.warm.last &&& timerFault = 0
  reached : ∀ t ∈ a.timed, budget bank request ≤ t.1.last →
    t.1.last &&& timerFault = 0 ∧ t.1.last &&& grantWithheld = 0
  expired : ∀ t ∈ a.timed, t.1.last < budget bank request →
    t.1.last &&& grantWithheld = 0 ∨ request.grantedMask &&& bank.bit ≠ 0

/-! ### What the word says -/

variable {bank request}

/-- The fields `try_bank` decodes, by the two flags of the word. -/
structure Decoded (observed elapsed : Word) (r : DldQuietSend) : Prop where
  granted : r.grantedMask =
    if elapsed &&& grantWithheld = 0 then request.grantedMask ||| bank.bit else request.grantedMask
  fault : r.timerFaultMask =
    if elapsed &&& timerFault ≠ 0 then request.timerFaultMask ||| bank.bit else request.timerFaultMask
  completed : r.completedMask =
    if elapsed &&& timerFault = 0 ∧ observed = bank.ordinal then request.completedMask ||| bank.bit
    else request.completedMask
  elapsed : r.elapsedCycles bank.index = elapsed &&& ~~~(timerFault ||| grantWithheld)

theorem decodeGrant_decoded (observed elapsed : Word) :
    @Decoded bank request observed elapsed (decodeGrant request bank observed elapsed).1 ∧
      ((decodeGrant request bank observed elapsed).2 = 0 ↔
        elapsed &&& timerFault = 0 ∧ observed = bank.ordinal) := by
  have htime : (-eTime : Int) ≠ 0 := by decide
  have htimedout : (-eTimedout : Int) ≠ 0 := by decide
  rw [decodeGrant]
  by_cases hfault : elapsed &&& timerFault ≠ 0
  · have hnot : ¬ (elapsed &&& timerFault = 0 ∧ observed = bank.ordinal) := fun h => hfault h.1
    rw [if_pos hfault]
    refine ⟨⟨rfl, (if_pos hfault).symm, (if_neg hnot).symm, Function.update_self _ _ _⟩, ?_⟩
    exact iff_of_false htime hnot
  · have hclear : elapsed &&& timerFault = 0 := not_not.mp hfault
    rw [if_neg hfault]
    by_cases hobserved : observed ≠ bank.ordinal
    · have hnot : ¬ (elapsed &&& timerFault = 0 ∧ observed = bank.ordinal) := fun h => hobserved h.2
      rw [if_pos hobserved]
      refine ⟨⟨rfl, (if_neg hfault).symm, (if_neg hnot).symm, Function.update_self _ _ _⟩, ?_⟩
      exact iff_of_false htimedout hnot
    · have hboth : elapsed &&& timerFault = 0 ∧ observed = bank.ordinal :=
        ⟨hclear, not_not.mp hobserved⟩
      rw [if_neg hobserved]
      refine ⟨⟨rfl, (if_neg hfault).symm, (if_pos hboth).symm, Function.update_self _ _ _⟩, ?_⟩
      exact iff_of_true rfl hboth

/-- An attempt that ran the routine, by its account: the masks as decoded
from the word, `*granted` and the withdrawal by the decoded mask. -/
structure AttemptOutcome (result : DldQuietSend × Int × Bool) (a : SpinAccount) (withdrawal : List KEvent) :
    Prop where
  decoded : @Decoded bank request (a.result (budget bank request)).1 (a.result (budget bank request)).2
    result.1
  reported : result.2.2 = true ↔ result.1.grantedMask &&& bank.bit ≠ 0
  withdrawn : withdrawal ≠ [] ↔ result.1.grantedMask &&& bank.bit ≠ 0 ∧
    ¬ ((a.result (budget bank request)).2 &&& timerFault = 0 ∧
      (a.result (budget bank request)).1 = bank.ordinal)

/-- The masks that nothing before the routine changes. -/
def SameMasks (r r' : DldQuietSend) : Prop :=
  r'.grantedMask = r.grantedMask ∧ r'.timerFaultMask = r.timerFaultMask ∧
    r'.completedMask = r.completedMask ∧ r'.budgetCycles = r.budgetCycles

theorem SameMasks.trans {r r' r'' : DldQuietSend} (h : SameMasks r r') (h' : SameMasks r' r'') :
    SameMasks r r'' :=
  ⟨h'.1.trans h.1, h'.2.1.trans h.2.1, h'.2.2.1.trans h.2.2.1, h'.2.2.2.trans h.2.2.2⟩

theorem otherDmaIdle_masks (request : DldQuietSend) :
    (otherDmaIdle request).All fun _ a => SameMasks request a.1 := by
  rw [otherDmaIdle, Prog.all_bind]
  apply Prog.all_of_forall
  intro t blocked
  cases blocked with
  | none => exact ⟨rfl, rfl, rfl, rfl⟩
  | some block => exact ⟨rfl, rfl, rfl, rfl⟩

theorem admitBank_masks (request : DldQuietSend) (policy : Bool) (bank : Bank) :
    (admitBank request policy bank).All fun _ attempt => SameMasks request attempt.request := by
  have hsame : SameMasks request request := ⟨rfl, rfl, rfl, rfl⟩
  have hdrain (r : DldQuietSend) (saved : Word) :
      (drainDma r bank saved).All fun _ attempt => SameMasks r attempt.request := by
    unfold drainDma writel drainWrites readl ccnt kop
    simp only [Prog.all_bind, Prog.all_op, Prog.all_ite, Prog.all_pure]
    refine fun _ _ control => ⟨fun _ => ⟨rfl, rfl, rfl, rfl⟩, fun _ start => ?_⟩
    refine Prog.all_of_forall fun t r now => ⟨fun _ => ?_, fun _ => ?_⟩
    · exact ⟨rfl, rfl, rfl, rfl⟩
    · exact ⟨rfl, rfl, rfl, rfl⟩
  unfold admitBank readl kop
  simp only [Prog.all_bind, Prog.all_op, Prog.all_ite, Prog.all_pure]
  refine Prog.all_of_forall fun _ _ => ⟨fun _ => hsame, fun _ => ?_⟩
  refine Prog.all_of_forall fun _ _ => ⟨fun _ => hsame, fun _ => ?_⟩
  refine Prog.all_of_forall fun _ _ => ⟨fun _ => hsame, fun _ => ?_⟩
  refine Prog.all_mono (otherDmaIdle_masks request) fun _ r hdma => ⟨fun _ => hdma, fun _ clock => ?_⟩
  refine ⟨fun _ => hdma, fun _ saved => ⟨fun _ => hdma, fun _ => ?_⟩⟩
  refine Prog.all_mono (hdrain r.1 saved) fun _ attempt hdrained =>
    ⟨fun _ => hdma.trans hdrained, fun _ => ?_⟩
  refine Prog.all_mono (otherDmaIdle_masks attempt.request) fun _ r' hdma' => ?_
  exact (hdma.trans hdrained).trans hdma'

/-- The restoration changes its own failure mask only. -/
theorem restoreDma_keeps (request : DldQuietSend) (bank : Bank) (changedDma : Option Word) (error : Int) :
    (restoreDma request bank changedDma error).All fun _ a =>
      ∃ mask, a.1 = { request with dmaRestoreFailedMask := mask } := by
  cases changedDma with
  | none => exact ⟨_, rfl⟩
  | some saved =>
    refine Prog.all_op_bind.mpr fun _ => Prog.all_op_bind.mpr fun _ => ?_
    refine Prog.all_op_bind.mpr fun final => Prog.all_op_bind.mpr fun _ => ?_
    exact Prog.all_ite.mpr ⟨fun _ => ⟨_, rfl⟩, fun _ => ⟨_, rfl⟩⟩

variable {policy}

theorem RoutineRun.outcome {t : List KEvent} {result : DldQuietSend × Int × Bool} {a : SpinAccount}
    {withdrawal : List KEvent} (h : RoutineRun policy bank request t result a withdrawal) :
    @AttemptOutcome bank request result a withdrawal := by
  obtain ⟨flags, start, now, admission, restoration, attempt, final, -, hadmit, -, -, ⟨hw, hr⟩,
    hresult, hflag⟩ := h
  obtain ⟨hgranted, hfault, hcompleted, hbudget⟩ :=
    Prog.all_iff.mp (admitBank_masks _ _ _) _ _ hadmit
  obtain ⟨mask, hfinal⟩ := Prog.all_iff.mp (restoreDma_keeps _ _ _ _) _ _ hr
  have hwithdrawal := Prog.all_iff.mp (withdrawBank_all _) _ _ hw
  obtain ⟨hdecoded, hzero⟩ := @decodeGrant_decoded bank { attempt.request with stage := stageBank }
    (a.result (budget bank request)).1 (a.result (budget bank request)).2
  generalize decodeGrant { attempt.request with stage := stageBank } bank
    (a.result (budget bank request)).1 (a.result (budget bank request)).2 = d at *
  -- nothing after the decoding changes the masks
  have hmask : result.1.grantedMask = d.1.grantedMask := by
    rw [hresult, hfinal]
  refine ⟨⟨?_, ?_, ?_, ?_⟩, ?_, ?_⟩
  · rw [hmask, hdecoded.granted]
    show (if _ then attempt.request.grantedMask ||| bank.bit else attempt.request.grantedMask) = _
    rw [hgranted]
  · rw [hresult, hfinal]
    show d.1.timerFaultMask = _
    rw [hdecoded.fault]
    show (if _ then attempt.request.timerFaultMask ||| bank.bit else attempt.request.timerFaultMask) = _
    rw [hfault]
  · rw [hresult, hfinal]
    show d.1.completedMask = _
    rw [hdecoded.completed]
    show (if _ then attempt.request.completedMask ||| bank.bit else attempt.request.completedMask) = _
    rw [hcompleted]
  · rw [hresult, hfinal]
    exact hdecoded.elapsed
  · rw [hflag]
    exact decide_eq_true_iff
  · rw [hmask, ← hzero]
    constructor
    · intro hne
      by_contra hnot
      exact hne (hwithdrawal.2 fun h => hnot ⟨h.2, h.1⟩)
    · rintro ⟨hout, herror⟩
      obtain ⟨clock, hevents⟩ := hwithdrawal.1 ⟨herror, hout⟩
      rw [hevents]
      exact List.cons_ne_nil _ _

/-! ### The account is faithful in range -/

theorem masked_clear (x : Word) : (x &&& ~~~(timerFault ||| grantWithheld)) &&& timerFault = 0 ∧
    (x &&& ~~~(timerFault ||| grantWithheld)) &&& grantWithheld = 0 :=
  (and_not_flags_iff _).mp (by rw [BitVec.and_assoc, BitVec.and_self])

variable {result : DldQuietSend × Int × Bool} {a : SpinAccount} {withdrawal : List KEvent}

/-- The grant was withheld: faithful unless the warm-up reached its 16
cycles with bit 31 set. -/
theorem faithful_withheld {guard : Nat} (ho : @AttemptOutcome bank request result a withdrawal)
    (ha : a.Valid (budget bank request) guard) (hnone : a.timed = none) :
    FaithfulAccount bank request result a withdrawal ↔ InRange bank request a := by
  have hstored : ¬ a.Stored := by
    rw [SpinAccount.Stored, hnone]
    nofun
  have hword : (a.result (budget bank request)).2 = a.warm.r5 16 ||| grantWithheld := by
    rw [SpinAccount.result, hnone]
  have hexpired : a.Expired (budget bank request) ↔ a.warm.last < 16 := by
    rw [SpinAccount.Expired, hnone]
    exact or_iff_left nofun
  have hdone : ¬ a.Done (budget bank request) bank.ordinal := fun h => hstored h.1
  have hdifference : a.difference = a.warm.last := by
    rw [SpinAccount.difference, hnone]
  have hwithheld : ¬ (a.result (budget bank request)).2 &&& grantWithheld = 0 := by
    rw [hword, or_and_self]
    decide
  have hfault : (a.result (budget bank request)).2 &&& timerFault ≠ 0 := by
    rw [hword, withheld_and_fault]
    exact fun h => hstored (ha.stored.mpr ((a.warm.r5_bit31 16).mp h))
  have hgranted := ho.decoded.granted
  rw [if_neg hwithheld] at hgranted
  constructor
  · intro hf
    refine ⟨fun hreached => ?_, ?_, ?_⟩
    · have helapsed := hf.elapsed fun h => BitVec.not_lt.mpr hreached (hexpired.mp h)
      rw [ho.decoded.elapsed, hdifference] at helapsed
      rw [← helapsed]
      exact (masked_clear _).1
    · rw [hnone]
      nofun
    · rw [hnone]
      nofun
  · intro hr
    have hexpires : a.Expired (budget bank request) := by
      apply hexpired.mpr
      by_contra hreached
      have hreached : 16 ≤ a.warm.last := BitVec.not_lt.mp hreached
      exact hstored (ha.stored.mpr ⟨hreached, hr.warm hreached⟩)
    have hout : GrantOut bank request a ↔ result.1.grantedMask &&& bank.bit ≠ 0 := by
      rw [hgranted]
      exact or_iff_left hstored
    refine ⟨?_, ?_, ?_, fun h => absurd hexpires h, ?_, ?_⟩
    · rw [hgranted, if_neg hstored]
    · rw [ho.decoded.fault, if_pos hfault, if_pos hexpires]
    · rw [ho.decoded.completed, if_neg (fun h => hfault h.1), if_neg hdone]
    · rw [ho.reported, hout]
    · rw [ho.withdrawn, hout]
      exact and_congr_right fun _ => iff_of_true (fun h => hfault h.1) hdone

/-- The grant was stored: faithful unless a flag is part of the difference. -/
theorem faithful_granted {guard : Nat} {m : Measure} {observed : Word}
    (ho : @AttemptOutcome bank request result a withdrawal) (ha : a.Valid (budget bank request) guard)
    (hsome : a.timed = some (m, observed)) :
    FaithfulAccount bank request result a withdrawal ↔ InRange bank request a := by
  have hstored : a.Stored := by
    rw [SpinAccount.Stored, hsome]
    rfl
  obtain ⟨hwarm, hwarmBit⟩ := ha.stored.mp hstored
  have hobserved : (a.result (budget bank request)).1 = observed := by
    rw [SpinAccount.result, hsome]
  have hword : (a.result (budget bank request)).2 = m.r5 (budget bank request) := by
    rw [SpinAccount.result, hsome]
  have hexpired : a.Expired (budget bank request) ↔ m.last < budget bank request := by
    rw [SpinAccount.Expired, hsome]
    constructor
    · rintro (h | ⟨_, ⟨⟩, h⟩)
      · exact absurd h (BitVec.not_lt.mpr hwarm)
      · exact h
    · exact fun h => .inr ⟨_, rfl, h⟩
  have hsees : a.Observed bank.ordinal ↔ observed = bank.ordinal := by
    rw [SpinAccount.Observed, hsome]
    simp
  have hdifference : a.difference = m.last := by
    rw [SpinAccount.difference, hsome]
  have hout : GrantOut bank request a := .inr hstored
  have hbit : ∀ x : Word, (x ||| bank.bit) &&& bank.bit ≠ 0 := fun x => or_bit_and_bit x bank
  by_cases hreached : budget bank request ≤ m.last
  · -- the word is the difference itself
    have hnot : ¬ a.Expired (budget bank request) := fun h => BitVec.not_lt.mpr hreached (hexpired.mp h)
    rw [Measure.r5, if_pos hreached] at hword
    constructor
    · intro hf
      have helapsed := hf.elapsed hnot
      rw [ho.decoded.elapsed, hword, hdifference, and_not_flags_iff] at helapsed
      refine ⟨fun _ => hwarmBit, ?_, ?_⟩
      · rw [hsome]
        rintro _ ⟨⟩ -
        exact helapsed
      · rw [hsome]
        rintro _ ⟨⟩ hshort
        exact absurd hshort (BitVec.not_lt.mpr hreached)
    · intro hr
      obtain ⟨hfault, hwithheld⟩ := hr.reached (m, observed) (by rw [hsome]; rfl) hreached
      have hgranted := ho.decoded.granted
      rw [hword, if_pos hwithheld] at hgranted
      have hdone : (m.last &&& timerFault = 0 ∧ observed = bank.ordinal) ↔
          a.Done (budget bank request) bank.ordinal := by
        rw [SpinAccount.Done, hsees]
        exact ⟨fun h => ⟨hstored, hnot, h.2⟩, fun h => ⟨hfault, h.2.2⟩⟩
      refine ⟨?_, ?_, ?_, fun _ => ?_, ?_, ?_⟩
      · rw [hgranted, if_pos hstored]
      · rw [ho.decoded.fault, hword, if_neg (not_not.mpr hfault), if_neg hnot]
      · rw [ho.decoded.completed, hword, hobserved]
        exact if_congr hdone rfl rfl
      · rw [ho.decoded.elapsed, hword, hdifference]
        exact (and_not_flags_iff _).mpr ⟨hfault, hwithheld⟩
      · rw [ho.reported, hgranted]
        exact iff_of_true (hbit _) hout
      · rw [ho.withdrawn, hgranted, hword, hobserved, hdone]
        exact and_congr_left fun _ => iff_of_true (hbit _) hout
  · -- the guard expired, and the routine says so
    have hexpires : a.Expired (budget bank request) := hexpired.mpr (BitVec.not_le.mp hreached)
    have hdone : ¬ a.Done (budget bank request) bank.ordinal := fun h => h.2.1 hexpires
    rw [Measure.r5, if_neg hreached] at hword
    have hfault : (a.result (budget bank request)).2 &&& timerFault ≠ 0 := by
      rw [hword, or_and_self]
      decide
    have hgranted := ho.decoded.granted
    rw [hword, fault_and_withheld] at hgranted
    constructor
    · intro hf
      refine ⟨fun _ => hwarmBit, ?_, ?_⟩
      · rw [hsome]
        rintro _ ⟨⟩ hlong
        exact absurd hlong hreached
      · rw [hsome]
        rintro _ ⟨⟩ -
        have hmask := hf.granted
        rw [hgranted, if_pos hstored] at hmask
        by_cases hwithheld : m.last &&& grantWithheld = 0
        · exact .inl hwithheld
        · rw [if_neg hwithheld] at hmask
          exact .inr ((or_bit_eq_self_iff _ _).mp hmask.symm)
    · intro hr
      have hmask : result.1.grantedMask = request.grantedMask ||| bank.bit := by
        rw [hgranted]
        rcases hr.expired (m, observed) (by rw [hsome]; rfl) (BitVec.not_le.mp hreached) with h | h
        · exact if_pos h
        · rw [(or_bit_eq_self_iff _ _).mpr h, ite_self]
      refine ⟨?_, ?_, ?_, fun h => absurd hexpires h, ?_, ?_⟩
      · rw [hmask, if_pos hstored]
      · rw [ho.decoded.fault, if_pos hfault, if_pos hexpires]
      · rw [ho.decoded.completed, if_neg (fun h => hfault h.1), if_neg hdone]
      · rw [ho.reported, hmask]
        exact iff_of_true (hbit _) hout
      · rw [ho.withdrawn, hmask]
        exact iff_of_true ⟨hbit _, fun h => hfault h.1⟩ ⟨hout, hdone⟩

theorem RoutineRun.faithful_iff {t : List KEvent}
    (h : RoutineRun policy bank request t result a withdrawal) :
    FaithfulAccount bank request result a withdrawal ↔ InRange bank request a := by
  have ho := h.outcome
  obtain ⟨-, -, -, -, -, -, -, -, -, -, ha, -⟩ := h
  rcases htimed : a.timed with - | ⟨m, observed⟩
  · exact faithful_withheld ho ha htimed
  · exact faithful_granted ho ha htimed

/-! ### Every attempt -/

/-- An attempt that did not get to the routine: nothing stored, no mask
changed, and `*granted` as the mask says. -/
def NotAdmitted (bank : Bank) (request : DldQuietSend) (t : List KEvent)
    (result : DldQuietSend × Int × Bool) : Prop :=
  (∀ v, grantStore v ∉ t) ∧ SameMasks request result.1 ∧
    result.2.2 = decide (request.grantedMask &&& bank.bit ≠ 0)

theorem runs_all {α : Type} (p : KProg α) : p.All fun t a => p.Runs t a :=
  Prog.all_iff.mpr fun _ _ h => h

/-- The label `restore`, function by function. -/
theorem finishBank_shape (r : DldQuietSend) (changedDma : Option Word) (flags start : Word)
    (error : Int) : (finishBank r bank changedDma flags start error).All fun t b =>
      ∃ (withdrawal restoration : List KEvent) (now : Word) (final : DldQuietSend × Int),
        t = withdrawal ++ restoration ++
          [⟨.ccnt, now⟩, ⟨.localIrqRestore flags, ()⟩, ⟨.preemptEnable, ()⟩] ∧
        (withdrawBank r bank error).Runs withdrawal () ∧
        (restoreDma r bank changedDma error).Runs restoration final ∧
        b = ({ final.1 with
          irqOffCycles := Function.update final.1.irqOffCycles bank.index (now - start) }, final.2) := by
  apply Prog.all_bind.mpr
  apply Prog.all_mono (runs_all _)
  intro withdrawal _ hw
  apply Prog.all_bind.mpr
  apply Prog.all_mono (runs_all _)
  intro restoration final hr
  refine Prog.all_op_bind.mpr fun now => Prog.all_bind.mpr fun _ _ => ?_
  exact ⟨withdrawal, restoration, now, final, by simp, hw, hr, rfl⟩

/-- What happens before the label: an admission that failed, or one that did
not and a run of the routine. -/
theorem beforeRestore_shape (r : DldQuietSend) :
    (beforeRestore r policy bank).All fun t before =>
      (before.error ≠ 0 ∧ (∀ e ∈ t, noGrant.allows e) ∧ SameMasks r before.request) ∨
      ∃ (admission : List KEvent) (attempt : Attempt) (a : SpinAccount),
        t = admission ++ a.events bank.ordinal ∧ (admitBank r policy bank).Runs admission attempt ∧
        attempt.error = 0 ∧ a.Valid (budget bank r) timerIterationCap.toNat ∧
        before =
          (let result := a.result (budget bank r)
           let decoded :=
            decodeGrant { attempt.request with stage := stageBank } bank result.1 result.2
           ⟨decoded.1, attempt.changedDma, decoded.2⟩) := by
  have hemits : (admitBank r policy bank).Emits noGrant.allows :=
    emits_admitBank (fun _ => trivial) (fun _ _ => trivial) (fun _ => trivial)
      (fun _ => by simp [noGrant]) _ _ _
  have hcap : passes timerIterationCap = timerIterationCap.toNat := passes_toNat (by decide)
  apply Prog.all_bind.mpr
  apply Prog.all_mono (Prog.all_and (Prog.all_and (runs_all _) hemits.all) (admitBank_masks r policy bank))
  rintro admission attempt ⟨⟨hruns, hquiet⟩, hmasks⟩
  refine Prog.all_ite.mpr ⟨fun herror => ?_, fun herror => ?_⟩
  · refine .inl ⟨herror, ?_, hmasks⟩
    rw [List.append_nil]
    exact hquiet
  · -- the budget is that of the request
    have hbudget : attempt.request.budgetCycles bank.index = budget bank r := by
      rw [hmasks.2.2.2]
      rfl
    rw [grantBank_eq, hbudget]
    apply Prog.all_bind.mpr
    apply Prog.all_bind.mpr
    apply Prog.all_mono (dldQuietBankEntry_all _ _ _)
    rintro t result ⟨a, ha, rfl, rfl⟩
    rw [hcap] at ha
    exact .inr ⟨admission, attempt, a, by simp, hruns, not_not.mp herror, ha, rfl⟩

theorem bankAdmissionAttempt_all : (bankAdmissionAttempt policy bank request).All fun t result =>
    NotAdmitted bank request t result ∨
      ∃ a withdrawal, RoutineRun policy bank request t result a withdrawal := by
  apply Prog.all_bind.mpr
  rw [tryBank_eq]
  apply traced_all
  refine Prog.all_bind.mpr (Prog.all_op_bind.mpr fun _ => Prog.all_op_bind.mpr fun flags =>
    Prog.all_op_bind.mpr fun _ => (Prog.all_pure flags).mpr ?_)
  refine Prog.all_op_bind.mpr fun start => Prog.all_bind.mpr ?_
  apply Prog.all_mono (beforeRestore_shape _)
  intro body before hbefore
  have hfinish : (finishBank before.request bank before.changedDma flags start before.error).Emits
      noGrant.allows :=
    emits_finishBank trivial (fun _ => trivial) (fun _ => trivial) (fun _ => by simp [noGrant])
      (by simp [noGrant]) (by simp [noGrant]) _ _ _ _ _ _
  apply Prog.all_mono (Prog.all_and (finishBank_shape _ _ _ _ _) hfinish.all)
  rintro _ _ ⟨⟨withdrawal, restoration, now, final, rfl, hw, hr, rfl⟩, hquiet⟩
  rcases hbefore with ⟨-, hbody, hmasks⟩ | ⟨admission, attempt, a, rfl, hadmit, herror, ha, rfl⟩
  · left
    obtain ⟨mask, hfinal⟩ := Prog.all_iff.mp (restoreDma_keeps _ _ _ _) _ _ hr
    have hsame : SameMasks request { final.1 with
        irqOffCycles := Function.update final.1.irqOffCycles bank.index (now - start) } := by
      rw [hfinal]
      exact hmasks
    refine ⟨?_, hsame, ?_⟩
    · -- neither the admission nor the label stores a grant
      intro v hv
      have hnot : ¬ noGrant.allows (grantStore v) := fun h => h rfl
      have hlabel : grantStore v ∉ withdrawal ++ restoration ++
          [⟨.ccnt, now⟩, ⟨.localIrqRestore flags, ()⟩, ⟨.preemptEnable, ()⟩] :=
        fun h => hnot (hquiet _ h)
      have hbody : grantStore v ∉ body := fun h => hnot (hbody _ h)
      simp [grantStore] at hv hlabel hbody
      tauto
    · show decide (final.1.grantedMask &&& bank.bit ≠ 0) = _
      rw [show final.1.grantedMask = request.grantedMask from hsame.1]
  · right
    refine ⟨a, withdrawal, flags, start, now, admission, restoration, attempt, final, ?_, hadmit,
      herror, ha, ⟨hw, hr⟩, rfl, rfl⟩
    simp [tryBankEntry, tryBankExit]

end Attempt

/-- **The kernel's account of a grant.**  Every attempt either does not get
to the routine, and then stores and sets nothing, or runs it with some
account; and then the masks, the elapsed cycles, `*granted` and the
withdrawal agree with the account exactly if the counter differences stay
clear of the flags. -/
theorem grant_account_iff (policy : Bool) (bank : Bank) (request : DldQuietSend) (t : List KEvent)
    (result : DldQuietSend × Int × Bool)
    (hrun : (bankAdmissionAttempt policy bank request).Runs t result) :
    (NotAdmitted bank request t result ∨
      ∃ a withdrawal, RoutineRun policy bank request t result a withdrawal) ∧
    ∀ a withdrawal, RoutineRun policy bank request t result a withdrawal →
      (FaithfulAccount bank request result a withdrawal ↔ InRange bank request a) :=
  ⟨Prog.all_iff.mp bankAdmissionAttempt_all t result hrun, fun _ _ h => h.faithful_iff⟩

/-- An attempt on a cooperative board. -/
def oneBankAttempt : List KEvent × DldQuietSend × Int × Bool :=
  (bankAdmissionAttempt true .gpio0 oneBankRequest).execWith Board.answer oneBankBoard

theorem grant_account_oneBank :
    ∃ a withdrawal,
      RoutineRun true .gpio0 oneBankRequest oneBankAttempt.1 oneBankAttempt.2 a withdrawal ∧
      (FaithfulAccount .gpio0 oneBankRequest oneBankAttempt.2 a withdrawal ↔
        InRange .gpio0 oneBankRequest a) := by
  obtain ⟨hcases, hiff⟩ := grant_account_iff true .gpio0 oneBankRequest oneBankAttempt.1
    oneBankAttempt.2 (Prog.execWith_runs _ _ _)
  have hstored : oneBankAttempt.2.1.grantedMask ≠ oneBankRequest.grantedMask := by decide +kernel
  obtain ⟨a, withdrawal, h⟩ := hcases.resolve_left fun h => hstored h.2.1.1
  exact ⟨a, withdrawal, h, hiff a withdrawal h⟩

/-- A board whose counter, once the grant is stored, is 2^30 cycles on at
every reading. -/
def Board.answerSlowly (b : Board) (o : KOp) : o.Res × Board :=
  match o with
  | .ccnt =>
    (BitVec.ofNat 32 (b.time * if b.mailbox .bankGrant = 0 then 0x200000 else 0x40000000),
      { b with time := b.time + 1 })
  | o => b.answer o

/-- An attempt on the slow board. -/
def slowAttempt : List KEvent × DldQuietSend × Int × Bool :=
  (bankAdmissionAttempt true .gpio0 oneBankRequest).execWith Board.answerSlowly oneBankBoard

/-- **The account can be wrong.**  The timed loop ends with a difference of
2^30: the grant is stored and the bank completed, and `try_bank` reports
that nothing was granted. -/
theorem grant_account_unfaithful :
    ¬ ∀ (policy : Bool) (bank : Bank) (request : DldQuietSend) (t : List KEvent)
        (result : DldQuietSend × Int × Bool) (a : SpinAccount) (withdrawal : List KEvent),
      RoutineRun policy bank request t result a withdrawal →
        FaithfulAccount bank request result a withdrawal := by
  intro hclaim
  have hdone : slowAttempt.2.1.completedMask ≠ oneBankRequest.completedMask := by decide +kernel
  have hmask : slowAttempt.2.1.grantedMask = oneBankRequest.grantedMask := by decide +kernel
  have hbit : oneBankRequest.grantedMask ||| Bank.gpio0.bit ≠ oneBankRequest.grantedMask := by decide
  have hcases := Prog.all_iff.mp bankAdmissionAttempt_all slowAttempt.1 slowAttempt.2
    (Prog.execWith_runs Board.answerSlowly oneBankBoard (bankAdmissionAttempt true .gpio0 oneBankRequest))
  obtain ⟨a, withdrawal, h⟩ := hcases.resolve_left fun h => hdone h.2.1.2.2.1
  have hf := hclaim _ _ _ _ _ _ _ h
  by_cases hstored : a.Stored
  · -- stored, but not in the mask
    have hgranted := hf.granted
    rw [if_pos hstored, hmask] at hgranted
    exact hbit hgranted.symm
  · have hcompleted := hf.completed
    rw [if_neg fun h => hstored h.1] at hcompleted
    exact hdone hcompleted

end Dld
