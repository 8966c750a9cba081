/-
DldDriver/Kernel/AdmissionWait.lean

The loop of `kernel/dld_admission.h`, whatever its three operations do.

`dld_admission_wait` sees the world through `struct dld_admission_ops` only.
A run of it is therefore told by the calls it makes and what they return:

    Performs s calls t s'             the events t perform the calls, from
                                      context s to context s'
    AdmissionRounds idleOnly deadline n c r
                                      the calls c are those of the loop with n
                                      rounds left, and it returns r

Clock and attempt are programs that may return anything, so that the clock may
stand, jump or run backwards.  `Waits` is what the loop promises; every field
of it is an induction over the rounds.
-/
import DldDriver.Kernel.Main

namespace Dld

open Interaction

/-! ### Calls -/

/-- A call through `struct dld_admission_ops`, with what it returned. -/
inductive AdmissionCall
  | nowNs (now : Int)
  | attempt (result : Int) (granted : Bool)
  | pause
  deriving DecidableEq

namespace AdmissionCall

def IsAttempt : AdmissionCall → Bool
  | attempt .. => true
  | _ => false

def IsPause : AdmissionCall → Bool
  | pause => true
  | _ => false

end AdmissionCall

/-- An attempt that granted, or returned anything other than `-EAGAIN`. -/
def Terminal (result : Int) (granted : Bool) : Prop := ¬ (result = -eAgain ∧ granted = false)

section Calls

variable {Op : Type} {Res : Op → Type} {S : Type} (nowNs : Prog Op Res Int)
  (attempt : S → Prog Op Res (S × Int × Bool)) (pause : Prog Op Res Unit)

/-- The events that perform the calls, one run of an operation after the
other; only an attempt changes the context. -/
inductive Performs : S → List AdmissionCall → List (Event Op Res) → S → Prop
  | done (s : S) : Performs s [] [] s
  | nowNs {s s' calls t t' now} : nowNs.Runs t now → Performs s calls t' s' →
      Performs s (.nowNs now :: calls) (t ++ t') s'
  | attempt {s s₁ s' calls t t' result granted} : (attempt s).Runs t (s₁, result, granted) →
      Performs s₁ calls t' s' → Performs s (.attempt result granted :: calls) (t ++ t') s'
  | pause {s s' calls t t'} : pause.Runs t () → Performs s calls t' s' →
      Performs s (.pause :: calls) (t ++ t') s'

/-- The calls of the loop, and its result. -/
inductive AdmissionRounds (idleOnly : Bool) (deadline : Int) : Nat → List AdmissionCall → Int → Prop
  | exhausted : AdmissionRounds idleOnly deadline 0 [] (-eTimedout)
  | late {n now} : now ≥ deadline → AdmissionRounds idleOnly deadline (n + 1) [.nowNs now] (-eTimedout)
  | again {n now calls result} : ¬ now ≥ deadline → AdmissionRounds idleOnly deadline n calls result →
      AdmissionRounds idleOnly deadline (n + 1)
        (.nowNs now :: .attempt (-eAgain) false :: .pause :: calls) result
  | checked {n now granted later} : ¬ now ≥ deadline → Terminal 0 granted → idleOnly = true →
      AdmissionRounds idleOnly deadline (n + 1) [.nowNs now, .attempt 0 granted, .nowNs later]
        (if later ≥ deadline then -eTimedout else 0)
  | returned {n now result granted} : ¬ now ≥ deadline → Terminal result granted →
      ¬ (result = 0 ∧ idleOnly = true) →
      AdmissionRounds idleOnly deadline (n + 1) [.nowNs now, .attempt result granted] result

variable {nowNs attempt pause} {idleOnly : Bool} {deadline : Int}

/-- The calls of a complete run of the loop. -/
theorem admissionLoop_rounds (n : Nat) (s : S) :
    (admissionLoop nowNs attempt pause idleOnly deadline n s).All fun t out =>
      ∃ calls, Performs nowNs attempt pause s calls t out.1 ∧
        AdmissionRounds idleOnly deadline n calls out.2 := by
  induction n generalizing s with
  | zero => exact ⟨[], .done s, .exhausted⟩
  | succ n ih =>
    rw [Prog.all_iff]
    intro t out hrun
    obtain ⟨t₁, t₂, now, rfl, hnow, hrun⟩ := Prog.runs_bind_iff.mp hrun
    by_cases hlate : now ≥ deadline
    · rw [if_pos hlate] at hrun
      cases hrun
      exact ⟨_, .nowNs hnow (.done s), .late hlate⟩
    rw [if_neg hlate] at hrun
    obtain ⟨t₂, t₃, ⟨s₁, result, granted⟩, rfl, hattempt, hrun⟩ := Prog.runs_bind_iff.mp hrun
    dsimp only at hrun
    split_ifs at hrun with hagain hidle
    · -- a refusal, a pause and the next round
      obtain ⟨rfl, rfl⟩ := hagain
      obtain ⟨t₃, t₄, ⟨⟩, rfl, hpause, hrun⟩ := Prog.runs_bind_iff.mp hrun
      obtain ⟨calls, hcalls, hrounds⟩ := Prog.all_iff.mp (ih s₁) _ _ hrun
      exact ⟨_, .nowNs hnow (.attempt hattempt (.pause hpause hcalls)), .again hlate hrounds⟩
    · -- an idle observation, and the clock once more
      obtain ⟨rfl, hidle⟩ := hidle
      obtain ⟨t₃, t₄, later, rfl, hlater, hrun⟩ := Prog.runs_bind_iff.mp hrun
      have hdone : t₄ = [] ∧ out = (s₁, if later ≥ deadline then -eTimedout else 0) := by
        split_ifs at hrun ⊢
        · cases hrun
          exact ⟨rfl, rfl⟩
        · cases hrun
          exact ⟨rfl, rfl⟩
      obtain ⟨rfl, rfl⟩ := hdone
      exact ⟨_, .nowNs hnow (.attempt hattempt (.nowNs hlater (.done s₁))),
        .checked hlate hagain hidle⟩
    · cases hrun
      exact ⟨_, .nowNs hnow (.attempt hattempt (.done s₁)), .returned hlate hagain hidle⟩

/-! ### What the loop promises -/

/-- What `dld_admission_wait` promises of the calls behind its deadline; what
follows a call is the rest of a suffix that it heads. -/
structure Waits (idleOnly : Bool) (deadline : Int) (calls : List AdmissionCall) (result : Int) :
    Prop where
  attempts : calls.countP AdmissionCall.IsAttempt ≤ admissionMaxAttempts
  pauses : calls.countP AdmissionCall.IsPause ≤ admissionMaxAttempts
  /-- After a terminal attempt there is neither a pause nor an attempt. -/
  terminal : ∀ r g after, .attempt r g :: after <:+ calls → Terminal r g →
    ∀ c ∈ after, c.IsAttempt = false ∧ c.IsPause = false
  /-- After a clock read at or past the deadline there is no attempt. -/
  inTime : ∀ now after, .nowNs now :: after <:+ calls → now ≥ deadline →
    ∀ c ∈ after, c.IsAttempt = false
  /-- The result is that of the terminal attempt, unless an idle observation
  was read too late. -/
  returns : ∀ r g after, .attempt r g :: after <:+ calls → Terminal r g →
    if r = 0 ∧ idleOnly = true then
      ∃ later, after = [.nowNs later] ∧ result = if later ≥ deadline then -eTimedout else r
    else after = [] ∧ result = r
  /-- Without a terminal attempt there is a timeout, after nothing but
  refusals. -/
  timedOut : (∀ r g, .attempt r g ∈ calls → ¬ Terminal r g) →
    result = -eTimedout ∧ ∀ r g, .attempt r g ∈ calls → r = -eAgain ∧ g = false

namespace AdmissionRounds

variable {n : Nat} {calls after : List AdmissionCall} {result r : Int} {g : Bool}

theorem attempts_le (h : AdmissionRounds idleOnly deadline n calls result) :
    calls.countP AdmissionCall.IsAttempt ≤ n := by
  induction h with
  | exhausted => exact le_rfl
  | late _ => exact Nat.zero_le _
  | again _ _ ih => simpa [List.countP_cons, AdmissionCall.IsAttempt] using ih
  | checked _ _ _ => exact Nat.le_add_left 1 _
  | returned _ _ _ => exact Nat.le_add_left 1 _

theorem pauses_le (h : AdmissionRounds idleOnly deadline n calls result) :
    calls.countP AdmissionCall.IsPause ≤ n := by
  induction h with
  | exhausted => exact le_rfl
  | late _ => exact Nat.zero_le _
  | again _ _ ih => simpa [List.countP_cons, AdmissionCall.IsPause] using ih
  | checked _ _ _ => exact Nat.zero_le _
  | returned _ _ _ => exact Nat.zero_le _

/-- A refusal is not terminal. -/
theorem not_terminal_refusal : ¬ Terminal (-eAgain) false := fun h => h ⟨rfl, rfl⟩

/-- A terminal attempt belongs to the last round. -/
theorem returns_of_terminal (h : AdmissionRounds idleOnly deadline n calls result)
    (hcall : .attempt r g :: after <:+ calls) (hterminal : Terminal r g) :
    if r = 0 ∧ idleOnly = true then
      ∃ later, after = [.nowNs later] ∧ result = if later ≥ deadline then -eTimedout else r
    else after = [] ∧ result = r := by
  induction h with
  | exhausted => simp at hcall
  | late _ => simp [List.suffix_cons_iff] at hcall
  | again _ _ ih =>
    simp only [List.suffix_cons_iff, List.cons.injEq, reduceCtorEq, false_and, false_or,
      AdmissionCall.attempt.injEq] at hcall
    rcases hcall with ⟨⟨rfl, rfl⟩, -⟩ | hcall
    · exact absurd hterminal not_terminal_refusal
    · exact ih hcall
  | checked _ _ hidle =>
    simp [List.suffix_cons_iff] at hcall
    obtain ⟨⟨rfl, rfl⟩, rfl⟩ := hcall
    rw [if_pos ⟨rfl, hidle⟩]
    exact ⟨_, rfl, rfl⟩
  | returned _ _ hchecked =>
    simp [List.suffix_cons_iff] at hcall
    obtain ⟨⟨rfl, rfl⟩, rfl⟩ := hcall
    rw [if_neg hchecked]
    exact ⟨rfl, rfl⟩

/-- A clock read at or past the deadline ends the loop. -/
theorem inTime_of_late {now : Int} (h : AdmissionRounds idleOnly deadline n calls result)
    (hcall : .nowNs now :: after <:+ calls) (hlate : now ≥ deadline) : after = [] := by
  induction h with
  | exhausted => simp at hcall
  | late _ =>
    simp [List.suffix_cons_iff] at hcall
    exact hcall.2
  | again hearly _ ih =>
    simp only [List.suffix_cons_iff, List.cons.injEq, reduceCtorEq, false_and, false_or,
      AdmissionCall.nowNs.injEq] at hcall
    rcases hcall with ⟨rfl, -⟩ | hcall
    · exact absurd hlate hearly
    · exact ih hcall
  | checked hearly _ _ =>
    simp [List.suffix_cons_iff] at hcall
    rcases hcall with ⟨rfl, -⟩ | hcall
    · exact absurd hlate hearly
    · exact hcall.2
  | returned hearly _ _ =>
    simp [List.suffix_cons_iff] at hcall
    exact absurd hlate (hcall.1 ▸ hearly)

theorem timeout_of_refusals (h : AdmissionRounds idleOnly deadline n calls result)
    (hrefused : ∀ r g, .attempt r g ∈ calls → ¬ Terminal r g) : result = -eTimedout := by
  induction h with
  | exhausted => rfl
  | late _ => rfl
  | again _ _ ih =>
    apply ih
    intro r g hmem
    exact hrefused r g (by simp [hmem])
  | checked _ hterminal _ => exact absurd hterminal (hrefused _ _ (by simp))
  | returned _ hterminal _ => exact absurd hterminal (hrefused _ _ (by simp))

/-- The rounds keep every promise. -/
theorem waits (h : AdmissionRounds idleOnly deadline admissionMaxAttempts calls result) :
    Waits idleOnly deadline calls result where
  attempts := h.attempts_le
  pauses := h.pauses_le
  terminal r g after hcall hterminal c hc := by
    have hreturns := h.returns_of_terminal hcall hterminal
    split at hreturns
    · obtain ⟨later, rfl, -⟩ := hreturns
      cases List.mem_singleton.mp hc
      exact ⟨rfl, rfl⟩
    · rw [hreturns.1] at hc
      cases hc
  inTime now after hcall hlate c hc := by
    rw [h.inTime_of_late hcall hlate] at hc
    cases hc
  returns r g after hcall hterminal := h.returns_of_terminal hcall hterminal
  timedOut hrefused := by
    refine ⟨h.timeout_of_refusals hrefused, fun r g hmem => ?_⟩
    exact not_not.mp (hrefused r g hmem)

end AdmissionRounds

/-- **The admission loop.**  Whatever the clock, the attempts and the pauses
do, a run reads the clock for its deadline and then keeps its promises. -/
theorem dldAdmissionWait_waits (nowNs : Prog Op Res Int)
    (attempt : S → Prog Op Res (S × Int × Bool)) (pause : Prog Op Res Unit) (context : S)
    (idleOnly : Bool) :
    (dldAdmissionWait nowNs attempt pause context idleOnly).All fun t out =>
      ∃ start calls, Performs nowNs attempt pause context (.nowNs start :: calls) t out.1 ∧
        Waits idleOnly (start + admissionTimeoutNs) calls out.2 := by
  rw [Prog.all_iff]
  intro t out hrun
  obtain ⟨t₁, t₂, start, rfl, hstart, hrun⟩ := Prog.runs_bind_iff.mp hrun
  obtain ⟨calls, hcalls, hrounds⟩ :=
    Prog.all_iff.mp (admissionLoop_rounds admissionMaxAttempts context) _ _ hrun
  exact ⟨start, calls, .nowNs hstart hcalls, hrounds.waits⟩

end Calls

end Dld
