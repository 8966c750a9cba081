/-
DldDriver/Kernel/QuietSpin.lean

The grant-and-spin routine, instruction by instruction
(`kernel/dld_quiet_spin.S`).

Each label is a function of the registers; a forward branch is a call, and
the branch back to `.Lloop_begin` spends one of the passes the run is given:

    quietBank n r      `.Lbank_arm` with the registers r and n passes

`quietBank_eq` says that 64 passes and the caller's cap are always enough,
and that the routine is then the structured `dldQuietBankEntry`.  What the
routine does is stated over its events (`SpinContract`): the counter
readings of the warm-up, the one store, the readings of the timed loop, the
one load.
-/
import DldDriver.Kernel.Discipline
import Mathlib.Data.List.Chain

namespace Dld

open Interaction

/-! ### The labels -/

/-- The registers of the routine; `r6` is the mailbox, which the accesses
name themselves. -/
structure SpinRegs where
  r0 : Word := 0
  r1 : Word := 0
  r2 : Word := 0
  r3 : Word := 0
  r4 : Word := 0
  r5 : Word := 0
  r7 : Word := 0
  r8 : Word := 0

/-- The program from a label on: `r0` and `r1` at its return, or `none` once
the passes are spent. -/
abbrev SpinProg := KProg (Option (Word × Word))

/-- `.Lobserve` -/
def spinObserve (r : SpinRegs) : SpinProg := do
  kop .barrier
  let r0 ← readl (.mailbox .bankDone)
  pure (some (r0, r.r5))

/-- `dld_quiet_warm_failed` -/
def spinWarmFailed (r : SpinRegs) : SpinProg := pure (some (0, r.r5 ||| 0x40000000))

/-- `.Ltimer_start`, falling through to the loop. -/
def spinTimerStart (loopBegin : SpinRegs → SpinProg) (r : SpinRegs) : SpinProg := do
  let r4 ← ccnt
  loopBegin { r with r4 := r4 }

/-- `.Lgrant_begin`, falling through to `.Ltimer_start`. -/
def spinGrantBegin (loopBegin : SpinRegs → SpinProg) (r : SpinRegs) : SpinProg := do
  kop .barrier
  writel r.r1 (.mailbox .bankGrant)
  kop .barrier
  spinTimerStart loopBegin r

/-- `.Lloop_end`: the second time round `r0` is set. -/
def spinLoopEnd (loopBegin : SpinRegs → SpinProg) (r : SpinRegs) : SpinProg :=
  if r.r0 ≠ 0 then spinObserve r
  else if r.r5 &&& 0x80000000 ≠ 0 then spinWarmFailed r
  else spinGrantBegin loopBegin { r with r0 := 1, r2 := r.r7, r3 := r.r8 }

/-- `.Lloop_begin`, with the passes that are left. -/
def spinLoopBegin : Nat → SpinRegs → SpinProg
  | 0, _ => pure none
  | n + 1, r => do
    let now ← ccnt
    let r := { r with r5 := now - r.r4 }
    if r.r5 ≥ r.r2 then spinLoopEnd (spinLoopBegin n) r else do
    -- `subs` and `bne`: the guard is decremented before it is tested
    let r := { r with r3 := r.r3 - 1 }
    if r.r3 ≠ 0 then spinLoopBegin n r
    else spinLoopEnd (spinLoopBegin n) { r with r5 := r.r5 ||| 0x80000000 }

/-- `dld_quiet_bank`: the mailbox, the ordinal, the cycles and the cap are in
`r0` to `r3`. -/
def quietBank (n : Nat) (r : SpinRegs) : SpinProg :=
  spinTimerStart (spinLoopBegin n)
    { r with r7 := r.r2, r8 := r.r3, r0 := 0, r2 := 16, r3 := 64 }

/-! ### Enough passes -/

/-- How often the loop comes round before a guard of `r3` expires. -/
def passes (r3 : Word) : Nat := (r3 - 1).toNat + 1

theorem passes_toNat {r3 : Word} (h : r3 ≠ 0) : passes r3 = r3.toNat := by
  have hpos : 0 < r3.toNat := Nat.pos_of_ne_zero fun h0 => h (BitVec.eq_of_toNat_eq h0)
  have hlt := r3.isLt
  show (r3 - 1).toNat + 1 = r3.toNat
  rw [BitVec.toNat_sub, show (1 : Word).toNat = 1 from rfl]
  omega

theorem guard_zero_iff (r3 : Word) : r3 - 1 = 0 ↔ (r3 - 1).toNat = 0 :=
  ⟨fun h => by rw [h]; rfl, fun h => BitVec.eq_of_toNat_eq h⟩

/-- One decrement of a guard that has not expired. -/
theorem guard_succ {r3 : Word} {k : Nat} (h : (r3 - 1).toNat = k + 1) :
    (r3 - 1 - 1).toNat = k := by
  have hlt := (r3 - 1).isLt
  rw [BitVec.toNat_sub, show (1 : Word).toNat = 1 from rfl, h]
  omega

section Loop

variable {r : SpinRegs} {k n : Nat}

/-- A loop whose exits go to `f` is the counted loop followed by `f`.  The
induction is on what the guard has left; the passes are spent with it. -/
theorem spinLoopBegin_eq {f : Word → SpinProg} (hk : (r.r3 - 1).toNat = k) (hn : k < n)
    (hexit : ∀ (m : Nat) (r3 r5 : Word), n ≤ m + k + 1 →
      spinLoopEnd (spinLoopBegin m) { r with r3 := r3, r5 := r5 } = f r5) :
    spinLoopBegin n r = timerLoop r.r2 r.r4 k >>= f := by
  induction k generalizing n r with
  | zero =>
    obtain ⟨m, rfl⟩ : ∃ m, n = m + 1 := ⟨n - 1, by omega⟩
    show (ccnt >>= _) = (ccnt >>= _) >>= f
    rw [bind_assoc]
    congr 1
    funext now
    have hlast : ¬ r.r3 - 1 ≠ 0 := not_not.mpr ((guard_zero_iff _).mpr hk)
    by_cases h : now - r.r4 ≥ r.r2
    · show (if now - r.r4 ≥ r.r2 then _ else _) = (if now - r.r4 ≥ r.r2 then _ else _) >>= f
      rw [if_pos h, if_pos h]
      exact hexit m r.r3 _ (by omega)
    · show (if now - r.r4 ≥ r.r2 then _ else if r.r3 - 1 ≠ 0 then _ else _) =
        (if now - r.r4 ≥ r.r2 then _ else _) >>= f
      rw [if_neg h, if_neg h, if_neg hlast]
      exact hexit m (r.r3 - 1) _ (by omega)
  | succ k ih =>
    obtain ⟨m, rfl⟩ : ∃ m, n = m + 1 := ⟨n - 1, by omega⟩
    show (ccnt >>= _) = (ccnt >>= _) >>= f
    rw [bind_assoc]
    congr 1
    funext now
    have hmore : r.r3 - 1 ≠ 0 := fun h0 => by
      have := (guard_zero_iff _).mp h0
      omega
    by_cases h : now - r.r4 ≥ r.r2
    · show (if now - r.r4 ≥ r.r2 then _ else _) = (if now - r.r4 ≥ r.r2 then _ else _) >>= f
      rw [if_pos h, if_pos h]
      exact hexit m r.r3 _ (by omega)
    · show (if now - r.r4 ≥ r.r2 then _ else if r.r3 - 1 ≠ 0 then _ else _) =
        (if now - r.r4 ≥ r.r2 then _ else _) >>= f
      rw [if_neg h, if_neg h, if_pos hmore]
      apply ih (r := { r with r5 := now - r.r4, r3 := r.r3 - 1 }) (guard_succ hk) (by omega)
      intro m' r3 r5 hm'
      exact hexit m' r3 r5 (by omega)

/-- The second time round the loop ends with the observation. -/
theorem spinLoopBegin_timed (hr0 : r.r0 ≠ 0) (hn : passes r.r3 ≤ n) :
    spinLoopBegin n r =
      timerLoop r.r2 r.r4 (r.r3 - 1).toNat >>= fun r5 => spinObserve { r with r5 := r5 } := by
  apply spinLoopBegin_eq rfl hn
  intro m r3 r5 _
  show (if r.r0 ≠ 0 then _ else _) = _
  rw [if_pos hr0]
  rfl

/-- The grant and what follows it, once the passes are enough. -/
theorem spinGrantBegin_eq (hr0 : r.r0 ≠ 0) (hn : passes r.r3 ≤ n) :
    spinGrantBegin (spinLoopBegin n) r = (do
      kop .barrier
      writel r.r1 (.mailbox .bankGrant)
      kop .barrier
      let elapsed ← timerStart r.r2 r.r3
      kop .barrier
      let observed ← readl (.mailbox .bankDone)
      pure (some (observed, elapsed))) := by
  have hloop : (fun r4 => spinLoopBegin n { r with r4 := r4 }) = fun r4 =>
      timerLoop r.r2 r4 (r.r3 - 1).toNat >>= fun r5 => spinObserve { r with r4 := r4, r5 := r5 } :=
    funext fun r4 => spinLoopBegin_timed (r := { r with r4 := r4 }) hr0 hn
  show (kop .barrier >>= fun _ => writel r.r1 (.mailbox .bankGrant) >>= fun _ =>
    kop .barrier >>= fun _ => ccnt >>= fun r4 => spinLoopBegin n { r with r4 := r4 }) = _
  rw [hloop]
  simp only [timerStart, bind_assoc]
  rfl

end Loop

/-- What follows the warm-up in the structured routine. -/
def afterWarm (ordinal cycles iterationCap warm : Word) : KProg (Word × Word) :=
  if warm &&& 0x80000000 ≠ 0 then pure (0, warm ||| 0x40000000) else do
  kop .barrier
  writel ordinal (.mailbox .bankGrant)
  kop .barrier
  let elapsed ← timerStart cycles iterationCap
  kop .barrier
  let observed ← readl (.mailbox .bankDone)
  pure (observed, elapsed)

/-- The first time round the loop ends with the test of bit 31. -/
theorem spinLoopEnd_warm {m : Nat} {r : SpinRegs} (hr0 : r.r0 = 0) (hm : passes r.r8 ≤ m) :
    spinLoopEnd (spinLoopBegin m) r = some <$> afterWarm r.r1 r.r7 r.r8 r.r5 := by
  show (if r.r0 ≠ 0 then _ else if r.r5 &&& 0x80000000 ≠ 0 then _ else _) =
    some <$> if r.r5 &&& 0x80000000 ≠ 0 then _ else _
  rw [if_neg (not_not.mpr hr0)]
  by_cases h : r.r5 &&& 0x80000000 ≠ 0
  · rw [if_pos h, if_pos h]
    rfl
  · have hone : (1 : Word) ≠ 0 := by decide
    rw [if_neg h, if_neg h, spinGrantBegin_eq hone hm]
    simp only [map_eq_pure_bind, bind_assoc, pure_bind]

/-- **Enough passes.**  With 64 passes and those of its cap the routine
returns, and it is the structured program. -/
theorem quietBank_eq {n : Nat} {r : SpinRegs} (hn : 64 + passes r.r3 ≤ n) :
    quietBank n r = some <$> dldQuietBankEntry r.r1 r.r2 r.r3 := by
  have hloop : ∀ r4, spinLoopBegin n { r with r7 := r.r2, r8 := r.r3, r0 := 0, r2 := 16, r3 := 64, r4 := r4 } =
      timerLoop 16 r4 63 >>= fun r5 => some <$> afterWarm r.r1 r.r2 r.r3 r5 := by
    intro r4
    have hguard : ((64 : Word) - 1).toNat = 63 := rfl
    apply spinLoopBegin_eq
      (r := { r with r7 := r.r2, r8 := r.r3, r0 := 0, r2 := 16, r3 := 64, r4 := r4 }) hguard (by omega)
    -- the warm-up leaves at least the passes of the cap
    intro m r3 r5 hm
    exact spinLoopEnd_warm rfl (by show passes r.r3 ≤ m; omega)
  show (ccnt >>= fun r4 => spinLoopBegin n _) = _
  rw [funext hloop]
  show _ = some <$> (timerStart 16 64 >>= fun warm => afterWarm r.r1 r.r2 r.r3 warm)
  simp only [timerStart, map_eq_pure_bind, bind_assoc]
  rfl

/-! ### The account of a run -/

/-- The counter readings of one timing: where it started, the readings of
the loop, and the last difference. -/
structure Measure where
  start : Word
  readings : List Word
  last : Word

/-- The readings fall short of the target until the last, which reaches it
or is the last the guard allows. -/
structure Measure.Valid (m : Measure) (target : Word) (guard : Nat) : Prop where
  short : ∃ before now, m.readings = before ++ [now] ∧ m.last = now - m.start ∧
    ∀ b ∈ before, b - m.start < target
  within : m.readings.length ≤ guard
  ends : target ≤ m.last ∨ m.readings.length = guard

/-- The guard expired before the target was reached. -/
def Measure.Expired (m : Measure) (target : Word) : Prop := m.last < target

instance (m : Measure) (target : Word) : Decidable (m.Expired target) :=
  inferInstanceAs (Decidable (_ < _))

/-- `r5` at `.Lloop_end` -/
def Measure.r5 (m : Measure) (target : Word) : Word :=
  if m.last ≥ target then m.last else m.last ||| 0x80000000

/-- Counter readings as events. -/
def counted (readings : List Word) : List KEvent := readings.map fun v => ⟨.ccnt, v⟩

def Measure.events (m : Measure) : List KEvent := counted (m.start :: m.readings)

/-- The readings of the warm-up and, if it let the grant through, those of
the timed loop with the `bank_done` observed. -/
structure SpinAccount where
  warm : Measure
  timed : Option (Measure × Word)

namespace SpinAccount

/-- The grant was stored. -/
def Stored (a : SpinAccount) : Prop := a.timed.isSome

instance (a : SpinAccount) : Decidable a.Stored := inferInstanceAs (Decidable (_ = true))

/-- An iteration guard expired. -/
def Expired (a : SpinAccount) (cycles : Word) : Prop :=
  a.warm.Expired 16 ∨ ∃ t ∈ a.timed, t.1.Expired cycles

/-- The warm-up lets the grant through if its guard did not expire and its
difference has bit 31 clear. -/
structure Valid (a : SpinAccount) (cycles : Word) (guard : Nat) : Prop where
  warm : a.warm.Valid 16 64
  stored : a.Stored ↔ 16 ≤ a.warm.last ∧ a.warm.last &&& 0x80000000 = 0
  timed : ∀ t ∈ a.timed, t.1.Valid cycles guard

def events (a : SpinAccount) (ordinal : Word) : List KEvent :=
  a.warm.events ++
    match a.timed with
    | none => []
    | some (m, observed) =>
      ⟨.barrier, ()⟩ :: grantStore ordinal :: ⟨.barrier, ()⟩ :: m.events ++
        [⟨.barrier, ()⟩, ⟨.readl (.mailbox .bankDone), observed⟩]

def result (a : SpinAccount) (cycles : Word) : Word × Word :=
  match a.timed with
  | none => (0, a.warm.r5 16 ||| 0x40000000)
  | some (m, observed) => (observed, m.r5 cycles)

end SpinAccount

theorem timerLoop_all (target start : Word) (n : Nat) :
    (timerLoop target start n).All fun t r5 => ∃ m : Measure, m.start = start ∧
      t = counted m.readings ∧ m.Valid target (n + 1) ∧ r5 = m.r5 target := by
  induction n with
  | zero =>
    intro now
    have hm : (⟨start, [now], now - start⟩ : Measure).Valid target 1 :=
      ⟨⟨[], now, rfl, rfl, by simp⟩, Nat.le_refl 1, .inr rfl⟩
    refine Prog.all_ite.mpr ⟨fun h => ?_, fun h => ?_⟩
    · exact ⟨_, rfl, rfl, hm, (if_pos h).symm⟩
    · exact ⟨_, rfl, rfl, hm, (if_neg h).symm⟩
  | succ n ih =>
    intro now
    refine Prog.all_ite.mpr ⟨fun h => ?_, fun h => ?_⟩
    · have hm : (⟨start, [now], now - start⟩ : Measure).Valid target (n + 1 + 1) :=
        ⟨⟨[], now, rfl, rfl, by simp⟩, by show 1 ≤ n + 1 + 1; omega, .inl h⟩
      exact ⟨_, rfl, rfl, hm, (if_pos h).symm⟩
    · -- one more reading that falls short
      apply Prog.all_mono ih
      rintro t r5 ⟨m, hstart, rfl, hm, rfl⟩
      obtain ⟨before, last, hreadings, hlast, hshort⟩ := hm.short
      have hnow : now - m.start < target := by
        rw [hstart]
        exact BitVec.not_le.mp h
      refine ⟨{ m with readings := now :: m.readings }, hstart, rfl, ⟨⟨now :: before, last, ?_, hlast, ?_⟩, ?_, ?_⟩, rfl⟩
      · show now :: m.readings = now :: before ++ [last]
        rw [hreadings]
        rfl
      · intro b hb
        rcases List.mem_cons.mp hb with rfl | hb
        · exact hnow
        · exact hshort b hb
      · exact Nat.succ_le_succ hm.within
      · exact hm.ends.imp id (congrArg Nat.succ)

theorem timerStart_all (target guard : Word) :
    (timerStart target guard).All fun t r5 => ∃ m : Measure,
      t = m.events ∧ m.Valid target (passes guard) ∧ r5 = m.r5 target := by
  intro start
  apply Prog.all_mono (timerLoop_all target start _)
  rintro t r5 ⟨m, rfl, rfl, hm, rfl⟩
  exact ⟨m, rfl, hm, rfl⟩

theorem or_and_self (x y : Word) : (x ||| y) &&& y = y := by
  ext i hi
  simp only [BitVec.getElem_and, BitVec.getElem_or, Bool.and_eq_right_iff_imp]
  intro h
  rw [h, Bool.or_true]

/-- Bit 31 of `r5`: the guard expired, or the difference has it. -/
theorem Measure.r5_bit31 (m : Measure) (target : Word) :
    m.r5 target &&& 0x80000000 = 0 ↔ target ≤ m.last ∧ m.last &&& 0x80000000 = 0 := by
  unfold Measure.r5
  split
  · rename_i h
    exact (and_iff_right h).symm
  · rename_i h
    rw [or_and_self]
    exact ⟨fun h0 => absurd h0 (by decide), fun h0 => absurd h0.1 h⟩

/-- Every run of the routine has an account. -/
theorem dldQuietBankEntry_all (ordinal cycles iterationCap : Word) :
    (dldQuietBankEntry ordinal cycles iterationCap).All fun t result => ∃ a : SpinAccount,
      a.Valid cycles (passes iterationCap) ∧ t = a.events ordinal ∧ result = a.result cycles := by
  apply Prog.all_bind.mpr
  apply Prog.all_mono (timerStart_all 16 64)
  rintro t warm ⟨w, rfl, hw, rfl⟩
  refine Prog.all_ite.mpr ⟨fun hbit => ?_, fun hbit => ?_⟩
  · -- the grant is withheld
    refine ⟨⟨w, none⟩, ⟨hw, ?_, nofun⟩, rfl, rfl⟩
    exact iff_of_false nofun fun h => hbit ((w.r5_bit31 16).mpr h)
  · have hbit : w.r5 16 &&& 0x80000000 = 0 := not_not.mp hbit
    apply Prog.all_op_bind.mpr
    refine fun _ => Prog.all_op_bind.mpr fun _ => Prog.all_op_bind.mpr fun _ => ?_
    apply Prog.all_bind.mpr
    apply Prog.all_mono (timerStart_all cycles iterationCap)
    rintro t elapsed ⟨m, rfl, hm, rfl⟩ _ observed
    refine ⟨⟨w, some (m, observed)⟩, ⟨hw, ?_, ?_⟩, ?_, rfl⟩
    · exact iff_of_true rfl ((w.r5_bit31 16).mp hbit)
    · rintro _ ⟨⟩
      exact hm
    · simp [SpinAccount.events, grantStore]

/-! ### What the routine does -/

/-- A store to a device register. -/
def IsStore (e : KEvent) : Prop := ∃ v r, e = ⟨.writel v r, ()⟩

/-- A load from a device register. -/
def IsLoad (e : KEvent) : Prop := ∃ r v, e = ⟨.readl r, v⟩

/-- What a run with events `t` and the given result has done. -/
structure SpinContract (ordinal cycles : Word) (guard : Nat) (t : List KEvent)
    (result : Word × Word) : Prop where
  /-- The only store is that of the ordinal to `bank_grant`, after a warm-up
  that ended before its guard and without bit 31. -/
  store : ∀ pre e post, t = pre ++ e :: post → IsStore e →
    e = grantStore ordinal ∧ (∀ e' ∈ pre ++ post, ¬ IsStore e') ∧
      ∃ warm : Measure, pre = warm.events ++ [⟨.barrier, ()⟩] ∧ warm.Valid 16 64 ∧
        ¬ warm.Expired 16 ∧ warm.last &&& 0x80000000 = 0
  /-- The only load is that of `bank_done`, after the store and the whole of
  the timed loop. -/
  load : ∀ pre e post, t = pre ++ e :: post → IsLoad e →
    e.1 = .readl (.mailbox .bankDone) ∧ (∀ e' ∈ pre ++ post, ¬ IsLoad e') ∧
      ∃ (before : List KEvent) (timed : Measure),
        pre = before ++ grantStore ordinal :: ⟨.barrier, ()⟩ :: timed.events ++ [⟨.barrier, ()⟩] ∧
          timed.Valid cycles guard
  /-- A warm-up that failed: nothing is loaded, and both flags are set. -/
  withheld : (∀ e ∈ t, ¬ IsStore e) → (∀ e ∈ t, ¬ IsLoad e) ∧
    result.2 &&& 0x80000000 = 0x80000000 ∧ result.2 &&& 0x40000000 = 0x40000000
  /-- Without bit 31 the counter has advanced by the budget, from a reading
  after the store. -/
  measured : result.2 &&& 0x80000000 = 0 → ∃ (before between after : List KEvent) (start now : Word),
    t = before ++ ⟨.ccnt, start⟩ :: between ++ ⟨.ccnt, now⟩ :: after ∧
      grantStore ordinal ∈ before ∧ cycles ≤ now - start

/-- Where only one place of a list passes a test, a split at an element that
passes is the split at that place. -/
theorem split_unique {α : Type} {p : α → Prop} {l₁ l₂ pre post : List α} {x y : α}
    (h : l₁ ++ x :: l₂ = pre ++ y :: post) (hy : p y) (h₁ : ∀ e ∈ l₁, ¬ p e)
    (h₂ : ∀ e ∈ l₂, ¬ p e) : pre = l₁ ∧ y = x ∧ post = l₂ := by
  induction l₁ generalizing pre with
  | nil =>
    cases pre with
    | nil =>
      injection h with hx hl
      exact ⟨rfl, hx.symm, hl.symm⟩
    | cons z pre =>
      injection h with hx hl
      exact absurd hy (h₂ y (by rw [hl]; simp))
  | cons z l₁ ih =>
    cases pre with
    | nil =>
      injection h with hx hl
      exact absurd (hx ▸ hy) (h₁ z (by simp))
    | cons w pre =>
      injection h with hx hl
      obtain ⟨rfl, rfl, rfl⟩ := ih hl fun e he => h₁ e (by simp [he])
      exact ⟨by rw [hx], rfl, rfl⟩

/-- A measure neither stores nor loads. -/
theorem measure_quiet (m : Measure) :
    (∀ e ∈ m.events, ¬ IsStore e) ∧ ∀ e ∈ m.events, ¬ IsLoad e := by
  constructor
  · intro e he
    obtain ⟨v, -, rfl⟩ := List.mem_map.mp he
    rintro ⟨_, _, ⟨⟩⟩
  · intro e he
    obtain ⟨v, -, rfl⟩ := List.mem_map.mp he
    rintro ⟨_, _, ⟨⟩⟩

@[simp] theorem not_isStore_barrier : ¬ IsStore ⟨.barrier, ()⟩ := by
  rintro ⟨_, _, ⟨⟩⟩

@[simp] theorem not_isLoad_barrier : ¬ IsLoad ⟨.barrier, ()⟩ := by
  rintro ⟨_, _, ⟨⟩⟩

@[simp] theorem not_isStore_load (r : Reg) (v : Word) : ¬ IsStore ⟨.readl r, v⟩ := by
  rintro ⟨_, _, ⟨⟩⟩

@[simp] theorem not_isLoad_grantStore (v : Word) : ¬ IsLoad (grantStore v) := by
  rintro ⟨_, _, ⟨⟩⟩

/-- The readings of a measure that reached its target, as a split of its
events. -/
theorem Measure.Valid.split {m : Measure} {target : Word} {guard : Nat} (hm : m.Valid target guard) :
    ∃ (between : List KEvent) (now : Word),
      m.events = ⟨.ccnt, m.start⟩ :: between ++ [⟨.ccnt, now⟩] ∧ m.last = now - m.start := by
  obtain ⟨before, now, hreadings, hlast, -⟩ := hm.short
  refine ⟨counted before, now, ?_, hlast⟩
  show counted (m.start :: m.readings) = _
  rw [hreadings]
  simp [counted]

/-- A bit that stands alone is set or clear. -/
theorem and_bitAt {x : Word} {n : Nat} (h : x &&& bitAt n ≠ 0) : x &&& bitAt n = bitAt n := by
  have hpow : bitAt n = BitVec.twoPow 32 n := (BitVec.twoPow_eq 32 n).symm
  rw [hpow, BitVec.and_twoPow] at h ⊢
  split
  · rfl
  · rename_i hclear
    exact absurd (if_neg hclear) h

/-- The two flags of a withheld grant. -/
theorem flags_of_withheld {a : SpinAccount} {cycles : Word} {guard : Nat} (ha : a.Valid cycles guard)
    (h : ¬ a.Stored) : (a.warm.r5 16 ||| 0x40000000) &&& 0x80000000 = 0x80000000 ∧
      (a.warm.r5 16 ||| 0x40000000) &&& 0x40000000 = 0x40000000 := by
  have hbit : a.warm.r5 16 &&& 0x80000000 ≠ 0 := fun h0 =>
    h (ha.stored.mpr ((a.warm.r5_bit31 16).mp h0))
  refine ⟨?_, or_and_self _ _⟩
  rw [BitVec.and_comm, BitVec.and_or_distrib_left, BitVec.and_comm,
    show (0x80000000 : Word) = bitAt 31 by decide, and_bitAt (n := 31) hbit]
  decide

theorem SpinAccount.Valid.contract {a : SpinAccount} {ordinal cycles : Word} {guard : Nat}
    (ha : a.Valid cycles guard) :
    SpinContract ordinal cycles guard (a.events ordinal) (a.result cycles) := by
  obtain ⟨warm, timed⟩ := a
  obtain ⟨hwarmStore, hwarmLoad⟩ := measure_quiet warm
  cases timed with
  | none =>
    have hevents : SpinAccount.events ⟨warm, none⟩ ordinal = warm.events := List.append_nil _
    have hflags := flags_of_withheld ha nofun
    rw [hevents]
    refine ⟨?_, ?_, ?_, ?_⟩
    · rintro pre e post heq he
      exact absurd he (hwarmStore e (by rw [heq]; simp))
    · rintro pre e post heq he
      exact absurd he (hwarmLoad e (by rw [heq]; simp))
    · intro _
      exact ⟨hwarmLoad, hflags⟩
    · intro h
      exact absurd (hflags.1.symm.trans h) (by decide)
  | some p =>
    obtain ⟨m, observed⟩ := p
    obtain ⟨hreached, hbit⟩ := ha.stored.mp rfl
    have hm : m.Valid cycles guard := ha.timed _ rfl
    obtain ⟨hstore, hload⟩ := measure_quiet m
    -- the run, split at its store and at its load
    have hatStore : SpinAccount.events ⟨warm, some (m, observed)⟩ ordinal =
        (warm.events ++ [⟨.barrier, ()⟩]) ++ grantStore ordinal :: (⟨.barrier, ()⟩ :: m.events ++
          [⟨.barrier, ()⟩, ⟨.readl (.mailbox .bankDone), observed⟩]) := by
      simp [SpinAccount.events]
    have hatLoad : SpinAccount.events ⟨warm, some (m, observed)⟩ ordinal =
        ((warm.events ++ [⟨.barrier, ()⟩]) ++ grantStore ordinal :: ⟨.barrier, ()⟩ :: m.events ++
          [⟨.barrier, ()⟩]) ++ ⟨.readl (.mailbox .bankDone), observed⟩ :: [] := by
      simp [SpinAccount.events]
    refine ⟨?_, ?_, ?_, ?_⟩
    · rintro pre e post heq he
      rw [hatStore] at heq
      have hbefore : ∀ e ∈ warm.events ++ [⟨.barrier, ()⟩], ¬ IsStore e := by
        simpa [or_imp, forall_and] using hwarmStore
      have hafter : ∀ e ∈ ⟨.barrier, ()⟩ :: m.events ++
          [⟨.barrier, ()⟩, ⟨.readl (.mailbox .bankDone), observed⟩], ¬ IsStore e := by
        simpa [or_imp, forall_and] using hstore
      obtain ⟨rfl, rfl, rfl⟩ := split_unique heq he hbefore hafter
      refine ⟨rfl, ?_, warm, rfl, ha.warm, BitVec.not_lt.mpr hreached, hbit⟩
      intro e he
      exact (List.mem_append.mp he).elim (hbefore e) (hafter e)
    · rintro pre e post heq he
      rw [hatLoad] at heq
      have hbefore : ∀ e ∈ (warm.events ++ [⟨.barrier, ()⟩]) ++ grantStore ordinal ::
          ⟨.barrier, ()⟩ :: m.events ++ [⟨.barrier, ()⟩], ¬ IsLoad e := by
        simpa [or_imp, forall_and] using ⟨hwarmLoad, hload⟩
      obtain ⟨rfl, rfl, rfl⟩ := split_unique heq he hbefore nofun
      refine ⟨rfl, ?_, _, m, rfl, hm⟩
      intro e he
      exact hbefore e (by simpa using he)
    · intro hnone
      rw [hatStore] at hnone
      exact absurd ⟨ordinal, _, rfl⟩ (hnone (grantStore ordinal) (by simp))
    · intro hclear
      obtain ⟨hbudget, -⟩ := (m.r5_bit31 cycles).mp hclear
      obtain ⟨between, now, hsplit, hlast⟩ := hm.split
      refine ⟨warm.events ++ [⟨.barrier, ()⟩, grantStore ordinal, ⟨.barrier, ()⟩], between,
        [⟨.barrier, ()⟩, ⟨.readl (.mailbox .bankDone), observed⟩], m.start, now, ?_, by simp, ?_⟩
      · rw [hatStore, hsplit]
        simp
      · rw [← hlast]
        exact hbudget

/-! ### A counter that advances -/

/-- The readings of the cycle counter, in order. -/
def counterReadings (t : List KEvent) : List Word :=
  t.filterMap fun e => match e with
    | ⟨.ccnt, v⟩ => some v
    | _ => none

/-- Every reading is between 1 and 2^30 beyond the one before. -/
def Advancing (readings : List Word) : Prop :=
  readings.IsChain fun before now => 1 ≤ (now - before).toNat ∧ (now - before).toNat ≤ 2 ^ 30

instance (readings : List Word) : Decidable (Advancing readings) :=
  inferInstanceAs (Decidable (List.IsChain _ _))

@[simp] theorem counterReadings_append (t t' : List KEvent) :
    counterReadings (t ++ t') = counterReadings t ++ counterReadings t' := List.filterMap_append

@[simp] theorem counterReadings_counted (readings : List Word) :
    counterReadings (counted readings) = readings := by
  rw [counterReadings, counted, List.filterMap_map]
  exact List.filterMap_some

/-- Along an advancing counter a difference grows with each reading; while
the earlier ones fall short of the target it stays below 2^31. -/
theorem advance_last {start now : Word} {before : List Word} {target : Nat} (htarget : target < 2 ^ 30)
    (hadv : Advancing (start :: before ++ [now])) (hshort : ∀ b ∈ before, (b - start).toNat < target) :
    before.length + 1 ≤ (now - start).toNat ∧ (now - start).toNat < 2 ^ 31 := by
  induction before using List.reverseRecOn generalizing now with
  | nil =>
    obtain ⟨hpos, hmax⟩ := (List.isChain_cons_cons.mp hadv).1
    exact ⟨hpos, by omega⟩
  | append_singleton before b ih =>
    -- the step from `b` to `now`
    obtain ⟨hbefore, -, hstep⟩ := List.isChain_append.mp hadv
    have hlast : b ∈ (start :: (before ++ [b])).getLast? := by
      rw [← List.cons_append, List.getLast?_concat]
      rfl
    obtain ⟨hpos, hmax⟩ := hstep b hlast now rfl
    obtain ⟨hgrown, -⟩ := ih hbefore fun b' hb' => hshort b' (by simp [hb'])
    have hb : (b - start).toNat < target := hshort b (by simp)
    have hsum : (now - start).toNat = (b - start).toNat + (now - b).toNat := by bv_omega
    rw [List.length_append, List.length_singleton]
    omega

/-- **An advancing counter**: a target within the guard and below 2^30 is
reached, and bit 31 stays clear. -/
theorem Measure.Valid.reached {m : Measure} {target : Word} {guard : Nat} (hm : m.Valid target guard)
    (hadv : Advancing (m.start :: m.readings)) (hguard : target.toNat ≤ guard)
    (htarget : target.toNat < 2 ^ 30) : ¬ m.Expired target ∧ m.last &&& 0x80000000 = 0 := by
  obtain ⟨before, now, hreadings, hlast, hshort⟩ := hm.short
  rw [hreadings] at hadv
  obtain ⟨hgrown, hsmall⟩ := advance_last htarget hadv fun b hb => BitVec.lt_def.mp (hshort b hb)
  rw [← hlast] at hgrown hsmall
  constructor
  · intro hexpired
    have hlt : m.last.toNat < target.toNat := BitVec.lt_def.mp hexpired
    have hlength : m.readings.length = guard :=
      hm.ends.resolve_left (BitVec.not_le.mpr hexpired)
    rw [hreadings, List.length_append, List.length_singleton] at hlength
    omega
  · have hmsb : m.last.msb = false := BitVec.msb_eq_false_iff_two_mul_lt.mpr (by omega)
    rw [show (0x80000000 : Word) = BitVec.twoPow 32 31 by decide, BitVec.and_twoPow]
    exact if_neg (by simpa [BitVec.msb_eq_getLsbD_last] using hmsb)

/-! ### The contract -/

/-- The registers at the call of the routine. -/
def SpinRegs.entry (ordinal cycles iterationCap : Word) : SpinRegs :=
  { r1 := ordinal, r2 := cycles, r3 := iterationCap }

/-- **Grant and spin.**  Within 64 passes of the loop and those of its cap
the routine returns; its only store is the grant, after a warm-up that
ended well; its only load is `bank_done`, after the timed loop; a result
without bit 31 means that the budget has passed since the grant; and with a
counter that advances, the kernel's caps and the kernel's budgets neither
guard expires. -/
theorem quietBank_contract (ordinal cycles iterationCap : Word) (hcap : iterationCap ≠ 0) (n : Nat)
    (hn : 64 + iterationCap.toNat ≤ n) (t : List KEvent) (o : Option (Word × Word))
    (hrun : (quietBank n (.entry ordinal cycles iterationCap)).Runs t o) :
    ∃ (a : SpinAccount) (result : Word × Word), o = some result ∧
      a.Valid cycles iterationCap.toNat ∧ t = a.events ordinal ∧ result = a.result cycles ∧
      SpinContract ordinal cycles iterationCap.toNat t result ∧
      (iterationCap = timerIterationCap → cycles < bankMaxCycles → Advancing (counterReadings t) →
        a.Stored ∧ ¬ a.Expired cycles ∧ result.2 &&& 0x80000000 = 0) := by
  have hpasses : passes iterationCap = iterationCap.toNat := passes_toNat hcap
  rw [quietBank_eq (by rw [SpinRegs.entry, hpasses]; exact hn), map_eq_pure_bind] at hrun
  obtain ⟨t₁, t₂, result, rfl, hentry, hret⟩ := Prog.runs_bind_iff.mp hrun
  cases hret
  obtain ⟨a, ha, rfl, rfl⟩ := Prog.all_iff.mp (dldQuietBankEntry_all _ _ _) _ _ hentry
  rw [show passes (SpinRegs.entry ordinal cycles iterationCap).r3 = _ from hpasses] at ha
  rw [List.append_nil]
  refine ⟨a, _, rfl, ha, rfl, rfl, ha.contract, ?_⟩
  rintro rfl hcycles hadv
  have hbudget : cycles.toNat < 10000000 := BitVec.lt_def.mp hcycles
  obtain ⟨warm, timed⟩ := a
  -- the warm-up reaches its 16 cycles
  have hwarmAdv : Advancing (warm.start :: warm.readings) := by
    have hprefix : (warm.start :: warm.readings) <+: counterReadings (SpinAccount.events ⟨warm, timed⟩ ordinal) := by
      rw [SpinAccount.events, counterReadings_append, Measure.events, counterReadings_counted]
      exact List.prefix_append _ _
    exact List.IsChain.prefix hadv hprefix
  obtain ⟨hwarm, hbit⟩ := ha.warm.reached hwarmAdv (by decide) (by decide)
  have hstored : SpinAccount.Stored ⟨warm, timed⟩ := ha.stored.mpr ⟨BitVec.not_lt.mp hwarm, hbit⟩
  obtain ⟨⟨m, observed⟩, rfl⟩ := Option.isSome_iff_exists.mp hstored
  -- and the timed loop its budget
  have hm : m.Valid cycles timerIterationCap.toNat := ha.timed _ rfl
  have htimedAdv : Advancing (m.start :: m.readings) := by
    have hinfix : (m.start :: m.readings) <:+: counterReadings
        (SpinAccount.events ⟨warm, some (m, observed)⟩ ordinal) := by
      refine ⟨warm.start :: warm.readings, [], ?_⟩
      simp [SpinAccount.events, Measure.events, counterReadings, counted, grantStore]
    exact List.IsChain.infix hadv hinfix
  have hguard : timerIterationCap.toNat = 30000000 := rfl
  obtain ⟨htimed, hclear⟩ := hm.reached htimedAdv (by omega) (by omega)
  refine ⟨rfl, ?_, (m.r5_bit31 cycles).mpr ⟨BitVec.not_lt.mp htimed, hclear⟩⟩
  rintro (h | ⟨_, ⟨⟩, h⟩)
  · exact hwarm h
  · exact htimed h

/-- Five pixels on a cooperative board, with the kernel's cap. -/
theorem quietBank_contract_oneBank :
    let run := (quietBank (64 + timerIterationCap.toNat)
      (.entry 3 744000 timerIterationCap)).execWith Board.answer oneBankBoard
    ∃ (a : SpinAccount) (result : Word × Word), run.2 = some result ∧ run.1 = a.events 3 ∧
      SpinContract 3 744000 timerIterationCap.toNat run.1 result ∧ a.Stored ∧
      ¬ a.Expired 744000 := by
  intro run
  have hadv : Advancing (counterReadings run.1) := by decide +kernel
  obtain ⟨a, result, ho, -, ht, -, hcontract, hkernel⟩ :=
    quietBank_contract 3 744000 timerIterationCap (by decide) _ (Nat.le_refl _) run.1 run.2
      (Prog.execWith_runs _ _ _)
  obtain ⟨hstored, hexpired, -⟩ := hkernel rfl (by decide) hadv
  exact ⟨a, result, ho, ht, hcontract, hstored, hexpired⟩

end Dld
