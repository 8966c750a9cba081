/-
DldDriver/Userspace/FailLow.lean

The stop sequence and the fail-low outputs of `dld_hw.c`, whatever the
registers and the clock answer.

    InReset      a core was read stopped, reset, and not touched since
    StopRule     what `stop_prus` may do after a history
    BankRule     what `configure_bank` may store after a history
    StartRule    what `dld_hw_start` may store after a history

Each rule is about the history of the function's own run.  That a stop takes
at most 101 polls is a count, and needs no history.
-/
import DldDriver.Userspace.Readiness

namespace Dld

open Interaction

/-! ### The control registers -/

/-- `PRU0_CONTROL` and `PRU1_CONTROL`. -/
def control (pru : Fin 2) : HwReg := .pruss (controlOffsets pru)

theorem control_injective {pru pru' : Fin 2} (h : control pru = control pru') : pru = pru' := by
  revert h
  revert pru pru'
  decide

theorem store_injective {v w : Word} {r r' : HwReg} {x y : Unit}
    (h : (⟨.store v r, x⟩ : UEvent) = ⟨.store w r', y⟩) : v = w ∧ r = r' := by
  have hop : UOp.store v r = UOp.store w r' := congrArg Sigma.fst h
  cases hop
  exact ⟨rfl, rfl⟩

/-- An event that touches no word behind a mapping. -/
def unmapped : Reach where
  reads _ := False
  writes _ := False
  handles := True

/-- The disable of every selected core is among the events. -/
def AllDisabled (mask : Word) (h : List UEvent) : Prop :=
  ∀ pru, selected mask pru = true → (⟨.store 1 (control pru), ()⟩ : UEvent) ∈ h

/-- The core was read with RUNSTATE clear, reset, and not written since. -/
def InReset (pru : Fin 2) (h : List UEvent) : Prop :=
  ∃ pre v post, h = pre ++ ⟨.load (control pru), v⟩ :: ⟨.store 0 (control pru), ()⟩ :: post ∧
    v &&& pruRunstate = 0 ∧ ∀ w, (⟨.store w (control pru), ()⟩ : UEvent) ∉ post

/-- A status is read only with every selected core disabled, and a core is
reset only right after its status was read as stopped. -/
def StopRule (mask : Word) (pre : List UEvent) (e : UEvent) : Prop :=
  (∀ pru v, e = ⟨.load (control pru), v⟩ → AllDisabled mask pre) ∧
    ∀ pru, e = ⟨.store 0 (control pru), ()⟩ →
      ∃ pre' v, pre = pre' ++ [⟨.load (control pru), v⟩] ∧ v &&& pruRunstate = 0

theorem InReset.snoc {pru : Fin 2} {h : List UEvent} {e : UEvent} (hreset : InReset pru h)
    (he : ∀ w, e ≠ ⟨.store w (control pru), ()⟩) : InReset pru (h ++ [e]) := by
  obtain ⟨pre, v, post, rfl, hv, hpost⟩ := hreset
  refine ⟨pre, v, post ++ [e], by simp, hv, fun w hw => ?_⟩
  rcases List.mem_append.mp hw with hw | hw
  · exact hpost w hw
  · exact he w (List.mem_singleton.mp hw).symm

theorem InReset.append {pru : Fin 2} {h t : List UEvent} (hreset : InReset pru h)
    (ht : ∀ e ∈ t, ∀ w, e ≠ ⟨.store w (control pru), ()⟩) : InReset pru (h ++ t) := by
  induction t using List.reverseRecOn with
  | nil => simpa using hreset
  | append_singleton t e ih =>
    rw [← List.append_assoc]
    apply InReset.snoc
    · exact ih fun e he => ht e (List.mem_append_left _ he)
    · exact ht e (by simp)

theorem AllDisabled.append {mask : Word} {h : List UEvent} (hdisabled : AllDisabled mask h)
    (t : List UEvent) : AllDisabled mask (h ++ t) :=
  fun pru hpru => List.mem_append_left t (hdisabled pru hpru)

section Stop

variable {mask : Word} {h : List UEvent} {α : Type}

theorem stopRule_of_unmapped {e : UEvent} (he : unmapped.allows e) : StopRule mask h e := by
  constructor
  · rintro pru v rfl
    exact he.elim
  · rintro pru rfl
    exact he.elim

/-- What touches no register adds events that are no stores. -/
theorem wp_unmapped {P : List UEvent → UEvent → Prop} {p : UProg α}
    {Q : List UEvent → α → Prop} (hp : p.Emits unmapped.allows)
    (hP : ∀ h e, unmapped.allows e → P h e)
    (hQ : ∀ t a, (∀ e ∈ t, unmapped.allows e) → Q (h ++ t) a) : (Monitor.history P).wp p h Q :=
  Monitor.history_wp hp hP hp.all hQ

theorem ne_store_of_unmapped {e : UEvent} (he : unmapped.allows e) (w : Word) (r : HwReg) :
    e ≠ ⟨.store w r, ()⟩ := by
  rintro rfl
  exact he

/-- The cores of the mask are still pending, or in reset. -/
structure Stopping (mask pending : Word) (h : List UEvent) : Prop where
  disabled : AllDisabled mask h
  accounted : ∀ pru, selected mask pru = true → selected pending pru = false → InReset pru h

theorem Stopping.append {pending : Word} (hs : Stopping mask pending h) {t : List UEvent}
    (ht : ∀ e ∈ t, ∀ w r, e ≠ ⟨.store w r, ()⟩) : Stopping mask pending (h ++ t) :=
  ⟨hs.disabled.append t, fun pru hmask hpending =>
    (hs.accounted pru hmask hpending).append fun e he w => ht e he w _⟩

theorem selected_eq (mask : Word) (pru : Fin 2) : selected mask pru = mask.getLsbD pru.val := by
  have hiff : mask &&& bitAt pru.val = 0 ↔ mask.getLsbD pru.val = false := and_bitAt_eq_zero_iff
  by_cases hzero : mask &&& bitAt pru.val = 0
  · rw [hiff.mp hzero]
    exact decide_eq_false (not_not.mpr hzero)
  · have hset : mask.getLsbD pru.val = true := by simpa using mt hiff.mpr hzero
    rw [hset]
    exact decide_eq_true hzero

theorem selected_clear (pending : Word) (pru pru' : Fin 2) :
    selected (pending &&& ~~~ bitAt pru.val) pru' =
      (selected pending pru' && decide (pru ≠ pru')) := by
  have hlt : pru'.val < 32 := by omega
  simp only [selected_eq, BitVec.getLsbD_and, BitVec.getLsbD_not, getLsbD_bitAt, hlt]
  by_cases hpru : pru = pru'
  · subst hpru
    simp [hlt]
  · simp [hpru, Fin.val_ne_of_ne hpru]

/-! ### stop_prus -/

theorem wp_disablePrus (prus : List (Fin 2)) {Q : List UEvent → Unit → Prop}
    (hQ : ∀ t, (∀ pru ∈ prus, selected mask pru = true →
      (⟨.store 1 (control pru), ()⟩ : UEvent) ∈ t) → Q (h ++ t) ()) :
    (Monitor.history (StopRule mask)).wp (disablePrus mask prus) h Q := by
  induction prus generalizing h with
  | nil =>
    have hend := hQ [] (by simp)
    rw [List.append_nil] at hend
    exact hend
  | cons pru rest ih =>
    refine Monitor.wp_ite.mpr ⟨fun hpru => ?_, fun hpru => ?_⟩
    · have hrule : StopRule mask h ⟨.store 1 (control pru), ()⟩ := ⟨nofun, nofun⟩
      refine Monitor.history_op_bind fun _ => ⟨hrule, ih fun t ht => ?_⟩
      rw [List.append_assoc]
      refine hQ _ fun pru' hmem hpru' => ?_
      rcases List.mem_cons.mp hmem with rfl | hmem
      · exact .head _
      · exact .tail _ (ht pru' hmem hpru')
    · refine ih fun t ht => hQ t fun pru' hmem hpru' => ?_
      rcases List.mem_cons.mp hmem with rfl | hmem
      · exact absurd hpru' hpru
      · exact ht pru' hmem hpru'

theorem wp_pollPrus {pending : Word} (prus : List (Fin 2)) (hs : Stopping mask pending h) :
    (Monitor.history (StopRule mask)).wp (pollPrus pending prus) h fun h' pending' =>
      Stopping mask pending' h' := by
  induction prus generalizing h pending with
  | nil => exact hs
  | cons pru rest ih =>
    refine Monitor.wp_ite.mpr ⟨fun hpru => ?_, fun _ => ih hs⟩
    refine Monitor.history_op_bind fun v => ⟨⟨fun _ _ _ => hs.disabled, nofun⟩, ?_⟩
    have hread : Stopping mask pending (h ++ [⟨.load (control pru), v⟩]) :=
      hs.append (by simp)
    refine Monitor.wp_ite.mpr ⟨fun hstopped => ?_, fun _ => ih hread⟩
    refine Monitor.history_op_bind fun _ => ⟨⟨nofun, ?_⟩, ih ⟨?_, ?_⟩⟩
    · rintro pru' heq
      obtain rfl : pru = pru' := control_injective (store_injective heq).2
      exact ⟨h, v, rfl, hstopped⟩
    · exact hread.disabled.append _
    · intro pru' hmask hpending
      by_cases heq : pru = pru'
      · -- the core just reset
        subst heq
        exact ⟨h, v, [], by simp; rfl, hstopped, by simp⟩
      · apply (hread.accounted pru' hmask _).snoc
        · exact fun w hstore => heq (control_injective (store_injective hstore).2)
        · rw [selected_clear] at hpending
          simpa [heq] using hpending

theorem Stopping.unmapped {pending : Word} {t : List UEvent} (hs : Stopping mask pending h)
    (ht : ∀ e ∈ t, unmapped.allows e) : Stopping mask pending (h ++ t) :=
  hs.append fun e he w r => ne_store_of_unmapped (ht e he) w r

theorem wp_stopRound {pending : Word} (begin : BitVec 64) (error : String) (cap : Nat)
    (hs : Stopping mask pending h) :
    (Monitor.history (StopRule mask)).wp (stopRound begin error cap pending) h fun h' r =>
      Stopping mask r.1 h' ∧ ∀ result, r.2 = some result → result.1 = true → r.1 = 0 := by
  refine Monitor.wp_ite.mpr ⟨fun hzero => ⟨hs, fun _ _ _ => hzero⟩, fun _ => ?_⟩
  refine Monitor.wp_bind.mpr (Monitor.wp_mono (wp_pollPrus _ hs) fun h pending hs => ?_)
  refine Monitor.history_op_bind fun _ => ⟨⟨nofun, nofun⟩, ?_⟩
  have hs : Stopping mask pending (h ++ [⟨.barrier, ()⟩]) := hs.append (by simp)
  refine Monitor.wp_ite.mpr ⟨fun hzero => ⟨hs, fun _ _ _ => hzero⟩, fun _ => ?_⟩
  refine Monitor.wp_bind.mpr (wp_unmapped emits_monotonicNs (fun _ _ => stopRule_of_unmapped) ?_)
  intro t now ht
  have hs := hs.unmapped ht
  refine Monitor.wp_ite.mpr ⟨fun _ => ?_, fun _ => Monitor.wp_ite.mpr ⟨fun _ => ?_, fun _ => ?_⟩⟩
  · refine Monitor.wp_bind.mpr
      (wp_unmapped (emits_failErrno _ _ _) (fun _ _ => stopRule_of_unmapped) ?_)
    intro t error ht
    refine ⟨hs.unmapped ht, ?_⟩
    rintro _ ⟨⟩ ⟨⟩
  · refine ⟨hs, ?_⟩
    rintro _ ⟨⟩ ⟨⟩
  · exact ⟨hs, nofun⟩

theorem wp_stopWait {pending : Word} (begin : BitVec 64) (error : String) (cap n : Nat)
    (hs : Stopping mask pending h) :
    (Monitor.history (StopRule mask)).wp (stopWait begin error cap n pending) h fun h' r =>
      ∃ pending', Stopping mask pending' h' ∧ (r.1 = true → pending' = 0) := by
  induction n generalizing h pending with
  | zero =>
    refine Monitor.wp_bind.mpr (Monitor.wp_mono (wp_stopRound begin error cap hs) ?_)
    rintro h ⟨pending, - | result⟩ ⟨hs, hresult⟩
    · exact ⟨pending, hs, nofun⟩
    · exact ⟨pending, hs, hresult result rfl⟩
  | succ n ih =>
    refine Monitor.wp_bind.mpr (Monitor.wp_mono (wp_stopRound begin error cap hs) ?_)
    rintro h ⟨pending, - | result⟩ ⟨hs, hresult⟩
    · refine Monitor.history_op_bind fun slept => ⟨⟨nofun, nofun⟩, ?_⟩
      have hs : Stopping mask pending (h ++ [⟨.nanosleep, slept⟩]) := hs.append (by simp)
      refine Monitor.wp_ite.mpr ⟨fun _ => ?_, fun _ => ih hs⟩
      refine Monitor.wp_bind.mpr
        (wp_unmapped (emits_failErrno _ _ _) (fun _ _ => stopRule_of_unmapped) ?_)
      exact fun t error ht => ⟨pending, hs.unmapped ht, nofun⟩
    · exact ⟨pending, hs, hresult result rfl⟩

/-- The whole stop: every selected core is disabled, and a success leaves
each of them in reset. -/
theorem wp_stopPrus (mask : Word) (error : String) (cap : Nat) :
    (Monitor.history (StopRule mask)).wp (stopPrus mask error cap) [] fun h' r =>
      AllDisabled mask h' ∧ (r.1 = true → ∀ pru, selected mask pru = true → InReset pru h') := by
  refine Monitor.wp_bind.mpr (wp_unmapped emits_monotonicNs (fun _ _ => stopRule_of_unmapped) ?_)
  intro t begin ht
  refine Monitor.wp_bind.mpr (wp_disablePrus _ fun t' ht' => ?_)
  refine Monitor.history_op_bind fun _ => ⟨⟨nofun, nofun⟩, ?_⟩
  have hdisabled : AllDisabled mask (t ++ t' ++ [⟨.barrier, ()⟩]) := by
    intro pru hpru
    exact List.mem_append_left _ (List.mem_append_right _ (ht' pru (List.mem_finRange pru) hpru))
  have hs : Stopping mask mask (t ++ t' ++ [⟨.barrier, ()⟩]) := by
    refine ⟨hdisabled, fun pru hmask hpending => ?_⟩
    rw [hmask] at hpending
    cases hpending
  refine Monitor.wp_mono (wp_stopWait begin error cap 100 hs) ?_
  rintro h' r ⟨pending, hs, hok⟩
  refine ⟨hs.disabled, fun hr pru hmask => hs.accounted pru hmask ?_⟩
  rw [hok hr]
  simp [selected]

/-! ### How long it takes -/

/-- A status read of `pru`. -/
def isPoll (pru : Fin 2) : UEvent → Bool
  | ⟨.load r, _⟩ => decide (r = control pru)
  | _ => false

def isNanosleep : UEvent → Bool
  | ⟨.nanosleep, _⟩ => true
  | _ => false

/-- At most `n` events of the kind in every run. -/
def AtMost (n : Nat) (K : UEvent → Bool) (p : UProg α) : Prop := p.All fun t _ => t.countP K ≤ n

theorem AtMost.bind {β : Type} {m n : Nat} {K : UEvent → Bool} {p : UProg α} {f : α → UProg β}
    (hp : AtMost m K p) (hf : ∀ a, AtMost n K (f a)) : AtMost (m + n) K (p >>= f) := by
  refine Prog.all_bind.mpr (Prog.all_mono hp fun t a ht => ?_)
  refine Prog.all_mono (hf a) fun t' b ht' => ?_
  rw [List.countP_append]
  exact Nat.add_le_add ht ht'

theorem AtMost.mono {m n : Nat} {K : UEvent → Bool} {p : UProg α} (hp : AtMost m K p)
    (hmn : m ≤ n) : AtMost n K p := Prog.all_mono hp fun _ _ ht => ht.trans hmn

theorem atMost_pure (n : Nat) (K : UEvent → Bool) (a : α) : AtMost n K (pure a : UProg α) :=
  Nat.zero_le n

theorem AtMost.ite {n : Nat} {K : UEvent → Bool} {c : Prop} [Decidable c] {p q : UProg α}
    (hp : c → AtMost n K p) (hq : ¬ c → AtMost n K q) : AtMost n K (if c then p else q) :=
  Prog.all_ite.mpr ⟨hp, hq⟩

theorem atMost_op {K : UEvent → Bool} (o : UOp) (ho : ∀ r, K ⟨o, r⟩ = false) :
    AtMost 0 K (uop o) := by
  intro r
  simp [ho r]

/-- An event of the kind, at most. -/
theorem atMost_one (K : UEvent → Bool) (o : UOp) : AtMost 1 K (uop o) := by
  intro r
  show [(⟨o, r⟩ : UEvent)].countP K ≤ 1
  exact List.countP_le_length

section Counts

variable {K : UEvent → Bool}

theorem atMost_monotonicNs (hclock : ∀ r, K ⟨.clockGettime, r⟩ = false) :
    AtMost 0 K monotonicNs := by
  apply AtMost.bind (m := 0) (n := 0) (atMost_op .clockGettime hclock)
  intro now
  cases now <;> exact atMost_pure _ _ _

theorem atMost_failErrno (hstrerror : ∀ r, K ⟨.strerror, r⟩ = false) (error : String) (cap : Nat)
    (what : String) : AtMost 0 K (failErrno error cap what) := by
  apply AtMost.ite (fun _ => atMost_pure _ _ _)
  intro _
  exact AtMost.bind (m := 0) (n := 0) (atMost_op .strerror hstrerror) fun _ => atMost_pure _ _ _

/-- A stop of `n + 1` rounds: `m` events in each poll, `s` in each pause. -/
theorem atMost_stopWait {m s : Nat}
    (hpoll : ∀ pending, AtMost m K (pollPrus pending (List.finRange 2)))
    (hsleep : AtMost s K (uop .nanosleep)) (hbarrier : ∀ r, K ⟨.barrier, r⟩ = false)
    (hclock : ∀ r, K ⟨.clockGettime, r⟩ = false) (hstrerror : ∀ r, K ⟨.strerror, r⟩ = false)
    (begin : BitVec 64) (error : String) (cap n : Nat) (pending : Word) :
    AtMost (m + n * (m + s)) K (stopWait begin error cap n pending) := by
  have hround (pending : Word) : AtMost m K (stopRound begin error cap pending) := by
    apply AtMost.ite (fun _ => atMost_pure _ _ _)
    intro _
    apply AtMost.bind (n := 0) (hpoll pending)
    intro pending
    apply AtMost.bind (m := 0) (n := 0) (atMost_op .barrier hbarrier)
    intro _
    apply AtMost.ite (fun _ => atMost_pure _ _ _)
    intro _
    apply AtMost.bind (m := 0) (n := 0) (atMost_monotonicNs hclock)
    intro now
    apply AtMost.ite
    · exact fun _ => AtMost.bind (m := 0) (n := 0) (atMost_failErrno hstrerror _ _ _)
        fun _ => atMost_pure _ _ _
    · exact fun _ => AtMost.ite (fun _ => atMost_pure _ _ _) fun _ => atMost_pure _ _ _
  induction n generalizing pending with
  | zero =>
    rw [Nat.zero_mul]
    apply AtMost.bind (n := 0) (hround pending)
    rintro ⟨pending, - | result⟩ <;> exact atMost_pure _ _ _
  | succ n ih =>
    have hsum : m + (n + 1) * (m + s) = m + (s + (m + n * (m + s))) := by
      rw [Nat.succ_mul]
      omega
    rw [hsum]
    apply AtMost.bind (hround pending)
    rintro ⟨pending, - | result⟩
    · apply AtMost.bind hsleep
      intro slept
      apply AtMost.ite _ fun _ => ih pending
      intro _
      exact (AtMost.bind (m := 0) (n := 0) (atMost_failErrno hstrerror _ _ _)
        fun _ => atMost_pure _ _ _).mono (Nat.zero_le _)
    · exact atMost_pure _ _ _

theorem atMost_stopPrus {m s : Nat}
    (hpoll : ∀ pending, AtMost m K (pollPrus pending (List.finRange 2)))
    (hsleep : AtMost s K (uop .nanosleep)) (hbarrier : ∀ r, K ⟨.barrier, r⟩ = false)
    (hclock : ∀ r, K ⟨.clockGettime, r⟩ = false) (hstrerror : ∀ r, K ⟨.strerror, r⟩ = false)
    (hstore : ∀ v w r, K ⟨.store v w, r⟩ = false) (mask : Word) (error : String) (cap : Nat) :
    AtMost (m + 100 * (m + s)) K (stopPrus mask error cap) := by
  have hdisable (prus : List (Fin 2)) : AtMost 0 K (disablePrus mask prus) := by
    induction prus with
    | nil => exact atMost_pure _ _ _
    | cons pru rest ih =>
      apply AtMost.ite _ fun _ => ih
      exact fun _ => AtMost.bind (m := 0) (n := 0) (atMost_op _ (hstore _ _)) fun _ => ih
  rw [← Nat.zero_add (m + _)]
  apply AtMost.bind (atMost_monotonicNs hclock)
  intro begin
  rw [← Nat.zero_add (m + _)]
  apply AtMost.bind (hdisable _)
  intro _
  rw [← Nat.zero_add (m + _)]
  apply AtMost.bind (atMost_op .barrier hbarrier)
  exact fun _ => atMost_stopWait hpoll hsleep hbarrier hclock hstrerror begin error cap 100 mask

end Counts

/-- A core is read at most as often as it is listed. -/
theorem atMost_pollPrus_isPoll (pru : Fin 2) (prus : List (Fin 2)) (pending : Word) :
    AtMost (prus.count pru) (isPoll pru) (pollPrus pending prus) := by
  induction prus generalizing pending with
  | nil => exact atMost_pure _ _ _
  | cons pru' rest ih =>
    have hread (v : Word) : isPoll pru ⟨.load (control pru'), v⟩ = (pru' == pru) := by
      show decide (control pru' = control pru) = _
      by_cases heq : pru' = pru
      · simp [heq]
      · simp [heq, mt control_injective heq]
    have hone :
        AtMost (if pru' == pru then 1 else 0) (isPoll pru) (uop (.load (control pru'))) := by
      intro v
      simp [hread v]
    rw [List.count_cons, Nat.add_comm]
    apply AtMost.ite _ fun _ => (ih pending).mono (Nat.le_add_left _ _)
    intro _
    apply AtMost.bind hone
    intro v
    apply AtMost.ite _ fun _ => ih pending
    intro _
    rw [← Nat.zero_add (rest.count pru)]
    exact AtMost.bind (atMost_op _ fun _ => rfl) fun _ => ih _

/-- At most 101 status reads of a core. -/
theorem stopPrus_polls (mask : Word) (error : String) (cap : Nat) (pru : Fin 2) :
    AtMost 101 (isPoll pru) (stopPrus mask error cap) := by
  have hpoll (pending : Word) : AtMost 1 (isPoll pru) (pollPrus pending (List.finRange 2)) := by
    refine (atMost_pollPrus_isPoll pru _ pending).mono ?_
    exact List.nodup_iff_count_le_one.mp (List.nodup_finRange 2) pru
  exact atMost_stopPrus hpoll (atMost_op .nanosleep fun _ => rfl) (fun _ => rfl) (fun _ => rfl)
    (fun _ => rfl) (fun _ _ _ => rfl) mask error cap

/-- At most 100 pauses, one between two polls. -/
theorem stopPrus_pauses (mask : Word) (error : String) (cap : Nat) :
    AtMost 100 isNanosleep (stopPrus mask error cap) := by
  have hpoll (prus : List (Fin 2)) (pending : Word) :
      AtMost 0 isNanosleep (pollPrus pending prus) := by
    induction prus generalizing pending with
    | nil => exact atMost_pure _ _ _
    | cons pru rest ih =>
      apply AtMost.ite _ fun _ => ih pending
      intro _
      apply AtMost.bind (m := 0) (n := 0) (atMost_op _ fun _ => rfl)
      intro v
      apply AtMost.ite _ fun _ => ih pending
      exact fun _ => AtMost.bind (m := 0) (n := 0) (atMost_op _ fun _ => rfl) fun _ => ih _
  exact atMost_stopPrus (hpoll _) (atMost_one _ _) (fun _ => rfl) (fun _ => rfl)
    (fun _ => rfl) (fun _ _ _ => rfl) mask error cap

end Stop

/-! ### configure_bank -/

/-- What `configure_bank` stores: the clock, GPIO_CTRL, a clear of exactly the
LED bits, and the direction just read without the LED bits, after a readback
of the latches that found all of them low. -/
def BankRule (bank : Fin 3) (pre : List UEvent) (e : UEvent) : Prop :=
  ∀ v r, e = ⟨.store v r, ()⟩ →
    (∃ n, r = .clock n) ∨ r = .gpio bank gpioCtrl ∨ (r = .gpio bank gpioClear ∧ v = ledMasks bank) ∨
      (r = .gpio bank gpioOe ∧ ∃ pre' data oe,
        pre = pre' ++ [⟨.load (.gpio bank gpioDataout), data⟩, ⟨.load (.gpio bank gpioOe), oe⟩] ∧
        data &&& ledMasks bank = 0 ∧ v = oe &&& ~~~ ledMasks bank)

/-- The end of a bank that was set up: the latches read low, the directions
stored and read back as outputs. -/
def LowOutputs (bank : Fin 3) (h : List UEvent) : Prop :=
  ∃ pre data oe oe', h = pre ++ [⟨.load (.gpio bank gpioDataout), data⟩,
      ⟨.load (.gpio bank gpioOe), oe⟩,
      ⟨.store (oe &&& ~~~ ledMasks bank) (.gpio bank gpioOe), ()⟩, ⟨.barrier, ()⟩,
      ⟨.load (.gpio bank gpioOe), oe'⟩] ∧
    data &&& ledMasks bank = 0 ∧ oe' &&& ledMasks bank = 0

/-- The clock words, and descriptors and mappings. -/
def clockOnly : Reach where
  reads r := ∃ n, r = .clock n
  writes r := ∃ n, r = .clock n
  handles := True

section Banks

variable {bank : Fin 3} {h : List UEvent}

theorem bankRule_of_clockOnly {e : UEvent} (he : clockOnly.allows e) : BankRule bank h e := by
  rintro v r rfl
  exact .inl he

theorem clockOnly_of_unmapped {e : UEvent} (he : unmapped.allows e) : clockOnly.allows e := by
  obtain ⟨op, v⟩ := e
  cases op <;> first | exact he | exact he.elim

theorem emits_enableClock_clockOnly (error : String) (cap : Nat) :
    (enableClock bank error cap).Emits clockOnly.allows := by
  have hclock (n : Nat) : ∃ m, HwReg.clock n = .clock m := ⟨n, rfl⟩
  exact emits_enableClock hclock hclock bank error cap

/-- A load, a barrier or a call obeys the rule. -/
theorem bankRule_of_not_store {e : UEvent} (he : ∀ v r, e ≠ ⟨.store v r, ()⟩) :
    BankRule bank h e := fun v r heq => absurd heq (he v r)

theorem wp_clearOutputs (n : Nat) :
    (Monitor.history (BankRule bank)).wp (clearOutputs bank n) h fun h' low =>
      low = true → ∃ pre data, h' = pre ++ [⟨.load (.gpio bank gpioDataout), data⟩] ∧
        data &&& ledMasks bank = 0 := by
  induction n generalizing h with
  | zero => exact nofun
  | succ n ih =>
    refine Monitor.history_op_bind fun _ => ⟨?_, ?_⟩
    · rintro v r heq
      obtain ⟨rfl, rfl⟩ := store_injective heq
      exact .inr (.inr (.inl ⟨rfl, rfl⟩))
    refine Monitor.history_op_bind fun _ => ⟨bankRule_of_not_store nofun, ?_⟩
    refine Monitor.history_op_bind fun data => ⟨bankRule_of_not_store nofun, ?_⟩
    exact Monitor.wp_ite.mpr ⟨fun hlow _ => ⟨_, data, rfl, hlow⟩, fun _ => ih⟩

theorem lowOutputs_setUpBank (error : String) (cap : Nat) :
    (Monitor.history (BankRule bank)).wp (setUpBank bank error cap) h fun h' r =>
      r.1 = true → LowOutputs bank h' := by
  refine Monitor.wp_bind.mpr (Monitor.history_wp (emits_enableClock_clockOnly error cap)
    (fun _ _ => bankRule_of_clockOnly) (Prog.all_of_forall fun _ _ => trivial) ?_)
  rintro t ⟨enabled, error⟩ -
  refine Monitor.wp_ite.mpr ⟨fun _ => nofun, fun _ => ?_⟩
  refine Monitor.history_op_bind fun ctrl => ⟨bankRule_of_not_store nofun, ?_⟩
  refine Monitor.history_op_bind fun _ => ⟨?_, ?_⟩
  · rintro v r heq
    obtain ⟨rfl, rfl⟩ := store_injective heq
    exact .inr (.inl rfl)
  refine Monitor.wp_bind.mpr (Monitor.wp_mono (wp_clearOutputs 8) ?_)
  rintro h low hlow
  refine Monitor.wp_ite.mpr ⟨fun _ => nofun, fun htrue => ?_⟩
  obtain ⟨pre, data, rfl, hdata⟩ := hlow (by simpa using htrue)
  refine Monitor.history_op_bind fun oe => ⟨bankRule_of_not_store nofun, ?_⟩
  refine Monitor.history_op_bind fun _ => ⟨?_, ?_⟩
  · -- the direction follows the readback of the latches at once
    rintro v r heq
    obtain ⟨rfl, rfl⟩ := store_injective heq
    exact .inr (.inr (.inr ⟨rfl, pre, data, oe, by simp, hdata, rfl⟩))
  refine Monitor.history_op_bind fun _ => ⟨bankRule_of_not_store nofun, ?_⟩
  refine Monitor.history_op_bind fun oe' => ⟨bankRule_of_not_store nofun, ?_⟩
  refine Monitor.wp_ite.mpr ⟨fun _ => nofun, fun houtput _ => ?_⟩
  exact ⟨pre, data, oe, oe', by simp, hdata, not_not.mp houtput⟩

theorem lowOutputs_configureBank (hw : DldHw) (error : String) (cap : Nat) :
    (Monitor.history (BankRule bank)).wp (configureBank hw bank error cap) h fun h' r =>
      r.2.1 = true → LowOutputs bank h' := by
  have hfail {what : String} {h : List UEvent} :
      (Monitor.history (BankRule bank)).wp (failErrno error cap what >>= fun error =>
        pure (hw, false, error)) h fun h' r => r.2.1 = true → LowOutputs bank h' := by
    refine Monitor.wp_bind.mpr (wp_unmapped (emits_failErrno _ _ _)
      (fun _ _ he => bankRule_of_clockOnly (clockOnly_of_unmapped he)) ?_)
    exact fun _ _ _ => nofun
  unfold configureBank
  rcases hw.gpioMap bank with - | address
  · rcases hw.memFd with - | fd
    · exact hfail
    refine Monitor.history_op_bind fun map => ⟨bankRule_of_not_store nofun, ?_⟩
    rcases map with errno | address
    · exact hfail
    · exact Monitor.wp_bind.mpr (lowOutputs_setUpBank error cap)
  · exact Monitor.wp_bind.mpr (lowOutputs_setUpBank error cap)

/-- A clear of the LED bits of `bank`. -/
def isClear (bank : Fin 3) : UEvent → Bool
  | ⟨.store _ r, _⟩ => decide (r = .gpio bank gpioClear)
  | _ => false

theorem atMost_zero {α : Type} {K : UEvent → Bool} {L : UEvent → Prop} {p : UProg α}
    (hp : p.Emits L) (hK : ∀ e, L e → K e = false) : AtMost 0 K p := by
  refine Prog.all_mono hp.all fun t _ ht => ?_
  rw [List.countP_eq_zero.mpr fun e he => by simp [hK e (ht e he)]]

theorem isClear_of_clockOnly {e : UEvent} (he : clockOnly.allows e) : isClear bank e = false := by
  obtain ⟨op, v⟩ := e
  cases op with
  | store w r =>
    obtain ⟨n, rfl⟩ := he
    have hne : HwReg.clock n ≠ .gpio bank gpioClear := nofun
    exact decide_eq_false hne
  | _ => rfl

/-- At most eight clears of a bank. -/
theorem configureBank_clears (hw : DldHw) (bank : Fin 3) (error : String) (cap : Nat) :
    AtMost 8 (isClear bank) (configureBank hw bank error cap) := by
  have hclears (n : Nat) : AtMost n (isClear bank) (clearOutputs bank n) := by
    induction n with
    | zero => exact atMost_pure _ _ _
    | succ n ih =>
      apply AtMost.mono (m := 1 + (0 + (0 + n))) _ (by omega)
      apply AtMost.bind (atMost_one _ (.store (ledMasks bank) (.gpio bank gpioClear)))
      intro _
      apply AtMost.bind (atMost_op .barrier fun _ => rfl)
      intro _
      apply AtMost.bind (atMost_op (.load (.gpio bank gpioDataout)) fun _ => rfl)
      exact fun data => AtMost.ite (fun _ => atMost_pure _ _ _) fun _ => ih
  have hother (r : HwReg) (v : Word) (hr : r ≠ .gpio bank gpioClear) :
      AtMost 0 (isClear bank) (store v r) := atMost_op _ fun _ => decide_eq_false hr
  have hsetUp : AtMost 8 (isClear bank) (setUpBank bank error cap) := by
    apply AtMost.bind (m := 0) (n := 8)
      (atMost_zero (emits_enableClock_clockOnly error cap) fun _ => isClear_of_clockOnly)
    rintro ⟨enabled, error⟩
    apply AtMost.ite (fun _ => atMost_pure _ _ _)
    intro _
    apply AtMost.bind (m := 0) (n := 8) (atMost_op _ fun _ => rfl)
    intro ctrl
    apply AtMost.bind (m := 0) (n := 8) (hother _ _ (by simp))
    intro _
    apply AtMost.bind (m := 8) (n := 0) (hclears 8)
    intro low
    apply AtMost.ite (fun _ => atMost_pure _ _ _)
    intro _
    apply AtMost.bind (m := 0) (n := 0) (atMost_op _ fun _ => rfl)
    intro oe
    apply AtMost.bind (m := 0) (n := 0) (hother _ _ (by simp))
    intro _
    apply AtMost.bind (m := 0) (n := 0) (atMost_op .barrier fun _ => rfl)
    intro _
    apply AtMost.bind (m := 0) (n := 0) (atMost_op _ fun _ => rfl)
    exact fun oe => AtMost.ite (fun _ => atMost_pure _ _ _) fun _ => atMost_pure _ _ _
  have hfail {what : String} : AtMost 8 (isClear bank) (failErrno error cap what >>= fun error =>
      pure (hw, false, error) : UProg (DldHw × Bool × String)) :=
    AtMost.bind (m := 0) (n := 8) (atMost_failErrno (fun _ => rfl) _ _ _) fun _ => atMost_pure _ _ _
  unfold configureBank
  rcases hw.gpioMap bank with - | address
  · rcases hw.memFd with - | fd
    · exact hfail
    apply AtMost.bind (m := 0) (n := 8) (atMost_op _ fun _ => rfl)
    rintro (errno | address)
    · exact hfail
    · exact AtMost.bind (m := 8) (n := 0) hsetUp fun _ => atMost_pure _ _ _
  · exact AtMost.bind (m := 8) (n := 0) hsetUp fun _ => atMost_pure _ _ _

end Banks

/-! ### dld_hw_start -/

/-- What `dld_hw_start` stores: instruction RAM while PRU0 is in reset, and a
value that enables PRU0 only right after every word was read back. -/
def StartRule (code : Nat → Word) (bytes : Nat) (pre : List UEvent) (e : UEvent) : Prop :=
  (∀ v n, e = ⟨.store v (.pruss n), ()⟩ → pru0Iram ≤ n → InReset 0 pre) ∧
    ∀ v, e = ⟨.store v (control 0), ()⟩ → v &&& 2 ≠ 0 → InReset 0 pre ∧
      ∃ pre', pre = pre' ++ (List.range (bytes / 4)).map fun word =>
        (⟨.load (iram word), code word⟩ : UEvent)

section Start

variable {code : Nat → Word} {bytes : Nat} {h : List UEvent}

theorem startRule_of_not_store {e : UEvent} (he : ∀ v r, e ≠ ⟨.store v r, ()⟩) :
    StartRule code bytes h e :=
  ⟨fun v _ heq _ => absurd heq (he v _), fun v heq _ => absurd heq (he v _)⟩

theorem startRule_of_unmapped {e : UEvent} (he : unmapped.allows e) : StartRule code bytes h e :=
  startRule_of_not_store fun v r => ne_store_of_unmapped he v r

/-- What a stop stores: zero or one, in a control register. -/
def Halting (e : UEvent) : Prop :=
  ∀ v r, e = ⟨.store v r, ()⟩ → (v = 0 ∨ v = 1) ∧ ∃ pru, r = control pru

theorem halting_of_not_store {e : UEvent} (he : ∀ v r, e ≠ ⟨.store v r, ()⟩) : Halting e :=
  fun v r heq => absurd heq (he v r)

theorem startRule_of_halting {e : UEvent} (he : Halting e) : StartRule code bytes h e := by
  constructor
  · intro v n heq hn
    obtain ⟨-, pru, hr⟩ := he v _ heq
    have hlow : ∀ pru, controlOffsets pru < pru0Iram := by decide
    have hn' : n = controlOffsets pru := HwReg.pruss.inj hr
    have hpru := hlow pru
    omega
  · intro v heq hv
    obtain ⟨rfl | rfl, -⟩ := he v _ heq
    · exact absurd (by decide) hv
    · exact absurd (by decide) hv

theorem emits_stopPrus_halting (mask : Word) (error : String) (cap : Nat) :
    (stopPrus mask error cap).Emits Halting := by
  have hop (o : UOp) (ho : ∀ v r, o ≠ .store v r) : (uop o).Emits Halting := by
    refine (Prog.emits_op o).mpr fun x => halting_of_not_store fun v r heq => ?_
    exact ho v r (congrArg Sigma.fst heq)
  have hstore (v : Word) (pru : Fin 2) (hv : v = 0 ∨ v = 1) :
      (store v (control pru)).Emits Halting := by
    refine (Prog.emits_op _).mpr fun _ v' r heq => ?_
    obtain ⟨rfl, rfl⟩ := store_injective heq
    exact ⟨hv, pru, rfl⟩
  have hunmapped {α : Type} {p : UProg α} (hp : p.Emits unmapped.allows) : p.Emits Halting :=
    hp.mono fun e he => halting_of_not_store fun v r => ne_store_of_unmapped he v r
  have hdisable (prus : List (Fin 2)) : (disablePrus mask prus).Emits Halting := by
    induction prus with
    | nil => exact Prog.emits_pure _
    | cons pru rest ih =>
      apply Prog.emits_ite _ fun _ => ih
      exact fun _ => Prog.emits_bind (hstore 1 pru (.inr rfl)) fun _ => ih
  have hpoll (pending : Word) (prus : List (Fin 2)) : (pollPrus pending prus).Emits Halting := by
    induction prus generalizing pending with
    | nil => exact Prog.emits_pure _
    | cons pru rest ih =>
      apply Prog.emits_ite _ fun _ => ih pending
      intro _
      apply Prog.emits_bind (hop (.load (control pru)) nofun)
      intro v
      apply Prog.emits_ite _ fun _ => ih pending
      exact fun _ => Prog.emits_bind (hstore 0 pru (.inl rfl)) fun _ => ih _
  have hround (begin : BitVec 64) (pending : Word) :
      (stopRound begin error cap pending).Emits Halting := by
    apply Prog.emits_ite (fun _ => Prog.emits_pure _)
    intro _
    apply Prog.emits_bind (hpoll _ _)
    intro pending
    apply Prog.emits_bind (hop .barrier nofun)
    intro _
    apply Prog.emits_ite (fun _ => Prog.emits_pure _)
    intro _
    apply Prog.emits_bind (hunmapped emits_monotonicNs)
    intro now
    apply Prog.emits_ite
    · exact fun _ => Prog.emits_bind (hunmapped (emits_failErrno _ _ _)) fun _ => Prog.emits_pure _
    · exact fun _ => Prog.emits_ite (fun _ => Prog.emits_pure _) fun _ => Prog.emits_pure _
  have hwait (begin : BitVec 64) (n : Nat) (pending : Word) :
      (stopWait begin error cap n pending).Emits Halting := by
    induction n generalizing pending with
    | zero =>
      apply Prog.emits_bind (hround _ _)
      rintro ⟨pending, - | result⟩ <;> exact Prog.emits_pure _
    | succ n ih =>
      apply Prog.emits_bind (hround _ _)
      rintro ⟨pending, - | result⟩
      · apply Prog.emits_bind (hop .nanosleep nofun)
        intro slept
        apply Prog.emits_ite _ fun _ => ih pending
        exact fun _ => Prog.emits_bind (hunmapped (emits_failErrno _ _ _))
          fun _ => Prog.emits_pure _
      · exact Prog.emits_pure _
  apply Prog.emits_bind (hunmapped emits_monotonicNs)
  intro begin
  apply Prog.emits_bind (hdisable _)
  intro _
  apply Prog.emits_bind (hop .barrier nofun)
  exact fun _ => hwait _ _ _

theorem wp_copyCode (words : List Nat) (hreset : InReset 0 h) :
    (Monitor.history (StartRule code bytes)).wp (copyCode code words) h fun h' _ =>
      InReset 0 h' := by
  induction words generalizing h with
  | nil => exact hreset
  | cons word rest ih =>
    have hiram : iram word ≠ control 0 := by
      intro heq
      have hoffset : pru0Iram + 4 * word = controlOffsets 0 := HwReg.pruss.inj heq
      have hlow : controlOffsets 0 < pru0Iram := by decide
      omega
    refine Monitor.history_op_bind fun _ => ⟨⟨fun _ _ _ _ => hreset, ?_⟩, ih (hreset.snoc ?_)⟩
    · intro v heq
      exact absurd (store_injective heq).2 hiram
    · intro w heq
      exact hiram (store_injective heq).2

/-- A verification that finds nothing has read back every word. -/
theorem wp_verifyCode (words : List Nat) (hreset : InReset 0 h) :
    (Monitor.history (StartRule code bytes)).wp (verifyCode code words) h fun h' bad =>
      InReset 0 h' ∧ (bad = none → h' = h ++ words.map fun word =>
        (⟨.load (iram word), code word⟩ : UEvent)) := by
  induction words generalizing h with
  | nil => exact ⟨hreset, fun _ => by simp⟩
  | cons word rest ih =>
    refine Monitor.history_op_bind fun v => ⟨startRule_of_not_store nofun, ?_⟩
    have hreset : InReset 0 (h ++ [⟨.load (iram word), v⟩]) := hreset.snoc nofun
    refine Monitor.wp_ite.mpr ⟨fun _ => ⟨hreset, nofun⟩, fun hequal => ?_⟩
    obtain rfl : v = code word := not_not.mp hequal
    refine Monitor.wp_mono (ih hreset) fun h' bad hbad => ⟨hbad.1, fun hnone => ?_⟩
    rw [hbad.2 hnone]
    simp

theorem wp_dldHwStart (hw : DldHw) (error : String) (cap : Nat) :
    (Monitor.history (StartRule code bytes)).wp (dldHwStart hw code bytes error cap) []
      fun _ _ => True := by
  refine Monitor.wp_ite.mpr ⟨fun _ => ?_, fun _ => ?_⟩
  · refine Monitor.wp_bind.mpr
      (wp_unmapped (emits_failErrno _ _ _) (fun _ _ => startRule_of_unmapped) ?_)
    exact fun _ _ _ => trivial
  -- the stop of PRU0, with what a success of it means
  have hstop : (stopPrus 1 error cap).All fun t r => r.1 = true → InReset 0 t := by
    refine Prog.all_iff.mpr fun t r hrun hok => ?_
    exact (Monitor.history_runs (wp_stopPrus 1 error cap) hrun).2.2 hok 0 (by decide)
  refine Monitor.wp_bind.mpr (Monitor.history_wp (emits_stopPrus_halting 1 error cap)
    (fun _ _ => startRule_of_halting) hstop ?_)
  rintro t ⟨stopped, error⟩ hreset
  refine Monitor.wp_ite.mpr ⟨fun _ => trivial, fun hstopped => ?_⟩
  have hreset : InReset 0 ([] ++ t) := hreset (by simpa using hstopped)
  refine Monitor.wp_bind.mpr (Monitor.wp_mono (wp_copyCode _ hreset) fun h _ hreset => ?_)
  refine Monitor.history_op_bind fun _ => ⟨startRule_of_not_store nofun, ?_⟩
  have hreset : InReset 0 (h ++ [⟨.barrier, ()⟩]) := hreset.snoc nofun
  refine Monitor.wp_bind.mpr (Monitor.wp_mono (wp_verifyCode _ hreset) ?_)
  rintro h' (- | word) ⟨hreset, hverified⟩
  · refine Monitor.history_op_bind fun _ => ⟨⟨fun _ _ _ _ => hreset, ?_⟩, ?_⟩
    · exact fun _ _ _ => ⟨hreset, _, hverified rfl⟩
    · exact Monitor.history_op_bind fun _ => ⟨startRule_of_not_store nofun, trivial⟩
  · trivial

end Start

/-! ### dld_hw_cleanup -/

/-- The banks of the list were attempted one after the other, whatever
became of the attempts before. -/
def Attempted : DldHw → List (Fin 3) → List UEvent → Prop
  | _, [], _ => True
  | hw, bank :: rest, t => ∃ error attempt result warning t',
      t = attempt ++ warning ++ t' ∧ (configureBank hw bank error 192).Runs attempt result ∧
        Attempted result.1 rest t'

theorem Attempted.append {hw : DldHw} {banks : List (Fin 3)} {t : List UEvent}
    (h : Attempted hw banks t) (t' : List UEvent) : Attempted hw banks (t ++ t') := by
  induction banks generalizing hw t with
  | nil => trivial
  | cons bank rest ih =>
    obtain ⟨error, attempt, result, warning, rest', rfl, hrun, hrest⟩ := h
    exact ⟨error, attempt, result, warning, rest' ++ t', by simp, hrun, ih hrest⟩

theorem cleanupBanks_attempted (hw : DldHw) (error : String) (banks : List (Fin 3)) :
    (cleanupBanks hw error banks).All fun t _ => Attempted hw banks t := by
  induction banks generalizing hw error with
  | nil => trivial
  | cons bank rest ih =>
    refine Prog.all_bind.mpr (Prog.all_iff.mpr fun attempt result hrun => ?_)
    refine Prog.all_ite.mpr ⟨fun _ => ?_, fun _ => ?_⟩
    · refine Prog.all_op_bind.mpr fun _ => Prog.all_mono (ih _ _) fun t _ ht => ?_
      exact ⟨error, attempt, result, [_], t, List.append_cons attempt _ t, hrun, ht⟩
    · refine Prog.all_mono (ih _ _) fun t _ ht => ?_
      exact ⟨error, attempt, result, [], t, by simp, hrun, ht⟩

/-- The peripherals are mapped, and then all three banks are attempted. -/
def BanksAttempted (hw : DldHw) (t : List UEvent) : Prop :=
  ∃ error pre mapping mapped tail, t = pre ++ mapping ++ tail ∧
    (⟨.store 0 (.command .magic), ()⟩ : UEvent) ∈ pre ∧
    (mapPeripherals hw error 192).Runs mapping mapped ∧
    (mapped.2.1 = true → Attempted mapped.1 (List.finRange 3) tail)

theorem cleanupOutputs_all (hw : DldHw) (error : String) :
    (cleanupOutputs hw error).All fun t _ => ∃ mapping mapped tail, t = mapping ++ tail ∧
      (mapPeripherals hw error 192).Runs mapping mapped ∧
      (mapped.2.1 = true → Attempted mapped.1 (List.finRange 3) tail) := by
  refine Prog.all_bind.mpr (Prog.all_iff.mpr fun mapping mapped hrun => ?_)
  refine Prog.all_ite.mpr ⟨fun hfailed => ?_, fun _ => ?_⟩
  · refine Prog.all_op_bind.mpr fun _ => ⟨mapping, mapped, _, rfl, hrun, fun hok => ?_⟩
    rw [hok] at hfailed
    cases hfailed
  · refine Prog.all_mono (cleanupBanks_attempted _ _ _) fun t _ ht => ?_
    exact ⟨mapping, mapped, t, rfl, hrun, fun _ => ht⟩

/-- The call structure around a cleanup, and what came before it. -/
theorem BanksAttempted.wrap {hw : DldHw} {t : List UEvent} (h : BanksAttempted hw t)
    (pre post : List UEvent) : BanksAttempted hw (pre ++ (t ++ post)) := by
  obtain ⟨error, before, mapping, mapped, tail, rfl, hmagic, hrun, hattempted⟩ := h
  refine ⟨error, pre ++ before, mapping, mapped, tail ++ post, by simp, ?_, hrun, fun hok => ?_⟩
  · exact List.mem_append_right _ hmagic
  · exact (hattempted hok).append post

theorem cleanupStopped_all (hw : DldHw) (stopped : Bool) (error : String) :
    (cleanupStopped hw stopped error).All fun t _ => BanksAttempted hw t := by
  have hrest : (do
      store 0 (.command .magic)
      memoryBarrier
      disableNotifications
      cleanupOutputs hw error : UProg DldHw).All fun t _ => BanksAttempted hw t := by
    refine Prog.all_op_bind.mpr fun _ => Prog.all_op_bind.mpr fun _ => ?_
    refine Prog.all_bind.mpr (Prog.all_iff.mpr fun notifications _ _ => ?_)
    refine Prog.all_mono (cleanupOutputs_all hw error) ?_
    rintro t hw' ⟨mapping, mapped, tail, rfl, hrun, hattempted⟩
    exact ⟨error, ⟨.store 0 (.command .magic), ()⟩ :: ⟨.barrier, ()⟩ :: notifications,
      mapping, mapped, tail, by simp, .head _, hrun, hattempted⟩
  refine Prog.all_ite.mpr ⟨fun _ => ?_, fun _ => hrest⟩
  refine Prog.all_op_bind.mpr fun _ => Prog.all_mono hrest fun t _ ht => ?_
  have hwrapped (e : UEvent) : BanksAttempted hw (e :: t) := by
    have hwrap := ht.wrap [e] []
    rw [List.append_nil] at hwrap
    exact hwrap
  exact hwrapped _

/-- A cleanup of a mapped PRUSS. -/
theorem dldHwCleanup_all (hw : DldHw) (hmap : hw.prussMap ≠ none) :
    (dldHwCleanup hw).All fun t _ => BanksAttempted hw t := by
  have hbody : (hwCleanup hw).All fun t _ => BanksAttempted hw t := by
    rw [hwCleanup, if_neg hmap]
    refine Prog.all_bind.mpr (Prog.all_iff.mpr fun stop r _ => ?_)
    refine Prog.all_mono (cleanupStopped_all hw r.1 r.2) fun t _ ht => ?_
    have hwrapped := ht.wrap stop []
    rw [List.append_nil] at hwrapped
    exact hwrapped
  refine Prog.all_op_bind.mpr fun _ => Prog.all_bind.mpr (Prog.all_mono hbody fun t _ ht => ?_)
  exact Prog.all_op_bind.mpr fun _ => ht.wrap [_] [_]

/-! ### The stop and the outputs -/

/-- **Fail low and stop.**  Whatever the registers and the clock answer:
`stop_prus` disables every selected core before it reads a status, resets a
core only right after it was read stopped, succeeds only with every selected
core in reset, and takes at most 101 polls with 100 pauses between them;
`configure_bank` obeys `BankRule`, clears at most eight times, and succeeds
only with `LowOutputs`; a cleanup of a mapped PRUSS invalidates the mailbox
and, its peripherals mapped, attempts all three banks; `dld_hw_start` obeys
`StartRule`. -/
theorem failLow_and_stop :
    (∀ (mask : Word) (error : String) (cap : Nat) (t : List UEvent) (r : Bool × String),
      (stopPrus mask error cap).Runs t r →
      AllDisabled mask t ∧ (∀ pre e post, t = pre ++ e :: post → StopRule mask pre e) ∧
      (r.1 = true → ∀ pru, selected mask pru = true → InReset pru t) ∧
      (∀ pru, t.countP (isPoll pru) ≤ 101) ∧ t.countP isNanosleep ≤ 100) ∧
    (∀ (hw : DldHw) (bank : Fin 3) (error : String) (cap : Nat) (t : List UEvent)
        (r : DldHw × Bool × String), (configureBank hw bank error cap).Runs t r →
      (∀ pre e post, t = pre ++ e :: post → BankRule bank pre e) ∧
      (r.2.1 = true → LowOutputs bank t) ∧ t.countP (isClear bank) ≤ 8) ∧
    (∀ (hw : DldHw) (t : List UEvent) (hw' : DldHw), (dldHwCleanup hw).Runs t hw' →
      hw.prussMap ≠ none → BanksAttempted hw t) ∧
    ∀ (hw : DldHw) (code : Nat → Word) (bytes : Nat) (error : String) (cap : Nat)
        (t : List UEvent) (r : Bool × String), (dldHwStart hw code bytes error cap).Runs t r →
      ∀ pre e post, t = pre ++ e :: post → StartRule code bytes pre e := by
  refine ⟨?_, ?_, ?_, ?_⟩
  · intro mask error cap t r hrun
    obtain ⟨hrule, hdisabled, hreset⟩ := Monitor.history_runs (wp_stopPrus mask error cap) hrun
    refine ⟨hdisabled, hrule, hreset, fun pru => ?_, ?_⟩
    · exact Prog.all_iff.mp (stopPrus_polls mask error cap pru) t r hrun
    · exact Prog.all_iff.mp (stopPrus_pauses mask error cap) t r hrun
  · intro hw bank error cap t r hrun
    obtain ⟨hrule, hlow⟩ := Monitor.history_runs (lowOutputs_configureBank (h := []) hw error cap) hrun
    exact ⟨hrule, hlow, Prog.all_iff.mp (configureBank_clears hw bank error cap) t r hrun⟩
  · exact fun hw t hw' hrun hmap => Prog.all_iff.mp (dldHwCleanup_all hw hmap) t hw' hrun
  · intro hw code bytes error cap t r hrun
    exact (Monitor.history_runs (wp_dldHwStart hw error cap) hrun).1

/-- A board on which the cores stop at once and every bank is set up. -/
theorem failLow_and_stop_board :
    (∃ t text, (stopPrus 3 "" 192).Runs t (true, text) ∧ InReset 0 t ∧ InReset 1 t) ∧
    (∃ t r, (configureBank { memFd := some 3 } 0 "" 192).Runs t r ∧ LowOutputs 0 t) ∧
    (∃ t hw', (dldHwCleanup { prussMap := some 3 }).Runs t hw' ∧
      BanksAttempted { prussMap := some 3 } t) ∧
    ∃ t text, (dldHwStart { controlTaken := true } (fun _ => 0) 4 "" 192).Runs t (true, text) ∧
      ∀ pre e post, t = pre ++ e :: post → StartRule (fun _ => 0) 4 pre e := by
  -- every program here comes to an end on the board
  have hrun {α : Type} (p : UProg α) (ok : α → Bool)
      (hok : ((p.tryExec workingBoard (fun _ => 0, 3)).map fun r => ok r.2) = some true) :
      ∃ t a, p.Runs t a ∧ ok a = true := by
    obtain ⟨⟨t, a⟩, hr, ha⟩ := Option.map_eq_some_iff.mp hok
    exact ⟨t, a, Prog.tryExec_runs hr, ha⟩
  refine ⟨?_, ?_, ?_, ?_⟩
  · obtain ⟨t, ⟨ok, text⟩, ht, hok⟩ := hrun (stopPrus 3 "" 192) Prod.fst (by decide +kernel)
    obtain rfl : ok = true := hok
    have hreset := (failLow_and_stop.1 _ _ _ _ _ ht).2.2.1 rfl
    exact ⟨t, text, ht, hreset 0 (by decide), hreset 1 (by decide)⟩
  · obtain ⟨t, r, ht, hok⟩ := hrun (configureBank { memFd := some 3 } 0 "" 192) (·.2.1)
      (by decide +kernel)
    exact ⟨t, r, ht, (failLow_and_stop.2.1 _ _ _ _ _ _ ht).2.1 hok⟩
  · obtain ⟨t, hw', ht, -⟩ := hrun (dldHwCleanup { prussMap := some 3 }) (fun _ => true)
      (by decide +kernel)
    exact ⟨t, hw', ht, failLow_and_stop.2.2.1 _ _ _ ht nofun⟩
  · obtain ⟨t, ⟨ok, text⟩, ht, hok⟩ :=
      hrun (dldHwStart { controlTaken := true } (fun _ => 0) 4 "" 192) Prod.fst (by decide +kernel)
    obtain rfl : ok = true := hok
    exact ⟨t, text, ht, failLow_and_stop.2.2.2 _ _ _ _ _ _ _ ht⟩

end Dld
