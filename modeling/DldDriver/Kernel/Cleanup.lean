/-
DldDriver/Kernel/Cleanup.lean

What `failed_frame_cleanup` did, read off its trace.  The accesses of a run
are sorted by what they touch:

    coreAccesses c t    the control register of core c
    gpioAccesses b t    the registers of GPIO bank b

Each list has one of a few shapes, whatever the registers answer, and the
three cleanup masks of the request say which.
-/
import DldDriver.Kernel.Restore

namespace Dld

open Interaction

/-! ### The accesses -/

/-- The accesses to the control register of a core. -/
def coreAccesses (core : Fin 2) (t : List KEvent) : List KEvent :=
  t.filter fun e => match e.1 with
    | .readl r | .writel _ r => decide (r = coreControl core)
    | _ => false

/-- The accesses to the registers of a GPIO bank. -/
def gpioAccesses (bank : Fin 3) (t : List KEvent) : List KEvent :=
  t.filter fun e => match e.1 with
    | .readl (.gpio b _) | .writel _ (.gpio b _) => decide (b = bank)
    | _ => false

def readCore (core : Fin 2) (v : Word) : KEvent := ⟨.readl (coreControl core), v⟩

def writeCore (core : Fin 2) (v : Word) : KEvent := ⟨.writel v (coreControl core), ()⟩

/-- RUNSTATE -/
abbrev runState : Word := bitAt 15

/-- One clear attempt and the readback. -/
def clearAttempt (bank : Fin 3) (data : Word) : List KEvent :=
  [⟨.writel (gpioMasks bank) (.gpio bank 0x190), ()⟩, ⟨.readl (.gpio bank 0x13c), data⟩]

@[simp] theorem coreAccesses_append (core : Fin 2) (t t' : List KEvent) :
    coreAccesses core (t ++ t') = coreAccesses core t ++ coreAccesses core t' :=
  List.filter_append ..

@[simp] theorem gpioAccesses_append (bank : Fin 3) (t t' : List KEvent) :
    gpioAccesses bank (t ++ t') = gpioAccesses bank t ++ gpioAccesses bank t' :=
  List.filter_append ..

theorem coreControl_injective {c c' : Fin 2} (h : coreControl c = coreControl c') : c = c' := by
  have hoffset : c.val * 0x2000 = c'.val * 0x2000 := Reg.pruControl.inj h
  exact Fin.ext (by omega)

/-- The reads of a bank's clock. -/
def clockReads (bank : Fin 3) (t : List KEvent) : List Word :=
  t.filterMap fun
    | ⟨.readl (.clocks c), v⟩ => if c = gpioClocks bank then some v else none
    | _ => none

@[simp] theorem clockReads_append (bank : Fin 3) (t t' : List KEvent) :
    clockReads bank (t ++ t') = clockReads bank t ++ clockReads bank t' :=
  List.filterMap_append ..

@[simp] theorem clockReads_pruss (bank : Fin 3) (clock : Word) :
    clockReads bank [⟨.readl (.clocks prussClock), clock⟩] = [] := by
  have hne : prussClock ≠ gpioClocks bank := by
    revert bank
    decide
  simp [clockReads, hne]

theorem gpioClocks_injective {b b' : Fin 3} (h : gpioClocks b = gpioClocks b') : b = b' := by
  revert b b'
  decide

/-- Everything but the GPIO banks. -/
def gpioless : Access where
  reads := (Reg.isGpio · = false)
  writes := (Reg.isGpio · = false)
  masks := True
  calls := fun _ => True

theorem gpioAccesses_of_gpioless {t : List KEvent} (ht : ∀ e ∈ t, gpioless.allows e)
    (bank : Fin 3) : gpioAccesses bank t = [] := by
  refine List.filter_eq_nil_iff.mpr ?_
  rintro ⟨op, v⟩ he
  have hallowed := ht _ he
  cases op with
  | readl r =>
    have hother : r.isGpio = false := hallowed
    cases r with
    | gpio b o => cases hother
    | _ => exact Bool.false_ne_true
  | writel w r =>
    have hother : r.isGpio = false := hallowed
    cases r with
    | gpio b o => cases hother
    | _ => exact Bool.false_ne_true
  | _ => exact Bool.false_ne_true

/-! ### The cores -/

/-- Up to `n` polls of a core: it ran at each of them, or it was found
stopped at the last one and reset at once. -/
def Polled (core : Fin 2) (n : Nat) (t : List KEvent) (stopped : Bool) : Prop :=
  ∃ polls : List Word, (∀ v ∈ polls, v &&& runState ≠ 0) ∧
    match stopped with
    | false => polls.length ≤ n ∧ t = polls.map (readCore core)
    | true => polls.length < n ∧ ∃ v, v &&& runState = 0 ∧
        t = polls.map (readCore core) ++ [readCore core v, writeCore core 0]

theorem polled_nil (core : Fin 2) (n : Nat) : Polled core n [] false :=
  ⟨[], by simp, Nat.zero_le n, rfl⟩

/-- Polls of a core that kept running, and more polls after them. -/
theorem Polled.append {core : Fin 2} {m n : Nat} {t t' : List KEvent} {stopped : Bool}
    (h : Polled core m t false) (h' : Polled core n t' stopped) :
    Polled core (m + n) (t ++ t') stopped := by
  obtain ⟨polls, hpolls, hlen, rfl⟩ := h
  obtain ⟨polls', hpolls', hshape⟩ := h'
  have hall : ∀ v ∈ polls ++ polls', v &&& runState ≠ 0 := by
    intro v hv
    exact (List.mem_append.mp hv).elim (hpolls v) (hpolls' v)
  refine ⟨polls ++ polls', hall, ?_⟩
  cases stopped with
  | false =>
    obtain ⟨hlen', rfl⟩ := hshape
    refine ⟨?_, by rw [List.map_append]⟩
    rw [List.length_append]
    omega
  | true =>
    obtain ⟨hlen', v, hv, rfl⟩ := hshape
    refine ⟨?_, v, hv, by rw [List.map_append, List.append_assoc]⟩
    rw [List.length_append]
    omega

theorem Polled.mono {core : Fin 2} {m n : Nat} {t : List KEvent} {stopped : Bool}
    (h : Polled core m t stopped) (hmn : m ≤ n) : Polled core n t stopped := by
  obtain ⟨polls, hpolls, hshape⟩ := h
  refine ⟨polls, hpolls, ?_⟩
  cases stopped with
  | false => exact ⟨hshape.1.trans hmn, hshape.2⟩
  | true => exact ⟨hshape.1.trans_le hmn, hshape.2⟩

theorem polled_running {core : Fin 2} {v : Word} (hv : v &&& runState ≠ 0) :
    Polled core 1 [readCore core v] false :=
  ⟨[v], by simpa using hv, le_refl 1, rfl⟩

theorem polled_stopped {core : Fin 2} {v : Word} (hv : v &&& runState = 0) :
    Polled core 1 [readCore core v, writeCore core 0] true :=
  ⟨[], by simp, Nat.one_pos, v, hv, rfl⟩

/-- What up to `n` polls of the pending cores leave: the cores still pending,
and the mask of the stopped ones. -/
structure StopSeen (n : Nat) (request : DldQuietSend) (pending : Word) (t : List KEvent)
    (a : DldQuietSend × Word) : Prop where
  cores : ∀ core : Fin 2, pending.getLsbD core.val = true →
    Polled core n (coreAccesses core t) (!a.2.getLsbD core.val)
  done : ∀ core : Fin 2, pending.getLsbD core.val = false → coreAccesses core t = []
  clocks : ∀ bank, clockReads bank t = []
  still : ∀ k, a.2.getLsbD k = true → pending.getLsbD k = true
  mask : ∃ stopped, a.1 = { request with cleanupStoppedMask := stopped } ∧
    ∀ k, stopped.getLsbD k = (request.cleanupStoppedMask.getLsbD k ||
      (pending.getLsbD k && !a.2.getLsbD k))

theorem StopSeen.refl (n : Nat) (request : DldQuietSend) (pending : Word) {t : List KEvent}
    (ht : ∀ core, coreAccesses core t = []) (hclocks : ∀ bank, clockReads bank t = []) :
    StopSeen n request pending t (request, pending) where
  cores core hpending := by
    rw [ht core, hpending]
    exact polled_nil core n
  done core _ := ht core
  clocks := hclocks
  still _ hk := hk
  mask := ⟨request.cleanupStoppedMask, rfl, fun k => by cases pending.getLsbD k <;> simp⟩

/-- Polls and more polls. -/
theorem StopSeen.trans {m n : Nat} {request : DldQuietSend} {pending : Word} {t t' : List KEvent}
    {a b : DldQuietSend × Word} (h : StopSeen m request pending t a)
    (h' : StopSeen n a.1 a.2 t' b) : StopSeen (m + n) request pending (t ++ t') b := by
  refine ⟨fun core hpending => ?_, fun core hdone => ?_, fun bank => ?_,
    fun k hk => h.still k (h'.still k hk), ?_⟩
  · have hfirst := h.cores core hpending
    rw [coreAccesses_append]
    cases hstill : a.2.getLsbD core.val with
    | false =>
      -- reset by the first polls: the others leave it alone
      have hlast : b.2.getLsbD core.val = false := by
        by_contra hb
        rw [Bool.not_eq_false] at hb
        rw [h'.still _ hb] at hstill
        cases hstill
      rw [h'.done core hstill, List.append_nil, hlast]
      rw [hstill] at hfirst
      exact hfirst.mono (Nat.le_add_right m n)
    | true =>
      rw [hstill] at hfirst
      exact hfirst.append (h'.cores core hstill)
  · have hstill : a.2.getLsbD core.val = false := by
      by_contra ha
      rw [Bool.not_eq_false] at ha
      rw [h.still _ ha] at hdone
      cases hdone
    rw [coreAccesses_append, h.done core hdone, h'.done core hstill]
    rfl
  · rw [clockReads_append, h.clocks, h'.clocks]
    rfl
  · obtain ⟨stopped, hrequest, hstopped⟩ := h.mask
    obtain ⟨stopped', hrequest', hstopped'⟩ := h'.mask
    refine ⟨stopped', by rw [hrequest', hrequest], fun k => ?_⟩
    rw [hstopped', hrequest, hstopped]
    have hmono := h.still k
    have hmono' := h'.still k
    revert hmono hmono'
    cases request.cleanupStoppedMask.getLsbD k <;> cases pending.getLsbD k <;>
      cases a.2.getLsbD k <;> cases b.2.getLsbD k <;> simp

section Stop

variable {request : DldQuietSend} {pending : Word}

theorem coreAccesses_self {core : Fin 2} {e : KEvent} (u : List KEvent)
    (he : (∃ v, e = readCore core v) ∨ e = writeCore core 0) :
    coreAccesses core (e :: u) = e :: coreAccesses core u := by
  rcases he with ⟨v, rfl⟩ | rfl <;> simp [coreAccesses, readCore, writeCore]

theorem coreAccesses_other {core other : Fin 2} (h : other ≠ core) {e : KEvent} (u : List KEvent)
    (he : (∃ v, e = readCore core v) ∨ e = writeCore core 0) :
    coreAccesses other (e :: u) = coreAccesses other u := by
  have hne : coreControl core ≠ coreControl other := fun heq => h (coreControl_injective heq).symm
  rcases he with ⟨v, rfl⟩ | rfl
  · simp [coreAccesses, readCore, hne]
  · simp [coreAccesses, writeCore, hne]

/-- One poll of each pending core of the list. -/
theorem pollCores_all {cores : List (Fin 2)} (hnodup : cores.Nodup) :
    (pollCores request pending cores).All fun t a => StopSeen 1 request pending t a ∧
      ∀ core, core ∉ cores →
        coreAccesses core t = [] ∧ a.2.getLsbD core.val = pending.getLsbD core.val := by
  induction cores generalizing request pending with
  | nil => exact ⟨StopSeen.refl 1 request pending (fun _ => rfl) fun _ => rfl, fun _ _ => ⟨rfl, rfl⟩⟩
  | cons core rest ih =>
    obtain ⟨hcore, hrest⟩ := List.nodup_cons.mp hnodup
    refine Prog.all_ite.mpr ⟨fun _ => ?_, fun hpending => Prog.all_op_bind.mpr fun v => ?_⟩
    · refine Prog.all_mono (ih hrest) fun t a ⟨hseen, hother⟩ => ⟨hseen, fun c hc => ?_⟩
      exact hother c fun hmem => hc (List.mem_cons_of_mem _ hmem)
    have hbit : pending.getLsbD core.val = true := by
      by_contra h
      exact hpending (and_bitAt_eq_zero_iff.mpr (by simpa using h))
    refine Prog.all_ite.mpr ⟨fun hstopped => Prog.all_op_bind.mpr fun _ => ?_, fun hrunning => ?_⟩
    · -- stopped: reset it, and the rest without it
      have hclear (k : Nat) : (pending &&& ~~~ coreBit core).getLsbD k =
          (pending.getLsbD k && !decide (core.val = k)) := by
        rw [BitVec.getLsbD_and, BitVec.getLsbD_not, coreBit, getLsbD_bitAt]
        by_cases hk : k < 32
        · simp [hk, show core.val < 32 by omega]
        · simp [BitVec.getLsbD_of_ge pending k (not_lt.mp hk)]
      refine Prog.all_mono (ih hrest) fun t a ⟨hseen, hother⟩ => ?_
      have hout : (pending &&& ~~~ coreBit core).getLsbD core.val = false := by simp [hclear]
      have hstill : a.2.getLsbD core.val = false := by
        by_contra h
        rw [Bool.not_eq_false] at h
        rw [hseen.still _ h] at hout
        cases hout
      have hhead : coreAccesses core (readCore core v :: writeCore core 0 :: t) =
          [readCore core v, writeCore core 0] := by
        rw [coreAccesses_self _ (.inl ⟨v, rfl⟩), coreAccesses_self _ (.inr rfl),
          hseen.done core hout]
      have htail (c : Fin 2) (hc : c ≠ core) :
          coreAccesses c (readCore core v :: writeCore core 0 :: t) = coreAccesses c t := by
        rw [coreAccesses_other hc _ (.inl ⟨v, rfl⟩), coreAccesses_other hc _ (.inr rfl)]
      have hkeep (c : Fin 2) (hc : c ≠ core) :
          (pending &&& ~~~ coreBit core).getLsbD c.val = pending.getLsbD c.val := by
        have hval : core.val ≠ c.val := fun h => hc (Fin.ext h.symm)
        simp [hclear, hval]
      refine ⟨⟨fun c hc => ?_, fun c hc => ?_, hseen.clocks, fun k hk => ?_, ?_⟩, fun c hc => ?_⟩
      · by_cases hcore' : c = core
        · subst hcore'
          show Polled c 1 (coreAccesses c (readCore c v :: writeCore c 0 :: t)) _
          rw [hhead, hstill]
          exact polled_stopped hstopped
        · show Polled c 1 (coreAccesses c (readCore core v :: writeCore core 0 :: t)) _
          rw [htail c hcore']
          exact hseen.cores c (by rw [hkeep c hcore', hc])
      · have hcore' : c ≠ core := by
          rintro rfl
          rw [hbit] at hc
          cases hc
        show coreAccesses c (readCore core v :: writeCore core 0 :: t) = []
        rw [htail c hcore']
        exact hseen.done c (by rw [hkeep c hcore', hc])
      · have hk' := hseen.still k hk
        rw [hclear] at hk'
        exact (Bool.and_eq_true_iff.mp hk').1
      · obtain ⟨stopped, hrequest, hstoppeds⟩ := hseen.mask
        refine ⟨stopped, hrequest, fun k => ?_⟩
        rw [hstoppeds, hclear]
        show ((request.cleanupStoppedMask ||| coreBit core).getLsbD k || _) = _
        rw [BitVec.getLsbD_or, coreBit, getLsbD_bitAt]
        by_cases hk : core.val = k
        · subst hk
          have hlt : core.val < 32 := by omega
          rw [hbit, hstill]
          simp [hlt]
        · simp [hk]
      · have hne : c ≠ core := fun h => hc (h ▸ List.mem_cons_self)
        obtain ⟨hnone, hsame⟩ := hother c fun h => hc (List.mem_cons_of_mem _ h)
        show coreAccesses c (readCore core v :: writeCore core 0 :: t) = [] ∧ _
        rw [htail c hne]
        exact ⟨hnone, hsame.trans (hkeep c hne)⟩
    · -- running: it stays pending
      refine Prog.all_mono (ih hrest) fun t a ⟨hseen, hother⟩ => ?_
      obtain ⟨hnone, hsame⟩ := hother core hcore
      have htail (c : Fin 2) (hc : c ≠ core) :
          coreAccesses c (readCore core v :: t) = coreAccesses c t :=
        coreAccesses_other hc _ (.inl ⟨v, rfl⟩)
      refine ⟨⟨fun c hc => ?_, fun c hc => ?_, hseen.clocks, hseen.still, hseen.mask⟩, fun c hc => ?_⟩
      · by_cases hcore' : c = core
        · subst hcore'
          show Polled c 1 (coreAccesses c (readCore c v :: t)) _
          rw [coreAccesses_self _ (.inl ⟨v, rfl⟩), hnone, hsame, hc]
          exact polled_running hrunning
        · show Polled c 1 (coreAccesses c (readCore core v :: t)) _
          rw [htail c hcore']
          exact hseen.cores c hc
      · have hcore' : c ≠ core := by
          rintro rfl
          rw [hbit] at hc
          cases hc
        show coreAccesses c (readCore core v :: t) = []
        rw [htail c hcore']
        exact hseen.done c hc
      · have hne : c ≠ core := fun h => hc (h ▸ List.mem_cons_self)
        show coreAccesses c (readCore core v :: t) = [] ∧ _
        rw [htail c hne]
        exact hother c fun h => hc (List.mem_cons_of_mem _ h)

theorem StopSeen.congr {n : Nat} {t t' : List KEvent} {a : DldQuietSend × Word}
    (h : StopSeen n request pending t a) (ht : ∀ core, coreAccesses core t' = coreAccesses core t)
    (hclocks : ∀ bank, clockReads bank t' = clockReads bank t) :
    StopSeen n request pending t' a where
  cores core hpending := (ht core).symm ▸ h.cores core hpending
  done core hdone := (ht core).trans (h.done core hdone)
  clocks bank := (hclocks bank).trans (h.clocks bank)
  still := h.still
  mask := h.mask

/-- The stop loop: at most `n` polls of each core. -/
theorem stopLoop_all (deadline : Int) (n : Nat) :
    (stopLoop deadline n request pending).All (StopSeen n request pending) := by
  induction n generalizing request pending with
  | zero => exact StopSeen.refl 0 request pending (fun _ => rfl) fun _ => rfl
  | succ n ih =>
    refine Prog.all_ite.mpr ⟨fun _ => StopSeen.refl _ request pending (fun _ => rfl) fun _ => rfl, fun _ => ?_⟩
    refine Prog.all_op_bind.mpr fun now => Prog.all_ite.mpr
      ⟨fun _ => StopSeen.refl _ request pending (fun _ => rfl) fun _ => rfl, fun _ => Prog.all_bind.mpr ?_⟩
    refine Prog.all_op_bind.mpr fun _ => Prog.all_op_bind.mpr fun flags =>
      Prog.all_op_bind.mpr fun _ => (Prog.all_pure flags).mpr ?_
    refine Prog.all_bind.mpr (Prog.all_op_bind.mpr fun clock => ?_)
    refine Prog.all_ite.mpr ⟨fun _ _ _ => StopSeen.refl _ request pending (fun _ => rfl) fun bank =>
      clockReads_pruss bank clock, fun _ => ?_⟩
    refine Prog.all_bind.mpr (Prog.all_mono (pollCores_all (List.nodup_finRange 2)) ?_)
    rintro t ⟨r, still⟩ ⟨hseen, -⟩
    refine fun _ => Prog.all_bind.mpr fun _ _ => Prog.all_ite.mpr ⟨fun _ => ?_, fun _ => ?_⟩
    · refine fun _ => Prog.all_mono ih fun t' b hrest => ?_
      rw [Nat.add_comm]
      refine (hseen.trans hrest).congr (fun core => ?_) fun bank => ?_
      · show coreAccesses core (t ++ _) = _
        rw [coreAccesses_append, coreAccesses_append]
        rfl
      · show clockReads bank ([⟨.readl (.clocks prussClock), clock⟩] ++ (t ++ _)) = _
        rw [clockReads_append, clockReads_append, clockReads_append, clockReads_pruss]
        rfl
    · refine Prog.all_mono ih fun t' b hrest => ?_
      rw [Nat.add_comm]
      refine (hseen.trans hrest).congr (fun core => ?_) fun bank => ?_
      · show coreAccesses core (t ++ _) = _
        rw [coreAccesses_append, coreAccesses_append]
        rfl
      · show clockReads bank ([⟨.readl (.clocks prussClock), clock⟩] ++ (t ++ _)) = _
        rw [clockReads_append, clockReads_append, clockReads_append, clockReads_pruss]
        rfl

end Stop

/-! ### The banks -/

/-- The last attempt found the LED bits low. -/
def LowAtLast (bank : Fin 3) (data : List Word) : Prop :=
  ∃ v, data.getLast? = some v ∧ v &&& gpioMasks bank = 0

/-- A bank: its clock is read once; a functional one is cleared up to eight
times; it is low if the last readback is. -/
def BankCleared (bank : Fin 3) (t : List KEvent) (low : Bool) : Prop :=
  ∃ (clock : Word) (data : List Word), clockReads bank t = [clock] ∧
    gpioAccesses bank t = data.flatMap (clearAttempt bank) ∧ data.length ≤ 8 ∧
    (data ≠ [] ↔ Functional clock) ∧ (low = true ↔ LowAtLast bank data)

theorem clearLoop_all (bank : Fin 3) (n : Nat) :
    (clearLoop bank n).All fun t low => ∃ data : List Word,
      gpioAccesses bank t = data.flatMap (clearAttempt bank) ∧ data.length ≤ n ∧
      (n ≠ 0 → data ≠ []) ∧ (low = true ↔ LowAtLast bank data) ∧
      (∀ other, other ≠ bank → gpioAccesses other t = []) ∧ (∀ other, clockReads other t = []) ∧
      ∀ core, coreAccesses core t = [] := by
  induction n with
  | zero =>
    refine ⟨[], rfl, le_refl 0, fun h => absurd rfl h, ?_, fun _ _ => rfl, fun _ => rfl, fun _ => rfl⟩
    simp [LowAtLast]
  | succ n ih =>
    have hother (other : Fin 3) (hne : other ≠ bank) (v : Word) (u : List KEvent) :
        gpioAccesses other (⟨.writel (gpioMasks bank) (.gpio bank 0x190), ()⟩ :: ⟨.barrier, ()⟩ ::
          ⟨.readl (.gpio bank 0x13c), v⟩ :: u) = gpioAccesses other u := by
      simp [gpioAccesses, hne.symm]
    have hself (v : Word) (u : List KEvent) :
        gpioAccesses bank (⟨.writel (gpioMasks bank) (.gpio bank 0x190), ()⟩ :: ⟨.barrier, ()⟩ ::
          ⟨.readl (.gpio bank 0x13c), v⟩ :: u) = clearAttempt bank v ++ gpioAccesses bank u := by
      simp [gpioAccesses, clearAttempt]
    refine Prog.all_op_bind.mpr fun _ => Prog.all_op_bind.mpr fun _ => ?_
    refine Prog.all_op_bind.mpr fun v => Prog.all_ite.mpr ⟨fun hlow => ?_, fun hhigh => ?_⟩
    · refine ⟨[v], hself v [], Nat.succ_le_succ (Nat.zero_le n), fun _ => List.cons_ne_nil _ _, ?_,
        fun other hne => hother other hne v [], fun _ => rfl, fun _ => rfl⟩
      exact ⟨fun _ => ⟨v, rfl, hlow⟩, fun _ => rfl⟩
    · refine Prog.all_mono ih ?_
      rintro t low ⟨data, hdata, hlen, hne, hlow, hothers, hclocks, hcores⟩
      refine ⟨v :: data, ?_, Nat.succ_le_succ hlen, fun _ => List.cons_ne_nil _ _, ?_, ?_, hclocks,
        hcores⟩
      · rw [hself, hdata]
        rfl
      · rw [hlow]
        cases data with
        | nil =>
          -- no attempt is left: the last readback was not low
          constructor
          · rintro ⟨w, hw, -⟩
            cases hw
          · rintro ⟨w, hw, hzero⟩
            cases hw
            exact absurd hzero hhigh
        | cons w ws => simp [LowAtLast, List.getLast?_cons_cons]
      · intro other hne'
        rw [hother other hne' v t]
        exact hothers other hne'

/-- The banks of a list, each attempted whatever the others do. -/
structure BanksSeen (request : DldQuietSend) (banks : List (Fin 3)) (low : Fin 3 → Bool)
    (t : List KEvent) (r : DldQuietSend) : Prop where
  cleared : ∀ bank ∈ banks, BankCleared bank t (low bank)
  others : ∀ bank, bank ∉ banks → gpioAccesses bank t = [] ∧ clockReads bank t = []
  cores : ∀ core, coreAccesses core t = []
  stoppedMask : r.cleanupStoppedMask = request.cleanupStoppedMask
  failedMask : ∀ k, r.cleanupFailedMask.getLsbD k = true ↔
    request.cleanupFailedMask.getLsbD k = true ∨ ∃ bank ∈ banks, bank.val + 1 = k ∧ low bank = false
  lowMask : ∀ k, r.cleanupLowMask.getLsbD k = true ↔
    request.cleanupLowMask.getLsbD k = true ∨ ∃ bank ∈ banks, bank.val = k ∧ low bank = true

/-- What one bank leaves behind. -/
structure BankSeen₁ (request : DldQuietSend) (bank : Fin 3) (low : Bool) (t : List KEvent)
    (r : DldQuietSend) : Prop where
  cleared : BankCleared bank t low
  others : ∀ other, other ≠ bank → gpioAccesses other t = [] ∧ clockReads other t = []
  cores : ∀ core, coreAccesses core t = []
  stoppedMask : r.cleanupStoppedMask = request.cleanupStoppedMask
  failedMask : ∀ k, r.cleanupFailedMask.getLsbD k = true ↔
    request.cleanupFailedMask.getLsbD k = true ∨ (bank.val + 1 = k ∧ low = false)
  lowMask : ∀ k, r.cleanupLowMask.getLsbD k = true ↔
    request.cleanupLowMask.getLsbD k = true ∨ (bank.val = k ∧ low = true)

theorem BankCleared.append_left {bank : Fin 3} {t t' : List KEvent} {low : Bool}
    (h : BankCleared bank t low) (hgpio : gpioAccesses bank t' = [])
    (hclocks : clockReads bank t' = []) : BankCleared bank (t' ++ t) low := by
  obtain ⟨clock, data, hclock, hdata, hrest⟩ := h
  refine ⟨clock, data, ?_, ?_, hrest⟩
  · rw [clockReads_append, hclock, hclocks]
    rfl
  · rw [gpioAccesses_append, hdata, hgpio]
    rfl

theorem BankCleared.append_right {bank : Fin 3} {t t' : List KEvent} {low : Bool}
    (h : BankCleared bank t low) (hgpio : gpioAccesses bank t' = [])
    (hclocks : clockReads bank t' = []) : BankCleared bank (t ++ t') low := by
  obtain ⟨clock, data, hclock, hdata, hrest⟩ := h
  refine ⟨clock, data, ?_, ?_, hrest⟩
  · rw [clockReads_append, hclock, hclocks]
    rfl
  · rw [gpioAccesses_append, hdata, hgpio, List.append_nil]

/-- One bank in front of the rest. -/
theorem BanksSeen.cons {request r₀ r : DldQuietSend} {bank : Fin 3} {rest : List (Fin 3)}
    {t : List KEvent} {low : Fin 3 → Bool} (ok : Bool) (t₀ : List KEvent) (hbank : bank ∉ rest)
    (h₀ : BankSeen₁ request bank ok t₀ r₀) (h : BanksSeen r₀ rest low t r) :
    BanksSeen request (bank :: rest) (Function.update low bank ok) (t₀ ++ t) r := by
  have hsame (other : Fin 3) (hmem : other ∈ rest) : Function.update low bank ok other = low other := by
    refine Function.update_of_ne ?_ _ _
    rintro rfl
    exact hbank hmem
  have hcong (P : Fin 3 → Bool → Prop) : (∃ b ∈ rest, P b (low b)) ↔
      ∃ b ∈ rest, P b (Function.update low bank ok b) := by
    refine exists_congr fun b => and_congr_right fun hmem => ?_
    rw [hsame b hmem]
  refine ⟨fun other hmem => ?_, fun other hmem => ?_, fun core => ?_,
    h.stoppedMask.trans h₀.stoppedMask, fun k => ?_, fun k => ?_⟩
  · rcases List.mem_cons.mp hmem with rfl | hrest
    · obtain ⟨hgpio, hclocks⟩ := h.others other hbank
      rw [Function.update_self]
      exact h₀.cleared.append_right hgpio hclocks
    · have hne : other ≠ bank := by
        rintro rfl
        exact hbank hrest
      obtain ⟨hgpio, hclocks⟩ := h₀.others other hne
      rw [hsame other hrest]
      exact (h.cleared other hrest).append_left hgpio hclocks
  · obtain ⟨hne, hmem⟩ := List.ne_and_not_mem_of_not_mem_cons hmem
    rw [gpioAccesses_append, clockReads_append, (h₀.others other hne).1, (h₀.others other hne).2,
      (h.others other hmem).1, (h.others other hmem).2]
    exact ⟨rfl, rfl⟩
  · rw [coreAccesses_append, h₀.cores, h.cores]
    rfl
  · rw [h.failedMask, h₀.failedMask, hcong fun b ok => b.val + 1 = k ∧ ok = false,
      List.exists_mem_cons_iff, Function.update_self, or_assoc]
  · rw [h.lowMask, h₀.lowMask, hcong fun b ok => b.val = k ∧ ok = true,
      List.exists_mem_cons_iff, Function.update_self, or_assoc]

theorem clearBanks_all {request : DldQuietSend} {banks : List (Fin 3)} (hnodup : banks.Nodup) :
    (clearBanks request banks).All fun t r => ∃ low, BanksSeen request banks low t r := by
  induction banks generalizing request with
  | nil =>
    refine ⟨fun _ => false, nofun, fun _ _ => ⟨rfl, rfl⟩, fun _ => rfl, rfl, fun k => ?_, fun k => ?_⟩
    · simp
    · simp
  | cons bank rest ih =>
    obtain ⟨hbank, hrest⟩ := List.nodup_cons.mp hnodup
    have hset (x : Word) (n k : Nat) (hn : n < 32) :
        (x ||| bitAt n).getLsbD k = true ↔ x.getLsbD k = true ∨ n = k := by
      rw [BitVec.getLsbD_or, getLsbD_bitAt]
      simp [hn]
    refine Prog.all_op_bind.mpr fun clock => ?_
    have hclock : clockReads bank [⟨.readl (.clocks (gpioClocks bank)), clock⟩] = [clock] := by
      simp [clockReads]
    have hotherClock (other : Fin 3) (hne : other ≠ bank) :
        clockReads other [⟨.readl (.clocks (gpioClocks bank)), clock⟩] = [] := by
      have hne' : gpioClocks bank ≠ gpioClocks other := fun h => hne (gpioClocks_injective h).symm
      simp [clockReads, hne']
    refine Prog.all_ite.mpr ⟨fun hoff => ?_, fun hon => Prog.all_bind.mpr ?_⟩
    · -- its clock is off: not attempted, and reported
      refine Prog.all_mono (ih hrest) fun t r ⟨low, h⟩ =>
        ⟨Function.update low bank false, BanksSeen.cons false [_] hbank ?_ h⟩
      refine ⟨⟨clock, [], hclock, rfl, Nat.zero_le 8, ?_, ?_⟩, fun other hne => ⟨rfl, ?_⟩,
        fun _ => rfl, rfl, fun k => ?_, fun k => ?_⟩
      · exact ⟨fun h => absurd rfl h, fun h => absurd h hoff⟩
      · exact (iff_of_false Bool.false_ne_true (by simp [LowAtLast]))
      · exact hotherClock other hne
      · rw [hset _ _ _ (by omega)]
        simp
      · simp
    · have hon : Functional clock := not_not.mp hon
      refine Prog.all_mono (clearLoop_all bank 8) ?_
      rintro t₁ low₁ ⟨data, hdata, hlen, hne, hlow, hothers, hclocks, hcores⟩
      have hcleared : BankCleared bank (⟨.readl (.clocks (gpioClocks bank)), clock⟩ :: t₁) low₁ := by
        refine ⟨clock, data, ?_, hdata, hlen, iff_of_true (hne (by decide)) hon, hlow⟩
        rw [← List.singleton_append, clockReads_append, hclock, hclocks]
        rfl
      have hapart (other : Fin 3) (hne : other ≠ bank) :
          gpioAccesses other (⟨.readl (.clocks (gpioClocks bank)), clock⟩ :: t₁) = [] ∧
            clockReads other (⟨.readl (.clocks (gpioClocks bank)), clock⟩ :: t₁) = [] := by
        refine ⟨hothers other hne, ?_⟩
        rw [← List.singleton_append, clockReads_append, hotherClock other hne, hclocks]
        rfl
      refine Prog.all_ite.mpr ⟨fun htrue => ?_, fun hfalse => ?_⟩
      · obtain rfl : low₁ = true := htrue
        refine Prog.all_mono (ih hrest) fun t r ⟨low, h⟩ => ⟨Function.update low bank true, ?_⟩
        refine BanksSeen.cons true (⟨.readl (.clocks (gpioClocks bank)), clock⟩ :: t₁) hbank ?_ h
        refine ⟨hcleared, hapart, hcores, rfl, fun k => ?_, fun k => ?_⟩
        · simp
        · rw [hset _ _ _ (by omega)]
          simp
      · obtain rfl : low₁ = false := by simpa using hfalse
        refine Prog.all_mono (ih hrest) fun t r ⟨low, h⟩ => ⟨Function.update low bank false, ?_⟩
        refine BanksSeen.cons false (⟨.readl (.clocks (gpioClocks bank)), clock⟩ :: t₁) hbank ?_ h
        refine ⟨hcleared, hapart, hcores, rfl, fun k => ?_, fun k => ?_⟩
        · rw [hset _ _ _ (by omega)]
          simp
        · simp

/-! ### failed_frame_cleanup -/

/-- The stores of the first window: the magic, then both disables. -/
def disabling : List KEvent :=
  [⟨.writel 0 (.mailbox .magic), ()⟩, writeCore 0 1, writeCore 1 1, ⟨.barrier, ()⟩]

/-- The entry to the cleanup, up to its first clock check. -/
def cleanupEntry (flags clock : Word) : List KEvent :=
  [⟨.enter .failedFrameCleanup, ()⟩, ⟨.preemptDisable, ()⟩, ⟨.localIrqSave, flags⟩,
    ⟨.localFiqDisable, ()⟩, ⟨.readl (.clocks prussClock), clock⟩]

/-- What the cleanup did: `functional` at its first check, which cores it saw
stopped, which banks it saw low. -/
structure CleanedUp (request : DldQuietSend) (functional : Bool) (stopped : Fin 2 → Bool)
    (low : Fin 3 → Bool) (t : List KEvent) (r : DldQuietSend) : Prop where
  /-- the magic and both disables come before every poll -/
  first : ∃ (flags clock : Word) (rest : List KEvent),
    t = cleanupEntry flags clock ++ (if functional then disabling else []) ++ rest ∧
    (functional = true ↔ Functional clock)
  cores : ∀ core, ∃ polls, Polled core 200 polls (stopped core) ∧
    coreAccesses core t = (if functional then [writeCore core 1] else []) ++ polls
  banks : ∀ bank, BankCleared bank t (low bank)
  stoppedMask : ∀ k, r.cleanupStoppedMask.getLsbD k = true ↔
    request.cleanupStoppedMask.getLsbD k = true ∨ ∃ core : Fin 2, core.val = k ∧ stopped core = true
  lowMask : ∀ k, r.cleanupLowMask.getLsbD k = true ↔
    request.cleanupLowMask.getLsbD k = true ∨ ∃ bank : Fin 3, bank.val = k ∧ low bank = true
  failedMask : ∀ k, r.cleanupFailedMask.getLsbD k = true ↔
    request.cleanupFailedMask.getLsbD k = true ∨
      (k = 0 ∧ (functional = false ∨ ∃ core, stopped core = false)) ∨
      ∃ bank : Fin 3, bank.val + 1 = k ∧ low bank = false

/-- The two low bits of `pending`. -/
theorem getLsbD_three (k : Nat) : (3 : Word).getLsbD k = true ↔ ∃ core : Fin 2, core.val = k := by
  constructor
  · intro h
    have hlt : k < 32 := by
      by_contra hge
      rw [BitVec.getLsbD_of_ge _ _ (not_lt.mp hge)] at h
      cases h
    have hsmall : ∀ j : Fin 32, (3 : Word).getLsbD j.val = true → j.val < 2 := by decide
    exact ⟨⟨k, hsmall ⟨k, hlt⟩ h⟩, rfl⟩
  · rintro ⟨core, rfl⟩
    revert core
    decide

theorem pending_eq_zero_iff {pending : Word}
    (h : ∀ k, pending.getLsbD k = true → (3 : Word).getLsbD k = true) :
    pending = 0 ↔ ∀ core : Fin 2, pending.getLsbD core.val = false := by
  constructor
  · rintro rfl core
    exact BitVec.getLsbD_zero
  · intro hcores
    refine BitVec.eq_of_getLsbD_eq fun k hk => ?_
    rw [show (0 : Word).getLsbD k = false from BitVec.getLsbD_zero]
    by_contra hbit
    rw [Bool.not_eq_false] at hbit
    obtain ⟨core, rfl⟩ := (getLsbD_three k).mp (h k hbit)
    rw [hcores core] at hbit
    cases hbit

theorem disableCores_all (request : DldQuietSend) :
    (disableCores request).All fun t r => ∃ (flags clock : Word) (functional : Bool),
      t = [⟨.preemptDisable, ()⟩, ⟨.localIrqSave, flags⟩, ⟨.localFiqDisable, ()⟩,
          ⟨.readl (.clocks prussClock), clock⟩] ++ (if functional then disabling else []) ++
        [⟨.localIrqRestore flags, ()⟩, ⟨.preemptEnable, ()⟩] ∧
      (functional = true ↔ Functional clock) ∧
      r = if functional then request
        else { request with cleanupFailedMask := request.cleanupFailedMask ||| 1 } := by
  refine Prog.all_bind.mpr (Prog.all_op_bind.mpr fun _ => Prog.all_op_bind.mpr fun flags =>
    Prog.all_op_bind.mpr fun _ => (Prog.all_pure flags).mpr ?_)
  refine Prog.all_bind.mpr (Prog.all_op_bind.mpr fun clock => ?_)
  refine Prog.all_ite.mpr ⟨fun hon => ?_, fun hoff => ?_⟩
  · refine fun _ _ _ _ _ _ => ⟨flags, clock, true, rfl, ?_, rfl⟩
    exact iff_of_true rfl (of_decide_eq_true hon)
  · refine fun _ _ => ⟨flags, clock, false, rfl, ?_, rfl⟩
    exact iff_of_false Bool.false_ne_true fun h => hoff (decide_eq_true h)

theorem getLsbD_orOne (x : Word) (c : Prop) [Decidable c] (k : Nat) :
    (if c then x ||| 1 else x).getLsbD k = true ↔ x.getLsbD k = true ∨ (k = 0 ∧ c) := by
  by_cases hc : c
  · rw [if_pos hc, BitVec.getLsbD_or, show (1 : Word) = bitAt 0 from rfl, getLsbD_bitAt]
    by_cases hk : k = 0
    · simp [hk, hc]
    · simp [hk, Ne.symm hk]
  · simp [hc]

/-- **The cleanup.** -/
theorem failedFrameCleanup_all (request : DldQuietSend) :
    (failedFrameCleanup request).All fun t r =>
      ∃ functional stopped low, CleanedUp request functional stopped low t r := by
  apply traced_all
  refine Prog.all_bind.mpr (Prog.all_mono (disableCores_all request) ?_)
  rintro t₁ _ ⟨flags, clock, functional, rfl, hfunctional, rfl⟩
  refine Prog.all_op_bind.mpr fun now => Prog.all_bind.mpr ?_
  refine Prog.all_mono (Prog.all_and (stopLoop_all _ 200) (emits_stopLoop (a := gpioless) trivial
    (fun _ => rfl) (fun _ => rfl) (fun _ => rfl) _ _ _ _).all) ?_
  rintro t₂ ⟨r₂, pending⟩ ⟨hstop, ht₂⟩
  refine Prog.all_bind.mpr (Prog.all_op_bind.mpr fun _ => Prog.all_op_bind.mpr fun flags' =>
    Prog.all_op_bind.mpr fun _ => (Prog.all_pure flags').mpr (Prog.all_bind.mpr ?_))
  refine Prog.all_mono (clearBanks_all (List.nodup_finRange 3)) ?_
  rintro t₃ r ⟨low, hbanks⟩ _ _
  obtain ⟨stopped, hr₂, hstopped⟩ := hstop.mask
  have hr₂ : r₂ = { (if functional then request
      else { request with cleanupFailedMask := request.cleanupFailedMask ||| 1 }) with
      cleanupStoppedMask := stopped } := hr₂
  have hrunning : pending ≠ 0 ↔ ∃ core : Fin 2, pending.getLsbD core.val = true := by
    rw [Ne, pending_eq_zero_iff hstop.still, not_forall]
    simp
  -- the request with which the banks are entered
  have hfailed : r₂.cleanupFailedMask = if functional = false then request.cleanupFailedMask ||| 1
      else request.cleanupFailedMask := by
    rw [hr₂]
    cases functional <;> rfl
  have hentry (k : Nat) : (if pending ≠ 0 then
      { r₂ with cleanupFailedMask := r₂.cleanupFailedMask ||| 1 } else r₂).cleanupFailedMask.getLsbD k =
        true ↔ request.cleanupFailedMask.getLsbD k = true ∨
          (k = 0 ∧ (functional = false ∨ pending ≠ 0)) := by
    have hfield : (if pending ≠ 0 then
        { r₂ with cleanupFailedMask := r₂.cleanupFailedMask ||| 1 } else r₂).cleanupFailedMask =
          if pending ≠ 0 then r₂.cleanupFailedMask ||| 1 else r₂.cleanupFailedMask := by
      split <;> rfl
    rw [hfield, getLsbD_orOne, hfailed, getLsbD_orOne, or_assoc, ← and_or_left]
  have hothers : (if pending ≠ 0 then
      { r₂ with cleanupFailedMask := r₂.cleanupFailedMask ||| 1 } else r₂).cleanupStoppedMask =
        stopped ∧ (if pending ≠ 0 then
      { r₂ with cleanupFailedMask := r₂.cleanupFailedMask ||| 1 } else r₂).cleanupLowMask =
        request.cleanupLowMask := by
    have hstopped₂ : r₂.cleanupStoppedMask = stopped := by rw [hr₂]
    have hlow₂ : r₂.cleanupLowMask = request.cleanupLowMask := by
      rw [hr₂]
      cases functional <;> rfl
    split
    · exact ⟨hstopped₂, hlow₂⟩
    · exact ⟨hstopped₂, hlow₂⟩
  -- the trace around the three loops
  let head : List KEvent := cleanupEntry flags clock ++ if functional then disabling else []
  let before : List KEvent := head ++
    [⟨.localIrqRestore flags, ()⟩, ⟨.preemptEnable, ()⟩, ⟨.ktimeGet, now⟩]
  let middle : List KEvent := [⟨.preemptDisable, ()⟩, ⟨.localIrqSave, flags'⟩, ⟨.localFiqDisable, ()⟩]
  let after : List KEvent := [⟨.localIrqRestore flags', ()⟩, ⟨.preemptEnable, ()⟩,
    ⟨.leave .failedFrameCleanup 0, ()⟩]
  have hshape : ⟨.enter .failedFrameCleanup, ()⟩ :: ([⟨.preemptDisable, ()⟩, ⟨.localIrqSave, flags⟩,
      ⟨.localFiqDisable, ()⟩, ⟨.readl (.clocks prussClock), clock⟩] ++
      (if functional then disabling else []) ++ [⟨.localIrqRestore flags, ()⟩, ⟨.preemptEnable, ()⟩] ++
      ⟨.ktimeGet, now⟩ :: (t₂ ++ (middle ++ (t₃ ++
        [⟨.localIrqRestore flags', ()⟩, ⟨.preemptEnable, ()⟩])))) ++
      [⟨.leave .failedFrameCleanup 0, ()⟩] = before ++ t₂ ++ middle ++ t₃ ++ after := by
    simp [before, head, after, cleanupEntry]
  have hcleaned : CleanedUp request functional (fun core => !pending.getLsbD core.val) low
      (before ++ t₂ ++ middle ++ t₃ ++ after) r := by
    refine ⟨?_, fun core => ?_, fun bank => ?_, fun k => ?_, fun k => ?_, fun k => ?_⟩
    · refine ⟨flags, clock, [⟨.localIrqRestore flags, ()⟩, ⟨.preemptEnable, ()⟩, ⟨.ktimeGet, now⟩] ++
        t₂ ++ middle ++ t₃ ++ after, ?_, hfunctional⟩
      simp [before, head]
    · refine ⟨coreAccesses core t₂, hstop.cores core ((getLsbD_three core.val).mpr ⟨core, rfl⟩), ?_⟩
      have hhead : coreAccesses core before = if functional then [writeCore core 1] else [] := by
        cases functional with
        | true =>
          revert core
          intro core
          match core with
          | 0 | 1 => rfl
        | false => rfl
      rw [coreAccesses_append, coreAccesses_append, coreAccesses_append, coreAccesses_append, hhead,
        hbanks.cores, show coreAccesses core middle = [] from rfl,
        show coreAccesses core after = [] from rfl]
      simp
    · have hhead : clockReads bank before = [] := by
        cases functional with
        | true => exact clockReads_pruss bank clock
        | false => exact clockReads_pruss bank clock
      have hgpio : gpioAccesses bank before = [] := by
        cases functional <;> rfl
      refine (BankCleared.append_left (hbanks.cleared bank (List.mem_finRange bank)) ?_ ?_).append_right
        rfl rfl
      · rw [gpioAccesses_append, gpioAccesses_append, hgpio, gpioAccesses_of_gpioless ht₂]
        rfl
      · rw [clockReads_append, clockReads_append, hhead, hstop.clocks]
        rfl
    · have hmask : stopped.getLsbD k = (request.cleanupStoppedMask.getLsbD k ||
          ((3 : Word).getLsbD k && !pending.getLsbD k)) := by
        rw [hstopped]
        cases functional <;> rfl
      rw [hbanks.stoppedMask, hothers.1, hmask, Bool.or_eq_true, Bool.and_eq_true, getLsbD_three]
      refine or_congr_right ⟨?_, ?_⟩
      · rintro ⟨⟨core, rfl⟩, hcore⟩
        exact ⟨core, rfl, hcore⟩
      · rintro ⟨core, rfl, hcore⟩
        exact ⟨⟨core, rfl⟩, hcore⟩
    · rw [hbanks.lowMask, hothers.2]
      simp
    · rw [hbanks.failedMask, hentry, hrunning, or_assoc]
      simp
  rw [← hshape] at hcleaned
  exact ⟨functional, _, low, hcleaned⟩

/-! ### The report -/

/-- What the masks of a request that entered with zero masks say. -/
structure Reported (functional : Bool) (stopped : Fin 2 → Bool) (low : Fin 3 → Bool)
    (r : DldQuietSend) : Prop where
  complete : r.cleanupFailedMask = 0 ↔
    functional = true ∧ (∀ core, stopped core = true) ∧ ∀ bank, low bank = true
  masks : r.cleanupFailedMask = 0 → r.cleanupStoppedMask = 3 ∧ r.cleanupLowMask = 7
  pru : r.cleanupFailedMask.getLsbD 0 = true ↔ ¬ (functional = true ∧ ∀ core, stopped core = true)
  bank : ∀ bank : Fin 3, r.cleanupFailedMask.getLsbD (bank.val + 1) = true ↔ low bank = false

theorem CleanedUp.reported {request r : DldQuietSend} {functional : Bool} {stopped : Fin 2 → Bool}
    {low : Fin 3 → Bool} {t : List KEvent} (h : CleanedUp request functional stopped low t r)
    (hfailed : request.cleanupFailedMask = 0) (hstopped : request.cleanupStoppedMask = 0)
    (hlow : request.cleanupLowMask = 0) : Reported functional stopped low r := by
  have hzero (k : Nat) : ¬ (0 : Word).getLsbD k = true := by
    rw [show (0 : Word).getLsbD k = false from BitVec.getLsbD_zero]
    exact Bool.false_ne_true
  have hpru : r.cleanupFailedMask.getLsbD 0 = true ↔
      ¬ (functional = true ∧ ∀ core, stopped core = true) := by
    rw [h.failedMask, hfailed, not_and_or, not_forall]
    simp
  have hbank (bank : Fin 3) : r.cleanupFailedMask.getLsbD (bank.val + 1) = true ↔ low bank = false := by
    rw [h.failedMask, hfailed]
    constructor
    · rintro (hbit | ⟨h0, -⟩ | ⟨other, hother, hlow⟩)
      · exact absurd hbit (hzero _)
      · exact absurd h0 (Nat.succ_ne_zero _)
      · rwa [show bank = other from Fin.ext (Nat.succ_injective hother).symm]
    · exact fun hlow => .inr (.inr ⟨bank, rfl, hlow⟩)
  have hcomplete : r.cleanupFailedMask = 0 ↔
      functional = true ∧ (∀ core, stopped core = true) ∧ ∀ bank, low bank = true := by
    constructor
    · intro hnone
      rw [hnone] at hpru hbank
      have hstop := not_not.mp fun hnot => hzero 0 (hpru.mpr hnot)
      refine ⟨hstop.1, hstop.2, fun bank => ?_⟩
      by_contra hnot
      exact hzero _ ((hbank bank).mpr (by simpa using hnot))
    · rintro ⟨hfunctional, hstop, hall⟩
      refine BitVec.eq_of_getLsbD_eq fun k hk => ?_
      rw [show (0 : Word).getLsbD k = false from BitVec.getLsbD_zero, ← Bool.not_eq_true,
        h.failedMask, hfailed]
      rintro (hbit | ⟨-, hf | ⟨core, hcore⟩⟩ | ⟨bank, -, hlow⟩)
      · exact hzero k hbit
      · rw [hfunctional] at hf
        cases hf
      · rw [hstop core] at hcore
        cases hcore
      · rw [hall bank] at hlow
        cases hlow
  refine ⟨hcomplete, fun hnone => ?_, hpru, hbank⟩
  obtain ⟨-, hstop, hall⟩ := hcomplete.mp hnone
  have hseven : ∀ k : Fin 32, (7 : Word).getLsbD k.val = true ↔ ∃ bank : Fin 3, bank.val = k.val := by
    decide
  constructor
  · refine BitVec.eq_of_getLsbD_eq fun k hk => ?_
    rw [Bool.eq_iff_iff, h.stoppedMask, hstopped, getLsbD_three]
    constructor
    · rintro (hbit | ⟨core, hcore, -⟩)
      · exact absurd hbit (hzero k)
      · exact ⟨core, hcore⟩
    · exact fun ⟨core, hcore⟩ => .inr ⟨core, hcore, hstop core⟩
  · refine BitVec.eq_of_getLsbD_eq fun k hk => ?_
    rw [Bool.eq_iff_iff, h.lowMask, hlow, hseven ⟨k, hk⟩]
    constructor
    · rintro (hbit | ⟨bank, hbank, -⟩)
      · exact absurd hbit (hzero k)
      · exact ⟨bank, hbank⟩
    · exact fun ⟨bank, hbank⟩ => .inr ⟨bank, hbank, hall bank⟩

/-- **Failure cleanup.**  Every run of `failed_frame_cleanup` polls and
clears a bounded number of times, in the documented order, whatever the
registers answer, and its masks report exactly what it achieved. -/
theorem failedFrameCleanup_reports {request r : DldQuietSend} {t : List KEvent}
    (hrun : (failedFrameCleanup request).Runs t r) :
    ∃ functional stopped low, CleanedUp request functional stopped low t r ∧
      (request.cleanupFailedMask = 0 → request.cleanupStoppedMask = 0 →
        request.cleanupLowMask = 0 → Reported functional stopped low r) := by
  obtain ⟨functional, stopped, low, h⟩ := Prog.all_iff.mp (failedFrameCleanup_all request) t r hrun
  exact ⟨functional, stopped, low, h, h.reported⟩

/-- The cleanup on a cooperative board. -/
theorem failedFrameCleanup_reports_oneBank :
    ∃ functional stopped low,
      CleanedUp oneBankRequest functional stopped low
        ((failedFrameCleanup oneBankRequest).execWith Board.answer oneBankBoard).1
        ((failedFrameCleanup oneBankRequest).execWith Board.answer oneBankBoard).2 ∧
      Reported functional stopped low
        ((failedFrameCleanup oneBankRequest).execWith Board.answer oneBankBoard).2 := by
  obtain ⟨functional, stopped, low, h, hreported⟩ :=
    failedFrameCleanup_reports (Prog.execWith_runs Board.answer oneBankBoard _)
  exact ⟨functional, stopped, low, h, hreported rfl rfl rfl⟩

end Dld
