/-
DldDriver/System/Sequencing.lean

Any number of callers, each with a request built from some earlier look at
the mailbox: how `send_mutex` and `validate` sequence their frames.

`HostWords` is what the host's words of the mailbox are while a caller is in
a given phase; only the holder of the lock changes them, so it survives the
blocking steps between validation and publication.
-/
import DldDriver.System.Rehearsal

namespace Dld

open Interaction

/-! ### The lock and the host's words -/

/-- The phases in which a caller holds `send_mutex`. -/
def KPhase.locks : KPhase → Bool
  | .idle | .refused | .sent | .broken => false
  | _ => true

/-- What the host's words are, as far as the phase of a caller tells. -/
def HostWords (request : DldQuietSend) (mailbox : DldCommand) : KPhase → Prop
  | .held seen => ∀ off v, off ∉ Pru.firmwareWords → seen off = some v → mailbox off = v
  | .zeroed | .coloured =>
    mailbox .magic = commandMagic ∧ mailbox .requestSeq = request.previousSeq
  | .waiting .. | .granted .. | .missed | .complete | .failed false =>
    mailbox .magic = commandMagic
  | .failed true | .broken => mailbox .magic = 0
  | .idle | .refused | .sent => True

/-- The frame is given up for good. -/
def KPhase.dead : KPhase → Prop
  | .failed true | .broken => True
  | _ => False

section HostWords

variable {request : DldQuietSend} {m m' : DldCommand} {p : KPhase}

/-- Only the host's words matter. -/
theorem HostWords.congr (h : HostWords request m p)
    (hm : ∀ off, off ∉ Pru.firmwareWords → m' off = m off) : HostWords request m' p := by
  have hmagic : m' .magic = m .magic := hm _ (by decide)
  have hseq : m' .requestSeq = m .requestSeq := hm _ (by decide)
  cases p with
  | held seen =>
    intro off v hoff hv
    rw [hm off hoff]
    exact h off v hoff hv
  | zeroed | coloured => exact ⟨hmagic.trans h.1, hseq.trans h.2⟩
  | failed isCleared => cases isCleared <;> exact hmagic.trans h
  | waiting | granted | missed | complete | broken => exact hmagic.trans h
  | idle | refused | sent => trivial

/-- A caller that does not hold the lock depends on the magic only. -/
theorem HostWords.unlocked (h : HostWords request m p) (hp : p.locks = false)
    (hm : p.dead → m' .magic = 0) : HostWords request m' p := by
  cases p with
  | broken => exact hm trivial
  | idle | refused | sent => trivial
  | _ => cases hp

/-- A frame that is given up for good has cleared the magic. -/
theorem HostWords.magic_of_dead (h : HostWords request m p) (hp : p.dead) : m .magic = 0 := by
  cases p with
  | broken => exact h
  | failed isCleared => cases isCleared <;> first | exact h | exact hp.elim
  | _ => exact hp.elim

theorem HostWords.read (h : HostWords request m p) (off : Off) :
    HostWords request m (p.read request off (m off)) := by
  cases p with
  | held seen =>
    intro off' v hoff hv
    by_cases hsame : off' = off
    · subst hsame
      have hv : some (m off') = some v := by simpa using hv
      exact Option.some_inj.mp hv
    · exact h off' v hoff (by simpa [hsame] using hv)
  | waiting banks isMatched =>
    rcases KPhase.read_waiting request banks isMatched off (m off) with
      ⟨isMatched', heq⟩ | ⟨-, heq⟩
    · rw [heq]
      exact h
    · rw [heq]
      exact h
  | granted b bs =>
    cases off with
    | bankDone =>
      show HostWords request m (if _ then _ else _)
      split <;> exact h
    | _ => exact h
  | _ => exact h

/-- Validation and the lock: nothing has changed since the mailbox was read. -/
theorem HostWords.validated {seen : Off → Option Word} (h : HostWords request m (.held seen))
    (hvalid : Validated request seen) :
    m .magic = commandMagic ∧ m .requestSeq = request.previousSeq := by
  obtain ⟨m₁, hseen, hzero⟩ := hvalid
  obtain ⟨-, hconf, hprevious, -⟩ := (validate_zero_iff request m₁).mp hzero
  refine ⟨?_, ?_⟩
  · rw [h .magic (m₁ .magic) (by decide) (hseen _ (by decide))]
    exact hconf.magic
  · rw [h .requestSeq (m₁ .requestSeq) (by decide) (hseen _ (by decide))]
    exact hprevious.symm

/-- A store of the caller that holds the lock. -/
theorem HostWords.store {off : Off} {v : Word} (h : HostWords request m p)
    (hmay : p.mayStore request off v) :
    HostWords request (Function.update m off v) (p.store request off) ∧
      (Function.update m off v .magic = m .magic ∨ Function.update m off v .magic = 0) := by
  unfold KPhase.mayStore at hmay
  split at hmay
  · exact ⟨h.validated hmay.2, .inl rfl⟩
  · exact ⟨h, .inl rfl⟩
  · exact ⟨h.1, .inl rfl⟩
  · exact ⟨h, .inl rfl⟩
  · obtain ⟨rfl, hp⟩ := hmay
    rw [KPhase.store_magic hp]
    exact ⟨Function.update_self .., .inr (Function.update_self ..)⟩
  · exact hmay.elim

theorem HostWords.giveUp (h : HostWords request m p) (hp : p.published = true) :
    HostWords request m p.giveUp := by
  cases p with
  | failed isCleared => exact h
  | waiting | granted | missed | complete => exact h
  | _ => cases hp

end HostWords

/-- A published frame holds the lock. -/
theorem KPhase.locks_of_published {p : KPhase} (hp : p.published = true) : p.locks = true := by
  cases p <;> first | rfl | cases hp

theorem KPhase.read_locks (request : DldQuietSend) (p : KPhase) (off : Off) (v : Word) :
    (p.read request off v).locks = p.locks := by
  by_cases hp : p.published = true
  · rw [KPhase.locks_of_published hp, KPhase.locks_of_published (KPhase.read_published hp off v)]
  · cases p with
    | waiting | granted | missed | complete | failed => exact absurd rfl hp
    | _ => rfl

/-- Only a caller that holds the lock stores. -/
theorem KPhase.locks_of_mayStore {request : DldQuietSend} {p : KPhase} {off : Off} {v : Word}
    (hmay : p.mayStore request off v) : p.locks = true ∧ (p.store request off).locks = true := by
  unfold KPhase.mayStore at hmay
  split at hmay
  · exact ⟨rfl, rfl⟩
  · exact ⟨rfl, rfl⟩
  · exact ⟨rfl, rfl⟩
  · exact ⟨rfl, rfl⟩
  · rw [KPhase.store_magic hmay.2]
    exact ⟨KPhase.locks_of_published hmay.2, rfl⟩
  · exact hmay.elim

/-! ### The invariant of the board -/

section Callers

variable {ι : Type} [DecidableEq ι] (request : ι → DldQuietSend) (tm : Pru.Timing)
variable (l : Fin 6 → Word)

/-- The lock, the host's words, the configuration, and the firmware's record. -/
structure Sequenced (m : Shared ι) (g : ι → KState) (d : Pru.FState) : Prop where
  lock : ∀ i, (g i).phase.locks = true ↔ m.owner = some i
  host : ∀ i, HostWords (request i) m.mailbox (g i).phase
  config : ∀ i, m.mailbox (.lengths i) = l i
  record : ∃ cur, Pru.Recorded tm l d cur

/-- The monitors of the callers and of the firmware, and the invariant. -/
def sequencing : Proofs ι KOp KOp.Res Pru.PruOp Pru.PruOp.Res (Pru.Label × Pru.Regs) (Shared ι)
    KState Pru.FState where
  client i := helper (request i) True fun _ _ => True
  device := Pru.firmware tm l
  label := Pru.Control tm l
  inv := Sequenced request tm l

variable {request tm l} {m m' : Shared ι} {g : ι → KState} {d : Pru.FState} {i : ι}

omit [DecidableEq ι] in
/-- The caller that holds the lock is the only one. -/
theorem Sequenced.unique (h : Sequenced request tm l m g d) {j : ι}
    (hi : (g i).phase.locks = true) (hj : (g j).phase.locks = true) : i = j :=
  Option.some_inj.mp (((h.lock i).mp hi).symm.trans ((h.lock j).mp hj))

/-- One caller moves on, without a store. -/
theorem Sequenced.move (h : Sequenced request tm l m g d) (s : KState) (owner : Option ι)
    (hlock : ∀ j, (if j = i then s.phase.locks else (g j).phase.locks) = true ↔ owner = some j)
    (hhost : HostWords (request i) m.mailbox s.phase) :
    Sequenced request tm l { m with owner := owner } (Function.update g i s) d := by
  refine ⟨fun j => ?_, fun j => ?_, h.config, h.record⟩
  · rw [← hlock j]
    by_cases hj : j = i
    · subst hj
      simp
    · simp [hj]
  · by_cases hj : j = i
    · subst hj
      simpa using hhost
    · simpa [hj] using h.host j

/-- One caller moves on and keeps or does not have the lock. -/
theorem Sequenced.stay (h : Sequenced request tm l m g d) {s : KState}
    (hlocks : s.phase.locks = (g i).phase.locks)
    (hhost : HostWords (request i) m.mailbox s.phase) :
    Sequenced request tm l m (Function.update g i s) d := by
  refine h.move s m.owner (fun j => ?_) hhost
  rw [← h.lock j]
  by_cases hj : j = i
  · subst hj
    simp [hlocks]
  · simp [hj]

/-- One caller stores a word. -/
theorem Sequenced.storeHost (h : Sequenced request tm l m g d) {s : KState} {off : Off} {v : Word}
    (hmay : (g i).phase.mayStore (request i) off v)
    (hs : s.phase = (g i).phase.store (request i) off) :
    Sequenced request tm l (m.store off v) (Function.update g i s) d := by
  obtain ⟨hbefore, hafter⟩ := KPhase.locks_of_mayStore hmay
  obtain ⟨hhost, hmagic⟩ := (h.host i).store hmay
  refine ⟨fun j => ?_, fun j => ?_, fun k => ?_, h.record⟩
  · show _ ↔ m.owner = some j
    rw [← h.lock j]
    by_cases hj : j = i
    · subst hj
      simp [hs, hbefore, hafter]
    · simp [hj]
  · by_cases hj : j = i
    · subst hj
      show HostWords (request j) (Function.update m.mailbox off v) (Function.update g j s j).phase
      rw [Function.update_self, hs]
      exact hhost
    · -- the others do not hold the lock
      have hother : (g j).phase.locks = false := by
        by_contra hlocks
        exact hj (h.unique (by simpa using hlocks) hbefore)
      simp only [Function.update_of_ne hj]
      refine (h.host j).unlocked hother fun hdead => ?_
      rcases hmagic with hkeep | hzero
      · show Function.update m.mailbox off v .magic = 0
        rw [hkeep]
        exact (h.host j).magic_of_dead hdead
      · exact hzero
  · have hoff : off ≠ .lengths k := by
      rintro rfl
      revert hmay
      unfold KPhase.mayStore
      split <;> first | exact fun h => h.elim | (rename_i heq; cases heq)
    exact (Shared.store_of_ne (Ne.symm hoff)).trans (h.config k)

/-- An operation of a caller keeps the invariant. -/
theorem Sequenced.client (h : Sequenced request tm l m g d) {e : KEvent}
    (hstep : helperStep True i m e m') (hmay : (g i).may (request i) True e) :
    Sequenced request tm l m' (Function.update g i ((g i).next (request i) e)) d := by
  have hsame (m' : Shared ι) (hm' : m' = m) :
      Sequenced request tm l m' (Function.update g i (g i)) d := by
    subst hm'
    rw [Function.update_eq_self]
    exact h
  obtain ⟨op, v⟩ := e
  cases op with
  | readl reg =>
    cases reg with
    | mailbox off =>
      obtain ⟨rfl, rfl⟩ := hstep
      exact h.stay (KPhase.read_locks _ _ _ _) ((h.host i).read off)
    | clocks c => exact hsame m' hstep.2
    | _ => exact hsame m' hstep
  | writel w reg =>
    cases reg with
    | mailbox off =>
      obtain rfl : m' = m.store off w := hstep
      exact h.storeHost hmay rfl
    | _ => exact hsame m' hstep
  | enter f =>
    cases f with
    | failedFrameCleanup =>
      obtain rfl : m' = m := hstep
      obtain ⟨hp, -⟩ := hmay
      refine h.stay ?_ ((h.host i).giveUp hp)
      obtain ⟨isCleared, hfailed⟩ := KPhase.giveUp_published hp
      rw [KPhase.locks_of_published hp]
      show (g i).phase.giveUp.locks = true
      rw [hfailed]
      rfl
    | _ => exact hsame m' hstep
  | leave f result =>
    cases f with
    | failedFrameCleanup =>
      obtain rfl : m' = m := hstep
      exact h.stay rfl (h.host i)
    | _ => exact hsame m' hstep
  | mutexTrylock =>
    obtain ⟨hfree, rfl⟩ := hstep
    cases v with
    | false => exact hsame m rfl
    | true =>
      have hnone : m.owner = none := hfree.mp rfl
      refine h.move { g i with phase := .held fun _ => none } (some i) (fun j => ?_)
        (fun _ _ _ hv => nomatch hv)
      by_cases hj : j = i
      · subst hj
        simp [KPhase.locks]
      · have hfree : (g j).phase.locks ≠ true := by
          rw [Ne, h.lock j, hnone]
          exact nofun
        simp [hj, hfree, Ne.symm hj]
  | mutexUnlock =>
    obtain rfl : m' = _ := hstep
    have hheld : (g i).phase.locks = true := by
      revert hmay
      unfold KState.may
      cases (g i).phase <;> first | exact fun _ => rfl | exact fun h => h.elim
    have hhost : HostWords (request i) m.mailbox (g i).phase.unlock := by
      have hi := h.host i
      revert hmay hi
      unfold KState.may
      generalize (g i).phase = p
      intro hmay hi
      cases p with
      | held | complete => trivial
      | failed isCleared =>
        obtain rfl := hmay.2 trivial
        exact hi
      | _ => exact hmay.elim
    have hunlocked : (g i).phase.unlock.locks = false := by
      revert hmay
      unfold KState.may
      cases (g i).phase <;> first | exact fun _ => rfl | exact fun h => h.elim
    refine h.move { g i with phase := (g i).phase.unlock } none (fun j => ?_) hhost
    by_cases hj : j = i
    · simp [hj, hunlocked]
    · have hother : (g j).phase.locks ≠ true := fun hlocks => hj (h.unique hlocks hheld)
      simp [hj, hother]
  | _ => exact hsame m' hstep

omit [DecidableEq ι] in
/-- An operation of the firmware keeps the invariant: it stores only to its
own words. -/
theorem Sequenced.device (h : Sequenced request tm l m g d) {e : Pru.PruEvent} {d' : Pru.FState}
    (hstep : firmwareStep m e m') (hd : Pru.FStep tm l d e d') :
    Sequenced request tm l m' g d' := by
  obtain ⟨cur, hrec⟩ := h.record
  have hrec' : ∃ cur, Pru.Recorded tm l d' cur :=
    ⟨_, Pru.recorded_next (h := ⟨d, [], cur⟩) hrec hd⟩
  have hsame (hm : m' = m) : Sequenced request tm l m' g d' := by
    subst hm
    exact ⟨h.lock, h.host, h.config, hrec'⟩
  obtain ⟨op, v⟩ := e
  cases op with
  | lbco off => exact hsame hstep.2
  | sbco off w =>
    obtain rfl : m' = m.store off w := hstep
    have hoff := hd.store_mem hrec
    have hword (off' : Off) (hoff' : off' ∉ Pru.firmwareWords) :
        (m.store off w).mailbox off' = m.mailbox off' := by
      refine Shared.store_of_ne ?_
      rintro rfl
      exact hoff' hoff
    refine ⟨h.lock, fun i => (h.host i).congr hword, fun i => ?_, hrec'⟩
    exact (hword _ (by simp [Pru.firmwareWords])).trans (h.config i)
  | _ => exact hsame hstep

/-- **The callers and the firmware uphold the invariant.** -/
theorem sequencing_upholds : (sequencing request tm l).Upholds (board ι tm True) where
  label := Pru.firmware_invariant tm l
  client := by
    intro m g d i e m' hinv hstep
    refine ⟨?_, hinv.client hstep⟩
    obtain ⟨op, v⟩ := e
    cases op with
    | readl reg =>
      cases reg with
      | mailbox off => exact fun _ => trivial
      | clocks c => exact hstep.1
      | _ => trivial
    | _ => trivial
  device := by
    intro m g d e m' hinv hstep
    refine ⟨?_, fun hsafe => hinv.device hstep (Pru.FStep.of_safe hsafe)⟩
    obtain ⟨op, v⟩ := e
    cases op with
    | lbco off =>
      cases off with
      | lengths i => exact hstep.1.trans (hinv.config i)
      | _ => trivial
    | _ => trivial

/-! ### request_seq along a run -/

/-- The operation publishes a frame. -/
def publishes : BoardAct ι → Bool
  | .inl (_, e) => isSequenceStore e
  | .inr _ => false

/-- The number of frames published. -/
def frames (t : List (BoardAct ι)) : Nat := t.countP publishes

theorem KPhase.coloured_of_mayStore {request : DldQuietSend} {p : KPhase} {v : Word}
    (h : p.mayStore request .requestSeq v) : p = .coloured ∧ v = request.previousSeq + 1 := by
  unfold KPhase.mayStore at h
  split at h
  · rename_i heq
    cases heq
  · rename_i heq
    cases heq
  · exact ⟨rfl, h⟩
  · rename_i heq
    cases heq
  · rename_i heq
    cases heq
  · exact h.elim

omit [DecidableEq ι] in
/-- Nothing but a store to `request_seq` changes it. -/
theorem requestSeq_of_helperStep {pruss : Prop} {e : KEvent} (hstep : helperStep pruss i m e m')
    (he : isSequenceStore e = false) : m'.mailbox .requestSeq = m.mailbox .requestSeq := by
  obtain ⟨op, v⟩ := e
  cases op with
  | readl reg =>
    cases reg with
    | mailbox | clocks => rw [hstep.2]
    | _ => rw [show m' = m from hstep]
  | writel w reg =>
    cases reg with
    | mailbox off =>
      obtain rfl : m' = m.store off w := hstep
      refine Shared.store_of_ne ?_
      rintro rfl
      cases he
    | _ => rw [show m' = m from hstep]
  | mutexTrylock =>
    rw [hstep.2]
    cases v <;> rfl
  | mutexUnlock => rw [show m' = _ from hstep]
  | _ => rw [show m' = m from hstep]

/-- A board whose callers are as far as `g`, its firmware as far as `d`. -/
abbrev Underway (request : ι → DldQuietSend) (tm : Pru.Timing) (l : Fin 6 → Word)
    (w : BoardState ι) (g : ι → KState) (d : Pru.FState) : Prop :=
  (sequencing request tm l).Good (fun _ => Outcome fun _ _ => True) w g d

/-- A step changes `request_seq` only by publishing a frame, and then from
the sequence the request was built on. -/
theorem Underway.requestSeq_step {w w' : BoardState ι} {a : BoardAct ι}
    (h : Underway request tm l w g d) (hstep : (board ι tm True).Step w a w') :
    (∃ i, a = .inl (i, sequenceStore (request i)) ∧ (g i).phase = .coloured ∧
      w.mem.mailbox .requestSeq = (request i).previousSeq ∧
      w'.mem.mailbox .requestSeq = (request i).previousSeq + 1) ∨
    (publishes a = false ∧ w'.mem.mailbox .requestSeq = w.mem.mailbox .requestSeq) := by
  obtain ⟨hsafe, -⟩ := Proofs.Good.step sequencing_upholds h hstep
  cases hstep with
  | @client i o k m' r hp hm =>
    cases he : isSequenceStore ⟨o, r⟩ with
    | false => exact .inr ⟨he, requestSeq_of_helperStep hm he⟩
    | true =>
      unfold isSequenceStore at he
      split at he
      · -- a store to `request_seq` happens in one phase only
        rename_i v heq
        obtain rfl : o = .writel v (.mailbox .requestSeq) := heq
        obtain ⟨hphase, rfl⟩ := KPhase.coloured_of_mayStore hsafe
        obtain rfl : m' = w.mem.store .requestSeq _ := hm
        have hhost := h.inv.host i
        rw [hphase] at hhost
        exact .inl ⟨i, rfl, hphase, hhost.2, Shared.store_self ..⟩
      · cases he
  | @device e q m' hp hm =>
    refine .inr ⟨rfl, ?_⟩
    obtain ⟨cur, hrec⟩ := h.inv.record
    obtain ⟨op, v⟩ := e
    cases op with
    | sbco off x =>
      obtain rfl : m' = w.mem.store off x := hm
      have hoff := (Pru.FStep.of_safe hsafe).store_mem hrec
      refine Shared.store_of_ne ?_
      rintro rfl
      exact absurd hoff (by decide)
    | lbco => rw [hm.2]
    | _ => rw [show m' = w.mem from hm]

/-- `request_seq` counts the frames. -/
theorem Underway.requestSeq_run {w w' : BoardState ι} {t : List (BoardAct ι)}
    (h : Underway request tm l w g d) (hrun : (board ι tm True).Run w t w') :
    w'.mem.mailbox .requestSeq = w.mem.mailbox .requestSeq + BitVec.ofNat 32 (frames t) := by
  induction hrun generalizing g d with
  | nil w => simp [frames]
  | @cons w a w' t w'' hstep hrest ih =>
    have hnext := ih (Proofs.Good.step sequencing_upholds h hstep).2
    have hcons : frames (a :: t) = frames t + if publishes a then 1 else 0 := List.countP_cons
    rw [hnext, hcons]
    rcases h.requestSeq_step hstep with ⟨i, rfl, -, hbefore, hafter⟩ | ⟨hnot, hkeep⟩
    · have hone : publishes (.inl (i, sequenceStore (request i)) : BoardAct ι) = true := rfl
      rw [hafter, hbefore, hone, if_pos rfl, BitVec.ofNat_add, BitVec.add_assoc,
        BitVec.add_comm (1 : Word)]
      rfl
    · rw [hkeep, hnot]
      rfl

/-! ### The theorem -/

/-- A caller that has taken the lock holds it until it has released it. -/
theorem locks_or_unlocked {request : DldQuietSend} {pruss : Prop} {answer : Off → Word → Prop}
    {t : List KEvent} (hsafe : (helper request pruss answer).SafeAlong ⟨.idle, .never⟩ t) :
    let s := (helper request pruss answer).run ⟨.idle, .never⟩ t
    s.phase = .idle ∨ s.phase.locks = true ∨ (⟨.mutexUnlock, ()⟩ : KEvent) ∈ t := by
  induction t using List.reverseRecOn with
  | nil => exact .inl rfl
  | append_singleton t e ih =>
    obtain ⟨hpre, hlast⟩ := Monitor.safeAlong_append.mp hsafe
    intro s
    have hs : s = ((helper request pruss answer).run ⟨.idle, .never⟩ t).next request e :=
      Monitor.run_append ..
    have hmay : ((helper request pruss answer).run ⟨.idle, .never⟩ t).may request pruss e := hlast.1
    rw [hs]
    have hprev := ih hpre
    simp only at hprev
    generalize (helper request pruss answer).run ⟨.idle, .never⟩ t = s₀ at hprev hmay ⊢
    have hsame (p : KPhase) (hp : p.locks = s₀.phase.locks) (hp' : s₀.phase = .idle → p = .idle) :
        p = .idle ∨ p.locks = true ∨ (⟨.mutexUnlock, ()⟩ : KEvent) ∈ t ++ [e] := by
      rw [hp]
      exact hprev.imp hp' (Or.imp_right fun h => List.mem_append_left _ h)
    obtain ⟨op, v⟩ := e
    cases op with
    | readl reg =>
      cases reg with
      | mailbox off =>
        refine hsame _ (KPhase.read_locks _ _ _ _) fun h => ?_
        show s₀.phase.read request off v = _
        rw [h]
        rfl
      | _ => exact hsame _ rfl id
    | writel w reg =>
      cases reg with
      | mailbox off => exact .inr (.inl (KPhase.locks_of_mayStore hmay).2)
      | _ => exact hsame _ rfl id
    | enter f =>
      cases f with
      | failedFrameCleanup =>
        obtain ⟨isCleared, hfailed⟩ := KPhase.giveUp_published hmay.1
        refine .inr (.inl ?_)
        show s₀.phase.giveUp.locks = true
        rw [hfailed]
        rfl
      | _ => exact hsame _ rfl id
    | leave f result => cases f <;> exact hsame _ rfl id
    | mutexTrylock =>
      cases v with
      | false => exact hsame _ rfl id
      | true => exact .inr (.inl rfl)
    | mutexUnlock => exact .inr (.inr (List.mem_append_right _ (.head _)))
    | _ => exact hsame _ rfl id

/-- Caller `i` has published its request and still holds the lock. -/
def InFlight (request : ι → DldQuietSend) (i : ι) (t : List (BoardAct ι)) : Prop :=
  sequenceStore (request i) ∈ events i t ∧ (⟨.mutexUnlock, ()⟩ : KEvent) ∉ events i t

omit [DecidableEq ι] in
/-- Before anything has happened. -/
theorem underway_start (request : ι → DldQuietSend) (tm : Pru.Timing) (r : Pru.Regs)
    (m₀ : DldCommand) :
    Underway request tm (fun i => m₀ (.lengths i)) (callers request m₀ (Pru.code tm (.start, r)))
      (fun _ => ⟨.idle, .never⟩) ⟨.boot, 0, 0, m₀⟩ where
  inv :=
    { lock := fun _ => ⟨fun h => (nomatch h), fun h => (nomatch h)⟩
      host := fun _ => trivial
      config := fun _ => rfl
      record := ⟨[], rfl⟩ }
  client := fun _ => wp_performSend
  device := Pru.firmware_invariant tm _ (.start, r) _ ⟨rfl, rfl⟩

/-- A submitted request that failed ends in one phase only. -/
theorem Outcome.broken {answer : Off → Word → Prop} {s : KState} {a : DldQuietSend × Int}
    (h : Outcome answer s a) (hsubmitted : a.1.submitted = 1) (herror : a.2 ≠ 0) :
    s.phase = .broken := by
  obtain ⟨phase, cleanup⟩ := s
  cases phase with
  | idle | refused => exact absurd (h.1.symm.trans hsubmitted) (by decide)
  | sent => exact absurd h.2.1 herror
  | broken => rfl
  | _ => exact h.elim

/-- **Sequencing.**  Any number of callers with arbitrary requests, in any
interleaving with each other and with the firmware from its start: at most
one request is in flight; `request_seq` changes only by the publication of a
request, from its own `previous_seq` to the next; fewer than 2^32 frames
apart, two published requests were built on different sequences; a request
that is not submitted stores nothing; and once a submitted request has
failed, no frame is published any more. -/
theorem sequencing_of_callers (request : ι → DldQuietSend) (tm : Pru.Timing) (r : Pru.Regs)
    (m₀ : DldCommand) (t : List (BoardAct ι)) (w : BoardState ι)
    (hrun : (board ι tm True).Run (callers request m₀ (Pru.code tm (.start, r))) t w) :
    (∀ i j, InFlight request i t → InFlight request j t → i = j) ∧
    (∀ a w', (board ι tm True).Step w a w' →
      (∃ i, a = .inl (i, sequenceStore (request i)) ∧
        w.mem.mailbox .requestSeq = (request i).previousSeq ∧
        w'.mem.mailbox .requestSeq = (request i).previousSeq + 1) ∨
      (publishes a = false ∧ w'.mem.mailbox .requestSeq = w.mem.mailbox .requestSeq)) ∧
    (∀ i j pre mid post, t = pre ++ .inl (i, sequenceStore (request i)) :: mid ++
        .inl (j, sequenceStore (request j)) :: post →
      frames (.inl (i, sequenceStore (request i)) :: mid) < 2 ^ 32 →
      (request i).previousSeq ≠ (request j).previousSeq) ∧
    (∀ i a, w.clients i = .ret a →
      (a.1.submitted = 0 ∧ a.2 < 0 ∧ (events i t).filter isStore = []) ∨
      (a.1.submitted = 1 ∧
        (events i t).filter isSequenceStore = [sequenceStore (request i)])) ∧
    (∀ i a, w.clients i = .ret a → a.1.submitted = 1 → a.2 ≠ 0 →
      ∀ t' w', (board ι tm True).Run w t' w' → frames t' = 0) := by
  have hstart := underway_start request tm r m₀
  have hnow : Underway request tm _ w _ _ := Proofs.Good.run sequencing_upholds hstart hrun
  have hsafe (i : ι) := Proofs.Good.safeAlong sequencing_upholds hstart hrun i
  refine ⟨fun i j hi hj => ?_, fun a w' hstep => ?_, ?_, fun i a ha => ?_, fun i a ha hsub herr => ?_⟩
  · -- both hold the lock
    have hlocks (i : ι) (hi : InFlight request i t) :
        ((sequencing request tm fun i => m₀ (.lengths i)).watched (fun _ => ⟨.idle, .never⟩) t
          i).phase.locks = true := by
      obtain ⟨hstore, hheld⟩ := hi
      rcases locks_or_unlocked (hsafe i) with hidle | hlocks | hunlock
      · have hstored := (follows_of_safe (hsafe i)).stored
        rw [hidle] at hstored
        exact absurd (List.mem_filter.mpr ⟨hstore, rfl⟩) (by rw [show _ = [] from hstored]; simp)
      · exact hlocks
      · exact absurd hunlock hheld
    exact hnow.inv.unique (hlocks i hi) (hlocks j hj)
  · rcases hnow.requestSeq_step hstep with ⟨i, ha, -, hbefore, hafter⟩ | hkeep
    · exact .inl ⟨i, ha, hbefore, hafter⟩
    · exact .inr hkeep
  · -- the sequence has moved on by the number of frames
    rintro i j pre mid post rfl hframes
    rw [List.append_assoc] at hrun
    obtain ⟨w₁, hpre, hrest⟩ := System.run_append_iff.mp hrun
    have h₁ : Underway request tm _ w₁ _ _ := Proofs.Good.run sequencing_upholds hstart hpre
    obtain ⟨w₃, w₄, hmid, hj, -⟩ := System.Run.at hrest
    have h₃ := Proofs.Good.run sequencing_upholds h₁ hmid
    have hsum := h₁.requestSeq_run hmid
    have hown (i : ι) {w w' : BoardState ι} {g : ι → KState} {d : Pru.FState}
        (h : Underway request tm (fun i => m₀ (.lengths i)) w g d)
        (hstep : (board ι tm True).Step w (.inl (i, sequenceStore (request i))) w') :
        w.mem.mailbox .requestSeq = (request i).previousSeq := by
      rcases h.requestSeq_step hstep with ⟨i', ha, -, hbefore, -⟩ | ⟨hnot, -⟩
      · obtain rfl : i = i' := (Prod.mk.inj (Sum.inl.inj ha)).1
        exact hbefore
      · cases hnot
    have hi : w₁.mem.mailbox .requestSeq = (request i).previousSeq := by
      cases hmid with
      | cons hstep _ => exact hown i h₁ hstep
    rw [hown j h₃ hj, hi] at hsum
    have hpos : 0 < frames (.inl (i, sequenceStore (request i)) :: mid : List (BoardAct ι)) :=
      List.countP_pos_iff.mpr ⟨_, .head _, rfl⟩
    intro heq
    rw [← heq] at hsum
    have hnat := congrArg BitVec.toNat hsum
    have hlt := (request i).previousSeq.isLt
    simp only [BitVec.toNat_add, BitVec.toNat_ofNat] at hnat
    omega
  · -- a request that has returned
    have hruns : (performSend (request i).clearOutputs).Runs (events i t) a := by
      have hsteps : (performSend (request i).clearOutputs).Steps (events i t) (w.clients i) :=
        hrun.client_steps i
      rw [ha] at hsteps
      simpa using hsteps.runs (.ret a)
    obtain ⟨hatomic, -⟩ := performSend_atomic (request i) _ a hruns
    rcases hatomic.submitted with h0 | h1
    · obtain ⟨hneg, hnone⟩ := hatomic.refused h0
      exact .inl ⟨h0, hneg, hnone⟩
    · refine .inr ⟨h1, ?_⟩
      rw [← filter_sequenceStore]
      exact (hatomic.published h1).once
  · -- the magic stays cleared
    intro t' w' hrun'
    refine List.countP_eq_zero.mpr fun a' ha' hpub => ?_
    obtain ⟨pre, post, rfl⟩ := List.append_of_mem ha'
    obtain ⟨w₁, w₂, hpre, hstep, -, h₁, -⟩ := Proofs.Good.at sequencing_upholds hnow hrun'
    have hbroken : ((sequencing request tm fun i => m₀ (.lengths i)).watched
        (fun _ => ⟨.idle, .never⟩) t i).phase = .broken := by
      have hwp := hnow.client i
      rw [ha] at hwp
      exact Outcome.broken hwp hsub herr
    have hdone : events i pre = [] := by
      have hsteps := hpre.client_steps i
      rw [ha] at hsteps
      generalize events i pre = u at hsteps
      generalize w₁.clients i = q at hsteps
      cases hsteps
      rfl
    have hdead := h₁.inv.host i
    have hphase : ∀ g : ι → KState, (sequencing request tm fun i => m₀ (.lengths i)).watched g pre i =
        g i := by
      intro g
      show Monitor.run _ _ (events i pre) = _
      rw [hdone]
      rfl
    rw [hphase, hbroken] at hdead
    rcases Underway.requestSeq_step h₁ hstep with ⟨j, -, hcoloured, -, -⟩ | ⟨hnot, -⟩
    · have hlive := h₁.inv.host j
      rw [hcoloured] at hlive
      exact absurd (hlive.1.symm.trans hdead) (by decide)
    · rw [hpub] at hnot
      cases hnot

end Callers

/-! ### Two callers with the same request -/

/-- The mailbox on which PRU0 is started. -/
def freshMailbox : DldCommand := Function.update oneBankBoard.mailbox .status 0

/-- `START` publishes READY and leaves the rest as it is. -/
theorem fresh_through : Through (firmwareStep (ι := Unit)) ⟨freshMailbox, none⟩ oneBankStart
    ⟨oneBankBoard.mailbox, none⟩ := by
  have hboot : Pru.heard freshMailbox oneBankBoot = true := by decide +kernel
  have hready (m : Shared Unit) : Pru.heard m.mailbox
      ((Pru.publishReady oneBankRegs).exec Pru.silent).1 = true := rfl
  have hmailbox : oneBankBoard.mailbox = Pru.storedAll
      ((Pru.publishReady oneBankRegs).exec Pru.silent).1 (Pru.storedAll oneBankBoot freshMailbox) := by
    funext off
    cases off with
    | lengths i =>
      revert i
      decide +kernel
    | _ => decide +kernel
  rw [hmailbox, oneBankStart]
  have hfirst := Pru.through_firmware (m := ⟨freshMailbox, none⟩) hboot
  generalize (Pru.publishReady oneBankRegs).exec Pru.silent = ready at *
  generalize oneBankBoot = boot at *
  exact hfirst.append ((Pru.through_wait 40400).append (Pru.through_firmware (hready _)))

/-- The operations of the helper for the caller that comes second. -/
def lateSend : List KEvent × DldQuietSend × Int :=
  (performSend oneBankRequest.clearOutputs).execWith Board.answer
    { oneBankBoard with mailbox := oneBankReturned.mailbox }

/-- From the start of the firmware: the first caller sends a frame, and when
the second gets the lock the sequence has moved on. -/
theorem sequencing_of_callers_two :
    ∃ (t : List (BoardAct Bool)) (w : BoardState Bool),
      (board Bool Pru.profileTiming True).Run (callers (fun _ => oneBankRequest) freshMailbox
        (Pru.code Pru.profileTiming (.start, default))) t w ∧
      w.mem.mailbox .requestSeq = 1 ∧
      w.clients true = .ret oneBankSend.2 ∧ oneBankSend.2.2 = 0 ∧
      (events true t).filter isSequenceStore = [sequenceStore oneBankRequest] ∧
      w.clients false = .ret lateSend.2 ∧ lateSend.2.1.submitted = 0 ∧ lateSend.2.2 < 0 ∧
      (events false t).filter isStore = [] := by
  have hstart : Machine.Steps (Pru.code Pru.profileTiming)
      (Pru.code Pru.profileTiming (.start, default)) oneBankStart
      (Pru.code Pru.profileTiming (.requestLoop, oneBankRegs)) := .of_runs oneBankStart_runs
  have hnonempty : oneBankStart ≠ [] := by simp [oneBankStart]
  have hthrough := through_firmware_as true fresh_through
  have hheard : heard oneBankReturned lateSend.1 = true := by decide +kernel
  have howner : oneBankReturned.owner = none := by decide +kernel
  have hseq : (oneBankReturned.performAll lateSend.1).mailbox .requestSeq = 1 := by decide +kernel
  have hsent : oneBankSend.2.1.submitted = 1 ∧ oneBankSend.2.2 = 0 := by decide +kernel
  have hlate : lateSend.2.1.submitted = 0 := by decide +kernel
  have hruns : (performSend oneBankRequest.clearOutputs).Runs lateSend.1 lateSend.2 :=
    Prog.execWith_runs ..
  have hsecond : Through (helperStep True false) (oneBankReturned.as false) lateSend.1
      ((oneBankReturned.performAll lateSend.1).as false) :=
    through_helper_as false (through_helper hheard)
  -- the lock is free again
  have hfree : oneBankReturned.as true = oneBankReturned.as false := by
    rw [Shared.as, Shared.as, howner]
    rfl
  generalize oneBankReturned.performAll lateSend.1 = last at hsecond hseq
  -- START, the frame of the first caller, the refusal of the second
  have h₁ := System.run_of_device (S := board Bool Pru.profileTiming True)
    (w := callers (fun _ => oneBankRequest) freshMailbox
      (Pru.code Pru.profileTiming (.start, default))) hnonempty hstart hthrough
  obtain ⟨t, w, hframe, hmem, hclients⟩ := oneBank_run_among True true
    (w := ⟨Shared.as true ⟨oneBankBoard.mailbox, none⟩,
      fun _ => performSend oneBankRequest.clearOutputs,
      Pru.code Pru.profileTiming (.requestLoop, oneBankRegs)⟩) rfl rfl rfl
  obtain ⟨mem, clients, device⟩ := w
  obtain rfl : mem = _ := hmem
  obtain rfl : clients = _ := hclients
  rw [hfree] at hframe
  have h₂ := h₁.append hframe
  have h₃ := h₂.append (System.run_of_client (i := false) hruns.steps hsecond)
  obtain ⟨-, -, -, hreturn, -⟩ := sequencing_of_callers (fun _ => oneBankRequest) Pru.profileTiming
    default freshMailbox _ _ h₃
  refine ⟨_, _, h₃, hseq, rfl, hsent.2, ?_, rfl, hlate, ?_⟩
  · rcases hreturn true _ rfl with ⟨hzero, -⟩ | ⟨-, hstore⟩
    · exact absurd (hzero.symm.trans hsent.1) (by decide)
    · exact hstore
  · rcases hreturn false _ rfl with ⟨-, hneg, hnone⟩ | ⟨hone, -⟩
    · exact ⟨hneg, hnone⟩
    · exact absurd (hlate.symm.trans hone) (by decide)

end Dld
