/-
DldDriver/Kernel/Publication.lean

Publication atomicity of the ioctl: what a run has stored, and whether it
has run the cleanup, read off the phase in which it ends.

    Follows request t s     the stores and the cleanup marks of t are those
                            of a frame that has come to the state s
-/
import DldDriver.Kernel.Frame

namespace Dld

open Interaction

/-! ### Stores and cleanup marks -/

/-- A store to a device register: mailbox, PRU control, GPIO or CPSW. -/
def isStore (e : KEvent) : Bool :=
  match e.1 with
  | .writel .. => true
  | _ => false

/-- The entry to or the return from `failed_frame_cleanup`. -/
def isCleanupMark (e : KEvent) : Bool :=
  match e.1 with
  | .enter .failedFrameCleanup | .leave .failedFrameCleanup _ => true
  | _ => false

/-- The store that makes a request visible to the firmware. -/
def sequenceStore (request : DldQuietSend) : KEvent :=
  ⟨.writel (request.previousSeq + 1) (.mailbox .requestSeq), ()⟩

/-- A store to `request_seq`. -/
def isSequenceStore (e : KEvent) : Bool :=
  match e.1 with
  | .writel _ (.mailbox .requestSeq) => true
  | _ => false

theorem filter_sequenceStore (t : List KEvent) :
    (t.filter isStore).filter isSequenceStore = t.filter isSequenceStore := by
  rw [List.filter_filter]
  refine List.filter_congr fun e _ => ?_
  obtain ⟨op, v⟩ := e
  cases op <;> simp [isStore, isSequenceStore]

/-- The stores that publish a request, in order. -/
def publication (request : DldQuietSend) : List KEvent :=
  [grantStore 0, ⟨.writel (wireColor request.profileId request.rgb) (.mailbox .wireColor), ()⟩,
    sequenceStore request]

/-- One complete execution of `failed_frame_cleanup`. -/
def cleanedOnce : List KEvent :=
  [⟨.enter .failedFrameCleanup, ()⟩, ⟨.leave .failedFrameCleanup 0, ()⟩]

variable {request : DldQuietSend} {t : List KEvent} {e : KEvent} {s : KState}

/-- The stores of a published frame: its publication first, and `request_seq`
only once. -/
structure Published (request : DldQuietSend) (stores : List KEvent) : Prop where
  first : publication request <+: stores
  once : stores.filter isSequenceStore = [sequenceStore request]

/-- The stores of a frame that has come to a phase. -/
def StoredAt (request : DldQuietSend) (stores : List KEvent) : KPhase → Prop
  | .idle | .held _ | .refused => stores = []
  | .zeroed => stores = (publication request).take 1
  | .coloured => stores = (publication request).take 2
  | _ => Published request stores

/-- The cleanup marks of a frame. -/
def MarkedAt (marks : List KEvent) : Cleanup → Prop
  | .never => marks = []
  | .running => marks = cleanedOnce.take 1
  | .over => marks = cleanedOnce

/-- The trace of a frame that has come to a state. -/
structure Follows (request : DldQuietSend) (t : List KEvent) (s : KState) : Prop where
  stored : StoredAt request (t.filter isStore) s.phase
  marked : MarkedAt (t.filter isCleanupMark) s.cleanup

/-! ### One event -/

theorem Published.snoc {stores : List KEvent} (h : Published request stores)
    (he : isSequenceStore e = false) : Published request (stores ++ [e]) := by
  refine ⟨h.first.trans (List.prefix_append _ _), ?_⟩
  rw [List.filter_append, h.once]
  simp [he]

/-- A published frame has stored its publication. -/
theorem storedAt_published {stores : List KEvent} {p : KPhase} (hp : p.published = true) :
    StoredAt request stores p ↔ Published request stores := by
  cases p <;> first | exact Iff.rfl | cases hp

theorem StoredAt.read {stores : List KEvent} {p : KPhase} (h : StoredAt request stores p) (off : Off)
    (v : Word) : StoredAt request stores (p.read request off v) := by
  by_cases hp : p.published = true
  · rw [storedAt_published (KPhase.read_published hp off v), ← storedAt_published hp]
    exact h
  · cases p with
    | waiting | granted | missed | complete | failed => exact absurd rfl hp
    | _ => exact h

/-- A store is the next one of the publication, or comes after it. -/
theorem StoredAt.store {stores : List KEvent} {p : KPhase} {off : Off} {v : Word}
    (h : StoredAt request stores p) (hmay : p.mayStore request off v) :
    StoredAt request (stores ++ [⟨.writel v (.mailbox off), ()⟩]) (p.store request off) := by
  unfold KPhase.mayStore at hmay
  split at hmay
  · -- the first store
    obtain rfl := hmay.1
    obtain rfl : stores = [] := h
    rfl
  · subst hmay
    obtain rfl : stores = _ := h
    rfl
  · subst hmay
    obtain rfl : stores = _ := h
    exact ⟨List.prefix_refl _, rfl⟩
  · -- a grant
    exact Published.snoc h rfl
  · -- the magic is cleared
    obtain ⟨rfl, hp⟩ := hmay
    rw [KPhase.store_magic hp]
    exact ((storedAt_published hp).mp h).snoc rfl
  · exact hmay.elim

/-- Following the automaton, one event further. -/
theorem Follows.snoc {pruss : Prop} (h : Follows request t s) (hmay : s.may request pruss e) :
    Follows request (t ++ [e]) (s.next request e) := by
  obtain ⟨hstored, hmarked⟩ := h
  obtain ⟨op, v⟩ := e
  have hsame (hstore : isStore ⟨op, v⟩ = false) :
      (t ++ ([⟨op, v⟩] : List KEvent)).filter isStore = t.filter isStore := by
    simp [hstore]
  have hunmarked (hmark : isCleanupMark ⟨op, v⟩ = false) :
      (t ++ ([⟨op, v⟩] : List KEvent)).filter isCleanupMark = t.filter isCleanupMark := by
    simp [hmark]
  cases op with
  | readl reg =>
    refine ⟨?_, by rw [hunmarked rfl]; cases reg <;> exact hmarked⟩
    rw [hsame rfl]
    cases reg with
    | mailbox off => exact hstored.read off v
    | _ => exact hstored
  | writel w reg =>
    refine ⟨?_, by rw [hunmarked rfl]; cases reg <;> exact hmarked⟩
    have hsnoc : (t ++ ([⟨.writel w reg, v⟩] : List KEvent)).filter isStore =
        t.filter isStore ++ [⟨.writel w reg, v⟩] := by
      simp [isStore]
    rw [hsnoc]
    cases reg with
    | mailbox off => exact hstored.store hmay
    | _ =>
      have hp : s.phase.published = true := hmay
      exact (storedAt_published hp).mpr (((storedAt_published hp).mp hstored).snoc rfl)
  | enter f =>
    cases f with
    | failedFrameCleanup =>
      obtain ⟨hp, hnever⟩ := hmay
      refine ⟨?_, ?_⟩
      · rw [hsame rfl]
        have hgiveUp : s.phase.giveUp.published = true := by
          obtain ⟨isCleared, hfailed⟩ := KPhase.giveUp_published hp
          rw [hfailed]
          rfl
        exact (storedAt_published hgiveUp).mpr ((storedAt_published hp).mp hstored)
      · rw [hnever] at hmarked
        have hnone : t.filter isCleanupMark = [] := hmarked
        show (t ++ _).filter isCleanupMark = _
        rw [List.filter_append, hnone]
        rfl
    | _ => exact ⟨by rw [hsame rfl]; exact hstored, by rw [hunmarked rfl]; exact hmarked⟩
  | leave f result =>
    cases f with
    | failedFrameCleanup =>
      obtain ⟨rfl, hrunning⟩ := hmay
      refine ⟨by rw [hsame rfl]; exact hstored, ?_⟩
      rw [hrunning] at hmarked
      have hentered : t.filter isCleanupMark = cleanedOnce.take 1 := hmarked
      show (t ++ _).filter isCleanupMark = _
      rw [List.filter_append, hentered]
      rfl
    | _ => exact ⟨by rw [hsame rfl]; exact hstored, by rw [hunmarked rfl]; exact hmarked⟩
  | mutexTrylock =>
    obtain ⟨phase, cleanup⟩ := s
    obtain rfl : phase = .idle := hmay
    cases v with
    | false => exact ⟨by rw [hsame rfl]; exact hstored, by rw [hunmarked rfl]; exact hmarked⟩
    | true => exact ⟨by rw [hsame rfl]; exact hstored, by rw [hunmarked rfl]; exact hmarked⟩
  | mutexUnlock =>
    refine ⟨?_, by rw [hunmarked rfl]; exact hmarked⟩
    rw [hsame rfl]
    show StoredAt request _ s.phase.unlock
    generalize s.phase = p at hstored
    cases p <;> exact hstored
  | _ => exact ⟨by rw [hsame rfl]; exact hstored, by rw [hunmarked rfl]; exact hmarked⟩

/-! ### A whole run -/

/-- A safe trace follows the automaton. -/
theorem follows_of_safe {pruss : Prop} {answer : Off → Word → Prop}
    (hsafe : (helper request pruss answer).SafeAlong ⟨.idle, .never⟩ t) :
    Follows request t ((helper request pruss answer).run ⟨.idle, .never⟩ t) := by
  induction t using List.reverseRecOn with
  | nil => exact ⟨rfl, rfl⟩
  | append_singleton t e ih =>
    obtain ⟨hpre, hlast⟩ := Monitor.safeAlong_append.mp hsafe
    rw [Monitor.run_append]
    exact (ih hpre).snoc hlast.1

/-- No event of a safe trace is a copy of the user's structure. -/
theorem not_copy_of_safe {pruss : Prop} {answer : Off → Word → Prop} {s : KState}
    (hsafe : (helper request pruss answer).SafeAlong s t) :
    ∀ e ∈ t, e.1 ≠ .copyFromUser ∧ ∀ r, e.1 ≠ .copyToUser r := by
  intro e he
  obtain ⟨pre, post, rfl⟩ := List.append_of_mem he
  have hmay := hsafe.at
  obtain ⟨op, v⟩ := e
  refine ⟨?_, ?_⟩
  · rintro ⟨⟩
    exact hmay
  · rintro r ⟨⟩
    exact hmay

/-! ### The ioctl -/

/-- What the structured result `r` of a run says about the run. -/
structure Atomic (request r : DldQuietSend) (t : List KEvent) : Prop where
  submitted : r.submitted = 0 ∨ r.submitted = 1
  /-- not submitted: an error, and nothing was stored anywhere -/
  refused : r.submitted = 0 → r.result < 0 ∧ t.filter isStore = []
  published : r.submitted = 1 → Published request (t.filter isStore)
  /-- submitted, but failed: the cleanup ran once -/
  cleaned : r.submitted = 1 → r.result ≠ 0 → t.filter isCleanupMark = cleanedOnce
  accepted : r.result = 0 → r.submitted = 1

/-- Every run of `perform_send` is atomic. -/
theorem performSend_atomic (request : DldQuietSend) (t : List KEvent) (a : DldQuietSend × Int)
    (hrun : (performSend request.clearOutputs).Runs t a) :
    Atomic request { a.1 with result := a.2 } t ∧
      ∀ e ∈ t, e.1 ≠ .copyFromUser ∧ ∀ r, e.1 ≠ .copyToUser r := by
  have henv : (helper request False fun _ _ => True).EnvAlong ⟨.idle, .never⟩ t := by
    refine Monitor.envAlong_of_forall (fun s e => ?_) _ t
    obtain ⟨op, v⟩ := e
    cases op with
    | readl reg => cases reg <;> first | exact False.elim | exact fun _ => trivial | trivial
    | _ => trivial
  obtain ⟨hsafe, hout⟩ := Monitor.wp_runs wp_performSend hrun henv
  refine ⟨?_, not_copy_of_safe hsafe⟩
  obtain ⟨hstored, hmarked⟩ := follows_of_safe hsafe
  generalize (helper request False fun _ _ => True).run ⟨.idle, .never⟩ t = s at *
  obtain ⟨r, result⟩ := a
  obtain ⟨phase, cleanup⟩ := s
  cases phase with
  | idle | refused =>
    obtain ⟨hr, hneg, -⟩ := hout
    exact ⟨.inl hr, fun _ => ⟨hneg, hstored⟩, fun h => absurd (hr.symm.trans h) (by decide),
      fun h => absurd (hr.symm.trans h) (by decide), fun h0 => absurd h0 hneg.ne⟩
  | sent =>
    obtain ⟨hr, hzero, -⟩ := hout
    exact ⟨.inr hr, fun h => absurd (hr.symm.trans h) (by decide), fun _ => hstored,
      fun _ h => absurd hzero h, fun _ => hr⟩
  | broken =>
    obtain ⟨hr, herror, rfl⟩ := hout
    exact ⟨.inr hr, fun h => absurd (hr.symm.trans h) (by decide), fun _ => hstored,
      fun _ _ => hmarked, fun h0 => absurd h0 herror⟩
  | _ => exact hout.elim

/-- An atomic result stays atomic when more is done that neither stores nor
cleans up. -/
theorem Atomic.around {r : DldQuietSend} {pre post : List KEvent} (h : Atomic request r t)
    (hpre : ∀ e ∈ pre, isStore e = false ∧ isCleanupMark e = false)
    (hpost : ∀ e ∈ post, isStore e = false ∧ isCleanupMark e = false) :
    Atomic request r (pre ++ t ++ post) := by
  have hnone {f : KEvent → Bool} {l : List KEvent} (hl : ∀ e ∈ l, f e = false) :
      l.filter f = [] := by
    rw [List.filter_eq_nil_iff]
    intro e he
    rw [hl e he]
    exact Bool.false_ne_true
  have hstores : (pre ++ t ++ post).filter isStore = t.filter isStore := by
    rw [List.filter_append, List.filter_append, hnone fun e he => (hpre e he).1,
      hnone fun e he => (hpost e he).1, List.nil_append, List.append_nil]
  have hmarks : (pre ++ t ++ post).filter isCleanupMark = t.filter isCleanupMark := by
    rw [List.filter_append, List.filter_append, hnone fun e he => (hpre e he).2,
      hnone fun e he => (hpost e he).2, List.nil_append, List.append_nil]
  exact ⟨h.submitted, by rw [hstores]; exact h.refused, by rw [hstores]; exact h.published,
    by rw [hmarks]; exact h.cleaned, h.accepted⟩

/-- **Publication atomicity.**  In every run of the ioctl, whatever the
surroundings answer: the structured result it hands out is atomic, and
where it hands out none, nothing was stored. -/
theorem publication_atomicity (command : Word) (t : List KEvent) (a : Int × Option DldQuietSend)
    (hrun : (quietIoctl command).Runs t a) :
    (∀ request r copied, (⟨.copyFromUser, some request⟩ : KEvent) ∈ t →
      (⟨.copyToUser r, copied⟩ : KEvent) ∈ t → Atomic request r t) ∧
    ((∀ r copied, (⟨.copyToUser r, copied⟩ : KEvent) ∉ t) → t.filter isStore = []) ∧
    (∀ r, a.2 = some r → (⟨.copyToUser r, true⟩ : KEvent) ∈ t) := by
  revert t a
  refine Prog.all_iff.mp ?_
  refine Prog.all_ite.mpr ⟨fun _ => ⟨by simp, by simp, by simp⟩, fun _ => ?_⟩
  refine Prog.all_op_bind.mpr fun privileged => Prog.all_ite.mpr ⟨fun _ => ?_, fun _ => ?_⟩
  · exact ⟨by simp, fun _ => rfl, by simp⟩
  refine Prog.all_op_bind.mpr fun user => ?_
  cases user with
  | none => exact ⟨by simp, fun _ => rfl, by simp⟩
  | some request =>
    refine Prog.all_bind.mpr (Prog.all_mono (Prog.all_iff.mpr (performSend_atomic request)) ?_)
    rintro t ⟨r, result⟩ ⟨hatomic, hcopies⟩
    refine Prog.all_op_bind.mpr fun copied => ?_
    have hall : Atomic request { r with result := result } ([⟨.capable, privileged⟩,
        ⟨.copyFromUser, some request⟩] ++ t ++ [⟨.copyToUser { r with result := result }, copied⟩]) :=
      hatomic.around (by simp [isStore, isCleanupMark]) (by simp [isStore, isCleanupMark])
    revert hall
    generalize ht : [⟨.capable, privileged⟩, ⟨.copyFromUser, some request⟩] ++ t ++
      [⟨.copyToUser { r with result := result }, copied⟩] = t'
    intro hall
    have hmem : (⟨.copyToUser { r with result := result }, copied⟩ : KEvent) ∈ t' := by simp [← ht]
    have hboth : (∀ request r copied, (⟨.copyFromUser, some request⟩ : KEvent) ∈ t' →
          (⟨.copyToUser r, copied⟩ : KEvent) ∈ t' → Atomic request r t') ∧
        ((∀ r copied, (⟨.copyToUser r, copied⟩ : KEvent) ∉ t') → t'.filter isStore = []) := by
      refine ⟨fun request' r' copied' h h' => ?_, fun h => absurd hmem (h _ _)⟩
      simp only [← ht, List.mem_append, List.mem_cons, List.not_mem_nil, or_false] at h h'
      obtain rfl : request' = request := by
        rcases h with ((h | h) | h) | h
        · cases h
        · cases h
          rfl
        · exact absurd rfl (hcopies _ h).1
        · cases h
      obtain rfl : r' = { r with result := result } := by
        rcases h' with ((h' | h') | h') | h'
        · cases h'
        · cases h'
        · exact absurd rfl ((hcopies _ h').2 r')
        · cases h'
          rfl
      exact hall
    obtain rfl : [⟨.capable, privileged⟩, ⟨.copyFromUser, some request⟩] ++ t ++
      [⟨.copyToUser { r with result := result }, copied⟩] = t' := ht
    refine Prog.all_ite.mpr ⟨fun hcopied => ⟨hboth.1, hboth.2, fun r' h => nomatch h⟩, fun hcopied => ?_⟩
    refine ⟨hboth.1, hboth.2, fun r' h => ?_⟩
    obtain rfl : copied = true := by simpa using hcopied
    obtain rfl : { r with result := result } = r' := by simpa using h
    exact hmem

/-- The ioctl on a cooperative board: its result is submitted and zero, and
its first stores are those of the publication. -/
theorem publication_atomicity_oneBank :
    let run := (quietIoctl dldQuietIoctlSend).execWith Board.answer oneBankBoard
    ∃ r, run.2.2 = some r ∧ r.submitted = 1 ∧ Atomic oneBankRequest r run.1 ∧
      Published oneBankRequest (run.1.filter isStore) := by
  intro run
  have hrun : (quietIoctl dldQuietIoctlSend).Runs run.1 run.2 := Prog.execWith_runs _ _ _
  have hsubmitted : run.2.2.map (·.submitted) = some 1 := by decide +kernel
  obtain ⟨r, hr, hr1⟩ := Option.map_eq_some_iff.mp hsubmitted
  have hpublication := publication_atomicity dldQuietIoctlSend run.1 run.2 hrun
  have hrequest : (⟨.copyFromUser, some oneBankRequest⟩ : KEvent) ∈ run.1 := .tail _ (.head _)
  have hatomic := hpublication.1 oneBankRequest r true hrequest (hpublication.2.2 r hr)
  exact ⟨r, hr, hr1, hatomic, hatomic.published hr1⟩

end Dld
