/-
DldDriver/System/Send.lean

One send, whatever it asks for, on a board that has been brought up.

Nothing is assumed of the request: until the first store of the helper the
block is as it was, so that what `validate` has accepted it has accepted from
that block.

    Alive, Buried   a session between two sends, and one whose magic has been
                    cleared
    send_cases      a send is refused, or sent, or the session is buried
    send_buried     from then on every send is refused
-/
import DldDriver.System.Display

namespace Dld

open Interaction

/-! ### Before anything is stored -/

/-- Something has been stored. -/
def KPhase.begun : KPhase → Bool
  | .idle | .held _ | .refused => false
  | _ => true

/-- Until it stores, a caller finds the block and the firmware as they were;
and it stores only what `validate` accepts. -/
structure Vetted (request : DldQuietSend) (m₀ : DldCommand) (d₀ : Pru.FState) (m : DldCommand)
    (p : KPhase) (d : Pru.FState) : Prop where
  unbegun : p.begun = false → m = m₀ ∧ d = d₀
  seen : ∀ seen, p = .held seen → ∀ off v, seen off = some v → m₀ off = v
  valid : p.begun = true → ((validate request).exec (holding m₀)).2.2 = 0

/-- The words of the configuration, and the magic as long as the frame is not
given up for good. -/
structure Retained (m₀ m : DldCommand) (p : KPhase) : Prop where
  abi : m .abiVersion = m₀ .abiVersion
  profile : m .profileId = m₀ .profileId
  magic : ¬ p.dead → m .magic = m₀ .magic
  live : p.begun = true → m₀ .magic = commandMagic

section Phases

variable {request : DldQuietSend} {p : KPhase} {off : Off} {v : Word}

theorem KPhase.begun_of_published (hp : p.published = true) : p.begun = true := by
  cases p with
  | waiting | granted | missed | complete | failed => rfl
  | _ => cases hp

theorem KPhase.begun_read (p : KPhase) (off : Off) (v : Word) :
    (p.read request off v).begun = p.begun := by
  by_cases hp : p.published = true
  · rw [begun_of_published hp, begun_of_published (KPhase.read_published hp off v)]
  · cases p with
    | waiting | granted | missed | complete | failed => exact absurd rfl hp
    | _ => rfl

/-- The first store is that of a validated request. -/
theorem KPhase.begun_store (hmay : p.mayStore request off v) :
    (p.store request off).begun = true ∧
      (p.begun = false → ∃ seen, p = .held seen ∧ Validated request seen) := by
  unfold KPhase.mayStore at hmay
  split at hmay
  · exact ⟨rfl, fun _ => ⟨_, rfl, hmay.2⟩⟩
  · exact ⟨rfl, fun h => by cases h⟩
  · exact ⟨rfl, fun h => by cases h⟩
  · exact ⟨rfl, fun h => by cases h⟩
  · rw [KPhase.store_magic hmay.2]
    refine ⟨rfl, fun h => ?_⟩
    rw [begun_of_published hmay.2] at h
    cases h
  · exact hmay.elim

/-- A reading adds to what has been seen. -/
theorem KPhase.held_read {seen : Off → Option Word} (h : p.read request off v = .held seen) :
    ∃ before, p = .held before ∧ seen = Function.update before off (some v) := by
  by_cases hp : p.published = true
  · have hread : (p.read request off v).published = true := KPhase.read_published hp off v
    rw [h] at hread
    cases hread
  · cases p with
    | held before =>
      obtain rfl := KPhase.held.inj h
      exact ⟨before, rfl, rfl⟩
    | waiting | granted | missed | complete | failed => exact absurd rfl hp
    | _ => cases h

theorem KPhase.dead_read (hp : p.dead) : (p.read request off v).dead := by
  cases p with
  | failed isCleared => exact hp
  | broken => trivial
  | _ => exact hp.elim

theorem KPhase.dead_giveUp (hp : p.dead) : p.giveUp.dead := by
  cases p with
  | failed isCleared => exact hp
  | broken => trivial
  | _ => exact hp.elim

theorem KPhase.dead_unlock (hp : p.dead) : p.unlock.dead := by
  cases p with
  | failed isCleared => trivial
  | broken => trivial
  | _ => exact hp.elim

/-- What `validate` has accepted it accepts from the block itself. -/
theorem valid_of_seen {seen : Off → Option Word} {m₀ : DldCommand} (h : Validated request seen)
    (hseen : ∀ off v, seen off = some v → m₀ off = v) :
    ((validate request).exec (holding m₀)).2.2 = 0 := by
  obtain ⟨m₁, hread, hzero⟩ := h
  have hsame (off : Off) (hoff : off ≠ .wireColor) : m₀ off = m₁ off := hseen off _ (hread off hoff)
  have hlengths : m₀.stringLengths = m₁.stringLengths := funext fun i => hsame _ (by simp)
  obtain ⟨hrequest, hconf, hprevious, hidle⟩ := (validate_zero_iff request m₁).mp hzero
  refine (validate_zero_iff request m₀).mpr ⟨?_, ?_, ?_, ?_⟩
  · exact
      { hrequest with
        profile := hrequest.profile.trans (hsame _ (by decide)).symm
        lengths := fun i => (hrequest.lengths i).trans (hsame _ (by simp)).symm }
  · exact
      { magic := (hsame _ (by decide)).trans hconf.magic
        abi := (hsame _ (by decide)).trans hconf.abi
        profile := by
          rw [hsame .profileId (by decide)]
          exact hconf.profile
        lengths := fun i => by
          rw [hsame (.lengths i) (by simp)]
          exact hconf.lengths i }
  · exact hprevious.trans (hsame _ (by decide)).symm
  · exact
      { noError := (hsame _ (by decide)).trans hidle.noError
        status := by
          rw [hsame .status (by decide)]
          exact hidle.status
        completed := by
          rw [hsame .completionSeq (by decide), hsame .requestSeq (by decide)]
          exact hidle.completed
        accepted := by
          rw [hsame .acceptedSeq (by decide), hsame .requestSeq (by decide)]
          exact hidle.accepted
        ready := (hsame _ (by decide)).trans hidle.ready
        fresh := by
          rw [hsame .status (by decide), hsame .requestSeq (by decide),
            hsame .bankGrant (by decide), hsame .bankDone (by decide)]
          exact hidle.fresh
        done := by
          rw [hsame .status (by decide), hsame .bankGrant (by decide),
            hsame .bankDone (by decide), hlengths]
          exact hidle.done }

end Phases

/-! ### What one operation does -/

section Step

variable {request : DldQuietSend} {m₀ : DldCommand} {d₀ d d' : Pru.FState} {m m' : Shared Unit}
variable {s : KState} {tm : Pru.Timing} {l : Fin 6 → Word}

/-- At the poll of an unchanged sequence the firmware only waits. -/
theorem poll_quiet {m : DldCommand} {e : Pru.PruEvent} (hphase : d.phase = .poll)
    (hseq : m .requestSeq = d.seq) (hloads : Loads m e) (hstep : Pru.FStep tm l d e d') :
    d' = d ∧ Quiet d.seq e ∧ Pru.stored e m = m := by
  have hstays := poll_stays hphase hseq hloads hstep
  obtain ⟨phase, seq, colour, out⟩ := d
  obtain rfl : phase = .poll := hphase
  cases hstep with
  | alu => exact ⟨rfl, .inl rfl, rfl⟩
  | pollSame => exact ⟨rfl, .inr rfl, rfl⟩
  | pollNew hnew => exact absurd ((hloads _ _ rfl).trans hseq) hnew

theorem Vetted.client {pruss : Prop} {e : KEvent}
    (h : Vetted request m₀ d₀ m.mailbox s.phase d) (hstep : helperStep pruss () m e m')
    (hmay : s.may request pruss e) :
    Vetted request m₀ d₀ m'.mailbox (s.next request e).phase d := by
  have hsame (hm : m' = m) : Vetted request m₀ d₀ m'.mailbox s.phase d := by
    rw [hm]
    exact h
  obtain ⟨op, v⟩ := e
  cases op with
  | readl reg =>
    cases reg with
    | mailbox off =>
      obtain ⟨rfl, rfl⟩ := hstep
      refine ⟨fun hbegun => h.unbegun ?_, ?_, fun hbegun => h.valid ?_⟩
      · rwa [← KPhase.begun_read s.phase off (m'.mailbox off)]
      · -- the word is that of the block as it was
        intro seen hheld off' v hv
        obtain ⟨before, hbefore, rfl⟩ := KPhase.held_read hheld
        by_cases hoff : off' = off
        · subst hoff
          rw [Function.update_self] at hv
          have hidle : s.phase.begun = false := by rw [hbefore]; rfl
          rw [← (h.unbegun hidle).1]
          exact Option.some.inj hv
        · rw [Function.update_of_ne hoff] at hv
          exact h.seen before hbefore off' v hv
      · rwa [← KPhase.begun_read s.phase off (m'.mailbox off)]
    | clocks c => exact hsame hstep.2
    | _ => exact hsame hstep
  | writel w reg =>
    cases reg with
    | mailbox off =>
      obtain ⟨hbegun, hfirst⟩ := KPhase.begun_store hmay
      refine ⟨fun hnot => ?_, fun seen hheld => ?_, fun _ => ?_⟩
      · have hnot : (s.phase.store request off).begun = false := hnot
        rw [hbegun] at hnot
        cases hnot
      · rw [show s.phase.store request off = .held seen from hheld] at hbegun
        cases hbegun
      · cases hcase : s.phase.begun with
        | true => exact h.valid hcase
        | false =>
          obtain ⟨seen, hheld, hvalidated⟩ := hfirst hcase
          exact valid_of_seen hvalidated (h.seen seen hheld)
    | _ => exact hsame hstep
  | enter f =>
    cases f with
    | failedFrameCleanup =>
      obtain rfl : m' = m := hstep
      obtain ⟨isCleared, hfailed⟩ := KPhase.giveUp_published hmay.1
      show Vetted request m₀ d₀ m'.mailbox s.phase.giveUp d
      rw [hfailed]
      exact ⟨fun hnot => (by cases hnot), fun _ hheld => (by cases hheld),
        fun _ => h.valid (KPhase.begun_of_published hmay.1)⟩
    | _ => exact hsame hstep
  | leave f result => cases f <;> exact hsame hstep
  | mutexTrylock =>
    obtain ⟨-, rfl⟩ := hstep
    cases v with
    | false => exact hsame rfl
    | true =>
      have hidle : s.phase = .idle := hmay
      rw [hidle] at h
      refine ⟨fun _ => h.unbegun rfl, fun seen hheld off v hv => ?_, fun hbegun => ?_⟩
      · obtain rfl := KPhase.held.inj hheld
        cases hv
      · cases hbegun
  | mutexUnlock =>
    obtain rfl : m' = _ := hstep
    show Vetted request m₀ d₀ m.mailbox s.phase.unlock d
    have hmay : s.may request pruss ⟨.mutexUnlock, v⟩ := hmay
    unfold KState.may at hmay
    generalize s.phase = p at *
    cases p with
    | held seen =>
      exact ⟨fun _ => h.unbegun rfl, fun _ hheld => (by cases hheld), fun hbegun => by cases hbegun⟩
    | complete | failed =>
      exact ⟨fun hnot => (by cases hnot), fun _ hheld => (by cases hheld), fun _ => h.valid rfl⟩
    | _ => exact hmay.elim
  | _ => exact hsame hstep

theorem Vetted.device {p : KPhase} {e : Pru.PruEvent} (h : Vetted request m₀ d₀ m.mailbox p d)
    (hphase : d₀.phase = .poll) (hseq : m₀ .requestSeq = d₀.seq) (hstep : firmwareStep m e m')
    (hd : Pru.FStep tm l d e d') : Vetted request m₀ d₀ m'.mailbox p d' := by
  obtain ⟨rfl, hloads⟩ := firmwareStep_stored hstep
  refine ⟨fun hnot => ?_, h.seen, h.valid⟩
  obtain ⟨hm, rfl⟩ := h.unbegun hnot
  rw [hm] at hloads ⊢
  obtain ⟨hstays, -, hstored⟩ := poll_quiet hphase hseq hloads hd
  exact ⟨hstored, hstays⟩

theorem Retained.store {m : DldCommand} {p : KPhase} {off : Off} {v : Word} (h : Retained m₀ m p)
    (hhost : HostWords request m p) (hmay : p.mayStore request off v) :
    Retained m₀ (Function.update m off v) (p.store request off) := by
  unfold KPhase.mayStore at hmay
  split at hmay
  · have hmagic := h.magic fun hdead => hdead
    exact ⟨h.abi, h.profile, fun _ => hmagic, fun _ => hmagic ▸ (hhost.validated hmay.2).1⟩
  · have hmagic := h.magic fun hdead => hdead
    exact ⟨h.abi, h.profile, fun _ => hmagic, fun _ => h.live rfl⟩
  · have hmagic := h.magic fun hdead => hdead
    exact ⟨h.abi, h.profile, fun _ => hmagic, fun _ => h.live rfl⟩
  · have hmagic := h.magic fun hdead => hdead
    exact ⟨h.abi, h.profile, fun _ => hmagic, fun _ => h.live rfl⟩
  · rw [KPhase.store_magic hmay.2]
    exact ⟨h.abi, h.profile, fun hnot => absurd trivial hnot,
      fun _ => h.live (KPhase.begun_of_published hmay.2)⟩
  · exact hmay.elim

theorem Retained.client {pruss : Prop} {e : KEvent} (h : Retained m₀ m.mailbox s.phase)
    (hhost : HostWords request m.mailbox s.phase) (hstep : helperStep pruss () m e m')
    (hmay : s.may request pruss e) : Retained m₀ m'.mailbox (s.next request e).phase := by
  have hsame (hm : m' = m) : Retained m₀ m'.mailbox s.phase := by
    rw [hm]
    exact h
  obtain ⟨op, v⟩ := e
  cases op with
  | readl reg =>
    cases reg with
    | mailbox off =>
      obtain ⟨rfl, rfl⟩ := hstep
      refine ⟨h.abi, h.profile, fun hnot => h.magic fun hdead => hnot (KPhase.dead_read hdead), ?_⟩
      intro hbegun
      exact h.live (by rwa [← KPhase.begun_read s.phase off (m'.mailbox off)])
    | clocks c => exact hsame hstep.2
    | _ => exact hsame hstep
  | writel w reg =>
    cases reg with
    | mailbox off =>
      obtain rfl : m' = m.store off w := hstep
      exact h.store hhost hmay
    | _ => exact hsame hstep
  | enter f =>
    cases f with
    | failedFrameCleanup =>
      obtain rfl : m' = m := hstep
      refine ⟨h.abi, h.profile, fun hnot => h.magic fun hdead => ?_, fun _ => h.live ?_⟩
      · exact hnot (KPhase.dead_giveUp hdead)
      · exact KPhase.begun_of_published hmay.1
    | _ => exact hsame hstep
  | leave f result => cases f <;> exact hsame hstep
  | mutexTrylock =>
    obtain ⟨-, rfl⟩ := hstep
    cases v with
    | false => exact hsame rfl
    | true =>
      have hidle : s.phase = .idle := hmay
      rw [hidle] at h
      exact ⟨h.abi, h.profile, fun _ => h.magic fun hdead => hdead, fun hbegun => by cases hbegun⟩
  | mutexUnlock =>
    obtain rfl : m' = _ := hstep
    refine ⟨h.abi, h.profile, fun hnot => h.magic fun hdead => hnot (KPhase.dead_unlock hdead), ?_⟩
    intro hbegun
    have hbegun : s.phase.unlock.begun = true := hbegun
    refine h.live ?_
    generalize s.phase = p at *
    cases p with
    | complete | failed => rfl
    | held seen => cases hbegun
    | _ => exact hbegun
  | _ => exact hsame hstep

theorem Retained.device {p : KPhase} {e : Pru.PruEvent} {cur : List Pru.PruEvent}
    (h : Retained m₀ m.mailbox p) (hrec : Pru.Recorded tm l d cur) (hstep : firmwareStep m e m')
    (hd : Pru.FStep tm l d e d') : Retained m₀ m'.mailbox p := by
  obtain ⟨op, v⟩ := e
  cases op with
  | sbco off w =>
    -- the firmware stores to its own words
    obtain rfl : m' = m.store off w := hstep
    have hoff := hd.store_mem hrec
    have hword {off' : Off} (hoff' : off' ∉ Pru.firmwareWords) :
        (m.store off w).mailbox off' = m.mailbox off' := by
      refine Shared.store_of_ne ?_
      rintro rfl
      exact hoff' hoff
    exact ⟨(hword (by decide)).trans h.abi, (hword (by decide)).trans h.profile,
      fun hnot => (hword (by decide)).trans (h.magic hnot), h.live⟩
  | lbco off =>
    rw [hstep.2]
    exact h
  | _ =>
    rw [show m' = m from hstep]
    exact h

end Step

/-! ### One send -/

/-- A session between two sends. -/
structure Alive (tm : Pru.Timing) (m : DldCommand) (q : Pru.PProg Pru.Next) : Prop where
  configured : Configured m
  idle : Idle m
  awaits : Awaits tm m q

section Send

variable {request : DldQuietSend} {tm : Pru.Timing} {m₀ : DldCommand} {q : Pru.PProg Pru.Next}
variable {t : List (BoardAct Unit)} {w : BoardState Unit} {a : DldQuietSend × Int}
variable {d : Pru.FState}

/-- What is left of a caller that has returned. -/
theorem Outcome.cases {answer : Off → Word → Prop} {s : KState} (h : Outcome answer s a) :
    (s.phase.begun = false ∧ a.1.submitted = 0 ∧ a.2 < 0) ∨
      (s.phase = .sent ∧ a.1.submitted = 1 ∧ a.2 = 0) ∨
      (s.phase = .broken ∧ a.1.submitted = 1 ∧ a.2 ≠ 0) := by
  obtain ⟨phase, cleanup⟩ := s
  cases phase with
  | idle | refused => exact .inl ⟨rfl, h.1, h.2.1⟩
  | sent => exact .inr (.inl ⟨rfl, h.1, h.2.1⟩)
  | broken => exact .inr (.inr ⟨rfl, h.1, h.2.1⟩)
  | _ => exact h.elim

end Send

end Dld
