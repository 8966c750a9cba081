/-
DldDriver/System/Delivery.lean

What a frame has come to when `perform_send` returns zero: the firmware has
sent every non-empty bank once, each between the grant of the helper and the
read of `bank_done` that ends its wait.
-/
import DldDriver.System.Handshake
import DldDriver.System.Rehearsal

namespace Dld

open Interaction

/-! ### A bank between its grant and its read -/

/-- A read of `bank_done`. -/
def isDoneRead : KEvent → Bool
  | ⟨.readl (.mailbox .bankDone), _⟩ => true
  | _ => false

/-- The read that finds bank `b` done. -/
def doneRead (b : Bank) : KEvent := ⟨.readl (.mailbox .bankDone), b.ordinal⟩

section Trace

variable {request : DldQuietSend} {pruss : Prop} {answer : Off → Word → Prop}
variable {s : KState} {e : KEvent} {t : List KEvent} {b : Bank} {bs : List Bank}

/-- A frame that is given up stays given up. -/
theorem KState.lost_next (hlost : s.phase.lost = true) (hmay : s.may request pruss e) :
    (s.next request e).phase.lost = true := by
  obtain ⟨op, v⟩ := e
  cases op with
  | readl reg =>
    cases reg with
    | mailbox off => exact KPhase.lost_read hlost off v
    | _ => exact hlost
  | writel w reg =>
    cases reg with
    | mailbox off => exact KPhase.lost_store hlost hmay
    | _ => exact hlost
  | enter f =>
    cases f with
    | failedFrameCleanup =>
      obtain ⟨isCleared, hfailed⟩ := KPhase.giveUp_published hmay.1
      show s.phase.giveUp.lost = true
      rw [hfailed]
      rfl
    | _ => exact hlost
  | leave f result => cases f <;> exact hlost
  | mutexTrylock =>
    have hidle : s.phase = .idle := hmay
    rw [hidle] at hlost
    cases hlost
  | mutexUnlock => exact KPhase.lost_unlock hlost
  | _ => exact hlost

theorem KState.lost_run (hlost : s.phase.lost = true)
    (hsafe : (helper request pruss answer).SafeAlong s t) :
    ((helper request pruss answer).run s t).phase.lost = true := by
  induction t generalizing s with
  | nil => exact hlost
  | cons e t ih => exact ih (KState.lost_next hlost hsafe.1) hsafe.2

/-- What a granted frame does next: it reads `bank_done`, or is given up, or
stays where it is. -/
theorem KState.next_granted (hphase : s.phase = .granted b bs) (hmay : s.may request pruss e) :
    (isDoneRead e = true ∧ (e = doneRead b ∨ (s.next request e).phase.lost = true)) ∨
      (isDoneRead e = false ∧
        ((s.next request e).phase = .granted b bs ∨ (s.next request e).phase.lost = true)) := by
  obtain ⟨phase, cleanup⟩ := s
  obtain rfl : phase = .granted b bs := hphase
  obtain ⟨op, v⟩ := e
  cases op with
  | readl reg =>
    cases reg with
    | mailbox off =>
      cases off with
      | bankDone =>
        refine .inl ⟨rfl, ?_⟩
        by_cases hv : v = b.ordinal
        · subst hv
          exact .inl rfl
        · refine .inr ?_
          show KPhase.lost (if _ then _ else _) = true
          rw [if_neg hv]
          rfl
      | _ => exact .inr ⟨rfl, .inl rfl⟩
    | _ => exact .inr ⟨rfl, .inl rfl⟩
  | writel w reg =>
    cases reg with
    | mailbox off =>
      cases off with
      | magic => exact .inr ⟨rfl, .inr rfl⟩
      | _ => exact hmay.elim
    | _ => exact .inr ⟨rfl, .inl rfl⟩
  | enter f =>
    cases f with
    | failedFrameCleanup => exact .inr ⟨rfl, .inr rfl⟩
    | _ => exact .inr ⟨rfl, .inl rfl⟩
  | leave f result => cases f <;> exact .inr ⟨rfl, .inl rfl⟩
  | mutexTrylock =>
    have hidle : KPhase.granted b bs = .idle := hmay
    cases hidle
  | mutexUnlock => exact hmay.elim
  | _ => exact .inr ⟨rfl, .inl rfl⟩

/-- After the grant the frame ends well only through the read that finds the
bank done. -/
theorem doneRead_of_sent (hphase : s.phase = .granted b bs)
    (hsafe : (helper request pruss answer).SafeAlong s t)
    (hsent : ((helper request pruss answer).run s t).phase = .sent) :
    ∃ u u', t = u ++ doneRead b :: u' ∧ ∀ e ∈ u, isDoneRead e = false := by
  induction t generalizing s with
  | nil =>
    have hboth : KPhase.granted b bs = .sent := hphase.symm.trans hsent
    cases hboth
  | cons e t ih =>
    obtain ⟨hmay, hrest⟩ := hsafe
    have hkept (hlost : (s.next request e).phase.lost = true) : False := by
      have hend := KState.lost_run hlost hrest
      have hsent : ((helper request pruss answer).run (s.next request e) t).phase = .sent := hsent
      rw [hsent] at hend
      cases hend
    rcases KState.next_granted hphase hmay with ⟨-, rfl | hlost⟩ | ⟨hread, hnext | hlost⟩
    · exact ⟨[], t, rfl, by simp⟩
    · exact (hkept hlost).elim
    · obtain ⟨u, u', rfl, hu⟩ := ih hnext hrest hsent
      refine ⟨e :: u, u', rfl, ?_⟩
      intro x hx
      rcases List.mem_cons.mp hx with rfl | hx
      · exact hread
      · exact hu x hx
    · exact (hkept hlost).elim

theorem KPhase.granted_of_read {p : KPhase} {off : Off} {v : Word}
    (h : p.read request off v = .granted b bs) : p = .granted b bs ∧ off ≠ .bankDone := by
  cases p with
  | granted b' bs' =>
    cases off with
    | bankDone =>
      have hread : (if v = b'.ordinal then .waiting bs' false else .missed) = KPhase.granted b bs := h
      split at hread <;> cases hread
    | _ => exact ⟨h, by simp⟩
  | waiting banks isMatched =>
    rcases KPhase.read_waiting request banks isMatched off v with ⟨isMatched', heq⟩ | ⟨-, heq⟩ <;>
      rw [heq] at h <;> cases h
  | _ => cases h

theorem KPhase.granted_of_store {p : KPhase} {off : Off} {v : Word}
    (hmay : p.mayStore request off v) (h : p.store request off = .granted b bs) :
    (⟨.writel v (.mailbox off), ()⟩ : KEvent) = grantStore b.ordinal := by
  unfold KPhase.mayStore at hmay
  split at hmay
  · cases h
  · cases h
  · cases h
  · obtain ⟨rfl, rfl⟩ := KPhase.granted.inj h
    rw [hmay]
    rfl
  · rw [KPhase.store_magic hmay.2] at h
    cases h
  · exact hmay.elim

/-- Only the grant of `b` leads to a frame in which `b` is granted. -/
theorem KState.granted_of_next (hmay : s.may request pruss e)
    (hnext : (s.next request e).phase = .granted b bs) :
    e = grantStore b.ordinal ∨ (isDoneRead e = false ∧ s.phase = .granted b bs) := by
  obtain ⟨op, v⟩ := e
  cases op with
  | readl reg =>
    cases reg with
    | mailbox off =>
      obtain ⟨hphase, hoff⟩ := KPhase.granted_of_read hnext
      refine .inr ⟨?_, hphase⟩
      cases off <;> first | rfl | exact absurd rfl hoff
    | _ => exact .inr ⟨rfl, hnext⟩
  | writel w reg =>
    cases reg with
    | mailbox off => exact .inl (KPhase.granted_of_store hmay hnext)
    | _ => exact .inr ⟨rfl, hnext⟩
  | enter f =>
    cases f with
    | failedFrameCleanup =>
      obtain ⟨isCleared, hfailed⟩ := KPhase.giveUp_published hmay.1
      have hgiven : s.phase.giveUp = .granted b bs := hnext
      rw [hfailed] at hgiven
      cases hgiven
    | _ => exact .inr ⟨rfl, hnext⟩
  | leave f result => cases f <;> exact .inr ⟨rfl, hnext⟩
  | mutexTrylock =>
    cases v with
    | false => exact .inr ⟨rfl, hnext⟩
    | true => cases hnext
  | mutexUnlock =>
    have hunlocked : s.phase.unlock = .granted b bs := hnext
    refine .inr ⟨rfl, ?_⟩
    cases hp : s.phase <;> rw [hp] at hunlocked <;> cases hunlocked
    rfl
  | _ => exact .inr ⟨rfl, hnext⟩

/-- Before a frame is in the phase in which `b` is granted, the helper has
stored that grant, and has not read `bank_done` since. -/
theorem grantStore_of_granted
    (hsafe : (helper request pruss answer).SafeAlong ⟨.idle, .never⟩ t)
    (hphase : ((helper request pruss answer).run ⟨.idle, .never⟩ t).phase = .granted b bs) :
    ∃ u u', t = u ++ grantStore b.ordinal :: u' ∧ ∀ e ∈ u', isDoneRead e = false := by
  induction t using List.reverseRecOn with
  | nil => cases hphase
  | append_singleton t e ih =>
    obtain ⟨hpre, hlast⟩ := Monitor.safeAlong_append.mp hsafe
    rw [Monitor.run_append] at hphase
    rcases KState.granted_of_next hlast.1 hphase with rfl | ⟨hread, hbefore⟩
    · exact ⟨t, [], rfl, by simp⟩
    · obtain ⟨u, u', rfl, hu⟩ := ih hpre hbefore
      refine ⟨u, u' ++ [e], by simp, fun x hx => ?_⟩
      rcases List.mem_append.mp hx with hx | hx
      · exact hu x hx
      · rw [List.mem_singleton.mp hx]
        exact hread

/-! ### The banks left to grant -/

/-- The banks that are still to be granted. -/
def KPhase.banks (request : DldQuietSend) : KPhase → List Bank
  | .idle | .held _ | .zeroed | .coloured => banksOf request
  | .waiting bs _ | .granted _ bs => bs
  | _ => []

theorem KPhase.banks_read (p : KPhase) (off : Off) (v : Word) :
    (p.read request off v).banks request <:+ p.banks request := by
  cases p with
  | waiting banks isMatched =>
    rcases KPhase.read_waiting request banks isMatched off v with ⟨isMatched', heq⟩ | ⟨-, heq⟩ <;>
      rw [heq]
    · exact List.suffix_refl _
    · exact List.nil_suffix
  | granted b bs =>
    cases off with
    | bankDone =>
      show KPhase.banks request (if v = b.ordinal then .waiting bs false else .missed) <:+ bs
      split
      · exact List.suffix_refl _
      · exact List.nil_suffix
    | _ => exact List.suffix_refl _
  | _ => exact List.suffix_refl _

theorem KPhase.banks_store {p : KPhase} {off : Off} {v : Word} (hmay : p.mayStore request off v) :
    (p.store request off).banks request <:+ p.banks request ∧
      ∀ b : Bank, (⟨.writel v (.mailbox off), ()⟩ : KEvent) = grantStore b.ordinal →
        p.banks request = b :: (p.store request off).banks request := by
  have hgrant {off' : Off} {v' : Word} {b : Bank}
      (h : (⟨.writel v' (.mailbox off'), ()⟩ : KEvent) = grantStore b.ordinal) :
      off' = .bankGrant ∧ v' = b.ordinal := by
    cases h
    exact ⟨rfl, rfl⟩
  unfold KPhase.mayStore at hmay
  split at hmay
  · refine ⟨List.suffix_refl _, fun b h => ?_⟩
    exact absurd ((hgrant h).2.symm.trans hmay.1) b.ordinal_ne_zero
  · exact ⟨List.suffix_refl _, fun b h => by cases (hgrant h).1⟩
  · exact ⟨List.suffix_refl _, fun b h => by cases (hgrant h).1⟩
  · refine ⟨List.suffix_cons _ _, fun b h => ?_⟩
    rw [Bank.ordinal_injective ((hgrant h).2.symm.trans hmay)]
    rfl
  · rw [KPhase.store_magic hmay.2]
    exact ⟨List.nil_suffix, fun b h => by cases (hgrant h).1⟩
  · exact hmay.elim

/-- Banks are granted from the front, and none is added. -/
theorem KState.banks_next (hmay : s.may request pruss e) :
    (s.next request e).phase.banks request <:+ s.phase.banks request ∧
      ∀ b : Bank, e = grantStore b.ordinal →
        s.phase.banks request = b :: (s.next request e).phase.banks request := by
  have hother {e : KEvent} (he : ∀ v, e ≠ grantStore v)
      (hnext : (s.next request e).phase.banks request <:+ s.phase.banks request) :
      (s.next request e).phase.banks request <:+ s.phase.banks request ∧
        ∀ b : Bank, e = grantStore b.ordinal →
          s.phase.banks request = b :: (s.next request e).phase.banks request :=
    ⟨hnext, fun b h => absurd h (he _)⟩
  obtain ⟨op, v⟩ := e
  cases op with
  | readl reg =>
    refine hother (by rintro v ⟨⟩) ?_
    cases reg with
    | mailbox off => exact KPhase.banks_read s.phase off v
    | _ => exact List.suffix_refl _
  | writel w reg =>
    cases reg with
    | mailbox off => exact KPhase.banks_store hmay
    | _ => exact hother (by rintro v ⟨⟩) (List.suffix_refl _)
  | enter f =>
    refine hother (by rintro v ⟨⟩) ?_
    cases f with
    | failedFrameCleanup =>
      obtain ⟨isCleared, hfailed⟩ := KPhase.giveUp_published hmay.1
      show s.phase.giveUp.banks request <:+ _
      rw [hfailed]
      exact List.nil_suffix
    | _ => exact List.suffix_refl _
  | leave f result =>
    refine hother (by rintro v ⟨⟩) ?_
    cases f <;> exact List.suffix_refl _
  | mutexTrylock =>
    refine hother (by rintro v ⟨⟩) ?_
    have hidle : s.phase = .idle := hmay
    cases v with
    | false => exact List.suffix_refl _
    | true =>
      rw [hidle]
      exact List.suffix_refl _
  | mutexUnlock =>
    refine hother (by rintro v ⟨⟩) ?_
    show s.phase.unlock.banks request <:+ _
    cases s.phase <;> first | exact List.suffix_refl _ | exact List.nil_suffix
  | _ => exact hother (by rintro v ⟨⟩) (List.suffix_refl _)

theorem KState.banks_run (hsafe : (helper request pruss answer).SafeAlong s t) :
    ((helper request pruss answer).run s t).phase.banks request <:+ s.phase.banks request := by
  induction t generalizing s with
  | nil => exact List.suffix_refl _
  | cons e t ih => exact (ih hsafe.2).trans (KState.banks_next hsafe.1).1

/-- Only banks that are left to grant are granted. -/
theorem mem_banks_of_grant (hsafe : (helper request pruss answer).SafeAlong s t)
    (hmem : grantStore b.ordinal ∈ t) : b ∈ s.phase.banks request := by
  induction t generalizing s with
  | nil => cases hmem
  | cons e t ih =>
    obtain ⟨hsuffix, hgrant⟩ := KState.banks_next hsafe.1
    rcases List.mem_cons.mp hmem with rfl | hmem
    · rw [hgrant b rfl]
      exact .head _
    · exact hsuffix.subset (ih hsafe.2 hmem)

theorem banksOf_nodup (request : DldQuietSend) : (banksOf request).Nodup := by
  have hpass : Bank.pass.Nodup := by decide
  exact hpass.filter _

/-- A bank is granted once. -/
theorem grantStore_once {u u' : List KEvent}
    (hsafe : (helper request pruss answer).SafeAlong ⟨.idle, .never⟩
      (u ++ grantStore b.ordinal :: u')) :
    grantStore b.ordinal ∉ u ∧ grantStore b.ordinal ∉ u' := by
  have hafter {v v' : List KEvent} (hsafe : (helper request pruss answer).SafeAlong
      ⟨.idle, .never⟩ (v ++ grantStore b.ordinal :: v')) : grantStore b.ordinal ∉ v' := by
    obtain ⟨hpre, hmay, hpost⟩ := Monitor.safeAlong_append.mp hsafe
    intro hmem
    have hleft := mem_banks_of_grant hpost hmem
    have hnodup := (banksOf_nodup request).sublist (KState.banks_run hpre).sublist
    have hmay : KState.may request pruss _ (grantStore b.ordinal) := hmay
    rw [(KState.banks_next hmay).2 b rfl] at hnodup
    exact (List.nodup_cons.mp hnodup).1 hleft
  refine ⟨fun hmem => ?_, hafter hsafe⟩
  obtain ⟨v, v', rfl⟩ := List.append_of_mem hmem
  rw [List.append_assoc, List.cons_append] at hsafe
  exact hafter hsafe (by simp)

end Trace

/-! ### The firmware before and within the frame -/

section History

variable {request : DldQuietSend} {l : Fin 6 → Word} {m₀ : DldCommand} {tm : Pru.Timing}

/-- Waiting for a new sequence. -/
def Quiet (seq : Word) (e : Pru.PruEvent) : Prop :=
  e = Pru.aluEv ∨ e = ⟨.lbco .requestSeq, seq⟩

/-- A history in which no frame but that of the request was begun. -/
structure Opening (request : DldQuietSend) (h : Pru.FHistory) : Prop where
  past : ∀ e ∈ h.past, Quiet request.previousSeq e
  idle : h.state.seq = request.previousSeq ↔ h.current = []

/-- Outside the frame the firmware is at its poll. -/
theorem Progress.poll {d : Pru.FState} (h : Progress request l m₀ d)
    (hseq : d.seq = request.previousSeq) : d.phase = .poll := by
  have hnew {P : Prop} (h : d.seq = request.previousSeq + 1) : P := by
    have hboth := hseq.symm.trans h
    exact absurd hboth (by simp)
  obtain ⟨phase, seq, colour, out⟩ := d
  cases phase with
  | poll => rfl
  | latch | clearReady | clearDone | accept | readColour => exact hnew h.1
  | start | settle | clearError | finish => exact hnew h.seq
  | enter | offer | gate | release | rerun | stream | drain =>
    obtain ⟨sent, -, hcarried⟩ := h
    exact hnew hcarried.seq
  | fatalStatus | halting | halted => exact hnew h
  | _ => exact h.elim

/-- The sequence changes at the poll only. -/
theorem poll_of_seq_ne {d d' : Pru.FState} {e : Pru.PruEvent} (hstep : Pru.FStep tm l d e d')
    (hne : d'.seq ≠ d.seq) : d.phase = .poll ∧ d'.phase = .latch := by
  cases hstep with
  | pollNew => exact ⟨rfl, rfl⟩
  | _ => exact absurd rfl hne

theorem Opening.next {h : Pru.FHistory} {e : Pru.PruEvent} {d' : Pru.FState}
    (hopen : Opening request h) (hp : Progress request l m₀ h.state)
    (hp' : Progress request l m₀ d') (hstep : Pru.FStep tm l h.state e d') :
    Opening request (h.next e d') := by
  unfold Pru.FHistory.next
  split_ifs with hseq hcur
  · -- the sequence of the request is latched
    obtain ⟨hpoll, hlatch⟩ := poll_of_seq_ne hstep hseq
    have hnew : d'.seq = request.previousSeq + 1 := by
      unfold Progress at hp'
      rw [hlatch] at hp'
      exact hp'.1
    have hprevious : h.state.seq = request.previousSeq := by
      unfold Progress at hp
      rw [hpoll] at hp
      rcases hp with ⟨hprevious, -⟩ | hcarried
      · exact hprevious
      · exact absurd (hnew.trans hcarried.seq.symm) hseq
    refine ⟨?_, ?_⟩
    · rw [hopen.idle.mp hprevious, List.append_nil]
      exact hopen.past
    · simp [hnew]
  · -- still waiting
    have hprevious := hopen.idle.mpr hcur
    have hphase := hp.poll hprevious
    have hquiet : Quiet request.previousSeq e := by
      obtain ⟨⟨phase, seq, colour, out⟩, past, current⟩ := h
      obtain rfl : phase = .poll := hphase
      obtain rfl : seq = request.previousSeq := hprevious
      cases hstep with
      | alu => exact .inl rfl
      | pollSame => exact .inr rfl
      | pollNew hnew => exact absurd hnew hseq
    refine ⟨?_, ?_⟩
    · intro x hx
      rcases List.mem_append.mp hx with hx | hx
      · exact hopen.past x hx
      · rw [List.mem_singleton.mp hx]
        exact hquiet
    · simp only [iff_true]
      exact (not_not.mp hseq).trans hprevious
  · refine ⟨hopen.past, ?_⟩
    rw [not_not.mp hseq, hopen.idle]
    simp [hcur]

/-- The bank whose SET or CLEAR register an event stores to. -/
def gpioBank : Pru.PruEvent → Option Bank
  | ⟨.sbbo address _, _⟩ => Bank.pass.find? fun b =>
    address = Pru.clearAddress b ∨ address = Pru.clearAddress b + 4
  | _ => none

theorem gpioBank_clear (b : Bank) (v : Word) :
    gpioBank (Pru.sbboEv (Pru.clearAddress b) v) = some b := by
  cases b <;> rfl

theorem gpioBank_set (b : Bank) (v : Word) :
    gpioBank (Pru.sbboEv (Pru.clearAddress b + 4) v) = some b := by
  cases b <;> rfl

/-- The firmware is in the stream or in the drain of bank `b`. -/
def Sending (b : Bank) (d : Pru.FState) : Prop :=
  match d.phase with
  | .stream b' _ _ | .drain b' _ _ => b' = b
  | _ => False

/-- Only the stream and the drain of a bank store to its GPIO block. -/
theorem sending_of_gpioBank {d d' : Pru.FState} {e : Pru.PruEvent} {b : Bank}
    {cur : List Pru.PruEvent} (hp : Progress request l m₀ d) (hrec : Pru.Recorded tm l d cur)
    (hstep : Pru.FStep tm l d e d') (he : gpioBank e = some b) : Sending b d := by
  cases hstep with
  | boot => exact hp.elim
  | @stream seq colour out b' bs e left =>
    have hmem := Pru.mem_stream_of_recorded hrec rfl
    rcases List.mem_cons.mp hmem with rfl | hmem
    · cases he
    obtain ⟨p, hmem⟩ := Pru.mem_bankStream hmem
    rcases Pru.mem_pixelEvents hmem with rfl | ⟨one, rfl⟩ | ⟨final, one, rfl⟩ | rfl | rfl
    · cases he
    · cases he
    · cases he
    · exact Option.some_inj.mp ((gpioBank_set b' _).symm.trans he)
    · exact Option.some_inj.mp ((gpioBank_clear b' _).symm.trans he)
  | @drainClear seq colour out b' bs n hn =>
    exact Option.some_inj.mp ((gpioBank_clear b' _).symm.trans he)
  | _ => cases he

/-- While bank `b` is sent, the helper waits in its grant. -/
theorem Sync.granted_of_sending {m : DldCommand} {p : KPhase} {d : Pru.FState} {b : Bank}
    (h : Sync request l m₀ m p d) (hlost : p.lost = false) (hd : Sending b d) :
    ∃ bs, p = .granted b bs := by
  have hnot {P : Prop} {bs : List Bank} (h : Before request l bs d) : P := by
    obtain ⟨phase, seq, colour, out⟩ := d
    cases phase with
    | stream | drain => exact h.elim
    | _ => exact hd.elim
  have hbusy {P : Prop} (h : d.phase = .poll) : P := by
    unfold Sending at hd
    rw [h] at hd
    exact hd.elim
  cases p with
  | idle | held | refused => exact hbusy h.2.1
  | zeroed | coloured => exact hbusy h.2.1
  | waiting bs isMatched => exact hnot h.2.2.1
  | granted b' bs =>
    refine ⟨bs, ?_⟩
    rcases h.2.2.2 with hat | hbefore
    · obtain ⟨phase, seq, colour, out⟩ := d
      cases phase with
      | stream | drain =>
        obtain rfl : _ = b := hd
        obtain rfl : _ = b' := hat.1
        rfl
      | _ => exact hd.elim
    · exact hnot hbefore
  | complete | sent => exact hnot h.2.2.1
  | missed | failed | broken => cases hlost

/-- Where the helper has returned zero, the frame of the firmware is
complete. -/
theorem Sync.completed {m : DldCommand} {d : Pru.FState} {cur : List Pru.PruEvent}
    (h : Sync request l m₀ m .sent d) (hframe : Frame request l m₀) (hp : Progress request l m₀ d)
    (hrec : Pru.Recorded tm l d cur) (hidle : d.seq = request.previousSeq ↔ cur = []) :
    Pru.Completed tm l (request.previousSeq + 1) (wireColor request.profileId request.rgb) cur := by
  obtain ⟨-, -, hbefore, hcompleted, -⟩ := h
  have hearlier {P : Prop} (hout : d.out .completionSeq = request.previousSeq) : P := by
    have hboth := hout.symm.trans hcompleted
    exact absurd hboth (by simp)
  have hold {P : Prop} (hout : d.out = m₀) : P := hearlier (by rw [hout, hframe.completed])
  obtain ⟨phase, seq, colour, out⟩ := d
  have hcarried {status ready completion : Word} {sent : List Bank}
      (hcarried : Carried request seq colour out sent status ready completion)
      (h : Pru.Completed tm l seq colour cur) : Pru.Completed tm l (request.previousSeq + 1)
        (wireColor request.profileId request.rgb) cur := by
    rwa [hcarried.seq, hcarried.colour] at h
  cases phase with
  | poll =>
    rcases hp with ⟨-, hout⟩ | hnew
    · exact hold hout
    · refine hcarried hnew (hrec.resolve_left fun hnil => ?_)
      have hboth := (hidle.mpr hnil).symm.trans hnew.seq
      exact absurd hboth (by simp)
  | clearError | finish => exact hcarried hp hrec
  | latch | clearReady | clearDone => exact hold hp.2
  | accept | readColour =>
    refine hearlier ?_
    rw [hp.2]
    exact hframe.completed
  | start | settle => exact hearlier hp.completion
  | enter =>
    obtain ⟨sent, -, hwords⟩ := hp
    exact hearlier hwords.completion
  | offer | gate => cases hbefore
  | _ => exact hbefore.elim

end History

/-! ### A whole run -/

section Run

variable {request : DldQuietSend} {l : Fin 6 → Word} {m₀ : DldCommand} {tm : Pru.Timing}
variable {pruss : Prop} {Q : Unit → KState → DldQuietSend × Int → Prop}
variable {w w' : BoardState Unit} {g : Unit → KState} {d : Pru.FState} {t : List (BoardAct Unit)}

/-- A frame that is not given up at the end of a run never was. -/
theorem kept_of_run (hframe : Frame request l m₀)
    (h : (handshake request tm l m₀ pruss).Good Q w g d) (hrun : (board Unit tm pruss).Run w t w')
    (hkept : ((handshake request tm l m₀ pruss).watched g t ()).phase.lost = false) :
    (g ()).phase.lost = false := by
  by_contra hlost
  have hsafe := Proofs.Good.safeAlong (handshake_upholds hframe) h hrun ()
  have hend : ((handshake request tm l m₀ pruss).watched g t ()).phase.lost = true :=
    KState.lost_run (by simpa using hlost) hsafe
  rw [hend] at hkept
  cases hkept

/-- The firmware begins no other frame. -/
theorem opening_of_run (hframe : Frame request l m₀)
    (h : (handshake request tm l m₀ pruss).Good Q w g d) (hrun : (board Unit tm pruss).Run w t w')
    (hkept : ((handshake request tm l m₀ pruss).watched g t ()).phase.lost = false)
    {h' : Pru.FHistory} (hstate : h'.state = d) (hopen : Opening request h') :
    Opening request (h'.run tm l (deviceEvents t)) := by
  induction hrun generalizing g d h' with
  | nil w => exact hopen
  | @cons w a w' t w'' hstep hrest ih =>
    obtain ⟨hsafe, hnext⟩ := Proofs.Good.step (handshake_upholds hframe) h hstep
    have hkept' := hkept
    rw [Proofs.watched_cons] at hkept'
    have hcons := System.Run.cons hstep hrest
    cases hstep with
    | client r hp hm => exact ih hnext hkept' hstate hopen
    | @device e q m' hp hm =>
      subst hstate
      obtain ⟨hp₁, -⟩ := h.inv.agreed (kept_of_run hframe h hcons hkept)
      obtain ⟨hp₂, -⟩ := hnext.inv.agreed (kept_of_run hframe hnext hrest hkept')
      have hfstep := Pru.FStep.of_safe hsafe
      exact ih hnext hkept' (Pru.FHistory.next_state ..) (hopen.next hp₁ hp₂ hfstep)

end Run

/-! ### The theorem -/

/-- A helper that has returned zero has sent its frame. -/
theorem Outcome.sent {answer : Off → Word → Prop} {s : KState} {a : DldQuietSend × Int}
    (h : Outcome answer s a) (hzero : a.2 = 0) :
    s.phase = .sent ∧ a.1.submitted = 1 ∧ Answered answer a.1 := by
  obtain ⟨phase, cleanup⟩ := s
  cases phase with
  | idle | refused => exact absurd hzero h.2.1.ne
  | sent => exact ⟨rfl, h.1, h.2.2.2⟩
  | broken => exact absurd hzero h.2.1
  | _ => exact h.elim

/-- **Delivery.**  Whatever the request, the idle session it meets and the
interleaving with the firmware in its request loop: when `perform_send` has
returned zero, the firmware has polled the old sequence, and then done one
complete frame with the new sequence and the colour of the request: each
non-empty bank once, in order, and the settle wait.  Every GPIO store of a
bank lies between the grant of the helper, which is stored once, and the
next read of `bank_done`, which finds the bank done. -/
theorem delivery (request : DldQuietSend) (tm : Pru.Timing) (m₀ : DldCommand) (r : Pru.Regs)
    (pruss : Prop) (t : List (BoardAct Unit)) (w : BoardState Unit) (a : DldQuietSend × Int)
    (hvalid : ((validate request).exec (holding m₀)).2.2 = 0)
    (hready : Pru.Ready tm (fun i => m₀ (.lengths i)) r) (hseq : r.r3 = m₀ .requestSeq)
    (hrun : (board Unit tm pruss).Run
      (callers (fun _ => request) m₀ (Pru.code tm (.requestLoop, r))) t w)
    (hreturned : w.clients () = .ret a) (hzero : a.2 = 0) :
    (∃ past cur, deviceEvents t = past ++ cur ∧
      (∀ e ∈ past, Quiet request.previousSeq e) ∧
      Pru.Completed tm (fun i => m₀ (.lengths i)) (request.previousSeq + 1)
        (wireColor request.profileId request.rgb) cur) ∧
    ∀ b pre e post, t = pre ++ .inr e :: post → gpioBank e = some b →
      ∃ u₁ u₂ u₃ u₄, events () pre = u₁ ++ grantStore b.ordinal :: u₂ ∧
        events () post = u₃ ++ doneRead b :: u₄ ∧ (∀ x ∈ u₂ ++ u₃, isDoneRead x = false) ∧
        grantStore b.ordinal ∉ u₁ ++ (u₂ ++ (u₃ ++ doneRead b :: u₄)) := by
  have hframe := frame_of_validate hvalid
  have hstart := underway_frame pruss hvalid hready hseq 0
  have hend := Proofs.Good.run (handshake_upholds hframe) hstart hrun
  have hsafe := Proofs.Good.safeAlong (handshake_upholds hframe) hstart hrun ()
  have hwp := hend.client ()
  rw [hreturned] at hwp
  obtain ⟨hsent, -, -⟩ := Outcome.sent hwp hzero
  have hkept : ((handshake request tm (fun i => m₀ (.lengths i)) m₀ pruss).watched
      (fun _ => ⟨.idle, .never⟩) t ()).phase.lost = false := by
    rw [hsent]
    rfl
  refine ⟨?_, ?_⟩
  · -- the record of the firmware at the end of the run
    have hdevice := Proofs.Good.deviceSafeAlong (handshake_upholds hframe) hstart hrun
    let before : Pru.FHistory := ⟨⟨.poll, request.previousSeq, 0, m₀⟩, [], []⟩
    obtain ⟨hstate, hevents, hrec⟩ := Pru.recorded_run (h := before) (.inl rfl) hdevice
    have hopen : Opening request (before.run tm _ (deviceEvents t)) :=
      opening_of_run hframe hstart hrun hkept rfl ⟨by simp [before], by simp [before]⟩
    obtain ⟨hp, hsync⟩ := hend.inv.agreed hkept
    rw [hsent] at hsync
    rw [hstate] at hrec
    have hidle := hopen.idle
    rw [hstate] at hidle
    exact ⟨_, _, hevents.symm, hopen.past, hsync.completed hframe hp hrec hidle⟩
  · -- the helper waits in its grant while the bank is sent
    rintro b pre e post rfl he
    obtain ⟨w₁, w₂, -, hstep, hpost, hgood, hact⟩ :=
      Proofs.Good.at (handshake_upholds hframe) hstart hrun
    have hevents : events () (pre ++ .inr e :: post) = events () pre ++ events () post := by simp
    have hkept' : ((handshake request tm (fun i => m₀ (.lengths i)) m₀ pruss).watched
        (fun _ => ⟨.idle, .never⟩) pre ()).phase.lost = false := by
      refine kept_of_run hframe hgood (.cons hstep hpost) ?_
      rw [← hkept]
      unfold Proofs.watched
      rw [hevents, Monitor.run_append]
      rfl
    obtain ⟨hp, hsync⟩ := hgood.inv.agreed hkept'
    obtain ⟨cur, hrec⟩ := hgood.inv.record
    have hsending := sending_of_gpioBank hp hrec (Pru.FStep.of_safe hact) he
    obtain ⟨bs, hgranted⟩ := hsync.granted_of_sending hkept' hsending
    rw [hevents] at hsafe
    obtain ⟨hsafe₁, hsafe₂⟩ := Monitor.safeAlong_append.mp hsafe
    have hsent' : ((helper request pruss (FinalIfFresh request (fun i => m₀ (.lengths i)) m₀)).run
        ((helper request pruss (FinalIfFresh request (fun i => m₀ (.lengths i)) m₀)).run
          ⟨.idle, .never⟩ (events () pre)) (events () post)).phase = .sent := by
      rw [← hsent, ← Monitor.run_append, ← hevents]
      rfl
    obtain ⟨u₁, u₂, hpre, hu₂⟩ := grantStore_of_granted hsafe₁ hgranted
    obtain ⟨u₃, u₄, hpost', hu₃⟩ := doneRead_of_sent hgranted hsafe₂ hsent'
    refine ⟨u₁, u₂, u₃, u₄, hpre, hpost', ?_, ?_⟩
    · intro x hx
      rcases List.mem_append.mp hx with hx | hx
      · exact hu₂ x hx
      · exact hu₃ x hx
    · rw [hpre, hpost', List.append_assoc, List.cons_append] at hsafe
      obtain ⟨hbefore, hafter⟩ := grantStore_once hsafe
      rw [List.mem_append, not_or]
      exact ⟨hbefore, hafter⟩

theorem delivery_oneBank :
    ∃ (t : List (BoardAct Unit)) (w : BoardState Unit), w.clients () = .ret oneBankSend.2 ∧
      (∃ past cur, deviceEvents t = past ++ cur ∧
        (∀ e ∈ past, Quiet oneBankRequest.previousSeq e) ∧
        Pru.Completed Pru.profileTiming (fun i => oneBankBoard.mailbox (.lengths i))
          (oneBankRequest.previousSeq + 1) (wireColor oneBankRequest.profileId oneBankRequest.rgb)
          cur) ∧
      ∀ b pre e post, t = pre ++ Sum.inr e :: post → gpioBank e = some b →
        ∃ u₁ u₂ u₃ u₄, events () pre = u₁ ++ grantStore b.ordinal :: u₂ ∧
          events () post = u₃ ++ doneRead b :: u₄ ∧ (∀ x ∈ u₂ ++ u₃, isDoneRead x = false) ∧
          grantStore b.ordinal ∉ u₁ ++ (u₂ ++ (u₃ ++ doneRead b :: u₄)) := by
  obtain ⟨t, w, hrun, hreturned⟩ := oneBank_run True
  exact ⟨t, w, hreturned, delivery oneBankRequest Pru.profileTiming oneBankBoard.mailbox
    oneBankRegs True t w oneBankSend.2 (by decide +kernel) oneBank_ready rfl hrun hreturned
    (by decide +kernel)⟩

end Dld
