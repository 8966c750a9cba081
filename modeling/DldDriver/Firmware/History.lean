/-
DldDriver/Firmware/History.lean

What the firmware has done when it is in a given phase.

The events since the last sequence was latched determine the frame so far:
the acceptance, then for each non-empty bank its gate, its stream and its
drain, then the settle wait.  `Recorded` says so phase by phase, and every
transition of the automaton keeps it (`recorded_next`).

Register instructions outside a stream carry no information; `accesses`
leaves them out.
-/
import DldDriver.Firmware.Protocol

namespace Dld

open Interaction

namespace Pru

/-! ### Accesses -/

/-- The events other than register instructions. -/
def accesses (t : List PruEvent) : List PruEvent := t.filter (· ≠ aluEv)

@[simp] theorem accesses_nil : accesses [] = [] := rfl

@[simp] theorem accesses_append (t t' : List PruEvent) :
    accesses (t ++ t') = accesses t ++ accesses t' := List.filter_append ..

@[simp] theorem accesses_alu : accesses [aluEv] = [] := rfl

theorem accesses_singleton {e : PruEvent} (h : e ≠ aluEv) : accesses [e] = [e] := by
  simp [accesses, h]

theorem mem_accesses {t : List PruEvent} {e : PruEvent} (h : e ≠ aluEv) :
    e ∈ accesses t ↔ e ∈ t := by
  simp [accesses, h]

/-! ### The parts of a frame -/

/-- The acceptance of a sequence, up to the colour. -/
def acceptance (seq colour : Word) : List PruEvent :=
  [⟨.lbco .requestSeq, seq⟩, ⟨.lbco .bankGrant, (0 : Word)⟩, ⟨.sbco .bankReady 0, ()⟩,
    ⟨.sbco .bankDone 0, ()⟩, ⟨.sbco .acceptedSeq seq, ()⟩, ⟨.lbco .wireColor, colour⟩]

/-- The offer of a bank and the polls of its gate that read `polls`. -/
def gateAccesses (b : Bank) (polls : List Word) : List PruEvent :=
  [⟨.sbco .status statusWaitBank, ()⟩, ⟨.sbco .bankReady b.ordinal, ()⟩] ++
    polls.map fun v => ⟨.lbco .bankGrant, v⟩

/-- Waiting at the gate of bank `b`. -/
def Waited (b : Bank) (g : List PruEvent) : Prop :=
  ∃ polls : List Word, (∀ v ∈ polls, v < b.ordinal) ∧ accesses g = gateAccesses b polls

/-- The gate of bank `b`, passed by reading its grant, with the stores
`after` that follow. -/
def Passed (b : Bank) (after : List PruEvent) (g : List PruEvent) : Prop :=
  ∃ polls : List Word, (∀ v ∈ polls, v < b.ordinal) ∧
    accesses g = gateAccesses b polls ++ ⟨.lbco .bankGrant, b.ordinal⟩ :: after

/-- The stores between the grant and the stream. -/
def releaseStores : List PruEvent :=
  [⟨.sbco .bankReady 0, ()⟩, ⟨.sbco .status statusRunning, ()⟩]

/-- `DRAIN_BANK` with `n` CLEARs. -/
inductive Drain (b : Bank) : Nat → List PruEvent → Prop
  | nil : Drain b 0 []
  | alu {n d} : Drain b n d → Drain b n (d ++ [aluEv])
  | read {n d address} {v : Word} : Drain b n d → Drain b n (d ++ [⟨.lbbo address, v⟩])
  | clear {n d} : Drain b n d → Drain b (n + 1) (d ++ [sbboEv (clearAddress b) (bankMask b)])

/-- A frame after the banks `sent`. -/
inductive Sent (tm : Timing) (l : Fin 6 → Word) (seq colour : Word) :
    List Bank → List PruEvent → Prop
  | accepted {w} (h : accesses w = acceptance seq colour ++ [⟨.sbco .status statusRunning, ()⟩]) :
      Sent tm l seq colour [] w
  | alu {sent w} : Sent tm l seq colour sent w → Sent tm l seq colour sent (w ++ [aluEv])
  | config {sent w i} {v : Word} : Sent tm l seq colour sent w →
      Sent tm l seq colour sent (w ++ [⟨.lbco (.lengths i), v⟩])
  | bank {sent w b g n d} : Sent tm l seq colour sent w → Passed b releaseStores g →
      Drain b n d → 1 ≤ n → n ≤ drainAttempts →
      Sent tm l seq colour (sent ++ [b])
        (w ++ (g ++ aluEv :: bankStream tm b l colour ++ d) ++ [⟨.sbco .bankDone b.ordinal, ()⟩])

/-- What follows the completion store until the next sequence. -/
inductive Closing (seq : Word) : PruEvent → Prop
  | alu : Closing seq aluEv
  | error : Closing seq ⟨.sbco .errorDetail errorNone, ()⟩
  | done : Closing seq ⟨.sbco .status statusDone, ()⟩
  | poll : Closing seq ⟨.lbco .requestSeq, seq⟩

/-- A completed frame: every non-empty bank, the settle wait, the
completion store. -/
def Completed (tm : Timing) (l : Fin 6 → Word) (seq colour : Word) (cur : List PruEvent) : Prop :=
  ∃ w count k rest, Sent tm l seq colour (nonEmpty l) w ∧ settleCycles l ≤ k + 1 ∧
    (∀ e ∈ rest, Closing seq e) ∧
    cur = w ++ delayEv count :: idle k ++ ⟨.sbco .completionSeq seq, ()⟩ :: rest

/-! ### The record of a phase -/

/-- At bank `b`, with the banks `bs` to come: the frame so far, and `P` of
what was done for `b`. -/
def AtBank (tm : Timing) (l : Fin 6 → Word) (s : FState) (b : Bank) (bs : List Bank)
    (cur : List PruEvent) (P : List PruEvent → Prop) : Prop :=
  ∃ sent w g, sent ++ b :: bs = nonEmpty l ∧ Sent tm l s.seq s.colour sent w ∧
    cur = w ++ g ∧ P g

/-- The events `cur` since the last latched sequence, in each phase. -/
def Recorded (tm : Timing) (l : Fin 6 → Word) (s : FState) (cur : List PruEvent) : Prop :=
  match s.phase with
  | .boot => cur = []
  | .publish left => cur = [] ∧ left <:+ readyStores
  | .poll => cur = [] ∨ Completed tm l s.seq s.colour cur
  | .latch => accesses cur = (acceptance s.seq 0).take 1
  | .clearReady => accesses cur = (acceptance s.seq 0).take 2
  | .clearDone => accesses cur = (acceptance s.seq 0).take 3
  | .accept => accesses cur = (acceptance s.seq 0).take 4
  | .readColour => accesses cur = (acceptance s.seq 0).take 5
  | .start => accesses cur = acceptance s.seq s.colour
  | .enter bs => ∃ sent, sent ++ bs = nonEmpty l ∧ Sent tm l s.seq s.colour sent cur
  | .offer b bs => AtBank tm l s b bs cur fun g =>
    accesses g = [⟨.sbco .status statusWaitBank, ()⟩]
  | .gate b bs => AtBank tm l s b bs cur (Waited b)
  | .release b bs => AtBank tm l s b bs cur (Passed b [])
  | .rerun b bs => AtBank tm l s b bs cur (Passed b [⟨.sbco .bankReady 0, ()⟩])
  | .stream b bs left => AtBank tm l s b bs cur fun g => ∃ r done,
    Passed b releaseStores r ∧ g = r ++ done ∧ done ++ left = aluEv :: bankStream tm b l s.colour
  | .drain b bs n => AtBank tm l s b bs cur fun g => ∃ r d,
    Passed b releaseStores r ∧ g = r ++ aluEv :: bankStream tm b l s.colour ++ d ∧
      Drain b n d ∧ n ≤ drainAttempts
  | .settle n => ∃ w count k, Sent tm l s.seq s.colour (nonEmpty l) w ∧ n = k + 1 ∧
    cur = w ++ delayEv count :: idle k
  | .clearError | .finish => Completed tm l s.seq s.colour cur
  | .fatal _ | .fatalStatus | .halting | .halted => True

/-! ### The history of a run -/

/-- A run split at the last latched sequence. -/
structure FHistory where
  state : FState
  past : List PruEvent
  current : List PruEvent

namespace FHistory

/-- All events. -/
def events (h : FHistory) : List PruEvent := h.past ++ h.current

/-- One more event; a new sequence opens a new frame. -/
def next (h : FHistory) (e : PruEvent) (s : FState) : FHistory :=
  if s.seq ≠ h.state.seq then ⟨s, h.past ++ h.current, [e]⟩
  else if h.current = [] then ⟨s, h.past ++ [e], []⟩
  else ⟨s, h.past, h.current ++ [e]⟩

@[simp] theorem next_state (h : FHistory) (e : PruEvent) (s : FState) :
    (h.next e s).state = s := by
  unfold next
  split_ifs <;> rfl

@[simp] theorem events_next (h : FHistory) (e : PruEvent) (s : FState) :
    (h.next e s).events = h.events ++ [e] := by
  unfold next events
  split_ifs with hseq hcur
  · rfl
  · simp [hcur]
  · simp

end FHistory

section Step

variable {tm : Timing} {l : Fin 6 → Word}

theorem Passed.alu {b : Bank} {after g : List PruEvent} (h : Passed b after g) :
    Passed b after (g ++ [aluEv]) := by
  obtain ⟨polls, hpolls, hg⟩ := h
  exact ⟨polls, hpolls, by simpa using hg⟩

theorem Passed.store {b : Bank} {after g : List PruEvent} {e : PruEvent} (he : e ≠ aluEv)
    (h : Passed b after g) : Passed b (after ++ [e]) (g ++ [e]) := by
  obtain ⟨polls, hpolls, hg⟩ := h
  refine ⟨polls, hpolls, ?_⟩
  rw [accesses_append, hg, accesses_singleton he, List.append_assoc, List.cons_append]

theorem Waited.poll {b : Bank} {g : List PruEvent} {v : Word} (hv : v < b.ordinal)
    (h : Waited b g) : Waited b (g ++ [⟨.lbco .bankGrant, v⟩]) := by
  obtain ⟨polls, hpolls, hg⟩ := h
  refine ⟨polls ++ [v], ?_, ?_⟩
  · intro x hx
    rcases List.mem_append.mp hx with hx | hx
    · exact hpolls x hx
    · rwa [List.mem_singleton.mp hx]
  · rw [accesses_append, hg, accesses_singleton (by simp [aluEv])]
    simp [gateAccesses]

theorem Waited.grant {b : Bank} {g : List PruEvent} (h : Waited b g) :
    Passed b [] (g ++ [⟨.lbco .bankGrant, b.ordinal⟩]) := by
  obtain ⟨polls, hpolls, hg⟩ := h
  refine ⟨polls, hpolls, ?_⟩
  rw [accesses_append, hg, accesses_singleton (by simp [aluEv])]

theorem AtBank.snoc {s s' : FState} {b : Bank} {bs : List Bank} {cur : List PruEvent}
    {P P' : List PruEvent → Prop} {e : PruEvent} (h : AtBank tm l s b bs cur P)
    (hseq : s'.seq = s.seq) (hcolour : s'.colour = s.colour)
    (hP : ∀ g, P g → P' (g ++ [e])) : AtBank tm l s' b bs (cur ++ [e]) P' := by
  obtain ⟨sent, w, g, hsent, hw, rfl, hg⟩ := h
  refine ⟨sent, w, g ++ [e], hsent, ?_, List.append_assoc .., hP g hg⟩
  rwa [hseq, hcolour]

theorem Completed.snoc {seq colour : Word} {cur : List PruEvent} {e : PruEvent}
    (h : Completed tm l seq colour cur) (he : Closing seq e) :
    Completed tm l seq colour (cur ++ [e]) := by
  obtain ⟨w, count, k, rest, hw, hk, hrest, rfl⟩ := h
  refine ⟨w, count, k, rest ++ [e], hw, hk, ?_, by simp⟩
  intro x hx
  rcases List.mem_append.mp hx with hx | hx
  · exact hrest x hx
  · rwa [List.mem_singleton.mp hx]

theorem Sent.ne_nil {seq colour : Word} {sent : List Bank} {w : List PruEvent}
    (h : Sent tm l seq colour sent w) : w ≠ [] := by
  cases h with
  | accepted h =>
    rintro rfl
    simp [acceptance] at h
  | _ => simp

theorem AtBank.ne_nil {s : FState} {b : Bank} {bs : List Bank} {cur : List PruEvent}
    {P : List PruEvent → Prop} (h : AtBank tm l s b bs cur P) : cur ≠ [] := by
  obtain ⟨sent, w, g, -, hw, rfl, -⟩ := h
  simp [hw.ne_nil]

/-- The phases between the latch and the end of a frame. -/
def Phase.framed : Phase → Bool
  | .boot | .publish _ | .poll | .fatal _ | .fatalStatus | .halting | .halted => false
  | _ => true

theorem Recorded.ne_nil {s : FState} {cur : List PruEvent} (h : Recorded tm l s cur)
    (hp : s.phase.framed = true) : cur ≠ [] := by
  obtain ⟨phase, seq, colour, out⟩ := s
  cases phase with
  | boot | publish | poll | fatal | fatalStatus | halting | halted => cases hp
  | enter bs =>
    obtain ⟨sent, -, hw⟩ := h
    exact hw.ne_nil
  | offer b bs => exact AtBank.ne_nil h
  | gate b bs => exact AtBank.ne_nil h
  | release b bs => exact AtBank.ne_nil h
  | rerun b bs => exact AtBank.ne_nil h
  | stream b bs left => exact AtBank.ne_nil h
  | drain b bs n => exact AtBank.ne_nil h
  | settle n =>
    obtain ⟨w, count, k, hw, -, rfl⟩ := h
    simp [hw.ne_nil]
  | clearError | finish =>
    obtain ⟨w, count, k, rest, hw, -, -, rfl⟩ := h
    simp
  | _ =>
    rintro rfl
    simp [Recorded, acceptance] at h

theorem FHistory.next_current {h : FHistory} {e : PruEvent} {s : FState}
    (hseq : s.seq = h.state.seq) (hne : h.current ≠ []) :
    (h.next e s).current = h.current ++ [e] := by
  rw [FHistory.next, if_neg (not_not.mpr hseq), if_neg hne]

theorem FHistory.next_current_nil {h : FHistory} {e : PruEvent} {s : FState}
    (hseq : s.seq = h.state.seq) (h0 : h.current = []) : (h.next e s).current = [] := by
  rw [FHistory.next, if_neg (not_not.mpr hseq), if_pos h0]

/-- Inside a frame, a register instruction. -/
theorem recorded_alu {s : FState} {cur : List PruEvent} (hrec : Recorded tm l s cur)
    (hp : s.phase.framed = true) (hfree : s.phase.free = true) :
    Recorded tm l s (cur ++ [aluEv]) := by
  obtain ⟨phase, seq, colour, out⟩ := s
  cases phase with
  | boot | publish | poll | fatal | fatalStatus | halting | halted => cases hp
  | stream | settle => cases hfree
  | enter bs =>
    obtain ⟨sent, hsent, hw⟩ := hrec
    exact ⟨sent, hsent, hw.alu⟩
  | offer b bs => exact AtBank.snoc hrec rfl rfl fun g hg => by simpa using hg
  | gate b bs => exact AtBank.snoc hrec rfl rfl fun g ⟨polls, hpolls, hg⟩ =>
      ⟨polls, hpolls, by simpa using hg⟩
  | release b bs => exact AtBank.snoc hrec rfl rfl fun g hg => hg.alu
  | rerun b bs => exact AtBank.snoc hrec rfl rfl fun g hg => hg.alu
  | drain b bs n =>
    refine AtBank.snoc hrec rfl rfl ?_
    rintro g ⟨r, d, hr, rfl, hd, hn⟩
    exact ⟨r, d ++ [aluEv], hr, by simp, hd.alu, hn⟩
  | clearError | finish => exact Completed.snoc hrec .alu
  | _ => simpa [Recorded] using hrec

/-- Inside a frame, one more event. -/
theorem recorded_snoc {s s' : FState} {e : PruEvent} {cur : List PruEvent}
    (hrec : Recorded tm l s cur) (hp : s.phase.framed = true) (hstep : FStep tm l s e s') :
    Recorded tm l s' (cur ++ [e]) := by
  -- the accesses before the first bank are a fixed list
  have hnext {x : PruEvent} {t t' : List PruEvent} (hcur : accesses cur = t) (hx : x ≠ aluEv)
      (ht : t ++ [x] = t') : accesses (cur ++ [x]) = t' := by
    rw [accesses_append, hcur, accesses_singleton hx, ht]
  cases hstep with
  | alu hfree => exact recorded_alu hrec hp hfree
  | latch => exact hnext hrec (by simp [aluEv]) rfl
  | clearReady => exact hnext hrec (by simp [aluEv]) rfl
  | clearDone => exact hnext hrec (by simp [aluEv]) rfl
  | accept => exact hnext hrec (by simp [aluEv]) rfl
  | readColour _ => exact hnext hrec (by simp [aluEv]) rfl
  | latchFailed | colourFailed | gateFailed | drainFailed => trivial
  | start => exact ⟨[], rfl, .accepted (hnext hrec (by simp [aluEv]) rfl)⟩
  | config =>
    obtain ⟨sent, hsent, hw⟩ := hrec
    exact ⟨sent, hsent, hw.config⟩
  | wait =>
    obtain ⟨sent, hsent, hw⟩ := hrec
    exact ⟨sent, cur, _, hsent, hw, rfl, accesses_singleton (by simp [aluEv])⟩
  | offer =>
    refine AtBank.snoc hrec rfl rfl fun g hg => ⟨[], by simp, ?_⟩
    rw [accesses_append, hg, accesses_singleton (by simp [aluEv])]
    rfl
  | gateWait hv => exact AtBank.snoc hrec rfl rfl fun g hg => hg.poll hv
  | gate => exact AtBank.snoc hrec rfl rfl fun g hg => hg.grant
  | release => exact AtBank.snoc hrec rfl rfl fun g hg => hg.store (by simp [aluEv])
  | rerun =>
    refine AtBank.snoc hrec rfl rfl fun g hg => ?_
    exact ⟨_, [], hg.store (by simp [aluEv]), (List.append_nil _).symm, rfl⟩
  | @stream seq colour out b bs e left =>
    by_cases hleft : left = []
    · subst hleft
      refine AtBank.snoc hrec rfl rfl ?_
      rintro g ⟨r, done, hr, rfl, hdone⟩
      exact ⟨r, [], hr, by simpa using hdone, .nil, Nat.zero_le _⟩
    · rw [streaming, if_neg hleft]
      refine AtBank.snoc hrec rfl rfl ?_
      rintro g ⟨r, done, hr, rfl, hdone⟩
      exact ⟨r, done ++ [e], hr, List.append_assoc .., by simpa using hdone⟩
  | drainClear hn =>
    refine AtBank.snoc hrec rfl rfl ?_
    rintro g ⟨r, d, hr, rfl, hd, -⟩
    exact ⟨r, _, hr, List.append_assoc .., hd.clear, hn⟩
  | drainRead =>
    refine AtBank.snoc hrec rfl rfl ?_
    rintro g ⟨r, d, hr, rfl, hd, hn⟩
    exact ⟨r, _, hr, List.append_assoc .., hd.read, hn⟩
  | @drained seq colour out b bs n hn =>
    obtain ⟨sent, w, g, hsent, hw, rfl, r, d, hr, rfl, hd, hle⟩ := hrec
    exact ⟨sent ++ [b], by simpa using hsent, hw.bank hr hd (Nat.pos_of_ne_zero hn) hle⟩
  | settleStart =>
    obtain ⟨sent, hsent, hw⟩ := hrec
    rw [List.append_nil] at hsent
    exact ⟨cur, _, 0, hsent ▸ hw, rfl, rfl⟩
  | @settle seq colour out n =>
    obtain ⟨w, count, k, hw, rfl, rfl⟩ := hrec
    refine ⟨w, count, k + 1, hw, rfl, ?_⟩
    rw [idle_add, List.append_assoc, List.cons_append]
    rfl
  | settled hn =>
    obtain ⟨w, count, k, hw, rfl, rfl⟩ := hrec
    exact ⟨w, count, k, [], hw, hn, by simp, rfl⟩
  | clearError => exact Completed.snoc hrec .error
  | finish => exact .inr (Completed.snoc hrec .done)
  | _ => cases hp

/-- **Every transition of the automaton keeps the record.** -/
theorem recorded_next {h : FHistory} {e : PruEvent} {s : FState}
    (hrec : Recorded tm l h.state h.current) (hstep : FStep tm l h.state e s) :
    Recorded tm l s (h.next e s).current := by
  obtain ⟨s₀, past, cur⟩ := h
  by_cases hp : s₀.phase.framed = true
  · have hseq : s.seq = s₀.seq := by
      cases hstep <;> first | rfl | cases hp
    rw [FHistory.next_current hseq (hrec.ne_nil hp)]
    exact recorded_snoc hrec hp hstep
  -- outside a frame nothing is recorded, or the last completed frame
  obtain ⟨phase, seq, colour, out⟩ := s₀
  have hpoll {x : PruEvent} (hrec : Recorded tm l ⟨.poll, seq, colour, out⟩ cur)
      (hx : Closing seq x) : Recorded tm l ⟨.poll, seq, colour, out⟩
        (FHistory.next ⟨⟨.poll, seq, colour, out⟩, past, cur⟩ x ⟨.poll, seq, colour, out⟩).current := by
    by_cases hcur : cur = []
    · exact .inl (FHistory.next_current_nil rfl hcur)
    · rw [FHistory.next_current rfl hcur]
      exact .inr ((hrec.resolve_left hcur).snoc hx)
  cases phase with
  | boot =>
    have hnil : cur = [] := hrec
    cases hstep with
    | alu => exact FHistory.next_current_nil rfl hnil
    | boot => exact FHistory.next_current_nil rfl hnil
    | booted => exact ⟨FHistory.next_current_nil rfl hnil, List.suffix_cons _ _⟩
    | bootFailed => trivial
  | publish left =>
    obtain ⟨hnil : cur = [], hsuffix⟩ := hrec
    cases hstep with
    | alu => exact ⟨FHistory.next_current_nil rfl hnil, hsuffix⟩
    | @publish _ _ _ off v left =>
      by_cases hleft : left = []
      · subst hleft
        exact .inl (FHistory.next_current_nil rfl hnil)
      · rw [if_neg hleft]
        exact ⟨FHistory.next_current_nil rfl hnil, (List.suffix_cons _ _).trans hsuffix⟩
  | poll =>
    cases hstep with
    | alu => exact hpoll hrec .alu
    | pollSame => exact hpoll hrec .poll
    | pollNew hv =>
      rw [FHistory.next, if_pos hv]
      exact accesses_singleton (by simp [aluEv])
  | fatal | fatalStatus | halting | halted => cases hstep <;> trivial
  | _ => exact absurd rfl hp

end Step

/-! ### Runs -/

section Run

variable (tm : Timing) (l : Fin 6 → Word)

/-- The split of a run that goes on with `t`. -/
def FHistory.run (h : FHistory) (t : List PruEvent) : FHistory :=
  t.foldl (fun h e => h.next e ((firmware tm l).next h.state e)) h

variable {tm l}

theorem FStep.of_safe {s : FState} {e : PruEvent} (h : (firmware tm l).safe s e) :
    FStep tm l s e ((firmware tm l).next s e) := by
  obtain ⟨s', hs'⟩ := Option.ne_none_iff_exists'.mp h
  refine FStep.of_fstep ?_
  simp [firmware, hs']

/-- **The record of a run.** -/
theorem recorded_run {h : FHistory} {t : List PruEvent} (hrec : Recorded tm l h.state h.current)
    (hsafe : (firmware tm l).SafeAlong h.state t) :
    (h.run tm l t).state = (firmware tm l).run h.state t ∧
      (h.run tm l t).events = h.events ++ t ∧
      Recorded tm l (h.run tm l t).state (h.run tm l t).current := by
  induction t generalizing h with
  | nil => exact ⟨rfl, (List.append_nil _).symm, hrec⟩
  | cons e t ih =>
    obtain ⟨he, ht⟩ := hsafe
    have hnext := recorded_next hrec (FStep.of_safe he)
    rw [← FHistory.next_state h e ((firmware tm l).next h.state e)] at ht
    obtain ⟨hstate, hevents, hrun⟩ := ih (by rwa [FHistory.next_state]) ht
    rw [FHistory.next_state] at hstate
    rw [FHistory.events_next, List.append_assoc] at hevents
    exact ⟨hstate, hevents, hrun⟩

end Run

end Pru

end Dld
