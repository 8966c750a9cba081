/-
DldDriver/Firmware/Gate.lean

The gate against an arbitrary host.

Nothing is assumed about the values of `request_seq`, `bank_grant` and
`wire_color`, which may change before every read.  A SET in bank `b` is
issued only inside the one stream that one read of `bank_grant = b`
releases, after the acceptance of the current sequence and the offer of
bank `b` (`Authorised`); every other read of the grant keeps the firmware
where it is or ends in ERROR (`GrantRead`).
-/
import DldDriver.Firmware.Conform
import DldDriver.Firmware.History

namespace Dld

open Interaction

namespace Pru

/-- A GPIO SET in bank `b`. -/
def setEv (b : Bank) (pins : Word) : PruEvent := sbboEv (clearAddress b + 4) pins

/-- The store that publishes READY. -/
def readyEv : PruEvent := ⟨.sbco .status statusReady, ()⟩

/-- `FATAL` with detail GATE. -/
def gateError : List PruEvent :=
  [⟨.sbco .errorDetail errorGate, ()⟩, ⟨.sbco .status statusError, ()⟩, ⟨.halt, ()⟩]

/-- What follows is `accesses`, as far as it goes, and goes on to be all of
them. -/
def EndsIn (tm : Timing) (w post : List PruEvent) (q : PProg Next) : Prop :=
  accesses post <+: w ∧ ∃ more q', Machine.Steps (code tm) q more q' ∧ accesses (post ++ more) = w

/-- After `pre`, event `e` belongs to the stream of bank `b`: the current
sequence was latched, `bank_grant` was zero at its acceptance, the bank was
offered, only smaller grants were read, then the bank's own, and `e` is the
next instruction of the stream that this read released. -/
def Authorised (tm : Timing) (l : Fin 6 → Word) (b : Bank) (pre : List PruEvent) (e : PruEvent) :
    Prop :=
  ∃ (past frame gate done rest more : List PruEvent) (seq colour : Word) (polls : List Word),
    pre = past ++ (frame ++ gate ++ done) ∧
    accesses frame = acceptance seq colour ++ more ∧
    (∀ v, ⟨.lbco .requestSeq, v⟩ ∉ more) ∧
    accesses gate = gateAccesses b polls ++ ⟨.lbco .bankGrant, b.ordinal⟩ :: releaseStores ∧
    (∀ v ∈ polls, v < b.ordinal) ∧
    done ++ e :: rest = aluEv :: bankStream tm b l colour

/-- `post` begins with exactly one stream of bank `b`, as far as it goes:
there is no further SET before the grant is read again. -/
def OneStream (tm : Timing) (l : Fin 6 → Word) (b : Bank) (post : List PruEvent) : Prop :=
  accesses post <+: releaseStores ∨
    ∃ release sent colour, post = release ++ sent ∧ accesses release = releaseStores ∧
      (sent <+: aluEv :: bankStream tm b l colour ∨
        ∃ rest, sent = aluEv :: bankStream tm b l colour ++ rest ∧
          ∀ b' pins pre' post', rest = pre' ++ setEv b' pins :: post' →
            ∃ v, ⟨.lbco .bankGrant, v⟩ ∈ pre')

/-- What follows a read of `bank_grant` with the value `g`, `q` being left to
do: at the acceptance, and at the gate of a bank. -/
def GrantRead (tm : Timing) (l : Fin 6 → Word) (pre : List PruEvent) (g : Word)
    (post : List PruEvent) (q : PProg Next) : Prop :=
  (∃ past seq n, pre = past ++ ⟨.lbco .requestSeq, seq⟩ :: idle n ∧
    (g ≠ 0 → EndsIn tm gateError post q)) ∨
  ∃ b past gate polls, pre = past ++ gate ∧ accesses gate = gateAccesses b polls ∧
    (∀ v ∈ polls, v < b.ordinal) ∧
    (g < b.ordinal → ∀ e ∈ (accesses post).head?, ∃ v, e = ⟨.lbco .bankGrant, v⟩) ∧
    (g = b.ordinal → OneStream tm l b post) ∧
    (b.ordinal < g → EndsIn tm gateError post q)

theorem configReads_reading {m : DldCommand} {e : PruEvent} (h : e.2 = reading m e.1) :
    ConfigReads (fun i => m (.lengths i)) e := by
  obtain ⟨op, v⟩ := e
  unfold ConfigReads
  split
  · rename_i heq
    cases heq
    exact h
  · trivial

theorem configReads_listens {m : DldCommand} {e : PruEvent} (h : listens m e = true) :
    ConfigReads (fun i => m (.lengths i)) e := by
  unfold ConfigReads
  split
  · exact listens_read h
  · trivial

/-- A mailbox with the lengths `l`, and zero elsewhere. -/
def onlyLengths (l : Fin 6 → Word) : DldCommand
  | .lengths i => l i
  | _ => 0

section Gate

variable {tm : Timing} {l : Fin 6 → Word}

theorem firmware_envAlong {s : FState} {t : List PruEvent} (h : ∀ e ∈ t, ConfigReads l e) :
    (firmware tm l).EnvAlong s t := by
  induction t generalizing s with
  | nil => trivial
  | cons e t ih => exact ⟨h e (by simp), ih fun e' he' => h e' (by simp [he'])⟩

/-! ### The future of a phase -/

/-- The accesses left on the way to `HALT`. -/
def errorLeft : Phase → Option (List PruEvent)
  | .fatal cause => some [⟨.sbco .errorDetail cause, ()⟩, ⟨.sbco .status statusError, ()⟩,
      ⟨.halt, ()⟩]
  | .fatalStatus => some [⟨.sbco .status statusError, ()⟩, ⟨.halt, ()⟩]
  | .halting => some [⟨.halt, ()⟩]
  | .halted => some []
  | _ => none

section Future

variable {seq colour : Word} {out : DldCommand} {t : List PruEvent}

/-- Along safe events, one transition after the other. -/
theorem safeAlong_cons {s : FState} {e : PruEvent} (h : (firmware tm l).SafeAlong s (e :: t)) :
    ∃ s', FStep tm l s e s' ∧ (firmware tm l).SafeAlong s' t :=
  ⟨_, FStep.of_safe h.1, h.2⟩

theorem future_error {s : FState} {w : List PruEvent} (h : (firmware tm l).SafeAlong s t)
    (hs : errorLeft s.phase = some w) :
    ∃ w', errorLeft ((firmware tm l).run s t).phase = some w' ∧ accesses t ++ w' = w := by
  induction t generalizing s w with
  | nil => exact ⟨w, hs, rfl⟩
  | cons e t ih =>
    obtain ⟨he, ht⟩ := h
    have hstep := FStep.of_safe he
    rw [Monitor.run_cons]
    generalize (firmware tm l).next s e = s' at hstep ht
    have hcons (hne : e ≠ aluEv) : accesses (e :: t) = e :: accesses t := by
      rw [← List.singleton_append, accesses_append, accesses_singleton hne]
      rfl
    cases hstep with
    | alu => exact ih ht hs
    | fatal | fatalStatus | halt =>
      obtain rfl := Option.some.inj hs
      obtain ⟨w', hw', hw⟩ := ih ht rfl
      refine ⟨w', hw', ?_⟩
      rw [hcons (by simp [aluEv]), List.cons_append, hw]
    | _ => cases hs

/-- No label lies on the way to `HALT`. -/
theorem errorLeft_of_control {x : Label × Regs} {s : FState} (h : Control tm l (some x) s) :
    errorLeft s.phase = none := by
  obtain ⟨label, r⟩ := x
  cases label with
  | start =>
    obtain ⟨hphase, -⟩ := h
    rw [hphase]
    rfl
  | requestLoop | afterGpio2 | afterGpio1 | afterGpio0 =>
    obtain ⟨-, hphase, -⟩ := h
    rw [hphase]
    rfl
  | sendGroup =>
    obtain ⟨b, r', -, -, hphase, -⟩ := h
    rw [hphase]
    rfl
  | gateWait =>
    obtain ⟨b, r', -, -, -, hphase, -⟩ := h
    rw [hphase]
    rfl
  | sendPixel =>
    obtain ⟨b, r', p, -, -, -, hphase, -⟩ := h
    rw [hphase, streaming]
    split <;> rfl
  | timedEnd =>
    obtain ⟨b, r', p, -, -, hphase, -⟩ := h
    rw [hphase]
    rfl

/-- On the way to `HALT` the machine gets there, and does nothing else. -/
theorem endsIn_of_error {s : FState} {w : List PruEvent} {q : PProg Next}
    (h : (firmware tm l).SafeAlong s t) (hs : errorLeft s.phase = some w)
    (hq : Machine.Good (firmware tm l) (Control tm l) q ((firmware tm l).run s t)) :
    EndsIn tm w t q := by
  obtain ⟨w', hw', rfl⟩ := future_error h hs
  refine ⟨List.prefix_append _ _, ?_⟩
  -- any run of the rest will do, as nothing is read
  have hrun := Prog.exec_runs (reading (onlyLengths l)) q
  have henv : (firmware tm l).EnvAlong ((firmware tm l).run s t) (q.exec (reading (onlyLengths l))).1 :=
    firmware_envAlong fun e he => configReads_reading (Prog.exec_answers _ q e he)
  obtain ⟨hsafe, hcontrol⟩ := hq.runs hrun henv
  obtain ⟨w'', hw'', hw⟩ := future_error hsafe hw'
  refine ⟨_, _, Machine.Steps.of_prog hrun.steps, ?_⟩
  rw [accesses_append, ← hw]
  have hphase : ((firmware tm l).run ((firmware tm l).run s t) (q.exec (reading (onlyLengths l))).1).phase =
      .halted := by
    generalize (q.exec (reading (onlyLengths l))).2 = o at hcontrol
    cases o with
    | none => exact hcontrol
    | some x =>
      rw [errorLeft_of_control hcontrol] at hw''
      cases hw''
  rw [hphase] at hw''
  obtain rfl := Option.some.inj hw''
  rw [List.append_nil]

theorem future_gate {b : Bank} {bs : List Bank}
    (h : (firmware tm l).SafeAlong ⟨.gate b bs, seq, colour, out⟩ t) :
    ∀ e ∈ (accesses t).head?, ∃ v, e = ⟨.lbco .bankGrant, v⟩ := by
  induction t with
  | nil => simp
  | cons e t ih =>
    obtain ⟨s', hstep, ht⟩ := safeAlong_cons h
    cases hstep with
    | alu => exact ih ht
    | gateWait | gate | gateFailed =>
      rintro x ⟨⟩
      exact ⟨_, rfl⟩

end Future

/-- The phases in which a read of the grant has released the stream. -/
def Phase.released : Phase → Bool
  | .release .. | .rerun .. | .stream .. => true
  | _ => false

theorem setEv_ne_clear (b b' : Bank) (pins mask : Word) :
    setEv b pins ≠ sbboEv (clearAddress b') mask := by
  intro h
  have haddress : clearAddress b + 4 = clearAddress b' := by
    injection h with h
    injection h
  revert haddress
  cases b <;> cases b' <;> decide

theorem setEv_ne_boot {b : Bank} {pins : Word} : ¬ BootAccess (setEv b pins) := by
  intro h
  generalize he : setEv b pins = e at h
  cases h with
  | ctbir =>
    have haddress : clearAddress b + 4 = 0x00022020 := by
      injection he with he
      injection he
    revert haddress
    cases b <;> decide
  | clear b' => exact setEv_ne_clear b b' pins _ he
  | _ => simp [setEv, sbboEv, delayEv] at he

/-- A SET is an instruction of a stream. -/
theorem FStep.of_set {s s' : FState} {b : Bank} {pins : Word}
    (h : FStep tm l s (setEv b pins) s') :
    ∃ b' bs left, s.phase = .stream b' bs (setEv b pins :: left) ∧
      s' = s.goto (streaming b' bs left) := by
  generalize he : setEv b pins = e at h
  cases h with
  | stream => exact ⟨_, _, _, rfl, rfl⟩
  | boot hboot => exact absurd (he ▸ hboot) setEv_ne_boot
  | drainClear => exact (setEv_ne_clear _ _ _ _ he).elim
  | _ => simp [setEv, sbboEv, aluEv, delayEv] at he

/-- Where no stream is released, a SET comes after a read of the grant. -/
theorem future_set {s : FState} {t pre post : List PruEvent} {b : Bank} {pins : Word}
    (hs : s.phase.released = false) (h : (firmware tm l).SafeAlong s t)
    (ht : t = pre ++ setEv b pins :: post) : ∃ v, ⟨.lbco .bankGrant, v⟩ ∈ pre := by
  induction pre generalizing s t with
  | nil =>
    subst ht
    obtain ⟨s', hstep, -⟩ := safeAlong_cons h
    obtain ⟨b', bs, left, hphase, -⟩ := hstep.of_set
    rw [hphase] at hs
    cases hs
  | cons e pre ih =>
    subst ht
    obtain ⟨s', hstep, ht⟩ := safeAlong_cons h
    by_cases hs' : s'.phase.released = false
    · obtain ⟨v, hv⟩ := ih hs' ht rfl
      exact ⟨v, List.mem_cons_of_mem _ hv⟩
    · cases hstep with
      | gate => exact ⟨_, List.mem_cons_self⟩
      | alu => exact absurd hs hs'
      | boot => exact absurd rfl hs'
      | @publish _ _ _ _ _ left =>
        by_cases hleft : left = [] <;> simp [hleft, Phase.released] at hs'
      | release | rerun | stream => cases hs
      | _ => exact absurd rfl hs'

section Future

variable {seq colour : Word} {out : DldCommand} {t : List PruEvent} {b : Bank} {bs : List Bank}

theorem future_stream {left : List PruEvent}
    (h : (firmware tm l).SafeAlong ⟨streaming b bs left, seq, colour, out⟩ t) :
    t <+: left ∨ ∃ rest, t = left ++ rest ∧ ∀ b' pins pre' post',
      rest = pre' ++ setEv b' pins :: post' → ∃ v, ⟨.lbco .bankGrant, v⟩ ∈ pre' := by
  induction left generalizing t with
  | nil =>
    refine .inr ⟨t, rfl, fun b' pins pre' post' ht => ?_⟩
    exact future_set (s := ⟨.drain b bs 0, seq, colour, out⟩) rfl h ht
  | cons x left ih =>
    cases t with
    | nil => exact .inl List.nil_prefix
    | cons e t =>
      obtain ⟨s', hstep, ht⟩ := safeAlong_cons h
      cases hstep with
      | alu hfree => cases hfree
      | stream =>
        rcases ih ht with hpre | ⟨rest, rfl, hrest⟩
        · exact .inl (List.cons_prefix_cons.mpr ⟨rfl, hpre⟩)
        · exact .inr ⟨rest, rfl, hrest⟩

theorem future_rerun (h : (firmware tm l).SafeAlong ⟨.rerun b bs, seq, colour, out⟩ t) :
    accesses t = [] ∨ ∃ r sent, t = r ++ sent ∧
      accesses r = [⟨.sbco .status statusRunning, ()⟩] ∧
      (sent <+: aluEv :: bankStream tm b l colour ∨
        ∃ rest, sent = aluEv :: bankStream tm b l colour ++ rest ∧
          ∀ b' pins pre' post', rest = pre' ++ setEv b' pins :: post' →
            ∃ v, ⟨.lbco .bankGrant, v⟩ ∈ pre') := by
  induction t with
  | nil => exact .inl rfl
  | cons e t ih =>
    obtain ⟨s', hstep, ht⟩ := safeAlong_cons h
    cases hstep with
    | alu =>
      refine (ih ht).imp id ?_
      rintro ⟨r, sent, rfl, hr, hsent⟩
      exact ⟨aluEv :: r, sent, rfl, hr, hsent⟩
    | rerun => exact .inr ⟨[_], t, rfl, rfl, future_stream ht⟩

theorem future_release (h : (firmware tm l).SafeAlong ⟨.release b bs, seq, colour, out⟩ t) :
    OneStream tm l b t := by
  induction t with
  | nil => exact .inl List.nil_prefix
  | cons e t ih =>
    obtain ⟨s', hstep, ht⟩ := safeAlong_cons h
    cases hstep with
    | alu =>
      refine (ih ht).imp id ?_
      rintro ⟨r, sent, colour, rfl, hr, hsent⟩
      exact ⟨aluEv :: r, sent, colour, rfl, hr, hsent⟩
    | release =>
      rcases future_rerun ht with hnil | ⟨r, sent, rfl, hr, hsent⟩
      · refine .inl ?_
        rw [← List.singleton_append, accesses_append, hnil]
        exact List.cons_prefix_cons.mpr ⟨rfl, List.nil_prefix⟩
      · refine .inr ⟨⟨.sbco .bankReady 0, ()⟩ :: r, sent, colour, rfl, ?_, hsent⟩
        rw [← List.singleton_append, accesses_append, hr]
        rfl

end Future

/-! ### The past of an event -/

theorem Drain.no_request {b : Bank} {n : Nat} {d : List PruEvent} (h : Drain b n d) (v : Word) :
    ⟨.lbco .requestSeq, v⟩ ∉ d := by
  induction h with
  | nil => simp
  | _ _ ih => simpa [aluEv, sbboEv] using ih

/-- A stream reads nothing. -/
theorem stream_no_load (b : Bank) (colour : Word) (off : Off) (v : Word) :
    ⟨.lbco off, v⟩ ∉ aluEv :: bankStream tm b l colour := by
  intro h
  rcases List.mem_cons.mp h with he | h
  · simp [aluEv] at he
  · obtain ⟨p, hp⟩ := mem_bankStream h
    rcases mem_pixelEvents hp with he | ⟨_, he⟩ | ⟨_, _, he⟩ | he | he <;>
      simp [aluEv, delayEv, sbboEv] at he

/-- The acceptance opens a frame, and its sequence stays the current one. -/
theorem Sent.accepted_eq {seq colour : Word} {sent : List Bank} {w : List PruEvent}
    (h : Sent tm l seq colour sent w) :
    ∃ more, accesses w = acceptance seq colour ++ more ∧ ∀ v, ⟨.lbco .requestSeq, v⟩ ∉ more := by
  induction h with
  | accepted h => exact ⟨_, h, by simp⟩
  | alu _ ih =>
    obtain ⟨more, hw, hmore⟩ := ih
    exact ⟨more, by simpa using hw, hmore⟩
  | @config sent w i v _ ih =>
    obtain ⟨more, hw, hmore⟩ := ih
    refine ⟨more ++ [⟨.lbco (.lengths i), v⟩], ?_, ?_⟩
    · rw [accesses_append, hw, accesses_singleton (by simp [aluEv]), List.append_assoc]
    · intro x hx
      rcases List.mem_append.mp hx with hx | hx
      · exact hmore x hx
      · simp at hx
  | @bank sent w b g n d _ hg hd _ _ ih =>
    obtain ⟨more, hw, hmore⟩ := ih
    obtain ⟨polls, -, hg⟩ := hg
    refine ⟨more ++ (accesses g ++ accesses (aluEv :: bankStream tm b l colour) ++ accesses d ++
      [⟨.sbco .bankDone b.ordinal, ()⟩]), ?_, fun v hv => ?_⟩
    · simp only [accesses_append, hw, accesses_singleton (e := ⟨.sbco .bankDone b.ordinal, ()⟩)
        (by simp [aluEv]), List.append_assoc]
    · have hstream : ⟨.lbco .requestSeq, v⟩ ∉ accesses (aluEv :: bankStream tm b l colour) := by
        rw [mem_accesses (by simp [aluEv])]
        exact stream_no_load b colour _ v
      have hdrain : ⟨.lbco .requestSeq, v⟩ ∉ accesses d := by
        rw [mem_accesses (by simp [aluEv])]
        exact hd.no_request v
      have hgate : ⟨.lbco .requestSeq, v⟩ ∉ accesses g := by
        simp [hg, gateAccesses, releaseStores]
      simp [hmore v, hstream, hdrain, hgate] at hv

theorem accesses_eq_singleton {t : List PruEvent} {x : PruEvent} (h : accesses t = [x]) :
    ∃ m n, t = idle m ++ x :: idle n := by
  induction t with
  | nil => cases h
  | cons e t ih =>
    by_cases he : e = aluEv
    · subst he
      obtain ⟨m, n, ht⟩ := ih h
      exact ⟨m + 1, n, by rw [ht]; rfl⟩
    · rw [← List.singleton_append, accesses_append, accesses_singleton he] at h
      obtain ⟨rfl, ht : accesses t = []⟩ := List.cons_eq_cons.mp h
      refine ⟨0, t.length, ?_⟩
      have hidle : t = idle t.length := by
        refine List.eq_replicate_of_mem fun y hy => ?_
        by_contra hne
        have hmem := (mem_accesses hne).mpr hy
        rw [ht] at hmem
        cases hmem
      rw [← hidle]
      rfl

/-- What the record says where an instruction of a stream comes next. -/
theorem authorised_of_recorded {h : FHistory} {b : Bank} {bs : List Bank} {e : PruEvent}
    {left : List PruEvent} (hrec : Recorded tm l h.state h.current)
    (hphase : h.state.phase = .stream b bs (e :: left)) :
    Authorised tm l b h.events e := by
  obtain ⟨⟨phase, seq, colour, out⟩, past, cur⟩ := h
  obtain rfl : phase = _ := hphase
  obtain ⟨sent, w, g, -, hw, rfl, r, done, ⟨polls, hpolls, hr⟩, rfl, hdone⟩ := hrec
  obtain ⟨more, hframe, hmore⟩ := hw.accepted_eq
  refine ⟨past, w, r, done, left, more, seq, colour, polls, ?_, hframe, hmore, hr, hpolls, hdone⟩
  rw [List.append_assoc w]
  rfl

/-- What the record says where the grant is read. -/
theorem grantRead_of_recorded {h : FHistory} {g : Word} {s : FState} {post : List PruEvent}
    (hrec : Recorded tm l h.state h.current) (hstep : FStep tm l h.state ⟨.lbco .bankGrant, g⟩ s)
    {q : PProg Next} (hpost : (firmware tm l).SafeAlong s post)
    (hq : Machine.Good (firmware tm l) (Control tm l) q ((firmware tm l).run s post)) :
    GrantRead tm l h.events g post q := by
  obtain ⟨s₀, past, cur⟩ := h
  -- the gate, for the three values of the grant
  have hgate {b : Bank} {bs : List Bank} (hrec : AtBank tm l s₀ b bs cur (Waited b))
      (hless : g < b.ordinal → ∀ e ∈ (accesses post).head?, ∃ v, e = ⟨.lbco .bankGrant, v⟩)
      (hequal : g = b.ordinal → OneStream tm l b post)
      (hgreater : b.ordinal < g → EndsIn tm gateError post q) :
      GrantRead tm l (past ++ cur) g post q := by
    obtain ⟨sent, w, gate, -, -, rfl, polls, hpolls, hg⟩ := hrec
    exact .inr ⟨b, past ++ w, gate, polls, (List.append_assoc ..).symm, hg, hpolls, hless, hequal,
      hgreater⟩
  have hlatch {seq : Word} (hrec : accesses cur = (acceptance seq 0).take 1)
      (herror : g ≠ 0 → EndsIn tm gateError post q) : GrantRead tm l (past ++ cur) g post q := by
    obtain ⟨m, n, rfl⟩ := accesses_eq_singleton hrec
    exact .inl ⟨past ++ idle m, seq, n, (List.append_assoc ..).symm, herror⟩
  generalize he : (⟨.lbco .bankGrant, g⟩ : PruEvent) = e at hstep
  cases hstep with
  | latch =>
    obtain rfl : g = 0 := by simpa using he
    exact hlatch hrec fun h0 => absurd rfl h0
  | @latchFailed seq colour out v hv =>
    obtain rfl : g = v := by simpa using he
    exact hlatch hrec fun _ => endsIn_of_error hpost rfl hq
  | @gateWait seq colour out b bs v hv =>
    obtain rfl : g = v := by simpa using he
    refine hgate hrec (fun _ => future_gate hpost) (fun heq => ?_) fun hlt => ?_
    · exact absurd heq (by bv_omega)
    · exact absurd hlt (by bv_omega)
  | @gate seq colour out b bs =>
    obtain rfl : g = b.ordinal := by simpa using he
    refine hgate hrec (fun hlt => ?_) (fun _ => future_release hpost) fun hlt => ?_
    · exact absurd hlt (by bv_omega)
    · exact absurd hlt (by bv_omega)
  | @gateFailed seq colour out b bs v hv =>
    obtain rfl : g = v := by simpa using he
    refine hgate hrec (fun hlt => ?_) (fun heq => ?_) fun _ => endsIn_of_error hpost rfl hq
    · exact absurd hlt (by bv_omega)
    · exact absurd heq (by bv_omega)
  | boot hboot => cases hboot <;> simp [delayEv, sbboEv] at he
  | @stream seq colour out b bs e left =>
    obtain ⟨sent, w, _, -, -, -, r, done, -, -, hdone⟩ := hrec
    have hmem : e ∈ aluEv :: bankStream tm b l colour := by
      rw [← hdone]
      simp
    rw [← he] at hmem
    exact absurd hmem (stream_no_load b colour _ g)
  | _ => simp [aluEv, sbboEv, delayEv] at he

/-! ### What the firmware may store -/

/-- The words of the mailbox that belong to the firmware. -/
def firmwareWords : List Off :=
  [.completionSeq, .status, .errorDetail, .bankReady, .bankDone, .acceptedSeq]

theorem activeMask_subset (b : Bank) (p : Nat) : activeMask b l p &&& ~~~bankMask b = 0 := by
  have hpin (s : Fin 6) (hs : s ∈ b.strings) : pinActive l p s &&& ~~~bankMask b = 0 := by
    unfold pinActive
    split
    · have hbits : ∀ s ∈ b.strings, bitAt (pinBit s) &&& ~~~bankMask b = 0 := by
        cases b <;> decide
      exact hbits s hs
    · exact BitVec.zero_and
  have hor (x y m : Word) (hx : x &&& m = 0) (hy : y &&& m = 0) : (x ||| y) &&& m = 0 := by
    rw [BitVec.and_or_distrib_right, hx, hy, BitVec.or_self]
  unfold activeMask
  generalize b.strings = ss at hpin
  induction ss with
  | nil => exact BitVec.zero_and
  | cons s ss ih =>
    exact hor _ _ _ (hpin s (by simp)) (ih fun s' hs' => hpin s' (by simp [hs']))

/-- The instructions of a stream, at its record. -/
theorem mem_stream_of_recorded {s : FState} {b : Bank} {bs : List Bank} {e : PruEvent}
    {left cur : List PruEvent} (hrec : Recorded tm l s cur)
    (hphase : s.phase = .stream b bs (e :: left)) : e ∈ aluEv :: bankStream tm b l s.colour := by
  obtain ⟨phase, seq, colour, out⟩ := s
  obtain rfl : phase = _ := hphase
  obtain ⟨sent, w, g, -, -, -, r, done, -, -, hdone⟩ := hrec
  rw [← hdone]
  simp

/-- The SETs of a stream are those of its bank. -/
theorem bank_of_set {b b' : Bank} {pins colour : Word}
    (h : setEv b pins ∈ aluEv :: bankStream tm b' l colour) : b = b' := by
  rcases List.mem_cons.mp h with hx | hmem
  · simp [setEv, sbboEv, aluEv] at hx
  obtain ⟨p, hp⟩ := mem_bankStream hmem
  rcases mem_pixelEvents hp with hx | ⟨_, hx⟩ | ⟨_, _, hx⟩ | hx | hx
  · simp [setEv, sbboEv, aluEv] at hx
  · simp [setEv, sbboEv, delayEv] at hx
  · simp [setEv, sbboEv, delayEv] at hx
  · obtain ⟨haddress, -⟩ : clearAddress b + 4 = clearAddress b' + 4 ∧ pins = _ := by
      simpa only [setEv, sbboEv, Sigma.mk.injEq, PruOp.sbbo.injEq, heq_eq_eq, and_true] using hx
    revert haddress
    cases b <;> cases b' <;> decide
  · exact (setEv_ne_clear _ _ _ _ hx).elim

theorem FStep.store_mem {s s' : FState} {off : Off} {v : Word} {cur : List PruEvent}
    (hrec : Recorded tm l s cur) (hstep : FStep tm l s ⟨.sbco off v, ()⟩ s') :
    off ∈ firmwareWords := by
  generalize he : (⟨.sbco off v, ()⟩ : PruEvent) = e at hstep
  cases hstep with
  | stream =>
    have hmem := mem_stream_of_recorded hrec rfl
    rw [← he] at hmem
    rcases List.mem_cons.mp hmem with hx | hmem
    · simp [aluEv] at hx
    · obtain ⟨p, hp⟩ := mem_bankStream hmem
      rcases mem_pixelEvents hp with hx | ⟨_, hx⟩ | ⟨_, _, hx⟩ | hx | hx <;>
        simp [aluEv, delayEv, sbboEv] at hx
  | boot hboot => cases hboot <;> simp [delayEv, sbboEv] at he
  | @publish seq colour out off' v' left =>
    obtain ⟨-, hsuffix⟩ := hrec
    obtain ⟨rfl, -⟩ : off = off' ∧ v = v' := by simpa using he
    have hwords : ∀ store ∈ readyStores, store.1 ∈ firmwareWords := by decide
    exact hwords _ (hsuffix.subset (List.mem_cons_self ..))
  | _ => simp_all [aluEv, sbboEv, delayEv, firmwareWords]

theorem FStep.sbbo_mem {s s' : FState} {address v : Word} {cur : List PruEvent}
    (hrec : Recorded tm l s cur) (hboot : s.phase ≠ .boot)
    (hstep : FStep tm l s (sbboEv address v) s') :
    ∃ b, (address = clearAddress b ∨ address = clearAddress b + 4) ∧ v &&& ~~~bankMask b = 0 := by
  generalize he : sbboEv address v = e at hstep
  have hinj {address' v' : Word} (h : sbboEv address v = sbboEv address' v') :
      address = address' ∧ v = v' := by
    simpa [sbboEv] using h
  cases hstep with
  | @stream seq colour out b bs e left =>
    have hmem := mem_stream_of_recorded hrec rfl
    rw [← he] at hmem
    rcases List.mem_cons.mp hmem with hx | hmem
    · simp [sbboEv, aluEv] at hx
    · obtain ⟨p, hp⟩ := mem_bankStream hmem
      rcases mem_pixelEvents hp with hx | ⟨_, hx⟩ | ⟨_, _, hx⟩ | hx | hx
      · simp [sbboEv, aluEv] at hx
      · simp [sbboEv, delayEv] at hx
      · simp [sbboEv, delayEv] at hx
      · obtain ⟨rfl, rfl⟩ := hinj hx
        exact ⟨b, .inr rfl, activeMask_subset b p⟩
      · obtain ⟨rfl, rfl⟩ := hinj hx
        exact ⟨b, .inl rfl, activeMask_subset b p⟩
  | @drainClear seq colour out b bs n hn =>
    obtain ⟨rfl, rfl⟩ := hinj he
    exact ⟨b, .inl rfl, by cases b <;> decide⟩
  | boot => exact absurd rfl hboot
  | _ => simp [sbboEv, aluEv, delayEv] at he

/-- Once READY is stored the firmware has left `START`. -/
theorem phase_ne_boot {s : FState} {t : List PruEvent} (h : (firmware tm l).SafeAlong s t)
    (hready : s.phase ≠ .boot ∨ readyEv ∈ t) : ((firmware tm l).run s t).phase ≠ .boot := by
  have hstay {s s' : FState} {e : PruEvent} (hstep : FStep tm l s e s')
      (hs : s.phase ≠ .boot ∨ e = readyEv) : s'.phase ≠ .boot := by
    cases hstep with
    | boot hboot =>
      rcases hs with hs | rfl
      · exact absurd rfl hs
      · generalize he : readyEv = e at hboot
        cases hboot <;> simp [readyEv, delayEv, sbboEv] at he
    | alu => exact hs.resolve_right (by simp [aluEv, readyEv])
    | @publish _ _ _ _ _ left => by_cases hleft : left = [] <;> simp [hleft]
    | @stream _ _ _ _ _ _ left => by_cases hleft : left = [] <;> simp [streaming, hleft]
    | _ => simp
  induction t generalizing s with
  | nil => exact hready.resolve_right (by simp)
  | cons e t ih =>
    refine ih h.2 ?_
    rcases hready with hs | hmem
    · exact .inl (hstay (FStep.of_safe h.1) (.inl hs))
    · rcases List.mem_cons.mp hmem with rfl | hmem
      · exact .inl (hstay (FStep.of_safe h.1) (.inr rfl))
      · exact .inr hmem

/-! ### The theorem -/

/-- **Gate safety.**  In every run of the firmware, whatever the host writes
and when: a SET is authorised by a read of the bank's own grant, such a read
releases one stream, a smaller grant keeps the firmware waiting, any other
grant ends in ERROR; and the firmware stores only to its own words of the
mailbox and to the LED bits of a bank. -/
theorem gate_safety (tm : Timing) (l : Fin 6 → Word) (r : Regs) (t : List PruEvent)
    (q : PProg Next) (h : Machine.Steps (code tm) (code tm (.start, r)) t q)
    (hconf : ∀ e ∈ t, ConfigReads l e) :
    (∀ b pins pre post, t = pre ++ setEv b pins :: post →
      Authorised tm l b pre (setEv b pins)) ∧
    (∀ g pre post, t = pre ++ ⟨.lbco .bankGrant, g⟩ :: post → GrantRead tm l pre g post q) ∧
    (∀ off v, ⟨.sbco off v, ()⟩ ∈ t → off ∈ firmwareWords) ∧
    (∀ address v pre post, t = pre ++ sbboEv address v :: post → readyEv ∈ pre →
      ∃ b, (address = clearAddress b ∨ address = clearAddress b + 4) ∧
        v &&& ~~~bankMask b = 0) := by
  let s₀ : FState := ⟨.boot, 0, 0, fun _ => 0⟩
  obtain ⟨hsafe, hgood⟩ := (firmware_invariant tm l).steps
    (firmware_invariant tm l (.start, r) s₀ ⟨rfl, rfl⟩) h (firmware_envAlong hconf)
  -- the record at every event, and the transition there
  have hsplit {pre post : List PruEvent} {e : PruEvent} (ht : t = pre ++ e :: post) :
      ∃ h : FHistory, h.events = pre ∧ Recorded tm l h.state h.current ∧
        h.state = (firmware tm l).run s₀ pre ∧ (firmware tm l).SafeAlong s₀ pre ∧
        ∃ s', FStep tm l h.state e s' ∧ (firmware tm l).SafeAlong s' post ∧
          Machine.Good (firmware tm l) (Control tm l) q ((firmware tm l).run s' post) := by
    rw [ht, Monitor.safeAlong_append] at hsafe
    rw [ht, Monitor.run_append] at hgood
    obtain ⟨hpre, hpost⟩ := hsafe
    have hstart : Recorded tm l s₀ [] := rfl
    obtain ⟨hstate, hevents, hrec⟩ := recorded_run (h := ⟨s₀, [], []⟩) hstart hpre
    refine ⟨_, hevents, hrec, hstate, hpre, ?_⟩
    rw [hstate]
    exact ⟨_, FStep.of_safe hpost.1, hpost.2, hgood⟩
  refine ⟨?_, ?_, ?_, ?_⟩
  · intro b pins pre post ht
    obtain ⟨h, rfl, hrec, -, -, s', hstep, -⟩ := hsplit ht
    obtain ⟨b', bs, left, hphase, -⟩ := hstep.of_set
    obtain rfl : b = b' := bank_of_set (mem_stream_of_recorded hrec hphase)
    exact authorised_of_recorded hrec hphase
  · intro g pre post ht
    obtain ⟨h, rfl, hrec, -, -, s', hstep, hpost, hq⟩ := hsplit ht
    exact grantRead_of_recorded hrec hstep hpost hq
  · intro off v hmem
    obtain ⟨pre, post, ht⟩ := List.append_of_mem hmem
    obtain ⟨h, -, hrec, -, -, s', hstep, -⟩ := hsplit ht
    exact hstep.store_mem hrec
  · intro address v pre post ht hready
    obtain ⟨h, -, hrec, hstate, hpre, s', hstep, -⟩ := hsplit ht
    refine hstep.sbbo_mem hrec ?_
    rw [hstate]
    exact phase_ne_boot hpre (.inr hready)

/-! ### Two pixels on string 3 -/

def twoPixels : Fin 6 → Word := ![0, 0, 0, 2, 0, 0]

/-- The mailbox up to the gate: the first request, and no grant. -/
def gateHost : DldCommand
  | .magic => commandMagic
  | .abiVersion => abiVersion
  | .profileId => profileWs2812b
  | .lengths i => twoPixels i
  | .requestSeq => 1
  | .wireColor => 0x00ff00
  | _ => 0

/-- The registers in the request loop, and at the only bank. -/
def gateRegs : Regs := { (default : Regs).load profileTiming with r5 := 40100 }

def gateAtBank : Regs := { gateRegs with r3 := 1, r4 := 0x00ff00 }

/-- The operations of `START` before its settle wait, and the publication of
READY after it. -/
def gateBoot : List PruEvent :=
  (advance (reading gateHost) 121 (startBlock profileTiming default)).1

def gateReady : List PruEvent := ((publishReady gateRegs).exec silent).1

def gateStart : List PruEvent :=
  gateBoot ++ ((delayEv 40100 :: idle (2 * (40100 : Word).toNat) ++ [aluEv]) ++ gateReady)

/-- The acceptance, up to the only bank. -/
def gateAccept : List PruEvent :=
  match Machine.exec (code profileTiming) (reading gateHost) 5 (.requestLoop, gateRegs) with
  | some (t, _) => t
  | none => []

theorem gateAccept_exec :
    Machine.exec (code profileTiming) (reading gateHost) 5 (.requestLoop, gateRegs) =
      some (gateAccept, (.sendGroup, gateAtBank.atBank .gpio0 twoPixels)) :=
  rfl

/-- The host lets the gate of bank 3 wait for two polls. -/
def gatePass : List PruEvent :=
  offerEvents .gpio0 twoPixels ++ [1, 2].flatMap pollEvents ++ releaseEvents .gpio0

theorem gateRun_steps :
    Machine.Steps (code profileTiming) (code profileTiming (.start, default))
      (gateStart ++ (gateAccept ++ (gatePass ++
        bankStream profileTiming .gpio0 twoPixels 0x00ff00)))
      (code profileTiming (.timedEnd, gateAtBank.atPixel .gpio0 twoPixels 2)) := by
  have hboot : Machine.Steps (code profileTiming) (code profileTiming (.start, default)) gateStart
      (code profileTiming (.requestLoop, gateRegs)) :=
    .of_runs (start_runs (h := reading gateHost) (n := 121) (by decide) rfl)
  have haccept := Machine.exec_steps gateAccept_exec
  have hpolls : ∀ g ∈ [(1 : Word), 2], g < Bank.gpio0.ordinal := by
    intro g hg
    rcases List.mem_pair.mp hg with rfl | rfl <;> decide
  have hgate := gate_steps profileTiming gateAtBank (b := .gpio0) (l := twoPixels) (by decide) [1, 2]
    hpolls
  have hadmitted : profileTiming.Admitted := ⟨by decide, by decide, by decide, by decide⟩
  have hstream := pixelLoop_steps (r := gateAtBank) (b := .gpio0) (l := twoPixels) hadmitted
    ⟨rfl, rfl, rfl, rfl, rfl, rfl, rfl⟩ (by decide) (by decide)
  exact hboot.trans (haccept.trans (hgate.trans hstream))

theorem gateRun_config : ∀ e ∈ gateStart ++ (gateAccept ++ (gatePass ++
    bankStream profileTiming .gpio0 twoPixels 0x00ff00)), ConfigReads twoPixels e := by
  have hheard : ∀ e ∈ gateBoot ++ gateReady ++ gateAccept, listens gateHost e = true := by
    refine List.all_eq_true.mp ?_
    decide +kernel
  have hpass : ∀ e ∈ gatePass, ConfigReads twoPixels e := by
    simp [gatePass, offerEvents, pollEvents, releaseEvents, ConfigReads, idle, aluEv]
  intro e he
  -- START, the acceptance, the gate and the stream
  rcases List.mem_append.mp he with he | he
  · apply configReads_listens (m := gateHost)
    rcases List.mem_append.mp he with he | he
    · exact hheard e (by simp [he])
    · rcases List.mem_append.mp he with he | he
      · exact listens_settle _ e he
      · exact hheard e (by simp [he])
  · rcases List.mem_append.mp he with he | he
    · exact configReads_listens (m := gateHost) (hheard e (by simp [he]))
    · rcases List.mem_append.mp he with he | he
      · exact hpass e he
      · exact configReads_listens (m := gateHost) (listens_bankStream _ e he)

/-- A run that is released: the first SET of the stream, and the reads of the
grant before it, at the acceptance and at the gate. -/
theorem gate_safety_released :
    ∃ t q, Machine.Steps (code profileTiming) (code profileTiming (.start, default)) t q ∧
      (∃ pre post, t = pre ++ setEv .gpio0 (bitAt 26) :: post ∧ readyEv ∈ pre ∧
        Authorised profileTiming twoPixels .gpio0 pre (setEv .gpio0 (bitAt 26))) ∧
      (∀ g ∈ [(0 : Word), 1, 2, 3], ∃ pre post, t = pre ++ ⟨.lbco .bankGrant, g⟩ :: post ∧
        GrantRead profileTiming twoPixels pre g post q) ∧
      (∀ off v, ⟨.sbco off v, ()⟩ ∈ t → off ∈ firmwareWords) ∧
      ∀ address v pre post, t = pre ++ sbboEv address v :: post → readyEv ∈ pre →
        ∃ b, (address = clearAddress b ∨ address = clearAddress b + 4) ∧
          v &&& ~~~bankMask b = 0 := by
  obtain ⟨hset, hgrant, hstore, hled⟩ :=
    gate_safety profileTiming twoPixels default _ _ gateRun_steps gateRun_config
  refine ⟨_, _, gateRun_steps, ?_, ?_, hstore, hled⟩
  · -- the stream begins with an instruction and the SET
    have hready : readyEv ∈ gateReady := by decide +kernel
    obtain ⟨rest, hfirst⟩ : ∃ rest, bankStream profileTiming .gpio0 twoPixels 0x00ff00 =
        aluEv :: setEv .gpio0 (bitAt 26) :: rest := ⟨_, rfl⟩
    have hstart : readyEv ∈ gateStart := by simp [gateStart, hready]
    have hsplit : gateStart ++ (gateAccept ++ (gatePass ++
          bankStream profileTiming .gpio0 twoPixels 0x00ff00)) =
        (gateStart ++ (gateAccept ++ (gatePass ++ [aluEv]))) ++ setEv .gpio0 (bitAt 26) :: rest := by
      simp only [hfirst, List.append_assoc, List.cons_append, List.nil_append]
    exact ⟨_, rest, hsplit, by simp [hstart], hset _ _ _ _ hsplit⟩
  · -- 0 is read at the acceptance, the others at the gate
    have hread : ∀ g ∈ [(0 : Word), 1, 2, 3],
        (⟨.lbco .bankGrant, g⟩ : PruEvent) ∈ gateAccept ++ gatePass := by
      intro g hg
      simp only [List.mem_cons, List.not_mem_nil, or_false] at hg
      rcases hg with rfl | rfl | rfl | rfl <;> decide +kernel
    intro g hg
    have hmem := List.mem_append.mp (hread g hg)
    obtain ⟨pre, post, hsplit⟩ := List.append_of_mem (List.mem_append_right gateStart
      (hmem.elim (List.mem_append_left _) fun h => List.mem_append_right _
        (List.mem_append_left _ h)))
    exact ⟨pre, post, hsplit, hgrant g pre post hsplit⟩

end Gate

end Pru

end Dld
