/-
DldDriver/Userspace/FlashWatch.lean

The flashes of the receiver.  `flashWatch o` keeps the flash in progress with
the frames sent for it, the latest reading of the clock that counts as
activity, and what has been announced.

Only readings of the clock are seen.  A reading counts as activity when it is
the first one after the sender was attached, after a datagram, or after the
final black of an idle flash; each of these happened before its reading.
-/
import DldDriver.Interaction.Monitor
import DldDriver.Userspace.Udp

namespace Dld

open Interaction

/-! ### What is watched -/

/-- A flash in progress. -/
structure Flight where
  kind : Flashing
  color : Word
  /-- the frames sent, the latest first -/
  frames : List Word := []

structure Watch where
  /-- the latest reading, and the latest one that counts as activity -/
  last : Nat := 0
  baseline : Nat := 0
  /-- the next reading counts as activity -/
  due : Bool := false
  flight : Option Flight := none
  /-- the latest valid colour of the batch -/
  colour : Option Word := none
  /-- the frame chosen, and whether it is the final one -/
  chosen : Option (Word × Bool) := none
  /-- the final black of the flash in progress has been sent -/
  finished : Bool := false
  /-- a flash has been interrupted for this colour -/
  owed : Option Word := none
  /-- a packet or a final black has been sent -/
  shown : Bool := false
  announced : Bool := false
  cancelled : Bool := false
  looping : Bool := false
  started : Nat := 0
  startups : Nat := 0
  idles : Nat := 0
  interrupted : Nat := 0

/-- The time of a reading, as `monotonic_now` computes it. -/
def stampNs (stamp : Int × Int) : Word64 :=
  BitVec.ofInt 64 stamp.1 * 1000000000 + BitVec.ofInt 64 stamp.2

/-- The colour of the startup flash is green, of an idle one red. -/
def Flashing.color : Flashing → Word
  | .startup => 0x00ff00
  | _ => 0xff0000

/-- `flashing = …` begins a flash or ends the one in progress. -/
def Watch.setFlashing (s : Watch) : Flashing → Watch
  | .none => match s.flight with
    | none => s
    | some flight =>
      let s := { s with flight := none, finished := false }
      if s.colour.isSome then { s with interrupted := s.interrupted + 1, owed := s.colour }
      else match flight.kind with
        | .startup => { s with startups := s.startups + 1 }
        | _ => { s with idles := s.idles + 1 }
  | kind => { s with
    flight := some { kind := kind, color := kind.color }
    finished := false
    started := s.started + 1 }

/-- A packet's colour or the chosen frame goes out. -/
def Watch.send (s : Watch) (rgb : Word) (ok : Bool) : Watch :=
  match s.colour with
  | some _ => { s with owed := none, shown := s.shown || ok }
  | none =>
    let final := ok && (s.chosen.map (·.2)).getD false
    { s with
      chosen := none
      flight := s.flight.map fun flight => { flight with frames := rgb :: flight.frames }
      finished := final
      shown := s.shown || final
      due := s.due || (final && (s.flight.map (·.kind == .idle)).getD false) }

/-- A reading of the clock. -/
def Watch.reading (s : Watch) (now : Word64) : Watch := { s with
  last := now.toNat
  baseline := if s.due then max s.baseline now.toNat else s.baseline
  due := false }

def Watch.next (s : Watch) : RxEvent → Watch
  | ⟨.senderOpen, (code, _)⟩ => { s with due := s.due || decide (code = .ok) }
  | ⟨.clockGettime, .ok stamp⟩ => s.reading (stampNs stamp)
  | ⟨.recvmsg, .ok (packet, truncated)⟩ =>
    let s := { s with due := true }
    if truncated then s else match dldOpcColor packet with
      | .valid rgb => { s with colour := some rgb }
      | _ => s
  | ⟨.cancelled, flag⟩ => { s with cancelled := s.cancelled || decide (flag ≠ 0) }
  | ⟨.head _, _⟩ => { s with looping := true, colour := none, chosen := none }
  | ⟨.setFlashing flashing, _⟩ => s.setFlashing flashing
  | ⟨.flashNext rgb final, _⟩ => { s with chosen := some (rgb, final) }
  | ⟨.senderSend rgb, (code, _)⟩ => s.send rgb (decide (code = .ok))
  | ⟨.ready, _⟩ => { s with announced := true }
  | _ => s

/-- The clock does not go back. -/
def Watch.Env (s : Watch) : RxEvent → Prop
  | ⟨.clockGettime, .ok stamp⟩ => s.last ≤ (stampNs stamp).toNat
  | _ => True

/-- A frame that may follow those sent: black first, the final black only
after the full colour. -/
def Flight.Follows (flight : Flight) (rgb : Word) (final : Bool) : Prop :=
  (flight.frames = [] → rgb = 0 ∧ final = false) ∧
    (final = true → rgb = 0 ∧ flight.color ∈ flight.frames)

/-- The flashes finished, interrupted and in progress. -/
def Watch.accounted (s : Watch) : Nat :=
  s.startups + s.idles + s.interrupted + if s.flight.isSome then 1 else 0

/-- The counters of the program are those of the flashes, modulo 2^64. -/
structure FlashCounted (s : Watch) (counts : PacketCounts) : Prop where
  startups : counts.startupFlashes = BitVec.ofNat 64 s.startups
  idles : counts.idleFlashes = BitVec.ofNat 64 s.idles
  interrupted : counts.interruptedFlashes = BitVec.ofNat 64 s.interrupted

/-- What the flashes promise. -/
def Watch.May (o : UdpOptions) (s : Watch) : RxEvent → Prop
  | ⟨.setFlashing .startup, _⟩ =>
    o.startupEnabled = true ∧ s.looping = false ∧ s.started = 0 ∧ s.flight.isNone
  | ⟨.setFlashing .idle, _⟩ =>
    o.idleEnabled = true ∧ s.flight.isNone ∧ s.colour = none ∧ s.due = false ∧
      s.baseline + 60000000000 < s.last
  | ⟨.setFlashing .none, _⟩ => s.flight.isSome → s.colour.isSome ∨ s.finished = true
  | ⟨.flashNext rgb final, _⟩ =>
    s.colour = none ∧ ∃ flight, s.flight = some flight ∧ flight.Follows rgb final
  | ⟨.senderSend rgb, _⟩ =>
    (s.owed = none ∨ s.owed = some rgb) ∧ (s.colour = some rgb ∨
      (s.colour = none ∧ s.flight.isSome ∧ ∃ final, s.chosen = some (rgb, final)))
  | ⟨.head counts, _⟩ =>
    FlashCounted s counts ∧ s.started = s.accounted ∧ s.owed = none ∧
      counts.startupFlashes + counts.idleFlashes + counts.interruptedFlashes +
        (if s.flight.isSome then 1 else 0) = BitVec.ofNat 64 s.started
  | ⟨.ready, _⟩ => s.announced = false ∧ (o.startupEnabled = true → s.shown = true)
  | ⟨.stopped _ code, _⟩ =>
    s.owed = none ∧ (s.flight.isSome → s.cancelled = true ∨ code ≠ .ok)
  | _ => True

def flashWatch (o : UdpOptions) : Monitor RxOp RxOp.Res Watch where
  env := Watch.Env
  safe := Watch.May o
  next := Watch.next

instance (o : UdpOptions) (s : Watch) : (e : RxEvent) → Decidable ((flashWatch o).env s e)
  | ⟨.clockGettime, .ok stamp⟩ => inferInstanceAs (Decidable (s.last ≤ (stampNs stamp).toNat))
  | ⟨.clockGettime, .error _⟩ | ⟨.cancelled, _⟩ | ⟨.recvmsg, _⟩ | ⟨.poll _, _⟩
  | ⟨.installSignals, _⟩ | ⟨.openSocket .., _⟩ | ⟨.closeSocket, _⟩ | ⟨.senderOpen, _⟩
  | ⟨.senderSend _, _⟩ | ⟨.senderClose, _⟩ | ⟨.strerror, _⟩ | ⟨.print _, _⟩ | ⟨.printError _, _⟩
  | ⟨.ready, _⟩ | ⟨.head _, _⟩ | ⟨.setFlashing _, _⟩ | ⟨.flashNext .., _⟩ | ⟨.stopped .., _⟩ =>
    inferInstanceAs (Decidable True)

/-! ### The program beside the watch -/

variable {o : UdpOptions} {s : Watch} {r : Rx}

/-- A flash in progress is the one the program is at. -/
structure Flight.Of (flight : Flight) (r : Rx) : Prop where
  kind : r.flashing = flight.kind
  proper : flight.kind ≠ .none
  color : r.flash.color = flight.color
  initial : flight.frames = [] ↔ r.flash.initialSent = false
  peak : r.flash.peakSent = true → flight.color ∈ flight.frames

/-- The flash in progress and the counters of the finished ones. -/
structure Lit (r : Rx) (s : Watch) : Prop where
  flight : (s.flight = none ∧ r.flashing = .none) ∨ ∃ flight, s.flight = some flight ∧ flight.Of r
  counted : FlashCounted s r.counts
  accounted : s.started = s.accounted
  announced : s.announced = r.announcedReady

/-- Only `flash` and `flashing` matter for the flash in progress. -/
theorem Lit.flight_of {r' : Rx} (h : Lit r s) (hflash : r'.flash = r.flash)
    (hflashing : r'.flashing = r.flashing) :
    (s.flight = none ∧ r'.flashing = .none) ∨ ∃ flight, s.flight = some flight ∧ flight.Of r' := by
  rcases h.flight with ⟨hflight, hnone⟩ | ⟨flight, hflight, hof⟩
  · exact .inl ⟨hflight, hflashing.trans hnone⟩
  · refine .inr ⟨flight, hflight, hflashing.trans hof.kind, hof.proper, ?_, ?_, ?_⟩
    · rw [hflash, hof.color]
    · rw [hflash, hof.initial]
    · rw [hflash]
      exact hof.peak

/-- The program's activity is the latest reading that counts as activity. -/
structure Timed (activity : Word64) (s : Watch) : Prop where
  due : s.due = false
  baseline : s.baseline = activity.toNat
  last : s.baseline ≤ s.last

/-- The round may end with this code. -/
def Over (s : Watch) (code : DldExitCode) : Prop :=
  s.owed = none ∧ (code = .ok → s.cancelled = true)

/-- At the head of the loop. -/
structure AtHead (r : Rx) (s : Watch) : Prop where
  lit : Lit r s
  timed : Timed r.activity s
  owed : s.owed = none

/-- The end of a round, seen by the watch. -/
def RoundOver (s : Watch) (r : Rx × RoundEnd) : Prop :=
  (r.2 = none → AtHead r.1 s) ∧ ∀ code, r.2 = some code → Over s code

theorem AtHead.goesOn (h : AtHead r s) : RoundOver s (r, none) :=
  ⟨fun _ => h, fun _ h => nomatch h⟩

theorem Over.ends {code : DldExitCode} (h : Over s code) : RoundOver s (r, some code) := by
  refine ⟨fun h => (nomatch h), fun code' hcode => ?_⟩
  obtain rfl : code = code' := Option.some.inj hcode
  exact h

/-- A reading when none is due. -/
theorem Timed.reading {activity now : Word64} (h : Timed activity s) (hnow : s.last ≤ now.toNat) :
    Timed activity (s.reading now) := by
  have hbaseline : (s.reading now).baseline = s.baseline := by
    show (if s.due then max s.baseline now.toNat else s.baseline) = s.baseline
    rw [h.due]
    rfl
  refine ⟨rfl, hbaseline.trans h.baseline, ?_⟩
  rw [hbaseline]
  exact h.last.trans hnow

/-- A reading that counts as activity. -/
theorem timed_of_due {now : Word64} (hdue : s.due = true) (hlast : s.baseline ≤ s.last)
    (hnow : s.last ≤ now.toNat) : Timed now (s.reading now) := by
  have hbaseline : (s.reading now).baseline = now.toNat := by
    show (if s.due then max s.baseline now.toNat else s.baseline) = now.toNat
    rw [hdue]
    exact Nat.max_eq_right (hlast.trans hnow)
  exact ⟨rfl, hbaseline, hbaseline.le⟩

theorem wp_reading {Q : Watch → Except String Word64 → Prop} (hfail : ∀ text, Q s (.error text))
    (hok : ∀ now : Word64, s.last ≤ now.toNat → Q (s.reading now) (.ok now)) :
    (flashWatch o).wp monotonicNow s Q := by
  refine Monitor.wp_op_bind fun stamp henv => ⟨by rcases stamp with errno | stamp <;> trivial, ?_⟩
  rcases stamp with errno | stamp
  · exact Monitor.wp_op_bind fun reason _ => ⟨trivial, hfail _⟩
  · exact hok _ henv

/-! ### A batch -/

/-- The flashes have no part in a batch. -/
def PacketCounts.SameFlashes (counts counts' : PacketCounts) : Prop :=
  counts'.startupFlashes = counts.startupFlashes ∧ counts'.idleFlashes = counts.idleFlashes ∧
    counts'.interruptedFlashes = counts.interruptedFlashes

theorem FlashCounted.same {counts counts' : PacketCounts} (h : FlashCounted s counts)
    (hsame : counts.SameFlashes counts') : FlashCounted s counts' := by
  obtain ⟨hstartups, hidles, hinterrupted⟩ := hsame
  refine ⟨?_, ?_, ?_⟩
  · rw [hstartups, h.startups]
  · rw [hidles, h.idles]
  · rw [hinterrupted, h.interrupted]

/-- Inside a batch. -/
structure Gathering (r : Rx) (b : Batch) (s : Watch) : Prop where
  lit : Lit r s
  timed : Timed b.activity s
  owed : s.owed = none
  colour : s.colour = if b.haveColor then some b.rgb else none
  counts : r.counts.SameFlashes b.counts

theorem Gathering.cancelled {b : Batch} (h : Gathering r b s) (c : Bool) :
    Gathering r b { s with cancelled := c } where
  lit := { h.lit with counted := { h.lit.counted with } }
  timed := { h.timed with }
  owed := h.owed
  colour := h.colour
  counts := h.counts

/-- What a datagram does before its time is read. -/
def Watch.datagram (s : Watch) (packet : List UInt8) (truncated : Bool) : Watch :=
  s.next ⟨.recvmsg, .ok (packet, truncated)⟩

/-- The latest valid colour, with one more datagram. -/
def latestColour (colour : Option Word) (packet : List UInt8) (truncated : Bool) : Option Word :=
  if truncated then colour else match dldOpcColor packet with
    | .valid rgb => some rgb
    | _ => colour

theorem Watch.datagram_eq (s : Watch) (packet : List UInt8) (truncated : Bool) :
    s.datagram packet truncated =
      { s with due := true, colour := latestColour s.colour packet truncated } := by
  unfold Watch.datagram Watch.next latestColour
  dsimp only
  cases truncated
  · rcases dldOpcColor packet with rgb | - | - <;> rfl
  · rfl

theorem classify_colour (b : Batch) (packet : List UInt8) (truncated : Bool) :
    (if (b.classify packet truncated).haveColor then some (b.classify packet truncated).rgb
      else none) = latestColour (if b.haveColor then some b.rgb else none) packet truncated := by
  unfold Batch.classify latestColour
  cases truncated
  · rcases dldOpcColor packet with rgb | - | - <;> rfl
  · rfl

theorem classify_rest (b : Batch) (packet : List UInt8) (truncated : Bool) :
    (b.classify packet truncated).activity = b.activity ∧
      b.counts.SameFlashes (b.classify packet truncated).counts := by
  unfold Batch.classify
  cases truncated
  · rcases dldOpcColor packet with rgb | - | - <;> exact ⟨rfl, rfl, rfl, rfl⟩
  · exact ⟨rfl, rfl, rfl, rfl⟩

theorem Gathering.datagram {b : Batch} (h : Gathering r b s) (packet : List UInt8)
    (truncated : Bool) (now : Word64) (hnow : s.last ≤ now.toNat) :
    Gathering r (({ b with
        counts := { b.counts with received := b.counts.received + 1 }, activity := now }).classify
      packet truncated) ((s.datagram packet truncated).reading now) := by
  rw [Watch.datagram_eq]
  obtain ⟨hactivity, hcounts⟩ := classify_rest { b with
    counts := { b.counts with received := b.counts.received + 1 }, activity := now } packet truncated
  refine ⟨{ h.lit with counted := { h.lit.counted with } }, ?_, h.owed, ?_, ?_⟩
  · rw [hactivity]
    exact timed_of_due (s := { s with
      due := true, colour := latestColour s.colour packet truncated }) rfl h.timed.last hnow
  · rw [classify_colour]
    show latestColour s.colour packet truncated = _
    rw [h.colour]
  · exact ⟨hcounts.1.trans h.counts.1, hcounts.2.1.trans h.counts.2.1,
      hcounts.2.2.trans h.counts.2.2⟩

/-- A batch, by induction over the attempts left.  When it fails nothing is
owed. -/
theorem watch_receiveBatch {bufferSize n : Nat} {b : Batch} (h : Gathering r b s) :
    (flashWatch o).wp (receiveBatch bufferSize n b) s fun s' result =>
      s'.owed = none ∧ (result.1 = true → Gathering r result.2 s') := by
  induction n generalizing s b with
  | zero => exact ⟨h.owed, fun _ => h⟩
  | succ n ih =>
    refine Monitor.wp_op_bind fun flag _ => ⟨trivial, Monitor.wp_ite.mpr ⟨fun _ => ?_, fun _ => ?_⟩⟩
    · exact ⟨h.owed, fun _ => h.cancelled _⟩
    have h := h.cancelled (s.cancelled || decide (flag ≠ 0))
    refine Monitor.wp_op_bind fun received _ => ⟨trivial, ?_⟩
    rcases received with errno | ⟨packet, truncated⟩
    · refine Monitor.wp_ite.mpr ⟨fun _ => ⟨h.owed, fun _ => h⟩, fun _ => ?_⟩
      refine Monitor.wp_ite.mpr ⟨fun _ => ?_, fun _ => ?_⟩
      · refine Monitor.wp_op_bind fun flag _ => ⟨trivial, ?_⟩
        refine Monitor.wp_ite.mpr ⟨fun _ => ?_, fun _ => ih (h.cancelled _)⟩
        exact ⟨h.owed, fun _ => h.cancelled _⟩
      · exact Monitor.wp_op_bind fun reason _ => ⟨trivial, h.owed, fun h => (nomatch h)⟩
    · rw [Monitor.wp_bind]
      show (flashWatch o).wp monotonicNow (Watch.datagram _ packet truncated) _
      refine wp_reading (fun text => ⟨?_, fun h => (nomatch h)⟩) fun now hnow => ?_
      · rw [Watch.datagram_eq]
        exact h.owed
      · rw [Watch.datagram_eq] at hnow
        exact ih (h.datagram packet truncated now hnow)

/-! ### The end of a flash -/

/-- A packet with a colour is about to be sent; the flash it interrupted is
over. -/
structure Coloured (rgb : Word) (r : Rx) (s : Watch) : Prop where
  lit : Lit r s
  timed : Timed r.activity s
  colour : s.colour = some rgb
  owed : s.owed = none ∨ s.owed = some rgb

theorem watch_interrupt {rgb : Word} (hlit : Lit r s) (htimed : Timed r.activity s)
    (howed : s.owed = none) (hcolour : s.colour = some rgb) :
    (flashWatch o).wp (interrupt r) s fun s' r' => Coloured rgb r' s' := by
  have hsome : s.colour.isSome = true := by
    rw [hcolour]
    rfl
  refine Monitor.wp_op_bind fun _ _ => ⟨fun _ => .inl hsome, ?_⟩
  show Coloured rgb _ (s.setFlashing .none)
  rcases hlit.flight with ⟨hflight, hflashing⟩ | ⟨flight, hflight, hof⟩
  · have hstay : s.setFlashing .none = s := by simp only [Watch.setFlashing, hflight]
    rw [hstay]
    refine ⟨⟨.inl ⟨hflight, rfl⟩, ?_, hlit.accounted, hlit.announced⟩, htimed, hcolour, .inl howed⟩
    refine hlit.counted.same ⟨rfl, rfl, ?_⟩
    exact if_neg (not_not.mpr hflashing)
  · have hends : s.setFlashing .none = { s with
        flight := none, finished := false, interrupted := s.interrupted + 1, owed := s.colour } := by
      simp only [Watch.setFlashing, hflight, hcolour]
      rfl
    have haccounted : s.started = s.startups + s.idles + (s.interrupted + 1) + 0 := by
      rw [hlit.accounted, Watch.accounted, hflight]
      rfl
    rw [hends]
    refine ⟨⟨.inl ⟨rfl, rfl⟩, { hlit.counted with interrupted := ?_ }, haccounted, hlit.announced⟩,
      { htimed with }, hcolour, .inr hcolour⟩
    show (if r.flashing ≠ .none then _ else _) = _
    rw [if_pos (hof.kind ▸ hof.proper), hlit.counted.interrupted, BitVec.ofNat_add]
    rfl

/-- The final black has been sent. -/
structure Finished (r : Rx) (s : Watch) : Prop where
  lit : Lit r s
  owed : s.owed = none
  colour : s.colour = none
  finished : s.finished = true
  due : s.due = decide (r.flashing = .idle)
  baseline : s.baseline = r.activity.toNat
  last : s.baseline ≤ s.last

theorem watch_finishFlash (h : Finished r s) (hflashing : r.flashing ≠ .none) :
    (flashWatch o).wp (finishFlash r) s fun s' r' => RoundOver s' r' := by
  obtain ⟨hflight, hnone⟩ | ⟨flight, hflight, hof⟩ := h.lit.flight
  · exact absurd hnone hflashing
  have haccounted : s.started = s.startups + s.idles + s.interrupted + 1 := by
    rw [h.lit.accounted, Watch.accounted, hflight]
    rfl
  have hstarted (s' : Watch) (hs : s'.flight = none) (hsum : s'.startups + s'.idles + s'.interrupted =
      s.started) : s.started = s'.accounted := by
    rw [Watch.accounted, hs, hsum]
    rfl
  refine Monitor.wp_ite.mpr ⟨fun hstartup => ?_, fun hidle => ?_⟩
  · have hends : s.setFlashing .none = { s with
        flight := none, finished := false, startups := s.startups + 1 } := by
      have hkind : flight.kind = .startup := hof.kind ▸ hstartup
      simp only [Watch.setFlashing, hflight, h.colour, hkind]
      rfl
    rw [Monitor.wp_bind]
    refine Monitor.wp_op_bind fun _ _ => ⟨fun _ => .inr h.finished, ?_⟩
    show RoundOver (s.setFlashing .none) _
    rw [hends]
    refine AtHead.goesOn ⟨⟨.inl ⟨rfl, rfl⟩, { h.lit.counted with startups := ?_ }, ?_,
      h.lit.announced⟩, ⟨?_, h.baseline, h.last⟩, h.owed⟩
    · show r.counts.startupFlashes + 1 = _
      rw [h.lit.counted.startups, BitVec.ofNat_add]
      rfl
    · refine hstarted _ rfl ?_
      show s.startups + 1 + s.idles + s.interrupted = s.started
      omega
    · show s.due = false
      rw [h.due, hstartup]
      rfl
  · have hidle : r.flashing = .idle := by
      rcases hkind : r.flashing with - | - | -
      · exact absurd hkind hflashing
      · exact absurd hkind hidle
      · rfl
    rw [Monitor.wp_bind]
    refine wp_reading (fun text => Over.ends ⟨h.owed, fun hok => (nomatch hok)⟩) fun now hnow => ?_
    have hends : (s.reading now).setFlashing .none = { s.reading now with
        flight := none, finished := false, idles := s.idles + 1 } := by
      have hkind : flight.kind = .idle := hof.kind ▸ hidle
      simp only [Watch.setFlashing, Watch.reading, hflight, h.colour, hkind]
      rfl
    have hdue : s.due = true := by
      rw [h.due, hidle]
      rfl
    dsimp only
    rw [Monitor.wp_bind]
    refine Monitor.wp_op_bind fun _ _ => ⟨fun _ => .inr h.finished, ?_⟩
    show RoundOver ((s.reading now).setFlashing .none) _
    rw [hends]
    refine AtHead.goesOn ⟨⟨.inl ⟨rfl, rfl⟩, { h.lit.counted with idles := ?_ }, ?_,
      h.lit.announced⟩, { timed_of_due hdue h.last hnow with }, h.owed⟩
    · show r.counts.idleFlashes + 1 = _
      rw [h.lit.counted.idles, BitVec.ofNat_add]
      rfl
    · refine hstarted _ rfl ?_
      show s.startups + (s.idles + 1) + s.interrupted = s.started
      omega

/-! ### A transmission -/

theorem watch_announce {Q : Watch → Rx → Prop} {counts : Bool}
    (hannounced : s.announced = r.announcedReady) (hshown : counts = true → s.shown = true)
    (h : Q { s with announced := r.announcedReady || counts }
      { r with announcedReady := r.announcedReady || counts }) :
    (flashWatch o).wp (announce r counts) s Q := by
  refine Monitor.wp_ite.mpr ⟨fun hfirst => ?_, fun hlater => ?_⟩
  · rw [hfirst.2, Bool.or_true] at h
    refine Monitor.wp_op_bind fun _ _ => ⟨⟨hannounced.trans hfirst.1, fun _ => hshown hfirst.2⟩, ?_⟩
    exact h
  · have hsame : (r.announcedReady || counts) = r.announcedReady := by
      rcases hready : r.announcedReady with - | -
      · simpa [hready] using hlater
      · rfl
    rw [hsame, ← hannounced] at h
    have hr : { r with announcedReady := s.announced } = r := by rw [hannounced]
    rwa [hr] at h

theorem watch_transmitColour {rgb : Word} (h : Coloured rgb r s) :
    (flashWatch o).wp (transmit r rgb true false) s fun s' r' => RoundOver s' r' := by
  refine Monitor.wp_op_bind fun sent _ => ⟨⟨h.owed, .inl h.colour⟩, ?_⟩
  rcases sent with ⟨code, text⟩
  have hsend : s.send rgb (decide (code = .ok)) =
      { s with owed := none, shown := s.shown || decide (code = .ok) } := by
    simp only [Watch.send, h.colour]
  show (flashWatch o).wp _ (s.send rgb (decide (code = .ok))) _
  rw [hsend]
  refine Monitor.wp_ite.mpr ⟨fun hne => Over.ends ⟨rfl, fun hok => absurd hok hne⟩, fun hok => ?_⟩
  obtain rfl : code = .ok := not_not.mp hok
  rw [Monitor.wp_bind]
  refine watch_announce ?_ ?_ ?_
  · exact h.lit.announced
  · intro _
    exact Bool.or_true _
  refine Monitor.wp_ite.mpr ⟨fun _ => ?_, fun h => absurd rfl h⟩
  refine AtHead.goesOn ⟨⟨h.lit.flight_of rfl rfl, ?_, h.lit.accounted, rfl⟩, { h.timed with }, rfl⟩
  exact { h.lit.counted with }

/-- A frame has been chosen and is about to be sent. -/
structure Framed (rgb : Word) (final : Bool) (r : Rx) (s : Watch) (flight : Flight) : Prop where
  inFlight : s.flight = some flight
  sent : Flight.Of { flight with frames := rgb :: flight.frames } r
  counted : FlashCounted s r.counts
  accounted : s.started = s.accounted
  announced : s.announced = r.announcedReady
  timed : Timed r.activity s
  colour : s.colour = none
  owed : s.owed = none
  chosen : s.chosen = some (rgb, final)

theorem watch_transmitFrame {rgb : Word} {final : Bool} {flight : Flight}
    (h : Framed rgb final r s flight) :
    (flashWatch o).wp (transmit r rgb false final) s fun s' r' => RoundOver s' r' := by
  have hflight : s.flight.isSome = true := by
    rw [h.inFlight]
    rfl
  refine Monitor.wp_op_bind fun sent _ =>
    ⟨⟨.inl h.owed, .inr ⟨h.colour, hflight, final, h.chosen⟩⟩, ?_⟩
  rcases sent with ⟨code, text⟩
  have hsend : s.send rgb (decide (code = .ok)) = { s with
      chosen := none
      flight := some { flight with frames := rgb :: flight.frames }
      finished := decide (code = .ok) && final
      shown := s.shown || (decide (code = .ok) && final)
      due := decide (code = .ok) && final && decide (flight.kind = .idle) } := by
    simp only [Watch.send, h.colour, h.inFlight, h.chosen, h.timed.due, Option.map_some,
      Option.getD_some, Bool.false_or]
    rfl
  show (flashWatch o).wp _ (s.send rgb (decide (code = .ok))) _
  rw [hsend]
  refine Monitor.wp_ite.mpr ⟨fun hne => Over.ends ⟨h.owed, fun hok => absurd hok hne⟩, fun hok => ?_⟩
  obtain rfl : code = .ok := not_not.mp hok
  rw [Monitor.wp_bind]
  have haccounted : s.started = s.startups + s.idles + s.interrupted + 1 := by
    rw [h.accounted, Watch.accounted, h.inFlight]
    rfl
  refine watch_announce ?_ ?_ ?_
  · exact h.announced
  · rintro rfl
    exact Bool.or_true _
  refine Monitor.wp_ite.mpr ⟨fun hcolour => (nomatch hcolour), fun _ => ?_⟩
  refine Monitor.wp_ite.mpr ⟨fun hfinal => ?_, fun hfinal => ?_⟩
  · subst hfinal
    refine watch_finishFlash ⟨⟨.inr ⟨_, rfl, { h.sent with }⟩, { h.counted with }, haccounted, rfl⟩,
      h.owed, h.colour, rfl, ?_, h.timed.baseline, h.timed.last⟩ ?_
    · show decide (flight.kind = .idle) = decide (r.flashing = .idle)
      rw [h.sent.kind]
    · show r.flashing ≠ .none
      rw [h.sent.kind]
      exact h.sent.proper
  · obtain rfl : final = false := Bool.not_eq_true _ ▸ hfinal
    refine AtHead.goesOn ⟨⟨.inr ⟨_, rfl, { h.sent with }⟩, { h.counted with }, haccounted, rfl⟩,
      ⟨rfl, h.timed.baseline, h.timed.last⟩, h.owed⟩

/-! ### A round -/

/-- The round after its batch: the time has just been read. -/
structure Choosing (now : Word64) (r : Rx) (s : Watch) : Prop where
  lit : Lit r s
  timed : Timed r.activity s
  owed : s.owed = none
  colour : s.colour = none
  now : s.last = now.toNat

theorem watch_startIdle {idleEnabled : Bool} {now : Word64} (h : Choosing now r s)
    (hoption : idleEnabled = o.idleEnabled) :
    (flashWatch o).wp (startIdle idleEnabled r now) s fun s' r' => Choosing now r' s' := by
  refine Monitor.wp_ite.mpr ⟨fun hstart => ?_, fun _ => h⟩
  obtain ⟨hnone, henabled, hdue⟩ := hstart
  have hflight : s.flight = none := by
    rcases h.lit.flight with ⟨hflight, -⟩ | ⟨flight, -, hof⟩
    · exact hflight
    · exact absurd (hof.kind.symm.trans hnone) hof.proper
  have haccounted : s.started + 1 = s.startups + s.idles + s.interrupted + 1 := by
    rw [h.lit.accounted, Watch.accounted, hflight]
    rfl
  have hlate : s.baseline + 60000000000 < s.last := by
    rw [h.timed.baseline, h.now]
    exact (dldFlashIdleDue_iff now r.activity).mp hdue
  have hisNone : s.flight.isNone = true := by
    rw [hflight]
    rfl
  refine Monitor.wp_op_bind fun _ _ =>
    ⟨⟨hoption ▸ henabled, hisNone, h.colour, h.timed.due, hlate⟩, ?_⟩
  refine ⟨⟨.inr ⟨_, rfl, rfl, ?_, rfl, ?_, ?_⟩, { h.lit.counted with }, haccounted,
    h.lit.announced⟩, { h.timed with }, h.owed, h.colour, h.now⟩
  · exact fun h => nomatch h
  · exact ⟨fun _ => rfl, fun _ => rfl⟩
  · exact fun h => nomatch h

/-- The choice of a frame, case by case. -/
theorem Flight.Of.next {flight : Flight} (h : flight.Of r) (now : Word64) :
    flight.Follows (dldFlashNext r.flash now).2.1 (dldFlashNext r.flash now).2.2 ∧
      Flight.Of { flight with frames := (dldFlashNext r.flash now).2.1 :: flight.frames }
        { r with flash := (dldFlashNext r.flash now).1 } := by
  have hnil (rgb : Word) (flag : Bool) (hflag : flag = true) :
      rgb :: flight.frames = [] ↔ flag = false := by simp [hflag]
  have hlater (hinitial : r.flash.initialSent = true) : flight.frames ≠ [] := by
    rw [ne_eq, h.initial, hinitial]
    exact fun h => nomatch h
  rcases dldFlashNext_cases r.flash now with ⟨hinitial, hnext⟩ | ⟨hinitial, -, hnext⟩ |
    ⟨hinitial, hpeak, hnext⟩ | ⟨hinitial, rgb, hnext⟩
  · rw [hnext]
    refine ⟨⟨fun _ => ⟨rfl, rfl⟩, fun h => (nomatch h)⟩, h.kind, h.proper, h.color,
      hnil _ _ rfl, ?_⟩
    exact fun hpeak => .tail _ (h.peak hpeak)
  · rw [hnext]
    refine ⟨⟨fun hempty => absurd hempty (hlater hinitial), fun h => (nomatch h)⟩, h.kind,
      h.proper, h.color, hnil _ _ hinitial, fun _ => ?_⟩
    show flight.color ∈ r.flash.color :: flight.frames
    rw [h.color]
    exact .head _
  · rw [hnext]
    refine ⟨⟨fun hempty => absurd hempty (hlater hinitial), fun _ => ⟨rfl, h.peak hpeak⟩⟩, h.kind,
      h.proper, h.color, hnil _ _ hinitial, ?_⟩
    exact fun hpeak => .tail _ (h.peak hpeak)
  · rw [hnext]
    refine ⟨⟨fun hempty => absurd hempty (hlater hinitial), fun h => (nomatch h)⟩, h.kind,
      h.proper, h.color, hnil _ _ hinitial, ?_⟩
    exact fun hpeak => .tail _ (h.peak hpeak)

theorem watch_nextFrame {now : Word64} (h : Choosing now r s) (hflashing : r.flashing ≠ .none) :
    (flashWatch o).wp (nextFrame r now) s fun s' r' =>
      ∃ flight, Framed r'.2.1 r'.2.2 r'.1 s' flight := by
  obtain ⟨-, hnone⟩ | ⟨flight, hflight, hof⟩ := h.lit.flight
  · exact absurd hnone hflashing
  let flash := if r.flash.initialSent = false then { r.flash with startedNs := now } else r.flash
  obtain ⟨hcolor, hinitial, hpeak⟩ : flash.color = r.flash.color ∧
      flash.initialSent = r.flash.initialSent ∧ flash.peakSent = r.flash.peakSent := by
    show (ite _ _ _ : DldFlash).color = _ ∧ (ite _ _ _ : DldFlash).initialSent = _ ∧
      (ite _ _ _ : DldFlash).peakSent = _
    split_ifs <;> exact ⟨rfl, rfl, rfl⟩
  have hof : flight.Of { r with flash := flash } := by
    refine ⟨hof.kind, hof.proper, hcolor.trans hof.color, ?_, ?_⟩
    · rw [hof.initial, hinitial]
    · rw [hpeak]
      exact hof.peak
  obtain ⟨hfollows, hsent⟩ := hof.next now
  refine Monitor.wp_op_bind fun _ _ => ⟨⟨h.colour, flight, hflight, hfollows⟩, flight, ?_⟩
  exact ⟨hflight, { hsent with }, { h.lit.counted with }, h.lit.accounted, h.lit.announced,
    { h.timed with }, h.colour, h.owed, rfl⟩

/-- The wait of a round without a transmission. -/
theorem watch_pollSocket {idleEnabled : Bool} {now : Word64} (h : AtHead r s) :
    (flashWatch o).wp (pollSocket idleEnabled r now) s fun s' r' => RoundOver s' r' := by
  have hfails {s : Watch} (howed : s.owed = none) : Over s .prerequisite :=
    ⟨howed, fun hok => (nomatch hok)⟩
  refine Monitor.wp_op_bind fun ready _ => ⟨trivial, ?_⟩
  rcases ready with errno | ⟨ready, revents⟩
  · refine Monitor.wp_ite.mpr ⟨fun _ => h.goesOn, fun _ => ?_⟩
    exact Monitor.wp_op_bind fun reason _ => ⟨trivial, (hfails h.owed).ends⟩
  · refine Monitor.wp_ite.mpr ⟨fun _ => h.goesOn, fun _ => ?_⟩
    refine Monitor.wp_op_bind fun flag _ => ⟨trivial, ?_⟩
    have h : AtHead r { s with cancelled := s.cancelled || decide (flag ≠ 0) } :=
      ⟨{ h.lit with counted := { h.lit.counted with } }, { h.timed with }, h.owed⟩
    refine Monitor.wp_ite.mpr ⟨fun _ => h.goesOn, fun _ => ?_⟩
    exact Monitor.wp_ite.mpr ⟨fun _ => (hfails h.owed).ends, fun _ => h.goesOn⟩

theorem watch_actOn {idleEnabled haveColor : Bool} {rgb : Word} {now : Word64} (hlit : Lit r s)
    (htimed : Timed r.activity s) (howed : s.owed = none)
    (hcolour : s.colour = if haveColor then some rgb else none) (hnow : s.last = now.toNat)
    (hoption : idleEnabled = o.idleEnabled) :
    (flashWatch o).wp (actOn idleEnabled r rgb haveColor now) s fun s' r' => RoundOver s' r' := by
  cases haveColor
  · refine Monitor.wp_ite.mpr ⟨fun h => (nomatch h), fun _ => ?_⟩
    rw [Monitor.wp_bind]
    refine Monitor.wp_mono (watch_startIdle ⟨hlit, htimed, howed, hcolour, hnow⟩ hoption) ?_
    intro s r h
    refine Monitor.wp_ite.mpr ⟨fun hflashing => ?_, fun _ => ?_⟩
    · rw [Monitor.wp_bind]
      refine Monitor.wp_mono (watch_nextFrame h hflashing) ?_
      rintro s ⟨r, rgb, final⟩ ⟨flight, h⟩
      exact watch_transmitFrame h
    · exact watch_pollSocket ⟨h.lit, h.timed, h.owed⟩
  · refine Monitor.wp_ite.mpr ⟨fun _ => ?_, fun h => absurd rfl h⟩
    rw [Monitor.wp_bind]
    refine Monitor.wp_mono (watch_interrupt hlit htimed howed hcolour) ?_
    intro s r h
    exact watch_transmitColour h

theorem watch_rxRound {idleEnabled : Bool} (h : AtHead r s) (hcolour : s.colour = none)
    (hoption : idleEnabled = o.idleEnabled) :
    (flashWatch o).wp (rxRound idleEnabled r) s fun s' r' => RoundOver s' r' := by
  unfold rxRound
  rw [Monitor.wp_bind]
  refine Monitor.wp_mono (watch_receiveBatch (r := r)
    ⟨h.lit, h.timed, h.owed, hcolour, rfl, rfl, rfl⟩) ?_
  rintro s ⟨ok, b⟩ ⟨howed, hgood⟩
  refine Monitor.wp_ite.mpr ⟨fun _ => Over.ends ⟨howed, fun hok => (nomatch hok)⟩, fun hok => ?_⟩
  have hb := hgood (Bool.not_eq_false _ ▸ hok)
  refine Monitor.wp_op_bind fun flag _ => ⟨trivial, ?_⟩
  have hb := hb.cancelled (s.cancelled || decide (flag ≠ 0))
  refine Monitor.wp_ite.mpr ⟨fun hflag => Over.ends ⟨howed, fun _ => ?_⟩, fun _ => ?_⟩
  · show (s.cancelled || decide (flag ≠ 0)) = true
    simp [hflag]
  · rw [Monitor.wp_bind]
    refine wp_reading (fun text => Over.ends ⟨howed, fun hok => (nomatch hok)⟩) fun now hnow => ?_
    refine watch_actOn ⟨hb.lit.flight_of rfl rfl, ?_, hb.lit.accounted, hb.lit.announced⟩
      (hb.timed.reading hnow) hb.owed hb.colour rfl hoption
    exact { hb.lit.counted.same hb.counts with }

/-- What the exit line needs. -/
def Ends (s : Watch) (code : DldExitCode) : Prop :=
  s.owed = none ∧ (s.flight.isSome → s.cancelled = true ∨ code ≠ .ok)

theorem Over.exits {code : DldExitCode} (h : Over s code) : Ends s code := by
  refine ⟨h.1, fun _ => ?_⟩
  by_cases hok : code = .ok
  · exact .inl (h.2 hok)
  · exact .inr hok

/-- The main loop, by induction over the iterations it may still make. -/
theorem watch_rxLoop {idleEnabled : Bool} {fuel : Nat} (h : AtHead r s)
    (hoption : idleEnabled = o.idleEnabled) :
    (flashWatch o).wp (rxLoop idleEnabled fuel r) s fun s' r' => Ends s' r'.2 := by
  induction fuel generalizing s r with
  | zero => exact fun never => never.elim
  | succ fuel ih =>
    refine Monitor.wp_op_bind fun _ _ => ⟨⟨h.lit.counted, h.lit.accounted, h.owed, ?_⟩, ?_⟩
    · rw [h.lit.counted.startups, h.lit.counted.idles, h.lit.counted.interrupted,
        h.lit.accounted, Watch.accounted, BitVec.ofNat_add, BitVec.ofNat_add, BitVec.ofNat_add]
      split <;> rfl
    refine Monitor.wp_op_bind fun flag _ => ⟨trivial, ?_⟩
    refine Monitor.wp_ite.mpr ⟨fun hflag => ?_, fun _ => ?_⟩
    · refine ⟨h.owed, fun _ => .inl ?_⟩
      show (s.cancelled || decide (flag ≠ 0)) = true
      simp [hflag]
    rw [Monitor.wp_bind]
    have hhead : AtHead r { s with
        looping := true, colour := none, chosen := none
        cancelled := s.cancelled || decide (flag ≠ 0) } :=
      ⟨{ h.lit with counted := { h.lit.counted with } }, { h.timed with }, h.owed⟩
    refine Monitor.wp_mono (watch_rxRound hhead rfl hoption) ?_
    rintro s ⟨r, ended⟩ ⟨hon, hend⟩
    rcases ended with - | code
    · exact ih (hon rfl)
    · exact (hend code rfl).exits

/-! ### The whole program -/

theorem watch_rxDone {opened bound : Bool} {code : DldExitCode} (h : Ends s code) :
    (flashWatch o).wp (rxDone r opened bound code) s fun _ _ => True := by
  refine Monitor.wp_mono
    (Monitor.wp_invariant (I := fun s => Ends s code) (rxDone_emits r opened bound code) h ?_)
    fun _ _ _ => trivial
  rintro s ⟨op, a⟩ he h -
  cases op with
  | senderClose | closeSocket | printError => exact ⟨trivial, h⟩
  | cancelled =>
    refine ⟨trivial, h.1, fun hflight => ?_⟩
    rcases h.2 hflight with hcancelled | hcode
    · exact .inl (Bool.or_eq_true_iff.mpr (.inl hcancelled))
    · exact .inr hcode
  | stopped counts code' =>
    obtain ⟨-, rfl⟩ : counts = r.counts ∧ code' = code := he
    exact ⟨h, h⟩
  | _ => exact False.elim he

/-- The sender is attached and the time has been read. -/
structure Attached (activity : Word64) (s : Watch) : Prop where
  timed : Timed activity s
  flight : s.flight = none
  started : s.started = 0
  startups : s.startups = 0
  idles : s.idles = 0
  interrupted : s.interrupted = 0
  owed : s.owed = none
  looping : s.looping = false
  announced : s.announced = false

theorem watch_serveLoop {fuel : Nat} (h : AtHead r s) :
    (flashWatch o).wp (do
      let (r, code) ← rxLoop o.idleEnabled fuel r
      rxDone r true true code) s fun _ _ => True := by
  rw [Monitor.wp_bind]
  refine Monitor.wp_mono (watch_rxLoop h rfl) ?_
  rintro s ⟨r, code⟩ h
  exact watch_rxDone h

theorem watch_rxServe {fuel : Nat} {activity : Word64} {error : String} (h : Attached activity s) :
    (flashWatch o).wp (rxServe fuel o activity error) s fun _ _ => True := by
  have hisNone : s.flight.isNone = true := by
    rw [h.flight]
    rfl
  have hcounted : FlashCounted s {} := by
    refine ⟨?_, ?_, ?_⟩
    · rw [h.startups]
      rfl
    · rw [h.idles]
      rfl
    · rw [h.interrupted]
      rfl
  refine Monitor.wp_ite.mpr ⟨fun henabled => ?_, fun hdisabled => ?_⟩
  · rw [Monitor.wp_bind]
    refine Monitor.wp_op_bind fun _ _ => ⟨⟨henabled, h.looping, h.started, hisNone⟩, ?_⟩
    refine Monitor.wp_op_bind fun _ _ => ⟨trivial, watch_serveLoop ?_⟩
    refine ⟨⟨.inr ⟨_, rfl, rfl, fun h => (nomatch h), rfl, ?_, fun h => (nomatch h)⟩,
      { hcounted with }, ?_, h.announced⟩, { h.timed with }, h.owed⟩
    · exact ⟨fun _ => rfl, fun _ => rfl⟩
    · show s.started + 1 = s.startups + s.idles + s.interrupted + 1
      rw [h.started, h.startups, h.idles, h.interrupted]
  · refine Monitor.wp_op_bind fun _ _ => ⟨trivial, ?_⟩
    refine Monitor.wp_op_bind fun _ _ =>
      ⟨⟨h.announced, fun henabled => absurd henabled hdisabled⟩, watch_serveLoop ?_⟩
    refine ⟨⟨.inl ⟨h.flight, rfl⟩, { hcounted with }, ?_, rfl⟩, { h.timed with }, h.owed⟩
    show s.started = s.startups + s.idles + s.interrupted + if s.flight.isSome then 1 else 0
    rw [h.started, h.startups, h.idles, h.interrupted, h.flight]
    rfl

theorem watch_rxStart {fuel : Nat} :
    (flashWatch o).wp (rxStart fuel o) {} fun _ _ => True := by
  have hfirst (code : DldExitCode) : Ends {} code := ⟨rfl, fun h => (nomatch h)⟩
  refine Monitor.wp_op_bind fun installed _ => ⟨trivial, ?_⟩
  rcases installed with text | -
  · exact watch_rxDone (hfirst _)
  refine Monitor.wp_op_bind fun bound _ => ⟨trivial, ?_⟩
  rcases bound with ⟨code, text⟩ | -
  · exact watch_rxDone (hfirst _)
  refine Monitor.wp_op_bind fun opened _ => ⟨trivial, ?_⟩
  rcases opened with ⟨code, error⟩
  refine Monitor.wp_ite.mpr ⟨fun _ => watch_rxDone ⟨rfl, fun h => (nomatch h)⟩, fun hok => ?_⟩
  obtain rfl : code = .ok := not_not.mp hok
  rw [Monitor.wp_bind]
  refine wp_reading (fun text => watch_rxDone ⟨rfl, fun h => (nomatch h)⟩) fun activity hnow => ?_
  exact watch_rxServe
    ⟨timed_of_due rfl (Nat.le_refl 0) hnow, rfl, rfl, rfl, rfl, rfl, rfl, rfl, rfl⟩

/-- The flashes over every run, complete or not, with a clock that does not
go back. -/
theorem dldUdp_flashWatch (fuel : Nat) (args : List String) (t : List RxEvent)
    (rest : RxProg DldExitCode) (h : (dldUdp fuel args).Steps t rest)
    (henv : (flashWatch ((udpArguments {} args).getD {})).EnvAlong {} t) :
    (flashWatch ((udpArguments {} args).getD {})).SafeAlong {} t := by
  have hwp : (flashWatch ((udpArguments {} args).getD {})).wp (dldUdp fuel args) {}
      fun _ _ => True := by
    refine Monitor.wp_ite.mpr ⟨fun _ _ _ => ⟨trivial, trivial⟩, fun _ => ?_⟩
    rcases udpArguments {} args with - | o
    · exact fun _ _ => ⟨trivial, trivial⟩
    · exact Monitor.wp_ite.mpr ⟨fun _ _ _ => ⟨trivial, trivial⟩, fun _ => watch_rxStart⟩
  exact (Monitor.wp_steps hwp h henv).1

/-- No traffic, and an interrupt after six frames.  The state counts the
readings of the clock, 61 s apart, and the sends. -/
def quietNet (n : Nat × Nat) : (o : RxOp) → Option (o.Res × (Nat × Nat))
  | .cancelled => some (if n.2 < 6 then 0 else 2, n)
  | .clockGettime => some (.ok (61 * n.1, 0), (n.1 + 1, n.2))
  | .recvmsg => some (.error eAgain, n)
  | .poll _ => some (.ok (0, 0), n)
  | .installSignals | .openSocket .. => some (.ok (), n)
  | .senderOpen => some ((.ok, ""), n)
  | .senderSend _ => some ((.ok, ""), (n.1, n.2 + 1))
  | .strerror => some ("", n)
  | .running => none
  | .closeSocket | .senderClose | .print _ | .printError _ | .ready | .head _ | .setFlashing _
  | .flashNext .. | .stopped .. => some ((), n)

theorem dldUdp_flashWatch_quiet :
    ∃ t, (dldUdp 8 []).Runs t .ok ∧ (flashWatch {}).SafeAlong {} t ∧
      ((flashWatch {}).run {} t).startups = 1 ∧ ((flashWatch {}).run {} t).idles = 1 := by
  have hrun : ∃ r, (dldUdp 8 []).tryExec quietNet (0, 0) = some r :=
    Option.isSome_iff_exists.mp (by decide +kernel)
  have hquiet : ∀ r ∈ (dldUdp 8 []).tryExec quietNet (0, 0),
      (flashWatch {}).EnvAlong {} r.1 ∧ r.2 = .ok ∧ ((flashWatch {}).run {} r.1).startups = 1 ∧
        ((flashWatch {}).run {} r.1).idles = 1 := by decide +kernel
  obtain ⟨⟨t, code⟩, hrun⟩ := hrun
  obtain ⟨henv, hcode, hstartups, hidles⟩ := hquiet _ hrun
  dsimp only at henv hcode hstartups hidles
  subst hcode
  have hruns := Prog.tryExec_runs hrun
  exact ⟨t, hruns, dldUdp_flashWatch 8 [] t _ hruns.steps henv, hstartups, hidles⟩

end Dld
