/-
DldDriver/Tools/Pacing.lean

What the panel exerciser sends, over every run: attempts at one panel are
an interval apart, no packet leaves the power budget, and after a color
that is refused nothing but black is sent.

The monitor's state is the trace so far.  The invariant at a label is that
`next_frame` is an interval after the start of every attempt, and where a
frame begins the clock has passed it.
-/
import DldDriver.Tools.Exerciser
import Mathlib.Tactic.Linarith

namespace Dld

namespace Exercise

open Interaction Machine

variable {T : Type}

/-! ### Traces -/

abbrev Trace (T : Type) := List (Event (Op T) Res)

/-- The target and the packet of an attempt. -/
def attemptOf : Event (Op T) Res → Option (T × List UInt8)
  | ⟨.send target packet, _⟩ => some (target, packet)
  | _ => none

/-- A color that `encode_color` refuses. -/
def Refused : Event (Op T) Res → Prop
  | ⟨.colorAt .., a⟩ => ∃ rgb, a.value = .ok rgb ∧ ∀ packet, encodeColor rgb ≠ .ok packet
  | _ => False

/-- A reading of the clock is taken while it is asked for. -/
def ReadsClock : Event (Op T) Res → Prop
  | ⟨.clock, a⟩ =>
    let now : ℚ := a.value
    a.start ≤ now ∧ now ≤ a.stop
  | _ => True

instance : DecidablePred (ReadsClock (T := T))
  | ⟨.clock, a⟩ =>
    let now : ℚ := a.value
    (inferInstance : Decidable (a.start ≤ now ∧ now ≤ a.stop))
  | ⟨.stopped, _⟩ | ⟨.sleep _, _⟩ | ⟨.report _, _⟩ | ⟨.colorAt .., _⟩ | ⟨.send .., _⟩ =>
    isTrue trivial

/-- Time does not go back. -/
structure Ordered (h : Trace T) (e : Event (Op T) Res) : Prop where
  after : ∀ x ∈ h, x.2.stop ≤ e.2.start
  forward : e.2.start ≤ e.2.stop
  reads : ReadsClock e

instance (h : Trace T) (e : Event (Op T) Res) : Decidable (Ordered h e) :=
  decidable_of_iff ((∀ x ∈ h, x.2.stop ≤ e.2.start) ∧ e.2.start ≤ e.2.stop ∧ ReadsClock e)
    ⟨fun h => ⟨h.1, h.2.1, h.2.2⟩, fun h => ⟨h.after, h.forward, h.reads⟩⟩

def blackPacket : List UInt8 := [0, 0, 0, 3, 0, 0, 0]

/-- The three channels are within the budget. -/
def InBudget (packet : List UInt8) : Prop :=
  ∃ r g b : Nat, packet = [0, 0, 0, 3, UInt8.ofNat r, UInt8.ofNat g, UInt8.ofNat b] ∧
    r + g + b ≤ 255

variable (x : Arguments T)

/-- The attempt `target`, `packet` at time `start`, after the trace `h`. -/
structure Allowed (h : Trace T) (target : T) (packet : List UInt8) (start : ℚ) : Prop where
  paced : ∀ e ∈ h, ∀ p, attemptOf e = some (target, p) → e.2.start + x.interval ≤ start
  budgeted : InBudget packet
  whole : (∃ e ∈ h, Refused e) → packet = blackPacket

/-- What a run may do. -/
def timeline : Monitor (Op T) Res (Trace T) where
  env := Ordered
  safe h e := ∀ target packet, attemptOf e = some (target, packet) →
    Allowed x h target packet e.2.start
  next h e := h ++ [e]

@[simp] theorem timeline_run (h t : Trace T) : (timeline x).run h t = h ++ t := by
  induction t generalizing h with
  | nil => simp
  | cons e t ih =>
    rw [Monitor.run_cons, ih]
    simp [timeline]

/-! ### Programs that do not send -/

/-- Neither an attempt nor a color. -/
def Quiet (e : Event (Op T) Res) : Prop := attemptOf e = none ∧ ¬ Refused e

section Quiet

variable {K : Event (Op T) Res → Prop}

theorem clock_quiet : (Call.clock : Call T ℚ).Emits Quiet :=
  fun _ => ⟨⟨rfl, not_false⟩, trivial⟩

theorem stopped_quiet : (Call.stopped : Call T _).Emits Quiet :=
  fun _ => ⟨⟨rfl, not_false⟩, trivial⟩

theorem sleep_quiet (d : ℚ) : (Call.sleep d : Call T _).Emits Quiet :=
  fun _ => ⟨⟨rfl, not_false⟩, trivial⟩

theorem report_quiet (event : Report T) : (Call.report event).Emits Quiet :=
  fun _ => ⟨⟨rfl, not_false⟩, trivial⟩

theorem snapshot_quiet (v : Vars T) (event : String) : (snapshot x v event).Emits Quiet :=
  Prog.emits_bind clock_quiet fun _ => trivial

/-- An invariant that the events of the program keep, and what it returns. -/
theorem wp_keeps {α : Type} {p : Call T α} {h : Trace T} {I : Trace T → Prop} {R : α → Prop}
    (hp : p.Emits K) (hK : ∀ e, K e → attemptOf e = none) (hI : I h)
    (hstep : ∀ h e, K e → Ordered h e → I h → I (h ++ [e])) (hR : p.All fun _ a => R a) :
    (timeline x).wp p h fun h' a => I h' ∧ R a := by
  have hinv : (timeline x).wp p h fun h' _ => I h' := by
    apply Monitor.wp_invariant hp hI
    intro h e he hIh henv
    constructor
    · intro target packet hattempt
      rw [hK e he] at hattempt
      cases hattempt
    · exact hstep h e he henv hIh
  apply Monitor.wp_mono (Monitor.wp_all hinv hR)
  rintro h' a ⟨hIh, -, -, hRa⟩
  exact ⟨hIh, hRa⟩

end Quiet

/-! ### The invariant -/

variable {x}

/-- `next_frame` is an interval after every attempt. -/
structure Base (x : Arguments T) (v : Vars T) (h : Trace T) : Prop where
  forward : ∀ e ∈ h, e.2.start ≤ e.2.stop
  paced : ∀ e ∈ h, attemptOf e ≠ none → e.2.start + x.interval ≤ v.nextFrame
  attempted : v.attempted = true ↔ ∃ e ∈ h, attemptOf e ≠ none

/-- No color has been refused. -/
def Clean (h : Trace T) : Prop := ∀ e ∈ h, ¬ Refused e

/-- The clock has passed `time`. -/
def Passed (time : ℚ) (h : Trace T) : Prop := ∃ e ∈ h, time ≤ e.2.stop

section Base

variable {v v' : Vars T} {h : Trace T} {e : Event (Op T) Res}

/-- The other variables do not matter. -/
theorem Base.congr (hbase : Base x v h) (hframe : v'.nextFrame = v.nextFrame)
    (hattempted : v'.attempted = v.attempted) : Base x v' h where
  forward := hbase.forward
  paced := hframe ▸ hbase.paced
  attempted := hattempted ▸ hbase.attempted

theorem Base.append (hbase : Base x v h) (hquiet : attemptOf e = none) (henv : Ordered h e) :
    Base x v (h ++ [e]) := by
  constructor
  · intro y hy
    rcases List.mem_append.mp hy with hy | hy
    · exact hbase.forward y hy
    · rw [List.mem_singleton.mp hy]
      exact henv.forward
  · intro y hy hattempt
    rcases List.mem_append.mp hy with hy | hy
    · exact hbase.paced y hy hattempt
    · rw [List.mem_singleton.mp hy] at hattempt
      exact absurd hquiet hattempt
  · rw [hbase.attempted]
    constructor
    · rintro ⟨y, hy, hattempt⟩
      exact ⟨y, List.mem_append_left _ hy, hattempt⟩
    · rintro ⟨y, hy, hattempt⟩
      rcases List.mem_append.mp hy with hy | hy
      · exact ⟨y, hy, hattempt⟩
      · rw [List.mem_singleton.mp hy] at hattempt
        exact absurd hquiet hattempt

theorem Clean.append (hclean : Clean h) (he : ¬ Refused e) : Clean (h ++ [e]) := by
  intro y hy
  rcases List.mem_append.mp hy with hy | hy
  · exact hclean y hy
  · rw [List.mem_singleton.mp hy]
    exact he

theorem Passed.append {time : ℚ} (h' : Passed time h) : Passed time (h ++ [e]) := by
  obtain ⟨y, hy, hle⟩ := h'
  exact ⟨y, List.mem_append_left _ hy, hle⟩

/-- What the clock has passed has passed for every later event. -/
theorem Passed.le {time : ℚ} (h' : Passed time h) (henv : Ordered h e) : time ≤ e.2.start := by
  obtain ⟨y, hy, hle⟩ := h'
  exact hle.trans (henv.after y hy)

/-- `next_frame` an interval after a reading of the clock. -/
theorem Base.clock {c : Answer ℚ} (hforward : ∀ e ∈ h, e.2.start ≤ e.2.stop)
    (hclock : Ordered h ⟨.clock, c⟩) (hframe : v.nextFrame = c.value + x.interval)
    (hattempted : v.attempted = true ↔ ∃ e ∈ h, attemptOf e ≠ none) :
    Base x v (h ++ [⟨.clock, c⟩]) := by
  have hread : c.start ≤ c.value := hclock.reads.1
  constructor
  · simp only [List.forall_mem_append, List.forall_mem_singleton]
    exact ⟨hforward, hclock.forward⟩
  · intro e he hattempt
    rcases List.mem_append.mp he with he | he
    · have hbefore : e.2.stop ≤ c.start := hclock.after e he
      have hfwd := hforward e he
      rw [hframe]
      linarith
    · rw [List.mem_singleton.mp he] at hattempt
      exact absurd rfl hattempt
  · rw [hattempted]
    constructor
    · rintro ⟨e, he, hattempt⟩
      exact ⟨e, List.mem_append_left _ he, hattempt⟩
    · rintro ⟨e, he, hattempt⟩
      rcases List.mem_append.mp he with he | he
      · exact ⟨e, he, hattempt⟩
      · rw [List.mem_singleton.mp he] at hattempt
        exact absurd rfl hattempt

end Base

/-! ### Quiet programs -/

section Stable

variable {α : Type} {h : Trace T}

/-- What quiet events keep. -/
def Stable (I : Trace T → Prop) : Prop :=
  ∀ h e, Quiet e → Ordered h e → I h → I (h ++ [e])

theorem base_stable (x : Arguments T) (v : Vars T) : Stable (Base x v) :=
  fun _ _ hquiet henv hbase => hbase.append hquiet.1 henv

theorem clean_stable : Stable (Clean (T := T)) := fun _ _ hquiet _ hclean => hclean.append hquiet.2

theorem passed_stable (time : ℚ) : Stable (Passed (T := T) time) :=
  fun _ _ _ _ hpassed => hpassed.append

theorem Stable.and {I J : Trace T → Prop} (hI : Stable I) (hJ : Stable J) :
    Stable fun h => I h ∧ J h :=
  fun h e hquiet henv hh => ⟨hI h e hquiet henv hh.1, hJ h e hquiet henv hh.2⟩

/-- A quiet program and the rest. -/
theorem wp_quiet {β : Type} {I : Trace T → Prop} {p : Call T α} {f : α → Call T β}
    {Q : Trace T → β → Prop} (hstable : Stable I) (hp : p.Emits Quiet) (hI : I h)
    (hf : ∀ h' a, I h' → (timeline x).wp (f a) h' Q) : (timeline x).wp (p >>= f) h Q := by
  rw [Monitor.wp_bind]
  apply Monitor.wp_mono (wp_keeps x hp (fun e he => he.1) hI hstable
    (Prog.all_of_forall fun _ _ => trivial))
  rintro h' a ⟨hI', -⟩
  exact hf h' a hI'

end Stable

/-! ### Attempts -/

/-- `h'` is `h` and then attempts at `target` only, and no refused color. -/
def Serves (target : T) (h h' : Trace T) : Prop :=
  ∃ u, h' = h ++ u ∧ ∀ e ∈ u, ¬ Refused e ∧ ∀ who p, attemptOf e = some (who, p) → who = target

theorem Serves.append {target : T} {h h' : Trace T} {e : Event (Op T) Res} (hs : Serves target h h')
    (he : ¬ Refused e) (hwho : ∀ who p, attemptOf e = some (who, p) → who = target) :
    Serves target h (h' ++ [e]) := by
  obtain ⟨u, rfl, hu⟩ := hs
  refine ⟨u ++ [e], List.append_assoc .., ?_⟩
  simp only [List.forall_mem_append, List.forall_mem_singleton]
  exact ⟨hu, he, hwho⟩

theorem Serves.clean {target : T} {h h' : Trace T} (hs : Serves target h h') :
    Clean h' ↔ Clean h := by
  obtain ⟨u, rfl, hu⟩ := hs
  constructor
  · exact fun hclean e he => hclean e (List.mem_append_left _ he)
  · intro hclean e he
    rcases List.mem_append.mp he with he | he
    · exact hclean e he
    · exact (hu e he).1

/-- Every attempt at the target is an interval old. -/
def Ready (x : Arguments T) (target : T) (h : Trace T) : Prop :=
  ∀ e ∈ h, ∀ p, attemptOf e = some (target, p) → Passed (e.2.start + x.interval) h

theorem Ready.serves {target other : T} {h h' : Trace T} (hready : Ready x other h)
    (hs : Serves target h h') (hne : other ≠ target) : Ready x other h' := by
  obtain ⟨u, rfl, hu⟩ := hs
  intro e he p hattempt
  rcases List.mem_append.mp he with he | he
  · obtain ⟨y, hy, hle⟩ := hready e he p hattempt
    exact ⟨y, List.mem_append_left _ hy, hle⟩
  · exact absurd ((hu e he).2 _ _ hattempt) hne

section Attempts

variable {α : Type} {h : Trace T} {Q : Trace T → α → Prop}

theorem wp_clock {f : ℚ → Call T α} (hk : ∀ a, Ordered h ⟨.clock, a⟩ →
      (timeline x).wp (f a.value) (h ++ [⟨.clock, a⟩]) Q) :
    (timeline x).wp (Call.clock >>= f) h Q :=
  fun a ha => ⟨fun _ _ hattempt => (nomatch hattempt), hk a ha⟩

theorem wp_send {target : T} {packet : List UInt8} {f : Except Exn Unit → Call T α}
    (hk : ∀ a, Ordered h ⟨.send target packet, a⟩ → Allowed x h target packet a.start ∧
      (timeline x).wp (f a.value) (h ++ [⟨.send target packet, a⟩]) Q) :
    (timeline x).wp (Call.send target packet >>= f) h Q := by
  intro a ha
  refine ⟨?_, (hk a ha).2⟩
  intro who p hattempt
  cases hattempt
  exact (hk a ha).1

theorem wp_colorAt {scene : Scene} {position : ℚ} {panelIndex panelCount : Nat} {cycle : ℤ}
    {seed : PyValue} {f : Except Exn (List PyValue) → Call T α}
    (hk : ∀ a, Ordered h ⟨.colorAt scene position panelIndex panelCount cycle seed, a⟩ →
      (timeline x).wp (f a.value)
        (h ++ [⟨.colorAt scene position panelIndex panelCount cycle seed, a⟩]) Q) :
    (timeline x).wp (Call.colorAt scene position panelIndex panelCount cycle seed >>= f) h Q :=
  fun a ha => ⟨fun _ _ hattempt => (nomatch hattempt), hk a ha⟩

variable [DecidableEq T] {v : Vars T} {target : T} {rgb : List PyValue} {packet : List UInt8}

/-- The bookkeeping after a send neither sends nor moves `next_frame`. -/
theorem sendDone_spec : (sendDone v target rgb).Emits Quiet ∧
    (sendDone v target rgb).All fun _ r =>
      r.1.nextFrame = v.nextFrame ∧ r.1.attempted = v.attempted := by
  unfold sendDone
  dsimp only
  split_ifs
  · constructor
    · apply Prog.emits_bind (report_quiet _)
      rintro (e | ⟨⟩) <;> trivial
    · intro a
      rcases a with ⟨_, _, e | ⟨⟩⟩ <;> exact ⟨rfl, rfl⟩
  · exact ⟨trivial, rfl, rfl⟩

theorem sendFailed_spec (text : String) : (sendFailed v target text).Emits Quiet ∧
    (sendFailed v target text).All fun _ r =>
      r.1.nextFrame = v.nextFrame ∧ r.1.attempted = v.attempted := by
  unfold sendFailed
  constructor
  · apply Prog.emits_bind clock_quiet
    intro now
    split_ifs
    · apply Prog.emits_bind (report_quiet _)
      rintro (e | ⟨⟩) <;> trivial
    · trivial
  · intro now
    show Prog.All (if _ then _ else _) _
    split_ifs
    · intro a
      rcases a with ⟨_, _, e | ⟨⟩⟩ <;> exact ⟨rfl, rfl⟩
    · exact ⟨rfl, rfl⟩

/-- One attempt keeps the invariant and leaves the other targets ready. -/
theorem wp_attempt (hbase : Base x v h) (hready : Ready x target h) (hpacket : InBudget packet)
    (hwhole : ¬ Clean h → packet = blackPacket) :
    (timeline x).wp (attempt x v target rgb packet) h fun h' r =>
      Base x r.1 h' ∧ Serves target h h' := by
  apply wp_send
  intro a ha
  refine ⟨⟨?_, hpacket, ?_⟩, ?_⟩
  · intro e he p hattempt
    exact (hready e he p hattempt).le ha
  · rintro ⟨e, he, hrefused⟩
    exact hwhole fun hclean => hclean e he hrefused
  apply wp_clock
  intro (c : Answer ℚ) hc
  -- the trace up to here, and what the bookkeeping keeps
  have hserves : Serves target h (h ++ [⟨.send target packet, a⟩] ++ [⟨.clock, c⟩]) := by
    refine Serves.append (Serves.append ⟨[], (List.append_nil h).symm, fun e he => nomatch he⟩
      not_false ?_) not_false fun who p hattempt => nomatch hattempt
    intro who p hattempt
    cases hattempt
    rfl
  have hkeeps {p : Call T (Vars T × Except Exn Unit)} {v' : Vars T}
      (hspec : p.Emits Quiet ∧ p.All fun _ r =>
        r.1.nextFrame = v'.nextFrame ∧ r.1.attempted = v'.attempted)
      (hbase' : Base x v' (h ++ [⟨.send target packet, a⟩] ++ [⟨.clock, c⟩])) :
      (timeline x).wp p (h ++ [⟨.send target packet, a⟩] ++ [⟨.clock, c⟩]) fun h' r =>
        Base x r.1 h' ∧ Serves target h h' := by
    have hstep (h' : Trace T) (e : Event (Op T) Res) (hquiet : Quiet e) (henv : Ordered h' e) :
        Base x v' h' ∧ Serves target h h' →
          Base x v' (h' ++ [e]) ∧ Serves target h (h' ++ [e]) := by
      rintro ⟨hb, hs⟩
      refine ⟨hb.append hquiet.1 henv, hs.append hquiet.2 ?_⟩
      intro who p hattempt
      rw [hquiet.1] at hattempt
      cases hattempt
    apply Monitor.wp_mono (wp_keeps x hspec.1 (fun e he => he.1) ⟨hbase', hserves⟩ hstep hspec.2)
    rintro h' r ⟨⟨hb, hs⟩, hframe, hattempted⟩
    exact ⟨hb.congr hframe hattempted, hs⟩
  have hforward : ∀ e ∈ h ++ [⟨.send target packet, a⟩], e.2.start ≤ e.2.stop := by
    simp only [List.forall_mem_append, List.forall_mem_singleton]
    exact ⟨hbase.forward, ha.forward⟩
  have hbase' (v' : Vars T) (hframe : v'.nextFrame = c.value + x.interval)
      (hattempted : v'.attempted = true) :
      Base x v' (h ++ [⟨.send target packet, a⟩] ++ [⟨.clock, c⟩]) :=
    Base.clock hforward hc hframe
      ⟨fun _ => ⟨_, List.mem_append_right _ (.head _), fun hnone => nomatch hnone⟩,
        fun _ => hattempted⟩
  rcases a.value with (text | - | text) | ⟨⟩
  · exact hkeeps (sendFailed_spec text) (hbase' _ rfl rfl)
  · exact ⟨hbase' _ rfl rfl, hserves⟩
  · exact ⟨hbase' _ rfl rfl, hserves⟩
  · exact hkeeps sendDone_spec (hbase' _ rfl rfl)

/-- A list of attempts at different targets. -/
theorem wp_attemptAll {items : List (T × List PyValue × List UInt8)} (hbase : Base x v h)
    (hready : ∀ item ∈ items, Ready x item.1 h) (hnodup : (items.map (·.1)).Nodup)
    (hbudget : ∀ item ∈ items, InBudget item.2.2)
    (hwhole : ∀ item ∈ items, ¬ Clean h → item.2.2 = blackPacket) :
    (timeline x).wp (attemptAll x v items) h fun h' r => Base x r.1 h' ∧ (Clean h → Clean h') := by
  induction items generalizing v h with
  | nil => exact ⟨hbase, id⟩
  | cons item items ih =>
    obtain ⟨target, rgb, packet⟩ := item
    obtain ⟨hnot, hnodup⟩ := List.nodup_cons.mp hnodup
    rw [attemptAll, Monitor.wp_bind]
    apply Monitor.wp_mono (wp_attempt hbase (hready _ (.head _)) (hbudget _ (.head _))
      (hwhole _ (.head _)))
    rintro h' ⟨v', e | ⟨⟩⟩ ⟨hb, hs⟩
    · exact ⟨hb, hs.clean.mpr⟩
    · have hrest (item) (hitem : item ∈ items) : Ready x item.1 h' := by
        apply (hready item (.tail _ hitem)).serves hs
        intro (heq : item.1 = target)
        apply hnot
        show target ∈ items.map (·.1)
        rw [← heq]
        exact List.mem_map_of_mem hitem
      apply Monitor.wp_mono (ih hb hrest hnodup (fun item hitem => hbudget item (.tail _ hitem))
        fun item hitem hdirty => hwhole item (.tail _ hitem) fun hclean =>
          hdirty (hs.clean.mpr hclean))
      rintro h'' r ⟨hb'', hclean⟩
      exact ⟨hb'', fun h => hclean (hs.clean.mpr h)⟩

end Attempts

/-! ### Frames -/

theorem inBudget_of_encodeColor {rgb : List PyValue} {packet : List UInt8}
    (h : encodeColor rgb = .ok packet) : InBudget packet := by
  obtain ⟨r, g, b, hrgb⟩ := (encodeColor_isOk_iff rgb).mp ⟨packet, h⟩
  rw [encodeColor_ok hrgb] at h
  exact ⟨r, g, b, (Except.ok.inj h).symm, hrgb.2.2.2.2⟩

/-- Every color of an encoded frame is accepted, and every packet is the
encoding of a color. -/
theorem mapM_encodeColor {colors : List (List PyValue)} {packets : List (List UInt8)}
    (h : colors.mapM encodeColor = .ok packets) :
    (∀ rgb ∈ colors, ∃ packet, encodeColor rgb = .ok packet) ∧
      ∀ packet ∈ packets, ∃ rgb ∈ colors, encodeColor rgb = .ok packet := by
  induction colors generalizing packets with
  | nil =>
    cases h
    exact ⟨fun _ hrgb => (nomatch hrgb), fun _ hpacket => (nomatch hpacket)⟩
  | cons rgb colors ih =>
    rw [List.mapM_cons] at h
    simp only [bind_ok_iff] at h
    obtain ⟨packet, hpacket, rest, hrest, hcons⟩ := h
    cases hcons
    obtain ⟨hall, hfrom⟩ := ih hrest
    constructor
    · intro c hc
      rcases List.mem_cons.mp hc with rfl | hc
      · exact ⟨packet, hpacket⟩
      · exact hall c hc
    · intro p hp
      rcases List.mem_cons.mp hp with rfl | hp
      · exact ⟨rgb, .head _, hpacket⟩
      · obtain ⟨c, hc, hcp⟩ := hfrom p hp
        exact ⟨c, .tail _ hc, hcp⟩

theorem map_fst_zip_sublist {α β : Type} (l : List α) (l' : List β) :
    ((l.zip l').map Prod.fst).Sublist l := by
  induction l generalizing l' with
  | nil => exact .slnil
  | cons a l ih =>
    cases l' with
    | nil => exact List.nil_sublist _
    | cons b l' => exact (ih l').cons_cons a

section Frames

variable [DecidableEq T] {α : Type} {h : Trace T} {v : Vars T}

/-- **The frame is whole**: with a color that is refused nothing happens. -/
theorem transmit_refused {colors : List (List PyValue)} {rgb : List PyValue} (hrgb : rgb ∈ colors)
    (hrefused : ∀ packet, encodeColor rgb ≠ .ok packet) :
    ∃ text, transmit x v colors = pure (v, .error (.other text)) := by
  unfold transmit
  rcases hcolors : colors.mapM encodeColor with text | packets
  · exact ⟨text, rfl⟩
  · obtain ⟨packet, hpacket⟩ := (mapM_encodeColor hcolors).1 rgb hrgb
    exact absurd hpacket (hrefused packet)

/-- A frame for which it is time. -/
theorem wp_transmit {colors : List (List PyValue)} (hbase : Base x v h)
    (hpassed : Passed v.nextFrame h)
    (hwhole : ∀ rgb ∈ colors, ∀ packet, encodeColor rgb = .ok packet → ¬ Clean h →
      packet = blackPacket) :
    (timeline x).wp (transmit x v colors) h fun h' r => Base x r.1 h' ∧ (Clean h → Clean h') := by
  unfold transmit
  rcases hcolors : colors.mapM encodeColor with text | packets
  · exact ⟨hbase, id⟩
  obtain ⟨-, hfrom⟩ := mapM_encodeColor hcolors
  have hpacket (item : T × List PyValue × List UInt8)
      (hitem : item ∈ x.targets.zip (colors.zip packets)) :
      ∃ rgb ∈ colors, encodeColor rgb = .ok item.2.2 :=
    hfrom _ (List.of_mem_zip (List.of_mem_zip hitem).2).2
  apply wp_attemptAll hbase
  · intro item _ e he p hattempt
    obtain ⟨y, hy, hle⟩ := hpassed
    exact ⟨y, hy, (hbase.paced e he (by rw [hattempt]; exact Option.some_ne_none _)).trans hle⟩
  · exact x.unique.sublist (map_fst_zip_sublist _ _)
  · intro item hitem
    obtain ⟨rgb, _, hrgb⟩ := hpacket item hitem
    exact inBudget_of_encodeColor hrgb
  · intro item hitem
    obtain ⟨rgb, hmem, hrgb⟩ := hpacket item hitem
    exact hwhole rgb hmem item.2.2 hrgb

omit [DecidableEq T] in
/-- The colors of a frame: where all are accepted none has been refused. -/
theorem wp_gather {scene : Scene} {position : ℚ} {cycle : ℤ} {time : ℚ} (indices : List Nat)
    (hI : Base x v h ∧ Passed time h) :
    (timeline x).wp (gather x scene position cycle indices) h fun h' r =>
      (Base x v h' ∧ Passed time h') ∧ ∀ colors, r = .ok colors →
        (∀ rgb ∈ colors, ∃ packet, encodeColor rgb = .ok packet) → Clean h → Clean h' := by
  induction indices generalizing h with
  | nil => exact ⟨hI, fun _ _ _ => id⟩
  | cons index rest ih =>
    apply wp_colorAt
    rintro ⟨start, stop, value⟩ henv
    have hI' : Base x v (h ++ [⟨_, ⟨start, stop, value⟩⟩]) ∧ Passed time (h ++ [⟨_, ⟨start, stop, value⟩⟩]) :=
      ⟨hI.1.append rfl henv, hI.2.append⟩
    rcases value with e | rgb
    · exact ⟨hI', fun colors hcolors => nomatch hcolors⟩
    · show (timeline x).wp (gather x scene position cycle rest >>= _) _ _
      rw [Monitor.wp_bind]
      apply Monitor.wp_mono (ih hI')
      rintro h' (e | colors) ⟨hI'', hclean⟩
      · exact ⟨hI'', fun colors hcolors => nomatch hcolors⟩
      · refine ⟨hI'', fun all hall haccepted hbefore => ?_⟩
        cases hall
        apply hclean colors rfl (fun c hc => haccepted c (.tail _ hc))
        apply hbefore.append
        rintro ⟨refused, hrefused, hnone⟩
        cases hrefused
        obtain ⟨packet, hpacket⟩ := haccepted rgb (.head _)
        exact hnone packet hpacket

end Frames

/-! ### The blocks -/

/-- What holds at a label. -/
def Inv (x : Arguments T) : Option (Label T) → Trace T → Prop
  | some .start, h => h = []
  | some (.loop v), h | some (.progress v), h => Base x v h ∧ Clean h
  | some (.frame v now), h => (Base x v h ∧ Clean h) ∧ Passed v.nextFrame h ∧ v.nextFrame ≤ now
  | some (.closing v _), h | some (.waiting v _), h => Base x v h
  | some (.blackout v _), h => Base x v h ∧ Passed v.nextFrame h
  | _, _ => True

section Blocks

variable [DecidableEq T] {h : Trace T} {v : Vars T}

omit [DecidableEq T] in
theorem inv_leave (hbase : Base x v h) (e : Exn) : Inv x (some (leave v e)) h := by
  cases e with
  | keyboardInterrupt => exact hbase.congr rfl rfl
  | osError text => exact hbase
  | other text => exact hbase

theorem wp_start : (timeline x).wp (code x .start) [] fun h o => Inv x o h := by
  apply wp_clock
  intro (c : Answer ℚ) hc
  let v : Vars T := { start := c.value, nextFrame := c.value, nextProgress := c.value }
  have hbase : Base x v [⟨.clock, c⟩] := by
    constructor
    · intro e he
      rw [List.mem_singleton.mp he]
      exact hc.forward
    · intro e he hattempt
      rw [List.mem_singleton.mp he] at hattempt
      exact absurd rfl hattempt
    · simp [v, attemptOf]
  have hclean : Clean [(⟨.clock, c⟩ : Event (Op T) Res)] := by
    intro e he
    rw [List.mem_singleton.mp he]
    exact not_false
  have hstable := (base_stable x v).and clean_stable
  apply wp_quiet hstable (snapshot_quiet x v "start") ⟨hbase, hclean⟩
  intro h₁ s hI
  apply wp_quiet hstable (report_quiet _) hI
  rintro h₂ (e | ⟨⟩) hI
  · exact inv_leave hI.1 e
  · exact hI

theorem wp_loop (hI : Base x v h ∧ Clean h) :
    (timeline x).wp (code x (.loop v)) h fun h o => Inv x o h := by
  have hstable := (base_stable x v).and clean_stable
  apply wp_clock
  intro (c : Answer ℚ) hc
  -- the clock has passed what it showed
  have hread : c.value ≤ c.stop := hc.reads.2
  have hpassed : Passed c.value (h ++ [⟨.clock, c⟩]) :=
    ⟨⟨.clock, c⟩, List.mem_append_right _ (.head _), hread⟩
  have hI := hstable h ⟨.clock, c⟩ ⟨rfl, not_false⟩ hc hI
  apply wp_quiet (hstable.and (passed_stable _)) stopped_quiet ⟨hI, hpassed⟩
  rintro h₁ (e | - | reason) ⟨hI, hpassed⟩
  · exact inv_leave hI.1 e
  · show (timeline x).wp (if _ then _ else if _ then _ else _) _ _
    by_cases hover : ∃ d ∈ x.duration, c.value - v.start ≥ d
    · rw [if_pos hover]
      exact hI.1.congr rfl rfl
    rw [if_neg hover]
    by_cases hearly : c.value < v.nextFrame
    · rw [if_pos hearly]
      apply wp_quiet hstable (sleep_quiet _) hI
      rintro h₂ (e | ⟨⟩) hI
      · exact inv_leave hI.1 e
      · exact hI
    · rw [if_neg hearly]
      have hdue := not_lt.mp hearly
      obtain ⟨y, hy, hle⟩ := hpassed
      exact ⟨hI, ⟨y, hy, hdue.trans hle⟩, hdue⟩
  · exact hI.1.congr rfl rfl

omit [DecidableEq T] in
/-- The report of a new scene does not touch the pace. -/
theorem enterScene_spec (cycle : ℤ) (index : Nat) : (enterScene x v cycle index).Emits Quiet ∧
    (enterScene x v cycle index).All fun _ r =>
      r.1.nextFrame = v.nextFrame ∧ r.1.attempted = v.attempted := by
  unfold enterScene
  split_ifs
  · exact ⟨trivial, rfl, rfl⟩
  · constructor
    · apply Prog.emits_bind (snapshot_quiet x _ _)
      intro s
      exact Prog.emits_bind (report_quiet _) fun _ => trivial
    · intro now
      exact fun _ => ⟨rfl, rfl⟩

theorem wp_frame {now : ℚ} (hI : (Base x v h ∧ Clean h) ∧ Passed v.nextFrame h) :
    (timeline x).wp (code x (.frame v now)) h fun h o => Inv x o h := by
  rcases hscene : selectScene (now - v.start) with ⟨cycle, index, scene, position⟩
  rw [code, hscene]
  have hstable := ((base_stable x v).and clean_stable).and (passed_stable v.nextFrame)
  have hspec := enterScene_spec (x := x) (v := v) cycle index
  show (timeline x).wp (enterScene x v cycle index >>= _) _ _
  rw [Monitor.wp_bind]
  apply Monitor.wp_mono (wp_keeps x hspec.1 (fun e he => he.1) hI hstable hspec.2)
  rintro h₁ ⟨v', r⟩ ⟨⟨⟨hbase, hclean⟩, hpassed⟩, hframe, hattempted⟩
  have hbase : Base x v' h₁ := hbase.congr hframe hattempted
  have hpassed : Passed v'.nextFrame h₁ := hframe.symm ▸ hpassed
  rcases r with e | ⟨⟩
  · exact inv_leave hbase e
  show (timeline x).wp (gather x scene position cycle _ >>= _) _ _
  rw [Monitor.wp_bind]
  apply Monitor.wp_mono (wp_gather _ ⟨hbase, hpassed⟩)
  rintro h₂ (e | colors) ⟨⟨hbase, hpassed⟩, haccepted⟩
  · exact inv_leave hbase e
  show (timeline x).wp (transmit x v' colors >>= _) _ _
  rcases hcolors : colors.mapM encodeColor with text | packets
  · -- a refused color: nothing is sent
    rw [transmit, hcolors]
    exact inv_leave hbase (.other text)
  · have hclean := haccepted colors rfl (mapM_encodeColor hcolors).1 hclean
    rw [Monitor.wp_bind]
    apply Monitor.wp_mono (wp_transmit hbase hpassed fun _ _ _ _ hdirty => absurd hclean hdirty)
    rintro h₃ ⟨v'', e | ⟨⟩⟩ ⟨hbase, hclean'⟩
    · exact inv_leave hbase e
    · exact ⟨hbase, hclean' hclean⟩

theorem wp_progress (hI : Base x v h ∧ Clean h) :
    (timeline x).wp (code x (.progress v)) h fun h o => Inv x o h := by
  apply wp_clock
  intro (c : Answer ℚ) hc
  have hbase : Base x { v with nextFrame := c.value + x.interval } (h ++ [⟨.clock, c⟩]) :=
    Base.clock hI.1.forward hc rfl hI.1.attempted
  have hclean := hI.2.append (e := ⟨.clock, c⟩) not_false
  have hstable := (base_stable x { v with nextFrame := c.value + x.interval }).and clean_stable
  apply wp_quiet hstable clock_quiet ⟨hbase, hclean⟩
  intro h₁ now hI
  show (timeline x).wp (if _ then _ else _) _ _
  split_ifs
  · apply wp_quiet hstable (snapshot_quiet x _ _) hI
    intro h₂ s hI
    apply wp_quiet hstable (report_quiet _) hI
    rintro h₃ (e | ⟨⟩) hI
    · exact inv_leave hI.1 e
    · apply wp_quiet hstable clock_quiet hI
      intro h₄ now hI
      exact ⟨hI.1.congr rfl rfl, hI.2⟩
  · exact hI

theorem wp_waiting (raised : Option Exn) (hbase : Base x v h) :
    (timeline x).wp (code x (.waiting v raised)) h fun h o => Inv x o h := by
  apply wp_clock
  intro (c : Answer ℚ) hc
  have hread : c.value ≤ c.stop := hc.reads.2
  have hbase := hbase.append rfl hc
  show (timeline x).wp (if _ then _ else _) _ _
  split_ifs with hdue
  · refine ⟨hbase, ⟨.clock, c⟩, List.mem_append_right _ (.head _), ?_⟩
    show v.nextFrame ≤ c.stop
    have hdue : v.nextFrame - c.value ≤ 0 := hdue
    linarith
  · apply wp_quiet (base_stable x v) (sleep_quiet _) hbase
    rintro h₁ (e | ⟨⟩) hbase
    · trivial
    · exact hbase

theorem wp_blackout (raised : Option Exn) (hI : Base x v h ∧ Passed v.nextFrame h) :
    (timeline x).wp (code x (.blackout v raised)) h fun h o => Inv x o h := by
  rw [code, Monitor.wp_bind]
  apply Monitor.wp_mono (wp_transmit hI.1 hI.2 ?_)
  · rintro h' ⟨v', e | ⟨⟩⟩ - <;> trivial
  · intro rgb hrgb packet hpacket _
    rw [List.eq_of_mem_replicate hrgb] at hpacket
    exact (Except.ok.inj hpacket).symm

theorem wp_finishing (raised : Option Exn) :
    (timeline x).wp (code x (.finishing v raised)) h fun h o => Inv x o h := by
  have hstable : Stable fun _ : Trace T => True := fun _ _ _ _ => id
  apply wp_quiet hstable (snapshot_quiet x _ _) trivial
  intro h₁ s _
  apply wp_quiet hstable (report_quiet _) trivial
  rintro h₂ (e | ⟨⟩) _
  · trivial
  · cases raised <;> trivial

/-- **The invariant** holds at every label. -/
theorem code_invariant : Invariant (code x) (timeline x) (Inv x) := by
  rintro (_ | v | ⟨v, now⟩ | v | ⟨v, raised⟩ | ⟨v, raised⟩ | ⟨v, raised⟩ | ⟨v, raised⟩ | outcome) h hI
  · obtain rfl : h = [] := hI
    exact wp_start
  · exact wp_loop hI
  · exact wp_frame ⟨hI.1, hI.2.1⟩
  · exact wp_progress hI
  · show Inv x (some (if v.attempted then _ else _)) h
    split_ifs
    · exact hI
    · trivial
  · exact wp_waiting raised hI
  · exact wp_blackout raised hI
  · exact wp_finishing raised
  · trivial

end Blocks

end Exercise

end Dld
