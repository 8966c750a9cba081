/-
DldDriver/Userspace/Receiver.lean

The data path of the receiver.  `dataPath` counts datagrams as they come,
keeps the valid colours of the present batch and the colours that are sent
for packets, and says what each event promises.

    Counted    the counters of the program are the counts, modulo 2^64
    Between    at the head of the loop
    Receiving  inside a batch, with `n` attempts left
    Ended      at the exit

A batch is an induction over its attempts, the main loop one over its rounds.
-/
import DldDriver.Interaction.Monitor
import DldDriver.Userspace.Udp

namespace Dld

open Interaction

/-! ### What is counted -/

/-- What has come in and gone out so far. -/
structure Tally where
  received : Nat := 0
  valid : Nat := 0
  malformed : Nat := 0
  unsupported : Nat := 0
  coalesced : Nat := 0
  sent : Nat := 0
  /-- `recvmsg` calls since the last loop head -/
  attempts : Nat := 0
  /-- the valid colours of the present batch, the latest first -/
  colours : List Word := []
  /-- the last valid colour of each earlier batch that had one -/
  owed : List Word := []
  /-- the colours of the sends that had a valid datagram in their batch -/
  packetSends : List Word := []
  /-- the flash frame chosen since the last loop head -/
  frame : Option Word := none
  /-- a send has been attempted since the last loop head -/
  tried : Bool := false
  /-- a send has failed -/
  failed : Bool := false
  /-- since the last loop head a cancellation, a clock failure or a receive
  error has been seen -/
  cut : Bool := false

/-- A datagram is counted in one class. -/
def Tally.datagram (s : Tally) (packet : List UInt8) (truncated : Bool) : Tally :=
  let s := { s with received := s.received + 1, attempts := s.attempts + 1 }
  if truncated then { s with malformed := s.malformed + 1 }
  else match dldOpcColor packet with
    | .malformed => { s with malformed := s.malformed + 1 }
    | .unsupported => { s with unsupported := s.unsupported + 1 }
    | .valid rgb => { s with
        valid := s.valid + 1
        coalesced := if s.colours = [] then s.coalesced else s.coalesced + 1
        colours := rgb :: s.colours }

def Tally.next (s : Tally) : RxEvent → Tally
  | ⟨.head _, _⟩ => { s with
      attempts := 0, colours := [], owed := s.owed ++ s.colours.head?.toList
      frame := none, tried := false, cut := false }
  | ⟨.cancelled, flag⟩ => { s with cut := s.cut || decide (flag ≠ 0) }
  | ⟨.clockGettime, .error _⟩ => { s with cut := true }
  | ⟨.recvmsg, .ok (packet, truncated)⟩ => s.datagram packet truncated
  | ⟨.recvmsg, .error errno⟩ => { s with
      attempts := s.attempts + 1, cut := s.cut || decide (errno ≠ eAgain ∧ errno ≠ eIntr) }
  | ⟨.flashNext rgb _, _⟩ => { s with frame := some rgb }
  | ⟨.senderSend rgb, (code, _)⟩ => { s with
      tried := true
      failed := decide (code ≠ .ok)
      packetSends := if s.colours = [] then s.packetSends else s.packetSends ++ [rgb]
      sent := if s.colours ≠ [] ∧ code = .ok then s.sent + 1 else s.sent }
  | _ => s

/-- The counters agree with the counts, and with each other. -/
structure Counted (s : Tally) (counts : PacketCounts) : Prop where
  received : counts.received = BitVec.ofNat 64 s.received
  valid : counts.valid = BitVec.ofNat 64 s.valid
  malformed : counts.malformed = BitVec.ofNat 64 s.malformed
  unsupported : counts.unsupported = BitVec.ofNat 64 s.unsupported
  coalesced : counts.coalesced = BitVec.ofNat 64 s.coalesced
  sent : counts.sent = BitVec.ofNat 64 s.sent
  classified : s.received = s.valid + s.malformed + s.unsupported

/-- The promises of the data path. -/
def Tally.May (s : Tally) : RxEvent → Prop
  | ⟨.head counts, _⟩ =>
    Counted s counts ∧ s.valid = s.coalesced + s.sent ∧
      counts.received = counts.valid + counts.malformed + counts.unsupported ∧
      counts.valid = counts.coalesced + counts.sent ∧
      s.failed = false ∧ s.packetSends = s.owed ++ s.colours.head?.toList
  | ⟨.recvmsg, _⟩ => s.attempts < udpBatch ∧ s.tried = false ∧ s.failed = false
  | ⟨.senderSend rgb, _⟩ =>
    s.tried = false ∧ s.failed = false ∧ (s.colours.head? = some rgb ∨
      (s.colours = [] ∧ s.frame = some rgb))
  | ⟨.stopped counts _, _⟩ =>
    (counts.valid - counts.coalesced - counts.sent = 0 ∨
      counts.valid - counts.coalesced - counts.sent = 1) ∧
    (s.packetSends = s.owed ++ s.colours.head?.toList ∨ (s.cut = true ∧ s.packetSends = s.owed))
  | _ => True

def dataPath : Monitor RxOp RxOp.Res Tally where
  env _ _ := True
  safe := Tally.May
  next := Tally.next

/-- The bookkeeping of a flash leaves the counts of datagrams alone. -/
def PacketCounts.Same (counts counts' : PacketCounts) : Prop :=
  counts'.received = counts.received ∧ counts'.valid = counts.valid ∧
    counts'.malformed = counts.malformed ∧ counts'.unsupported = counts.unsupported ∧
    counts'.coalesced = counts.coalesced ∧ counts'.sent = counts.sent

theorem Counted.same {s : Tally} {counts counts' : PacketCounts} (h : Counted s counts)
    (hsame : counts.Same counts') : Counted s counts' := by
  obtain ⟨hreceived, hvalid, hmalformed, hunsupported, hcoalesced, hsent⟩ := hsame
  refine ⟨?_, ?_, ?_, ?_, ?_, ?_, h.classified⟩
  · rw [hreceived, h.received]
  · rw [hvalid, h.valid]
  · rw [hmalformed, h.malformed]
  · rw [hunsupported, h.unsupported]
  · rw [hcoalesced, h.coalesced]
  · rw [hsent, h.sent]

/-! ### A batch -/

variable {s : Tally}

/-- One more of a kind. -/
theorem counted_succ {counter : Word64} {count : Nat} (h : counter = BitVec.ofNat 64 count) :
    counter + 1 = BitVec.ofNat 64 (count + 1) := by
  rw [h, BitVec.ofNat_add]
  rfl

/-- A batch so far, all of it still to be sent. -/
structure Collected (haveColor : Bool) (rgb : Word) (counts : PacketCounts) (s : Tally) :
    Prop where
  tried : s.tried = false
  failed : s.failed = false
  sends : s.packetSends = s.owed
  colour : s.colours.head? = if haveColor then some rgb else none
  counted : Counted s counts
  valid : s.valid = s.coalesced + s.sent + if haveColor then 1 else 0

variable {haveColor : Bool} {rgb : Word} {counts : PacketCounts}

theorem Collected.haveColor_iff (h : Collected haveColor rgb counts s) :
    haveColor = true ↔ s.colours ≠ [] := by
  have hcolour := h.colour
  cases haveColor
  · have hempty : s.colours = [] := List.head?_eq_none_iff.mp hcolour
    simp [hempty]
  · have hsome : s.colours ≠ [] := by
      intro hempty
      rw [hempty] at hcolour
      cases hcolour
    simp [hsome]

/-- At the exit at most one valid datagram is unaccounted for. -/
def Ended (counts : PacketCounts) (s : Tally) : Prop :=
  (counts.valid - counts.coalesced - counts.sent = 0 ∨
    counts.valid - counts.coalesced - counts.sent = 1) ∧
  (s.packetSends = s.owed ++ s.colours.head?.toList ∨ (s.cut = true ∧ s.packetSends = s.owed))

/-- One or no valid datagram is waiting to be sent. -/
theorem Collected.waiting (h : Collected haveColor rgb counts s) :
    counts.valid - counts.coalesced - counts.sent = 0 ∨
      counts.valid - counts.coalesced - counts.sent = 1 := by
  have hcancel (c d x : Word64) : c + d + x - c - d = x := by
    have hswap : c + d + x = x + d + c := by ac_rfl
    rw [hswap, BitVec.add_sub_cancel, BitVec.add_sub_cancel]
  rw [h.counted.valid, h.counted.coalesced, h.counted.sent, h.valid, BitVec.ofNat_add,
    BitVec.ofNat_add, hcancel]
  split
  · exact .inr rfl
  · exact .inl rfl

/-- A batch that is cut short. -/
theorem Collected.ended (h : Collected haveColor rgb counts s) (hcut : s.cut = true) :
    Ended counts s :=
  ⟨h.waiting, .inr ⟨hcut, h.sends⟩⟩

theorem Collected.same {counts' : PacketCounts} (h : Collected haveColor rgb counts s)
    (hsame : counts.Same counts') : Collected haveColor rgb counts' s :=
  { h with counted := h.counted.same hsame }

theorem Collected.cut (h : Collected haveColor rgb counts s) (c : Bool) :
    Collected haveColor rgb counts { s with cut := c } where
  tried := h.tried
  failed := h.failed
  sends := h.sends
  colour := h.colour
  counted := { h.counted with }
  valid := h.valid

/-- A batch with `n` attempts left. -/
structure Receiving (n : Nat) (b : Batch) (s : Tally) : Prop where
  collected : Collected b.haveColor b.rgb b.counts s
  attempts : s.attempts + n = udpBatch

theorem Receiving.cut {n : Nat} {b : Batch} (h : Receiving n b s) (c : Bool) :
    Receiving n b { s with cut := c } :=
  ⟨h.collected.cut c, h.attempts⟩

/-- An attempt without a datagram. -/
theorem Receiving.missed {n : Nat} {b : Batch} (h : Receiving (n + 1) b s) (c : Bool) :
    Receiving n b { s with attempts := s.attempts + 1, cut := c } := by
  have hattempts : s.attempts + 1 + n = udpBatch := by
    have := h.attempts
    omega
  refine ⟨?_, hattempts⟩
  have hb := h.collected
  exact ⟨hb.tried, hb.failed, hb.sends, hb.colour, { hb.counted with }, hb.valid⟩

/-- One more datagram, counted by the program and by the monitor. -/
theorem Receiving.datagram {n : Nat} {b : Batch} (h : Receiving (n + 1) b s) (packet : List UInt8)
    (truncated : Bool) (now : Word64) :
    Receiving n (({ b with
        counts := { b.counts with received := b.counts.received + 1 }, activity := now }).classify
      packet truncated) (s.datagram packet truncated) := by
  have hfirst := h.collected.haveColor_iff
  obtain ⟨⟨htried, hfailed, hsends, hcolour, hcounted, hvalid⟩, hattempts⟩ := h
  have hone : s.attempts + 1 + n = udpBatch := by omega
  have hmalformed : Receiving n { b with
      counts := { b.counts with
        received := b.counts.received + 1, malformed := b.counts.malformed + 1 }
      activity := now } { s with
        received := s.received + 1, attempts := s.attempts + 1, malformed := s.malformed + 1 } := by
    refine ⟨⟨htried, hfailed, hsends, hcolour, ?_, hvalid⟩, hone⟩
    refine ⟨counted_succ hcounted.received, hcounted.valid, counted_succ hcounted.malformed,
      hcounted.unsupported, hcounted.coalesced, hcounted.sent, ?_⟩
    have := hcounted.classified
    show s.received + 1 = s.valid + (s.malformed + 1) + s.unsupported
    omega
  unfold Batch.classify Tally.datagram
  split
  · exact hmalformed
  rcases dldOpcColor packet with rgb | - | -
  · refine ⟨⟨htried, hfailed, hsends, rfl, ?_, ?_⟩, hone⟩
    · have hcoalesced : (if b.haveColor = true then b.counts.coalesced + 1 else b.counts.coalesced) =
          BitVec.ofNat 64 (if s.colours = [] then s.coalesced else s.coalesced + 1) := by
        by_cases hempty : s.colours = []
        · rw [if_pos hempty, if_neg (hfirst.not.mpr (not_not.mpr hempty)), hcounted.coalesced]
        · rw [if_neg hempty, if_pos (hfirst.mpr hempty), counted_succ hcounted.coalesced]
      refine ⟨counted_succ hcounted.received, counted_succ hcounted.valid, hcounted.malformed,
        hcounted.unsupported, hcoalesced, hcounted.sent, ?_⟩
      have := hcounted.classified
      show s.received + 1 = s.valid + 1 + s.malformed + s.unsupported
      omega
    · show s.valid + 1 = (if s.colours = [] then s.coalesced else s.coalesced + 1) + s.sent + 1
      by_cases hempty : s.colours = []
      · rw [if_pos hempty]
        rw [if_neg (hfirst.not.mpr (not_not.mpr hempty))] at hvalid
        omega
      · rw [if_neg hempty]
        rw [if_pos (hfirst.mpr hempty)] at hvalid
        omega
  · exact hmalformed
  · refine ⟨⟨htried, hfailed, hsends, hcolour, ?_, hvalid⟩, hone⟩
    refine ⟨counted_succ hcounted.received, hcounted.valid, hcounted.malformed,
      counted_succ hcounted.unsupported, hcounted.coalesced, hcounted.sent, ?_⟩
    have := hcounted.classified
    show s.received + 1 = s.valid + s.malformed + (s.unsupported + 1)
    omega

/-- A datagram leaves what has been sent alone. -/
theorem Tally.datagram_sends (s : Tally) (packet : List UInt8) (truncated : Bool) :
    (s.datagram packet truncated).packetSends = s.packetSends ∧
      (s.datagram packet truncated).owed = s.owed := by
  unfold Tally.datagram
  cases truncated
  · rcases dldOpcColor packet with rgb | - | - <;> exact ⟨rfl, rfl⟩
  · exact ⟨rfl, rfl⟩

/-- What `receive_batch` returns with: a batch to act on, or the end. -/
def Batched (s : Tally) (ok : Bool) (b : Batch) : Prop :=
  (ok = true → Collected b.haveColor b.rgb b.counts s) ∧ (ok = false → Ended b.counts s)

theorem Collected.batched {b : Batch} (h : Collected b.haveColor b.rgb b.counts s) :
    Batched s true b :=
  ⟨fun _ => h, fun h => nomatch h⟩

theorem wp_monotonicNow {Q : Tally → Except String Word64 → Prop}
    (hfail : ∀ text, Q { s with cut := true } (.error text)) (hok : ∀ now, Q s (.ok now)) :
    dataPath.wp monotonicNow s Q := by
  refine Monitor.wp_op_bind fun stamp _ => ⟨by rcases stamp with errno | stamp <;> trivial, ?_⟩
  rcases stamp with errno | ⟨sec, nsec⟩
  · exact Monitor.wp_op_bind fun reason _ => ⟨trivial, hfail _⟩
  · exact hok _

/-- A batch, by induction over the attempts left. -/
theorem wp_receiveBatch {bufferSize n : Nat} {b : Batch} (h : Receiving n b s) :
    dataPath.wp (receiveBatch bufferSize n b) s fun s' r => Batched s' r.1 r.2 := by
  induction n generalizing s b with
  | zero => exact h.collected.batched
  | succ n ih =>
    refine Monitor.wp_op_bind fun flag _ => ⟨trivial, Monitor.wp_ite.mpr ⟨fun _ => ?_, fun _ => ?_⟩⟩
    · exact (h.collected.cut _).batched
    have h := h.cut (s.cut || decide (flag ≠ 0))
    have hattempt : s.attempts < udpBatch := by
      have hn : s.attempts + (n + 1) = udpBatch := h.attempts
      omega
    refine Monitor.wp_op_bind fun received _ =>
      ⟨⟨hattempt, h.collected.tried, h.collected.failed⟩, ?_⟩
    rcases received with errno | ⟨packet, truncated⟩
    · refine Monitor.wp_ite.mpr ⟨fun _ => (h.missed _).collected.batched, fun hagain => ?_⟩
      refine Monitor.wp_ite.mpr ⟨fun _ => ?_, fun hintr => ?_⟩
      · refine Monitor.wp_op_bind fun flag _ => ⟨trivial, ?_⟩
        refine Monitor.wp_ite.mpr ⟨fun _ => ?_, fun _ => ih ((h.missed _).cut _)⟩
        exact ((h.missed _).collected.cut _).batched
      · refine Monitor.wp_op_bind fun reason _ => ⟨trivial, fun h => (nomatch h), fun _ => ?_⟩
        refine (h.missed _).collected.ended ?_
        simp [hagain, hintr]
    · rw [Monitor.wp_bind]
      refine wp_monotonicNow (fun text => ⟨fun h => (nomatch h), fun _ => ?_⟩) fun now => ?_
      · -- the datagram stays unclassified
        obtain ⟨hsends, howed⟩ := Tally.datagram_sends
          { s with cut := s.cut || decide (flag ≠ 0) } packet truncated
        exact ⟨h.collected.waiting, .inr ⟨rfl, hsends.trans (h.collected.sends.trans howed.symm)⟩⟩
      · exact ih (h.datagram packet truncated now)

/-! ### A round -/

/-- At the head of the loop. -/
structure Between (counts : PacketCounts) (s : Tally) : Prop where
  counted : Counted s counts
  balanced : s.valid = s.coalesced + s.sent
  failed : s.failed = false
  sends : s.packetSends = s.owed ++ s.colours.head?.toList

theorem Between.ended (h : Between counts s) : Ended counts s := by
  refine ⟨.inl ?_, .inl h.sends⟩
  rw [h.counted.valid, h.counted.coalesced, h.counted.sent, h.balanced, BitVec.ofNat_add,
    BitVec.add_comm, BitVec.add_sub_cancel, BitVec.sub_self]
  rfl

theorem Between.same {counts' : PacketCounts} (h : Between counts s)
    (hsame : counts.Same counts') : Between counts' s :=
  { h with counted := h.counted.same hsame }

/-- The end of a round. -/
def Rounded (s : Tally) (r : Rx × RoundEnd) : Prop :=
  (r.2 = none → Between r.1.counts s) ∧ (r.2 ≠ none → Ended r.1.counts s)

theorem Between.goesOn {r : Rx} (h : Between r.counts s) : Rounded s (r, none) :=
  ⟨fun _ => h, fun hne => absurd rfl hne⟩

theorem Ended.ends {r : Rx} {code : DldExitCode} (h : Ended r.counts s) :
    Rounded s (r, some code) :=
  ⟨fun h => (nomatch h), fun _ => h⟩

/-- Without a valid datagram there is nothing to send for. -/
theorem Collected.idle (h : Collected false rgb counts s) : Between counts s where
  counted := h.counted
  balanced := h.valid
  failed := h.failed
  sends := by
    rw [h.sends, h.colour]
    simp


theorem wp_setFlashing {Q : Tally → Rx → Prop} {r : Rx} {flashing : Flashing}
    (h : Q s { r with flashing := flashing }) : dataPath.wp (setFlashing r flashing) s Q :=
  fun _ _ => ⟨trivial, h⟩

theorem wp_announce {Q : Tally → Rx → Prop} {r : Rx} {counts : Bool}
    (h : Q s { r with announcedReady := r.announcedReady || counts }) :
    dataPath.wp (announce r counts) s Q := by
  refine Monitor.wp_ite.mpr ⟨fun hfirst => ?_, fun hlater => ?_⟩
  · rw [hfirst.2, Bool.or_true] at h
    exact fun _ _ => ⟨trivial, h⟩
  · have hsame : { r with announcedReady := r.announcedReady || counts } = r := by
      rcases hready : r.announcedReady with - | -
      · have hcounts : counts = false := by simpa [hready] using hlater
        rw [hcounts, Bool.or_false, ← hready]
      · rw [Bool.true_or, ← hready]
    rwa [hsame] at h

/-- The end of a flash. -/
theorem wp_finishFlash {r : Rx} (h : Between r.counts s) :
    dataPath.wp (finishFlash r) s fun s' r' => Rounded s' r' := by
  refine Monitor.wp_ite.mpr ⟨fun _ => ?_, fun _ => ?_⟩
  · rw [Monitor.wp_bind]
    apply wp_setFlashing
    refine Between.goesOn ?_
    exact h.same ⟨rfl, rfl, rfl, rfl, rfl, rfl⟩
  · rw [Monitor.wp_bind]
    refine wp_monotonicNow (fun text => ?_) fun now => ?_
    · have h : Between r.counts { s with cut := true } := { h with counted := { h.counted with } }
      refine Ended.ends (Between.ended ?_)
      exact h.same ⟨rfl, rfl, rfl, rfl, rfl, rfl⟩
    · dsimp only
      rw [Monitor.wp_bind]
      apply wp_setFlashing
      refine Between.goesOn ?_
      exact h.same ⟨rfl, rfl, rfl, rfl, rfl, rfl⟩

/-- After the attempt nothing is owed. -/
theorem Collected.next_sends (h : Collected haveColor rgb counts s) (r : DldExitCode × String) :
    (s.next ⟨.senderSend rgb, r⟩).packetSends = s.owed ++ s.colours.head?.toList := by
  have hcolour := h.colour
  show (if s.colours = [] then s.packetSends else s.packetSends ++ [rgb]) = _
  rw [h.sends]
  cases haveColor
  · have hempty : s.colours = [] := List.head?_eq_none_iff.mp hcolour
    simp [hempty]
  · rw [if_neg (h.haveColor_iff.mp rfl), hcolour]
    rfl

theorem Collected.failedSend (h : Collected haveColor rgb counts s) (code : DldExitCode)
    (text : String) : Ended counts (s.next ⟨.senderSend rgb, (code, text)⟩) :=
  ⟨h.waiting, .inl (h.next_sends _)⟩

theorem Collected.frameSend (h : Collected false rgb counts s) (text : String) :
    Between counts (s.next ⟨.senderSend rgb, (.ok, text)⟩) := by
  have hempty : s.colours = [] := List.head?_eq_none_iff.mp h.colour
  have hsent : (s.next ⟨.senderSend rgb, (.ok, text)⟩).sent = s.sent := by
    show (if s.colours ≠ [] ∧ DldExitCode.ok = .ok then s.sent + 1 else s.sent) = s.sent
    rw [if_neg fun hboth => hboth.1 hempty]
  refine ⟨{ h.counted with sent := ?_ }, ?_, rfl, h.next_sends _⟩
  · rw [hsent, h.counted.sent]
  · show s.valid = s.coalesced + (s.next ⟨.senderSend rgb, (.ok, text)⟩).sent
    rw [hsent]
    exact h.valid

theorem Collected.colourSend (h : Collected true rgb counts s) (text : String) :
    Between { counts with sent := counts.sent + 1 }
      (s.next ⟨.senderSend rgb, (.ok, text)⟩) := by
  have hsent : (s.next ⟨.senderSend rgb, (.ok, text)⟩).sent = s.sent + 1 := by
    show (if s.colours ≠ [] ∧ DldExitCode.ok = .ok then s.sent + 1 else s.sent) = s.sent + 1
    rw [if_pos ⟨h.haveColor_iff.mp rfl, rfl⟩]
  refine ⟨{ h.counted with sent := ?_ }, ?_, rfl, h.next_sends _⟩
  · rw [hsent]
    exact counted_succ h.counted.sent
  · show s.valid = s.coalesced + (s.next ⟨.senderSend rgb, (.ok, text)⟩).sent
    rw [hsent]
    exact h.valid

theorem wp_transmit {r : Rx} {final : Bool} (h : Collected haveColor rgb r.counts s)
    (hframe : haveColor = false → s.frame = some rgb) :
    dataPath.wp (transmit r rgb haveColor final) s fun s' r' => Rounded s' r' := by
  have hmay : s.colours.head? = some rgb ∨ (s.colours = [] ∧ s.frame = some rgb) := by
    have hcolour := h.colour
    cases haveColor
    · exact .inr ⟨List.head?_eq_none_iff.mp hcolour, hframe rfl⟩
    · exact .inl hcolour
  refine Monitor.wp_op_bind fun sent _ => ⟨⟨h.tried, h.failed, hmay⟩, ?_⟩
  rcases sent with ⟨code, text⟩
  refine Monitor.wp_ite.mpr ⟨fun _ => (h.failedSend code text).ends, fun hok => ?_⟩
  obtain rfl : code = .ok := not_not.mp hok
  rw [Monitor.wp_bind]
  apply wp_announce
  cases haveColor
  · have h := h.frameSend text
    refine Monitor.wp_ite.mpr ⟨fun h => (nomatch h), fun _ => ?_⟩
    refine Monitor.wp_ite.mpr ⟨fun _ => ?_, fun _ => ?_⟩
    · apply wp_finishFlash
      exact h.same ⟨rfl, rfl, rfl, rfl, rfl, rfl⟩
    · refine Between.goesOn ?_
      exact h.same ⟨rfl, rfl, rfl, rfl, rfl, rfl⟩
  · refine Monitor.wp_ite.mpr ⟨fun _ => ?_, fun h => absurd rfl h⟩
    refine Between.goesOn ?_
    exact h.colourSend text

/-- The wait of a round without a transmission. -/
theorem wp_pollSocket {idleEnabled : Bool} {r : Rx} {now : Word64} (h : Between r.counts s) :
    dataPath.wp (pollSocket idleEnabled r now) s fun s' r' => Rounded s' r' := by
  refine Monitor.wp_op_bind fun ready _ => ⟨trivial, ?_⟩
  rcases ready with errno | ⟨ready, revents⟩
  · refine Monitor.wp_ite.mpr ⟨fun _ => h.goesOn, fun _ => ?_⟩
    exact Monitor.wp_op_bind fun reason _ => ⟨trivial, h.ended.ends⟩
  · refine Monitor.wp_ite.mpr ⟨fun _ => h.goesOn, fun _ => ?_⟩
    refine Monitor.wp_op_bind fun flag _ => ⟨trivial, ?_⟩
    have h : Between r.counts { s with cut := s.cut || decide (flag ≠ 0) } :=
      { h with counted := { h.counted with } }
    refine Monitor.wp_ite.mpr ⟨fun _ => h.goesOn, fun _ => ?_⟩
    exact Monitor.wp_ite.mpr ⟨fun _ => h.ended.ends, fun _ => h.goesOn⟩

theorem wp_startIdle {Q : Tally → Rx → Prop} {idleEnabled : Bool} {r : Rx} {now : Word64}
    (h : ∀ flash flashing, Q s { r with flash := flash, flashing := flashing }) :
    dataPath.wp (startIdle idleEnabled r now) s Q := by
  refine Monitor.wp_ite.mpr ⟨fun _ => ?_, fun _ => h r.flash r.flashing⟩
  apply wp_setFlashing
  exact h _ _

theorem wp_actOn {idleEnabled : Bool} {r : Rx} {now : Word64}
    (h : Collected haveColor rgb r.counts s) :
    dataPath.wp (actOn idleEnabled r rgb haveColor now) s fun s' r' => Rounded s' r' := by
  cases haveColor
  · refine Monitor.wp_ite.mpr ⟨fun h => (nomatch h), fun _ => ?_⟩
    rw [Monitor.wp_bind]
    apply wp_startIdle
    intro flash flashing
    refine Monitor.wp_ite.mpr ⟨fun _ => ?_, fun _ => wp_pollSocket h.idle⟩
    rw [Monitor.wp_bind]
    refine Monitor.wp_op_bind fun _ _ => ⟨trivial, ?_⟩
    refine wp_transmit ?_ fun _ => rfl
    exact ⟨h.tried, h.failed, h.sends, h.colour, { h.counted with }, h.valid⟩
  · refine Monitor.wp_ite.mpr ⟨fun _ => ?_, fun h => absurd rfl h⟩
    rw [Monitor.wp_bind]
    apply wp_setFlashing
    refine wp_transmit ?_ (fun h => nomatch h)
    exact h.same ⟨rfl, rfl, rfl, rfl, rfl, rfl⟩

theorem wp_rxRound {idleEnabled : Bool} {r : Rx}
    (h : Receiving udpBatch
      { rgb := 0, counts := r.counts, activity := r.activity, haveColor := false, error := r.error }
      s) :
    dataPath.wp (rxRound idleEnabled r) s fun s' r' => Rounded s' r' := by
  unfold rxRound
  rw [Monitor.wp_bind]
  refine Monitor.wp_mono (wp_receiveBatch h) ?_
  rintro s ⟨ok, b⟩ ⟨hgood, hbad⟩
  refine Monitor.wp_ite.mpr ⟨fun hok => (hbad hok).ends, fun hok => ?_⟩
  have hb := hgood (Bool.not_eq_false _ ▸ hok)
  refine Monitor.wp_op_bind fun flag _ => ⟨trivial, ?_⟩
  have hb := hb.cut (s.cut || decide (flag ≠ 0))
  refine Monitor.wp_ite.mpr ⟨fun hflag => ?_, fun _ => ?_⟩
  · have hcut : (s.cut || decide (flag ≠ 0)) = true := by simp [hflag]
    exact (hb.ended hcut).ends
  · rw [Monitor.wp_bind]
    refine wp_monotonicNow (fun text => ?_) fun now => wp_actOn hb
    exact ((hb.cut true).ended rfl).ends

/-- The main loop, by induction over the iterations it may still make. -/
theorem wp_rxLoop {idleEnabled : Bool} {fuel : Nat} {r : Rx} (h : Between r.counts s) :
    dataPath.wp (rxLoop idleEnabled fuel r) s fun s' r' => Ended r'.1.counts s' := by
  induction fuel generalizing s r with
  | zero => exact fun never => never.elim
  | succ fuel ih =>
    refine Monitor.wp_op_bind fun _ _ => ⟨?_, ?_⟩
    · refine ⟨h.counted, h.balanced, ?_, ?_, h.failed, h.sends⟩
      · rw [h.counted.received, h.counted.valid, h.counted.malformed, h.counted.unsupported,
          h.counted.classified, BitVec.ofNat_add, BitVec.ofNat_add]
      · rw [h.counted.valid, h.counted.coalesced, h.counted.sent, h.balanced, BitVec.ofNat_add]
    refine Monitor.wp_op_bind fun flag _ => ⟨trivial, ?_⟩
    have hfresh : Collected false 0 r.counts { s with
        attempts := 0, colours := [], owed := s.owed ++ s.colours.head?.toList
        frame := none, tried := false, cut := false || decide (flag ≠ 0) } :=
      ⟨rfl, h.failed, h.sends, rfl, { h.counted with }, h.balanced⟩
    refine Monitor.wp_ite.mpr ⟨fun _ => hfresh.idle.ended, fun _ => ?_⟩
    rw [Monitor.wp_bind]
    refine Monitor.wp_mono (wp_rxRound ⟨hfresh, rfl⟩) ?_
    rintro s ⟨r, ended⟩ ⟨hon, hend⟩
    rcases ended with - | code
    · exact ih (hon rfl)
    · exact hend fun h => nomatch h

/-! ### The whole program -/

theorem wp_rxDone {r : Rx} {opened bound : Bool} {code : DldExitCode} (h : Ended r.counts s) :
    dataPath.wp (rxDone r opened bound code) s fun _ _ => True := by
  refine Monitor.wp_mono (Monitor.wp_invariant (rxDone_emits r opened bound code) h ?_)
    fun _ _ _ => trivial
  rintro s ⟨o, a⟩ he h -
  cases o with
  | senderClose | closeSocket | printError => exact ⟨trivial, h⟩
  | cancelled =>
    refine ⟨trivial, h.1, ?_⟩
    rcases h.2 with hall | ⟨hcut, hsends⟩
    · exact .inl hall
    · exact .inr ⟨Bool.or_eq_true_iff.mpr (.inl hcut), hsends⟩
  | stopped counts' code' =>
    obtain ⟨rfl, -⟩ : counts' = r.counts ∧ code' = code := he
    exact ⟨h, h⟩
  | _ => exact False.elim he

/-- Before the first datagram. -/
theorem ended_start : Ended {} {} :=
  ⟨.inl (by decide), .inl rfl⟩

theorem wp_rxServe {fuel : Nat} {o : UdpOptions} {activity : Word64} {error : String} :
    dataPath.wp (rxServe fuel o activity error) {} fun _ _ => True := by
  have hstart {r : Rx} (hr : r.counts = {}) : Between r.counts {} := by
    rw [hr]
    exact ⟨⟨rfl, rfl, rfl, rfl, rfl, rfl, rfl⟩, rfl, rfl, rfl⟩
  have hloop {r : Rx} (hr : r.counts = {}) : dataPath.wp (do
      let out ← rxLoop o.idleEnabled fuel r
      rxDone out.1 true true out.2) {} fun _ _ => True := by
    rw [Monitor.wp_bind]
    refine Monitor.wp_mono (wp_rxLoop (hstart hr)) ?_
    rintro s ⟨r, code⟩ h
    exact wp_rxDone h
  refine Monitor.wp_ite.mpr ⟨fun _ => ?_, fun _ => ?_⟩
  · rw [Monitor.wp_bind]
    apply wp_setFlashing
    exact Monitor.wp_op_bind fun _ _ => ⟨trivial, hloop rfl⟩
  · refine Monitor.wp_op_bind fun _ _ => ⟨trivial, ?_⟩
    exact Monitor.wp_op_bind fun _ _ => ⟨trivial, hloop rfl⟩

theorem wp_rxStart {fuel : Nat} {o : UdpOptions} :
    dataPath.wp (rxStart fuel o) {} fun _ _ => True := by
  refine Monitor.wp_op_bind fun installed _ => ⟨trivial, ?_⟩
  rcases installed with text | -
  · exact wp_rxDone ended_start
  refine Monitor.wp_op_bind fun bound _ => ⟨trivial, ?_⟩
  rcases bound with ⟨code, text⟩ | -
  · exact wp_rxDone ended_start
  refine Monitor.wp_op_bind fun opened _ => ⟨trivial, ?_⟩
  refine Monitor.wp_ite.mpr ⟨fun _ => wp_rxDone ended_start, fun _ => ?_⟩
  rw [Monitor.wp_bind]
  refine wp_monotonicNow (fun text => wp_rxDone ?_) fun activity => wp_rxServe
  exact ⟨ended_start.1, .inl rfl⟩

/-- The data path over every run, complete or not. -/
theorem dldUdp_dataPath (fuel : Nat) (args : List String) (t : List RxEvent)
    (rest : RxProg DldExitCode) (h : (dldUdp fuel args).Steps t rest) :
    dataPath.SafeAlong {} t := by
  have hwp : dataPath.wp (dldUdp fuel args) {} fun _ _ => True := by
    refine Monitor.wp_ite.mpr ⟨fun _ _ _ => ⟨trivial, trivial⟩, fun _ => ?_⟩
    rcases udpArguments {} args with - | o
    · exact fun _ _ => ⟨trivial, trivial⟩
    · exact Monitor.wp_ite.mpr ⟨fun _ _ _ => ⟨trivial, trivial⟩, fun _ => wp_rxStart⟩
  exact (Monitor.wp_steps hwp h (Monitor.envAlong_of_forall (fun _ _ => trivial) _ t)).1

/-- What the socket gives: a datagram, or nothing for now. -/
abbrev Arrivals := List (Option (List UInt8 × Bool))

/-- The answers for these arrivals; the interrupt comes after the last. -/
def arriving : Arrivals → (o : RxOp) → Option (o.Res × Arrivals)
  | q, .cancelled => some (if q = [] then 2 else 0, q)
  | q, .clockGettime => some (.ok (1, 0), q)
  | some d :: q, .recvmsg => some (.ok d, q)
  | none :: q, .recvmsg => some (.error eAgain, q)
  | [], .recvmsg => some (.error eAgain, [])
  | q, .poll _ => some (.ok (1, 1), q)
  | q, .installSignals | q, .openSocket .. => some (.ok (), q)
  | q, .senderOpen | q, .senderSend _ => some ((.ok, ""), q)
  | q, .strerror => some ("", q)
  | _, .running => none
  | q, .closeSocket | q, .senderClose | q, .print _ | q, .printError _ | q, .ready | q, .head _
  | q, .setFlashing _ | q, .flashNext .. | q, .stopped .. => some ((), q)

/-- Green and red in one batch, one byte too few in the next, then a batch
of nothing. -/
def threeBatches : Arrivals :=
  [some ([0, 0, 0, 3, 0, 255, 0], false), some ([0, 0, 0, 3, 255, 0, 0], false), none,
    some ([0, 0, 0, 3, 255, 0], false), none, none]

theorem dldUdp_dataPath_red :
    ∃ t, (dldUdp 3 ["--no-startup-flash"]).Runs t .ok ∧ dataPath.SafeAlong {} t ∧
      (dataPath.run {} t).packetSends = [0xff0000] ∧ (dataPath.run {} t).received = 3 ∧
      (dataPath.run {} t).valid = 2 ∧ (dataPath.run {} t).malformed = 1 ∧
      (dataPath.run {} t).coalesced = 1 ∧ (dataPath.run {} t).sent = 1 := by
  have hrun : ∃ r, (dldUdp 3 ["--no-startup-flash"]).tryExec arriving threeBatches = some r :=
    Option.isSome_iff_exists.mp (by decide +kernel)
  have htally : ∀ r ∈ (dldUdp 3 ["--no-startup-flash"]).tryExec arriving threeBatches,
      r.2 = .ok ∧ (dataPath.run {} r.1).packetSends = [0xff0000] ∧
        (dataPath.run {} r.1).received = 3 ∧ (dataPath.run {} r.1).valid = 2 ∧
        (dataPath.run {} r.1).malformed = 1 ∧ (dataPath.run {} r.1).coalesced = 1 ∧
        (dataPath.run {} r.1).sent = 1 := by
    decide +kernel
  obtain ⟨⟨t, code⟩, hrun⟩ := hrun
  obtain ⟨hcode, htally⟩ := htally _ hrun
  dsimp only at hcode htally
  subst hcode
  have hruns := Prog.tryExec_runs hrun
  exact ⟨t, hruns, dldUdp_dataPath _ _ t _ hruns.steps, htally⟩

end Dld
