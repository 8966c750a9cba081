/-
DldDriver/System/Display.lean

What the panel shows after a send.

The strings are chains of pixels of the type that the profile names, and the
firmware's events come with the cycles they take.  `panel_shows` is what the
driver is for: when `perform_send` has returned zero, every configured pixel
of every string shows the colour of the request, in whatever order kernel and
firmware went, and the chains are ready for the next frame.
-/
import Mathlib.Tactic.FinCases
import Mathlib.Tactic.IntervalCases
import DldDriver.System.Delivery
import DldDriver.Firmware.Line
import DldDriver.Kernel.Pins
import DldDriver.Capture.Colors

namespace Dld

open Interaction

/-! ### Colours -/

/-- The value of eight bits, the highest first. -/
def octetValue (bits : List (Option Bool)) : Option Nat :=
  bits.foldlM (fun value bit => bit.map fun bit => 2 * value + bit.toNat) 0

/-- Red, green and blue of a colour. -/
def rgbValue (rgb : Word) (c : Fin 3) : Nat := rgb.toNat / 2 ^ (16 - 8 * c.val) % 256

/-- A pixel that shows `bits` lights the colour: its type names the place of
each of red, green and blue on the wire. -/
def Lights (type : Capture.PixelType) (rgb : Word) (bits : List (Option Bool)) : Prop :=
  ∀ c : Fin 3, octetValue ((bits.drop (8 * type.order.idxOf c.val)).take 8) = some (rgbValue rgb c)

/-- The eight bits of a word from `base` on. -/
def octetBits (x : Word) (base : Nat) : List (Option Bool) :=
  (List.range 8).map fun k => some (x.getLsbD (base + 7 - k))

theorem octetValue_bits (x : Word) (base : Nat) :
    octetValue (octetBits x base) = some (x.toNat / 2 ^ base % 256) := by
  have hall : ∀ y < 256, octetValue ((List.range 8).map fun k => some (y.testBit (7 - k))) = some y := by
    decide +kernel
  have hbits : octetBits x base =
      (List.range 8).map fun k => some ((x.toNat / 2 ^ base % 256).testBit (7 - k)) := by
    apply List.map_congr_left
    intro k hk
    have hk := List.mem_range.mp hk
    have hmod : (x.toNat / 2 ^ base % 2 ^ 8).testBit (7 - k) = x.toNat.testBit (base + 7 - k) := by
      rw [Nat.testBit_mod_two_pow, Nat.testBit_div_two_pow, decide_eq_true (by omega), Bool.true_and]
      congr 1
      omega
    exact congrArg some hmod.symm
  rw [hbits]
  exact hall _ (Nat.mod_lt _ (by decide))

/-- The bits of the wire, octet by octet. -/
theorem colourBits_octets (x : Word) (position : Nat) (h : position < 3) :
    ((Pru.colourBits x).drop (8 * position)).take 8 = octetBits x (16 - 8 * position) := by
  obtain rfl | rfl | rfl : position = 0 ∨ position = 1 ∨ position = 2 := by omega
  all_goals rfl

theorem octetBits_congr {x y : Word} {base base' : Nat}
    (h : ∀ j < 8, x.getLsbD (base + j) = y.getLsbD (base' + j)) : octetBits x base = octetBits y base' := by
  apply List.map_congr_left
  intro k hk
  have hk := List.mem_range.mp hk
  have hbit := h (7 - k) (by omega)
  rw [Nat.add_sub_assoc (by omega), Nat.add_sub_assoc (by omega), hbit]

/-- The order of the profile, octet by octet: GRB, RGB, BGR. -/
theorem octetBits_wireColor (type : Capture.PixelType) (rgb : Word) (c : Fin 3) :
    octetBits (wireColor type.profileId rgb) (16 - 8 * type.order.idxOf c.val) =
      octetBits rgb (16 - 8 * c.val) := by
  apply octetBits_congr
  intro j hj
  cases type <;> fin_cases c <;> interval_cases j <;>
    simp [wireColor, Capture.PixelType.profileId, Capture.PixelType.order]

/-- The word on the wire lights its colour. -/
theorem lights_wireColor (type : Capture.PixelType) (rgb : Word) :
    Lights type rgb (Pru.colourBits (wireColor type.profileId rgb)) := by
  intro c
  have hposition : type.order.idxOf c.val < 3 := by
    cases type <;> fin_cases c <;> decide
  rw [colourBits_octets _ _ hposition, octetBits_wireColor, octetValue_bits]
  rfl

/-! ### The panel -/

/-- The bank of a string. -/
def stringBank (s : Fin 6) : Bank := if s ∈ [0, 1, 5] then .gpio2 else if s = 3 then .gpio0 else .gpio1

theorem mem_stringBank : ∀ s : Fin 6, s ∈ (stringBank s).strings := by decide

/-- The edges at the pin of a string. -/
def stringSignal (s : Fin 6) : Nat → List (Pru.PruEvent × Nat) → List Pixels.Edge :=
  Pru.signal (Pru.clearAddress (stringBank s)) (pinBit s)

section Panel

variable {request : DldQuietSend} {tm : Pru.Timing} {m₀ : DldCommand} {q : Pru.PProg Pru.Next}
variable {pruss : Prop}
variable {t : List (BoardAct Unit)} {w : BoardState Unit} {a : DldQuietSend × Int}

/-- Where `perform_send` has returned zero, the firmware has completed the
frame, and done nothing else. -/
theorem completed_of_returned (hvalid : ((validate request).exec (holding m₀)).2.2 = 0)
    (hawaits : Awaits tm m₀ q) (hrun : (board Unit tm pruss).Run (callers (fun _ => request) m₀ q) t w)
    (hreturned : w.clients () = .ret a) (hzero : a.2 = 0) :
    (∃ past cur, deviceEvents t = past ++ cur ∧ (∀ e ∈ past, Quiet request.previousSeq e) ∧
      Pru.Completed tm m₀.stringLengths (request.previousSeq + 1)
        (wireColor request.profileId request.rgb) cur) ∧
    ∃ d₀ d : Pru.FState, Handshake request m₀.stringLengths d₀.out tm w.mem .sent d ∧
      Machine.Good (Pru.firmware tm m₀.stringLengths) (Pru.Control tm m₀.stringLengths)
        w.device d := by
  obtain ⟨d₀, hphase, hseq, hframe, hstart⟩ := underway_awaits pruss hvalid hawaits
  have hend := Proofs.Good.run (handshake_upholds hframe) hstart hrun
  have hdevice := Proofs.Good.deviceSafeAlong (handshake_upholds hframe) hstart hrun
  have hwp := hend.client ()
  rw [hreturned] at hwp
  obtain ⟨hsent, -, -⟩ := Outcome.sent hwp hzero
  have hkept : ((handshake request tm m₀.stringLengths d₀.out pruss).watched
      (fun _ => ⟨.idle, .never⟩) t ()).phase.lost = false := by
    rw [hsent]
    rfl
  have hinv : Handshake request m₀.stringLengths d₀.out tm w.mem _ _ := hend.inv
  rw [hsent] at hinv
  refine ⟨?_, d₀, _, hinv, hend.device⟩
  -- the record of the firmware at the end of the run
  let before : Pru.FHistory := ⟨d₀, [], []⟩
  obtain ⟨hstate, hevents, hrec⟩ := Pru.recorded_run (h := before) (recorded_poll hphase) hdevice
  have hopen : Opening request (before.run tm _ (deviceEvents t)) :=
    opening_of_run hframe hstart hrun hkept rfl ⟨by simp [before], by simp [before, hseq]⟩
  obtain ⟨hp, hsync⟩ := hend.inv.agreed hkept
  rw [hsent] at hsync
  rw [hstate] at hrec
  have hidle := hopen.idle
  rw [hstate] at hidle
  exact ⟨_, _, hevents.symm, hopen.past, hsync.completed hframe hp hrec hidle⟩

section Strips

variable {type : Capture.PixelType} {chip : Pixels.Chip} {tt : List (Pru.PruEvent × Nat)}
variable {strips : Fin 6 → List Pixels.Pixel} {now : Nat} {seq : Word} {past : List Pru.PruEvent}

/-- Waiting for a request, the firmware leaves the pins alone. -/
theorem stringSignal_quiet (hpast : ∀ e ∈ past, Quiet seq e) (htt : tt.map Prod.fst = past)
    (s : Fin 6) : stringSignal s now tt = [] := by
  refine Pru.signal_eq_nil fun x hx => ?_
  rcases hpast x.1 (htt ▸ List.mem_map_of_mem hx) with hx | hx
  · rw [hx]
    rfl
  · rw [hx]
    rfl

/-- After one frame each configured pixel shows its colour. -/
theorem chain_frame {l : Fin 6 → Word} {cur : List Pru.PruEvent} {next profileId rgb : Word}
    (hadmitted : tm.Admitted) (hchip : Pru.Suits tm chip) (htype : type.profileId = profileId)
    (hpast : ∀ e ∈ past, Quiet seq e)
    (hcur : Pru.Completed tm l next (wireColor profileId rgb) cur)
    (htt : tt.map Prod.fst = past ++ cur) (hclocked : Pru.Clocked tt)
    (hrest : ∀ s, ∀ p ∈ strips s, p.AtRest chip now) (s : Fin 6) (i : Nat) (p : Pixels.Pixel)
    (hp : (strips s)[i]? = some p) : ∃ p',
      (Pixels.chain chip (strips s) (stringSignal s now tt))[i]? = some p' ∧
        p'.AtRest chip (now + Pru.cycles tt) ∧
        (i < (l s).toNat → Lights type rgb (p'.showsAt chip (now + Pru.cycles tt))) ∧
        ((l s).toNat ≤ i → p' = p) := by
  obtain ⟨tp, tc, rfl, htp, htc⟩ := List.map_eq_append_iff.mp htt
  have hsignal : stringSignal s now (tp ++ tc) = stringSignal s (now + Pru.cycles tp) tc := by
    have hquiet : stringSignal s now tp = [] := stringSignal_quiet hpast htp s
    rw [stringSignal] at hquiet
    rw [stringSignal, Pru.signal_append, hquiet]
    rfl
  have hrest' : ∀ p ∈ strips s, p.AtRest chip (now + Pru.cycles tp) := fun p hp =>
    ⟨(hrest s p hp).1, le_trans (hrest s p hp).2 (Nat.le_add_right _ _)⟩
  obtain ⟨p', hp', hatRest, hshows, hkept⟩ := Pru.chain_completed hadmitted hchip
    (mem_stringBank s) hcur htc hclocked.append.2 hrest' hp
  rw [hsignal, Pru.cycles_append, ← Nat.add_assoc]
  refine ⟨p', hp', hatRest, fun hi => ?_, hkept⟩
  rw [hshows hi, ← htype]
  exact lights_wireColor type rgb

end Strips

/-- **The panel shows the colour.**  When `perform_send` has returned zero,
whatever the interleaving with the firmware and the time its loads took: the
helper has left the pins alone; on every string each configured pixel shows
the colour of the request, and each pixel behind is as it was; and the chains
are at rest, as they have to be for the next frame. -/
theorem panel_shows (request : DldQuietSend) (tm : Pru.Timing) (m₀ : DldCommand) (r : Pru.Regs)
    (pruss : Prop) (t : List (BoardAct Unit)) (w : BoardState Unit) (a : DldQuietSend × Int)
    (hvalid : ((validate request).exec (holding m₀)).2.2 = 0)
    (hready : Pru.Ready tm (fun i => m₀ (.lengths i)) r) (hseq : r.r3 = m₀ .requestSeq)
    (hrun : (board Unit tm pruss).Run
      (callers (fun _ => request) m₀ (Pru.code tm (.requestLoop, r))) t w)
    (hreturned : w.clients () = .ret a) (hzero : a.2 = 0)
    (type : Capture.PixelType) (htype : type.profileId = request.profileId)
    (chip : Pixels.Chip) (hchip : Pru.Suits tm chip)
    (tt : List (Pru.PruEvent × Nat)) (htt : tt.map Prod.fst = deviceEvents t)
    (hclocked : Pru.Clocked tt) (now : Nat) (strips : Fin 6 → List Pixels.Pixel)
    (hrest : ∀ s, ∀ p ∈ strips s, p.AtRest chip now) :
    (∀ e ∈ events () t, SparesPins e) ∧ ∀ (s : Fin 6) (i : Nat) (p : Pixels.Pixel),
      (strips s)[i]? = some p → ∃ p',
        (Pixels.chain chip (strips s) (stringSignal s now tt))[i]? = some p' ∧
          p'.AtRest chip (now + Pru.cycles tt) ∧
          (i < (m₀ (.lengths s)).toNat →
            Lights type request.rgb (p'.showsAt chip (now + Pru.cycles tt))) ∧
          ((m₀ (.lengths s)).toNat ≤ i → p' = p) := by
  constructor
  · have hsteps := hrun.client_steps ()
    rw [hreturned] at hsteps
    have hruns := hsteps.runs (.ret a)
    rw [List.append_nil] at hruns
    exact Prog.all_iff.mp (performSend_spares _) _ _ hruns hzero
  obtain ⟨⟨past, cur, hevents, hpast, hcur⟩, -⟩ :=
    completed_of_returned hvalid (awaits_requestLoop hready hseq) hrun hreturned hzero
  rw [hevents] at htt
  exact chain_frame hready.admitted hchip htype hpast hcur htt hclocked hrest

end Panel

/-- Pixels that read a bit from its exact high, with a reset of 300 us. -/
def exactChip : Pixels.Chip where
  width := 24
  bit high := if high = 70 then some false else if high = 140 then some true else none
  reset := 60000
  delay := 200

/-- A pixel that has shown nothing yet. -/
def darkPixel : Pixels.Pixel := ⟨false, 0, [], []⟩

/-- The third pixel of the five on string 3. -/
theorem panel_shows_oneBank :
    ∃ (t : List (BoardAct Unit)) (w : BoardState Unit) (p' : Pixels.Pixel),
      w.clients () = .ret oneBankSend.2 ∧
        (Pixels.chain exactChip (List.replicate 5 darkPixel) (stringSignal 3 60000
          ((deviceEvents t).map (·, 1))))[2]? = some p' ∧
        Lights .ws2812b oneBankRequest.rgb
          (p'.showsAt exactChip (60000 + Pru.cycles ((deviceEvents t).map (·, 1)))) := by
  obtain ⟨t, w, hrun, hreturned⟩ := oneBank_run True
  have htt : ((deviceEvents t).map (·, 1)).map Prod.fst = deviceEvents t := by
    rw [List.map_map]
    exact List.map_id _
  have hclocked : Pru.Clocked ((deviceEvents t).map (·, 1)) := by
    intro x hx
    obtain ⟨e, -, rfl⟩ := List.mem_map.mp hx
    exact ⟨Nat.le_refl 1, fun _ => rfl⟩
  have hchip : Pru.Suits Pru.profileTiming exactChip :=
    ⟨rfl, by decide, by decide, by decide, by decide⟩
  have hrest : ∀ s : Fin 6, ∀ p ∈ List.replicate 5 darkPixel, p.AtRest exactChip 60000 := by
    intro s p hp
    rw [List.eq_of_mem_replicate hp]
    exact ⟨rfl, Nat.le_refl _⟩
  obtain ⟨-, hshows⟩ := panel_shows oneBankRequest Pru.profileTiming oneBankBoard.mailbox
    oneBankRegs True t w oneBankSend.2 (by decide +kernel) oneBank_ready rfl hrun hreturned
    (by decide +kernel) .ws2812b rfl exactChip hchip _ htt hclocked 60000
    (fun _ => List.replicate 5 darkPixel) hrest
  obtain ⟨p', hp', -, hlights, -⟩ := hshows 3 2 darkPixel rfl
  exact ⟨t, w, p', hreturned, hp', hlights (by decide)⟩

end Dld
