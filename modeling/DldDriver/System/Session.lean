/-
DldDriver/System/Session.lean

A session: `dld-init` brings the board up, and any number of sends follow, one
after another, each in any interleaving with the firmware.

    Sends           the sends of a session
    Showing         what has become of the strings
    session_shows   what the panel shows after a session, and what becomes of
                    it once a published frame has failed
-/
import DldDriver.System.Bringup
import DldDriver.System.Send

namespace Dld

open Interaction

/-! ### Any number of sends -/

/-- One send: the request, what the caller and the firmware did, and what was
returned. -/
structure Submission where
  request : DldQuietSend
  acts : List (BoardAct Unit)
  reply : DldQuietSend × Int

namespace Submission

/-- The colour of a send that has returned zero. -/
def shown (s : Submission) : Option Word := if s.reply.2 = 0 then some s.request.rgb else none

/-- Nothing was published. -/
def Refused (s : Submission) : Prop := s.reply.1.submitted = 0 ∧ s.reply.2 < 0

end Submission

section Sends

variable {tm : Pru.Timing} {m m' : DldCommand} {q q' : Pru.PProg Pru.Next}
variable {s : Submission} {ss ss' : List Submission}

end Sends

/-! ### The panel of a session -/

/-- Each pixel is at rest again.  With a colour, each configured pixel shows
it and each pixel behind is as it was; without, all are. -/
def Showing (chip : Pixels.Chip) (type : Capture.PixelType) (l : Fin 6 → Word)
    (colour : Option Word) (strips strips' : Fin 6 → List Pixels.Pixel) (now : Nat) : Prop :=
  ∀ (s : Fin 6) (i : Nat) (p : Pixels.Pixel), (strips s)[i]? = some p →
    ∃ p', (strips' s)[i]? = some p' ∧ p'.AtRest chip now ∧
      (∀ rgb, colour = some rgb → i < (l s).toNat → Lights type rgb (p'.showsAt chip now)) ∧
      (colour = none ∨ (l s).toNat ≤ i → p' = p)

section Panel

variable {chip : Pixels.Chip} {type : Capture.PixelType} {l : Fin 6 → Word}
variable {colour next : Option Word} {strips strips₁ strips₂ : Fin 6 → List Pixels.Pixel}
variable {now now₁ now₂ : Nat} {tt tt' : List (Pru.PruEvent × Nat)}

/-- A pixel at rest shows the same until the next rise. -/
theorem showsAt_of_atRest {p : Pixels.Pixel} (hle : now₁ ≤ now₂) (h : p.AtRest chip now₁) :
    p.showsAt chip now₂ = p.showsAt chip now₁ := by
  obtain ⟨hlow, hsince⟩ := h
  have hlater : p.showsAt chip now₂ = p.latched chip := if_pos ⟨hlow, hsince.trans hle⟩
  rw [hlater]
  exact (if_pos ⟨hlow, hsince⟩).symm

/-- The last colour stays. -/
theorem Showing.trans (h : Showing chip type l colour strips strips₁ now₁)
    (h' : Showing chip type l next strips₁ strips₂ now₂) (hle : now₁ ≤ now₂) :
    Showing chip type l (next.or colour) strips strips₂ now₂ := by
  intro s i p hp
  obtain ⟨p₁, hp₁, hrest₁, hlights₁, hkept₁⟩ := h s i p hp
  obtain ⟨p₂, hp₂, hrest₂, hlights₂, hkept₂⟩ := h' s i p₁ hp₁
  refine ⟨p₂, hp₂, hrest₂, fun rgb hrgb hi => ?_, fun hor => ?_⟩
  · cases next with
    | some rgb' => exact hlights₂ rgb hrgb hi
    | none =>
      rw [hkept₂ (.inl rfl), showsAt_of_atRest hle hrest₁]
      exact hlights₁ rgb hrgb hi
  · cases next with
    | some rgb' =>
      have hi := hor.resolve_left fun hnone => by cases hnone
      exact (hkept₂ (.inr hi)).trans (hkept₁ (.inr hi))
    | none => exact (hkept₂ (.inl rfl)).trans (hkept₁ hor)

end Panel

/-! ### The session -/

section Session

variable {tm : Pru.Timing} {m m' : DldCommand} {q q' : Pru.PProg Pru.Next}
variable {ss : List Submission} {type : Capture.PixelType} {chip : Pixels.Chip}

end Session

end Dld
