/-
DldDriver/Interaction/Realizes.lean

A region of a machine that does what a program does.

    Realizes code inside R q p    from residual q the machine performs the
                                  operations of the program p, whatever the
                                  responses, without leaving the labels
                                  `inside`; where it leaves them it stands at
                                  a label that R relates to the result of p

There is no derivation for a machine that stays inside forever.
`Realizes.steps` and `Realizes.follows` read the relation in its two
directions, from runs of the program and from runs of the machine.
-/
import DldDriver.Interaction.Machine

namespace Interaction

variable {Op : Type} {Res : Op → Type} {Λ β γ : Type}

namespace Machine

inductive Realizes (code : Code Op Res Λ) (inside : Λ → Prop) (R : Λ → β → Prop) :
    Prog Op Res (Option Λ) → Prog Op Res β → Prop
  | call {o k k'} (h : ∀ r, Realizes code inside R (k r) (k' r)) :
      Realizes code inside R (.call o k) (.call o k')
  | jump {l p} (hl : inside l) (h : Realizes code inside R (code l) p) :
      Realizes code inside R (.ret (some l)) p
  | leave {l b} (hl : ¬ inside l) (h : R l b) : Realizes code inside R (.ret (some l)) (.ret b)

variable {code : Code Op Res Λ} {inside : Λ → Prop} {R : Λ → β → Prop}
variable {q q' : Prog Op Res (Option Λ)} {p : Prog Op Res β} {t : List (Event Op Res)} {b : β}

/-- One operation on both sides. -/
theorem Realizes.op {o : Op} {f : Res o → Prog Op Res (Option Λ)} {g : Res o → Prog Op Res β}
    (h : ∀ r, Realizes code inside R (f r) (g r)) :
    Realizes code inside R (Prog.op o >>= f) (Prog.op o >>= g) :=
  .call h

/-- Inside, the machine is not stuck. -/
theorem Realizes.ne_none (h : Realizes code inside R q p) : q ≠ .ret none := by
  rintro rfl
  cases h

/-- Every run of the program is one of the machine. -/
theorem Realizes.steps (h : Realizes code inside R q p) (hp : p.Runs t b) :
    ∃ l, Steps code q t (.ret (some l)) ∧ ¬ inside l ∧ R l b := by
  induction h generalizing t with
  | call _ ih =>
    cases hp with
    | call r hp =>
      obtain ⟨l, hsteps, hl, hR⟩ := ih r hp
      exact ⟨l, .call r hsteps, hl, hR⟩
  | jump _ _ ih =>
    obtain ⟨l, hsteps, hl, hR⟩ := ih hp
    exact ⟨l, .jump hsteps, hl, hR⟩
  | leave hl h =>
    cases hp
    exact ⟨_, .refl _, hl, h⟩

/-- Every run of the machine follows the program: it is still inside, with
the rest of the program to do, or it goes on from where the region was left. -/
theorem Realizes.follows (h : Realizes code inside R q p) (hq : Steps code q t q') :
    (∃ p', p.Steps t p' ∧ Realizes code inside R q' p') ∨
      ∃ t₁ t₂ l b, t = t₁ ++ t₂ ∧ p.Runs t₁ b ∧ ¬ inside l ∧ R l b ∧
        Steps code (.ret (some l)) t₂ q' := by
  induction h generalizing t with
  | @call o k k' hk ih =>
    cases hq with
    | refl => exact .inl ⟨_, .refl _, .call hk⟩
    | call r hq =>
      rcases ih r hq with ⟨p', hp, hrest⟩ | ⟨t₁, t₂, l, b, rfl, hp, hl, hR, hrest⟩
      · exact .inl ⟨p', .call r hp, hrest⟩
      · exact .inr ⟨_, t₂, l, b, rfl, .call r hp, hl, hR, hrest⟩
  | @jump l p hl hp ih =>
    cases hq with
    | refl => exact .inl ⟨p, .refl p, .jump hl hp⟩
    | jump hq => exact ih hq
  | @leave l b hl hR =>
    exact .inr ⟨[], t, l, b, rfl, .ret b, hl, hR, hq⟩

end Machine

end Interaction
