/-
DldDriver/Interaction/Machine.lean

Machines that never have to stop.  A machine is a map from labels to
finite programs; a program that returns `some l` jumps to the label `l`,
one that returns `none` halts.  Registers are part of the label, so that a
label invariant may speak about them.

    Machine.Steps code p t q    from residual p the machine performs t and
                                has the residual q left

`Invariant` is the Floyd rule: label invariants that every block keeps.
`Invariant.steps` reads it along any partial run of the machine.
-/
import DldDriver.Interaction.Monitor

namespace Interaction

variable {Op : Type} {Res : Op → Type} {Λ σ : Type}

/-- The blocks of a machine: one finite program for each label. -/
abbrev Code (Op : Type) (Res : Op → Type) (Λ : Type) := Λ → Prog Op Res (Option Λ)

namespace Machine

variable (code : Code Op Res Λ)

/-- Partial runs: operations are events, jumps are silent. -/
inductive Steps : Prog Op Res (Option Λ) → List (Event Op Res) → Prog Op Res (Option Λ) → Prop
  | refl (p) : Steps p [] p
  | call {o k t q} (r : Res o) : Steps (k r) t q → Steps (.call o k) (⟨o, r⟩ :: t) q
  | jump {l t q} : Steps (code l) t q → Steps (.ret (some l)) t q

variable {code} {p q r : Prog Op Res (Option Λ)} {t t' : List (Event Op Res)}

theorem Steps.trans (h : Steps code p t q) (h' : Steps code q t' r) :
    Steps code p (t ++ t') r := by
  induction h with
  | refl p => exact h'
  | call x _ ih => exact .call x (ih h')
  | jump _ ih => exact .jump (ih h')

/-- A partial run passes through a residual at each of its events. -/
theorem Steps.split (h : Steps code p (t ++ t') r) :
    ∃ q, Steps code p t q ∧ Steps code q t' r := by
  induction t generalizing p with
  | nil => exact ⟨p, .refl p, h⟩
  | cons e t ih =>
    -- the jumps before the first event
    rw [List.cons_append] at h
    generalize hu : e :: (t ++ t') = u at h
    induction h with
    | refl => cases hu
    | call x h _ =>
      obtain ⟨rfl, rfl⟩ := List.cons.inj hu
      obtain ⟨q, hfirst, hrest⟩ := ih h
      exact ⟨q, .call x hfirst, hrest⟩
    | jump _ ih' =>
      obtain ⟨q, hfirst, hrest⟩ := ih' ih hu
      exact ⟨q, .jump hfirst, hrest⟩

/-- A partial run of a block is a partial run of the machine. -/
theorem Steps.of_prog (h : p.Steps t q) : Steps code p t q := by
  induction h with
  | refl p => exact .refl p
  | call x _ ih => exact .call x ih

/-- A complete run of a block that jumps to `l` enters the block of `l`. -/
theorem Steps.of_runs {l : Λ} (h : p.Runs t (some l)) : Steps code p t (code l) := by
  generalize ha : some l = a at h
  induction h with
  | ret a =>
    subst ha
    exact .jump (.refl _)
  | call x _ ih => exact .call x (ih ha)

/-- As long as no response carries information, a machine has only one
way to go. -/
theorem Steps.comparable {q' : Prog Op Res (Option Λ)} (h : Steps code p t q)
    (ht : ∀ e ∈ t, Subsingleton (Res e.1)) (h' : Steps code p t' q') :
    t <+: t' ∨ t' <+: t := by
  induction h generalizing t' with
  | refl p => exact .inl t'.nil_prefix
  | @call o k t q r _ ih =>
    cases h' with
    | refl => exact .inr (List.nil_prefix)
    | call r' h' =>
      have hsub : Subsingleton (Res o) := ht ⟨o, r⟩ (by simp)
      obtain rfl : r = r' := Subsingleton.elim r r'
      refine (ih (fun e he => ht e (by simp [he])) h').imp ?_ ?_ <;>
        exact fun hp => List.cons_prefix_cons.mpr ⟨rfl, hp⟩
  | jump _ ih =>
    cases h' with
    | refl => exact .inr (List.nil_prefix)
    | jump h' => exact ih ht h'

/-- What a run does after its first events, it does from the residual these
events leave. -/
theorem Steps.of_append {q' : Prog Op Res (Option Λ)} (h : Steps code p (t ++ t') r)
    (h' : Steps code p t q') : t' = [] ∨ Steps code q' t' r := by
  induction h' with
  | refl p => exact .inr h
  | call x _ ih =>
    cases h with
    | call _ h => exact ih h
  | @jump l t q _ ih =>
    generalize hu : t ++ t' = u at h
    cases h with
    | refl => exact .inl (List.append_eq_nil_iff.mp hu).2
    | jump h => exact ih (hu ▸ h)

/-! ### As a program -/

/-- The machine with `n` jumps, as a program. -/
def unroll (code : Code Op Res Λ) :
    Nat → Prog Op Res (Option Λ) → Prog Op Res (Option Λ)
  | 0, p => p
  | n + 1, p => p >>= fun
    | none => pure none
    | some l => unroll code n (code l)

theorem Steps.of_unroll {n : Nat} {o : Option Λ} (h : (unroll code n p).Runs t o) :
    Steps code p t (.ret o) := by
  induction n generalizing p t with
  | zero => exact .of_prog h.steps
  | succ n ih =>
    obtain ⟨t₁, t₂, l, rfl, hblock, hrest⟩ := Prog.runs_bind_iff.mp h
    rcases l with - | l
    · cases hrest
      exact (Steps.of_prog hblock.steps).trans (.refl _)
    · exact (Steps.of_runs hblock).trans (ih hrest)

/-! ### Running against a fixed environment -/

/-- `n` blocks, every operation answered by `h`; `none` if the machine halts. -/
def exec (code : Code Op Res Λ) (h : (o : Op) → Res o) :
    Nat → Λ → Option (List (Event Op Res) × Λ)
  | 0, l => some ([], l)
  | n + 1, l =>
    match ((code l).exec h).2 with
    | none => none
    | some l' => (exec code h n l').map fun tl => (((code l).exec h).1 ++ tl.1, tl.2)

theorem exec_steps {h : (o : Op) → Res o} {n : Nat} {l l' : Λ}
    (hexec : exec code h n l = some (t, l')) : Steps code (code l) t (code l') := by
  induction n generalizing l t with
  | zero =>
    cases hexec
    exact .refl _
  | succ n ih =>
    rw [exec] at hexec
    rcases hblock : ((code l).exec h).2 with - | next
    · rw [hblock] at hexec
      cases hexec
    · rw [hblock] at hexec
      obtain ⟨⟨t', last⟩, hrest, heq⟩ := Option.map_eq_some_iff.mp hexec
      cases heq
      have hruns := Prog.exec_runs h (code l)
      rw [hblock] at hruns
      exact (Steps.of_runs hruns).trans (ih hrest)

/-! ### Label invariants -/

variable (M : Monitor Op Res σ) (L : Option Λ → σ → Prop)

/-- A residual program is good in monitor state `s` if it performs safe
events only and ends where `L` holds: at the label it jumps to, or at
`none` if it halts. -/
def Good (p : Prog Op Res (Option Λ)) (s : σ) : Prop := M.wp p s fun s' o => L o s'

variable (code) in
/-- **Label invariants**: wherever `L` holds at a label, the label's block
is good. -/
def Invariant : Prop := ∀ l s, L (some l) s → Good M L (code l) s

variable {M L}

theorem Invariant.steps {s : σ} (hinv : Invariant code M L) (hp : Good M L p s)
    (h : Steps code p t q) (henv : M.EnvAlong s t) :
    M.SafeAlong s t ∧ Good M L q (M.run s t) := by
  induction h generalizing s with
  | refl p => exact ⟨trivial, hp⟩
  | call x _ ih =>
    obtain ⟨hs, hk⟩ := hp x henv.1
    obtain ⟨hs', hq⟩ := ih hk henv.2
    exact ⟨⟨hs, hs'⟩, hq⟩
  | jump _ ih => exact ih (hinv _ _ hp) henv

/-- A good program that runs to its end ends where `L` holds. -/
theorem Good.runs {s : σ} {o : Option Λ} (hp : Good M L p s) (h : p.Runs t o)
    (henv : M.EnvAlong s t) : M.SafeAlong s t ∧ L o (M.run s t) :=
  Monitor.wp_runs hp h henv

end Machine

end Interaction
