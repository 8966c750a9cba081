/-
DldDriver/Interaction/Prog.lean

Finite programs that talk to an environment.  A program either returns or
performs one operation and continues with the environment's response; what
an operation *means* is left open.  The environment is therefore
adversarial by default: every response of the right type is possible.

    Runs p t a     p performs the events t, in order, and returns a
    Steps p t q    p performs the events t and has q left to do
    All p Q        every complete run of p satisfies Q

`All` is computed by recursion on the program, so that it unfolds along the
code; `all_iff` says that it quantifies over `Runs`.
-/
import Mathlib.Logic.Basic
import Mathlib.Data.List.Basic
import Mathlib.Tactic.Common

namespace Interaction

variable {Op : Type} {Res : Op → Type} {α β γ : Type}

/-- One operation together with the response it received. -/
abbrev Event (Op : Type) (Res : Op → Type) := (op : Op) × Res op

/-- Finite programs over the operations `Op`, returning a value in `α`. -/
inductive Prog (Op : Type) (Res : Op → Type) (α : Type) : Type
  | ret (a : α)
  | call (op : Op) (k : Res op → Prog Op Res α)

namespace Prog

/-! ### The monad of programs -/

/-- Run `p`, then continue with its result. -/
def bind : Prog Op Res α → (α → Prog Op Res β) → Prog Op Res β
  | .ret a, f => f a
  | .call op k, f => .call op fun r => (k r).bind f

instance : Monad (Prog Op Res) where
  pure := .ret
  bind := .bind

/-- Perform a single operation and return its response. -/
def op (o : Op) : Prog Op Res (Res o) := .call o .ret

@[simp] theorem ret_bind (a : α) (f : α → Prog Op Res β) :
    (Prog.ret a >>= f) = f a := rfl

@[simp] theorem call_bind (o : Op) (k : Res o → Prog Op Res α) (f : α → Prog Op Res β) :
    (Prog.call o k >>= f) = .call o fun r => k r >>= f := rfl

theorem bind_assoc' (p : Prog Op Res α) (f : α → Prog Op Res β) (g : β → Prog Op Res γ) :
    (p >>= f >>= g) = p >>= fun a => f a >>= g := by
  induction p with
  | ret a => rfl
  | call o k ih => exact congrArg (Prog.call o) (funext ih)

theorem bind_ret' (p : Prog Op Res α) : (p >>= Prog.ret) = p := by
  induction p with
  | ret a => rfl
  | call o k ih => exact congrArg (Prog.call o) (funext ih)

instance : LawfulMonad (Prog Op Res) :=
  LawfulMonad.mk' _ (fun p => bind_ret' p) (fun _ _ => rfl) (fun p f g => bind_assoc' p f g)

/-! ### Runs -/

/-- `Runs p t a`: `p` performs exactly the events `t` and returns `a`. -/
inductive Runs : Prog Op Res α → List (Event Op Res) → α → Prop
  | ret (a : α) : Runs (.ret a) [] a
  | call {o k t a} (r : Res o) : Runs (k r) t a → Runs (.call o k) (⟨o, r⟩ :: t) a

/-- `Steps p t q`: `p` performs the events `t` and has `q` left to do. -/
inductive Steps : Prog Op Res α → List (Event Op Res) → Prog Op Res α → Prop
  | refl (p) : Steps p [] p
  | call {o k t q} (r : Res o) : Steps (k r) t q → Steps (.call o k) (⟨o, r⟩ :: t) q

theorem runs_bind_iff {p : Prog Op Res α} {f : α → Prog Op Res β} {t b} :
    Runs (p >>= f) t b ↔ ∃ t₁ t₂ a, t = t₁ ++ t₂ ∧ Runs p t₁ a ∧ Runs (f a) t₂ b := by
  induction p generalizing t with
  | ret a =>
    constructor
    · intro h
      exact ⟨[], t, a, rfl, .ret a, h⟩
    · rintro ⟨t₁, t₂, a', rfl, h₁, h₂⟩
      cases h₁
      exact h₂
  | call o k ih =>
    constructor
    · intro h
      cases h with
      | call r h =>
        obtain ⟨t₁, t₂, a, rfl, h₁, h₂⟩ := (ih r).mp h
        exact ⟨_ :: t₁, t₂, a, rfl, .call r h₁, h₂⟩
    · rintro ⟨t₁, t₂, a, rfl, h₁, h₂⟩
      cases h₁ with
      | call r h₁ => exact .call r ((ih r).mpr ⟨_, _, a, rfl, h₁, h₂⟩)

theorem Runs.bind {p : Prog Op Res α} {f : α → Prog Op Res β} {t₁ t₂ a b}
    (h₁ : Runs p t₁ a) (h₂ : Runs (f a) t₂ b) : Runs (p >>= f) (t₁ ++ t₂) b :=
  runs_bind_iff.mpr ⟨t₁, t₂, a, rfl, h₁, h₂⟩

/-- A partial run followed by a complete run of what is left is a run. -/
theorem Steps.runs {p q : Prog Op Res α} {t t' a} (h : Steps p t q) (h' : Runs q t' a) :
    Runs p (t ++ t') a := by
  induction h with
  | refl p => exact h'
  | call r _ ih => exact .call r (ih h')

theorem Steps.trans {p q r : Prog Op Res α} {t t'} (h : Steps p t q) (h' : Steps q t' r) :
    Steps p (t ++ t') r := by
  induction h with
  | refl p => exact h'
  | call x _ ih => exact .call x (ih h')

/-- A complete run is a partial run with nothing left. -/
theorem Runs.steps {p : Prog Op Res α} {t a} (h : Runs p t a) : Steps p t (.ret a) := by
  induction h with
  | ret a => exact .refl _
  | call r _ ih => exact .call r ih

/-- A complete run passes through a program at each of its events. -/
theorem Runs.split {p : Prog Op Res α} {t t' a} (h : Runs p (t ++ t') a) :
    ∃ q, Steps p t q ∧ Runs q t' a := by
  induction t generalizing p with
  | nil => exact ⟨p, .refl p, h⟩
  | cons e t ih =>
    cases h with
    | call r h =>
      obtain ⟨q, hsteps, hruns⟩ := ih h
      exact ⟨q, .call r hsteps, hruns⟩

/-! ### Running against a fixed environment -/

/-- The run in which every operation is answered by `h`. -/
def exec (h : (o : Op) → Res o) : Prog Op Res α → List (Event Op Res) × α
  | .ret a => ([], a)
  | .call o k => (⟨o, h o⟩ :: ((k (h o)).exec h).1, ((k (h o)).exec h).2)

section Exec

variable (h : (o : Op) → Res o)

@[simp] theorem exec_ret (a : α) : (Prog.ret a : Prog Op Res α).exec h = ([], a) := rfl

@[simp] theorem exec_pure (a : α) : (pure a : Prog Op Res α).exec h = ([], a) := rfl

@[simp] theorem exec_op (o : Op) : (op o).exec h = ([⟨o, h o⟩], h o) := rfl

@[simp] theorem exec_bind (p : Prog Op Res α) (f : α → Prog Op Res β) :
    (p >>= f).exec h =
      ((p.exec h).1 ++ ((f (p.exec h).2).exec h).1, ((f (p.exec h).2).exec h).2) := by
  induction p with
  | ret a => rfl
  | call o k ih => simp [exec, ih]

theorem exec_bind_snd (p : Prog Op Res α) (f : α → Prog Op Res β) :
    ((p >>= f).exec h).2 = ((f (p.exec h).2).exec h).2 := by
  rw [exec_bind]

@[simp] theorem exec_map (f : α → β) (p : Prog Op Res α) :
    (f <$> p).exec h = ((p.exec h).1, f (p.exec h).2) := by
  rw [map_eq_pure_bind, exec_bind]
  simp

theorem exec_runs (p : Prog Op Res α) : Runs p (p.exec h).1 (p.exec h).2 := by
  induction p with
  | ret a => exact .ret a
  | call o k ih => exact .call (h o) (ih _)

/-- Every response is the handler's. -/
theorem exec_answers (p : Prog Op Res α) : ∀ e ∈ (p.exec h).1, e.2 = h e.1 := by
  induction p with
  | ret a => simp
  | call o k ih =>
    intro e he
    rcases List.mem_cons.mp he with rfl | he
    · rfl
    · exact ih _ e he

/-- Where the responses are those of `h`, the run is the one `h` determines. -/
theorem Runs.eq_exec {p : Prog Op Res α} {t a} (hr : Runs p t a)
    (ht : ∀ e ∈ t, e.2 = h e.1) : p.exec h = (t, a) := by
  induction hr with
  | ret a => rfl
  | @call o k t a r _ ih =>
    have hr : r = h o := ht ⟨o, r⟩ (by simp)
    subst hr
    simp [exec, ih fun e he => ht e (by simp [he])]

end Exec

/-- The run against an environment that has a state of its own. -/
def execWith {σ : Type} (h : σ → (o : Op) → Res o × σ) :
    σ → Prog Op Res α → List (Event Op Res) × α
  | _, .ret a => ([], a)
  | s, .call o k =>
    (⟨o, (h s o).1⟩ :: (execWith h (h s o).2 (k (h s o).1)).1,
      (execWith h (h s o).2 (k (h s o).1)).2)

theorem execWith_runs {σ : Type} (h : σ → (o : Op) → Res o × σ) (s : σ) (p : Prog Op Res α) :
    Runs p (p.execWith h s).1 (p.execWith h s).2 := by
  induction p generalizing s with
  | ret a => exact .ret a
  | call o k ih => exact .call _ (ih _ _)

/-- The run against an environment that does not answer everything. -/
def tryExec {σ : Type} (h : σ → (o : Op) → Option (Res o × σ)) :
    σ → Prog Op Res α → Option (List (Event Op Res) × α)
  | _, .ret a => some ([], a)
  | s, .call o k =>
    match h s o with
    | none => none
    | some (r, s') => (tryExec h s' (k r)).map fun ta => (⟨o, r⟩ :: ta.1, ta.2)

theorem tryExec_runs {σ : Type} {h : σ → (o : Op) → Option (Res o × σ)} {s : σ}
    {p : Prog Op Res α} {t : List (Event Op Res)} {a : α} (hrun : p.tryExec h s = some (t, a)) :
    Runs p t a := by
  induction p generalizing s t with
  | ret b =>
    cases hrun
    exact .ret _
  | call o k ih =>
    rw [tryExec] at hrun
    rcases hanswer : h s o with - | ⟨r, s'⟩
    · rw [hanswer] at hrun
      cases hrun
    · rw [hanswer] at hrun
      obtain ⟨⟨t', b⟩, hrest, heq⟩ := Option.map_eq_some_iff.mp hrun
      cases heq
      exact .call r (ih r hrest)

/-! ### Every complete run -/

/-- Every complete run of the program, whatever the responses, satisfies `Q`. -/
def All : Prog Op Res α → (List (Event Op Res) → α → Prop) → Prop
  | .ret a, Q => Q [] a
  | .call o k, Q => ∀ r, (k r).All fun t a => Q (⟨o, r⟩ :: t) a

variable {p : Prog Op Res α} {Q Q' : List (Event Op Res) → α → Prop}

theorem all_iff : p.All Q ↔ ∀ t a, Runs p t a → Q t a := by
  induction p generalizing Q with
  | ret a =>
    constructor
    · rintro h _ _ ⟨⟩
      exact h
    · exact fun h => h [] a (.ret a)
  | call o k ih =>
    constructor
    · rintro h _ _ (_ | ⟨r, hr⟩)
      exact (ih r).mp (h r) _ _ hr
    · exact fun h r => (ih r).mpr fun t a ht => h _ a (.call r ht)

theorem all_mono (h : p.All Q) (hQ : ∀ t a, Q t a → Q' t a) : p.All Q' :=
  all_iff.mpr fun t a ht => hQ t a (all_iff.mp h t a ht)

theorem all_and (h : p.All Q) (h' : p.All Q') : p.All fun t a => Q t a ∧ Q' t a :=
  all_iff.mpr fun t a ht => ⟨all_iff.mp h t a ht, all_iff.mp h' t a ht⟩

theorem all_of_forall (h : ∀ t a, Q t a) : p.All Q :=
  all_iff.mpr fun t a _ => h t a

@[simp] theorem all_ret (a : α) : (Prog.ret a : Prog Op Res α).All Q ↔ Q [] a := Iff.rfl

@[simp] theorem all_pure (a : α) : (pure a : Prog Op Res α).All Q ↔ Q [] a := Iff.rfl

@[simp] theorem all_call (o : Op) (k : Res o → Prog Op Res α) :
    (Prog.call o k).All Q ↔ ∀ r, (k r).All fun t a => Q (⟨o, r⟩ :: t) a := Iff.rfl

@[simp] theorem all_op (o : Op) {Q : List (Event Op Res) → Res o → Prop} :
    (op o : Prog Op Res (Res o)).All Q ↔ ∀ r, Q [⟨o, r⟩] r := Iff.rfl

@[simp] theorem all_bind {f : α → Prog Op Res β} {Q : List (Event Op Res) → β → Prop} :
    (p >>= f).All Q ↔ p.All fun t a => (f a).All fun t' b => Q (t ++ t') b := by
  simp only [all_iff, runs_bind_iff]
  constructor
  · intro h t a ht t' b ht'
    exact h _ b ⟨t, t', a, rfl, ht, ht'⟩
  · rintro h _ b ⟨t, t', a, rfl, ht, ht'⟩
    exact h t a ht t' b ht'

theorem all_op_bind {o : Op} {f : Res o → Prog Op Res α} {Q : List (Event Op Res) → α → Prop} :
    (op o >>= f).All Q ↔ ∀ r, (f r).All fun t a => Q (⟨o, r⟩ :: t) a := Iff.rfl

theorem all_ite {c : Prop} [Decidable c] {p q : Prog Op Res α} :
    (if c then p else q).All Q ↔ (c → p.All Q) ∧ (¬ c → q.All Q) := by
  split <;> simp [*]

/-! ### Footprints -/

/-- The program performs only events in `K`, whatever the responses. -/
def Emits (K : Event Op Res → Prop) : Prog Op Res α → Prop
  | .ret _ => True
  | .call o k => ∀ r, K ⟨o, r⟩ ∧ (k r).Emits K

variable {K K' : Event Op Res → Prop}

theorem Emits.mono (h : p.Emits K) (hK : ∀ e, K e → K' e) : p.Emits K' := by
  induction p with
  | ret a => trivial
  | call o k ih => exact fun r => ⟨hK _ (h r).1, ih r (h r).2⟩

theorem Emits.and (h : p.Emits K) (h' : p.Emits K') : p.Emits fun e => K e ∧ K' e := by
  induction p with
  | ret a => trivial
  | call o k ih => exact fun r => ⟨⟨(h r).1, (h' r).1⟩, ih r (h r).2 (h' r).2⟩

theorem Emits.all (h : p.Emits K) : p.All fun t _ => ∀ e ∈ t, K e := by
  induction p with
  | ret a => simp
  | call o k ih =>
    intro r
    refine all_mono (ih r (h r).2) fun t a ht e he => ?_
    rcases List.mem_cons.mp he with rfl | he
    · exact (h r).1
    · exact ht e he

theorem Emits.runs {t a} (h : p.Emits K) (ht : p.Runs t a) : ∀ e ∈ t, K e :=
  all_iff.mp h.all t a ht

@[simp] theorem emits_ret (a : α) : (Prog.ret a : Prog Op Res α).Emits K := trivial

@[simp] theorem emits_pure (a : α) : (pure a : Prog Op Res α).Emits K := trivial

@[simp] theorem emits_op (o : Op) : (op o : Prog Op Res (Res o)).Emits K ↔ ∀ r, K ⟨o, r⟩ :=
  ⟨fun h r => (h r).1, fun h r => ⟨h r, trivial⟩⟩

theorem emits_bind {f : α → Prog Op Res β} (hp : p.Emits K) (hf : ∀ a, (f a).Emits K) :
    (p >>= f).Emits K := by
  induction p with
  | ret a => exact hf a
  | call o k ih => exact fun r => ⟨(hp r).1, ih r (hp r).2⟩

theorem emits_op_bind {o : Op} {f : Res o → Prog Op Res α} :
    (op o >>= f).Emits K ↔ ∀ r, K ⟨o, r⟩ ∧ (f r).Emits K := Iff.rfl

@[simp] theorem emits_map_iff {f : α → β} : (f <$> p).Emits K ↔ p.Emits K := by
  rw [map_eq_pure_bind]
  induction p with
  | ret a => exact Iff.rfl
  | call o k ih => exact forall_congr' fun r => and_congr_right fun _ => ih r

theorem emits_ite_iff {c : Prop} [Decidable c] {p q : Prog Op Res α} :
    (if c then p else q).Emits K ↔ (c → p.Emits K) ∧ (¬ c → q.Emits K) := by
  split <;> simp [*]

theorem emits_ite {c : Prop} [Decidable c] {p q : Prog Op Res α}
    (hp : c → p.Emits K) (hq : ¬ c → q.Emits K) : (if c then p else q).Emits K := by
  split
  · exact hp ‹_›
  · exact hq ‹_›

/-! ### Returning at once -/

/-- After an event in `K` the program returns at once, with a result in `R`. -/
def EndsAt (K : Event Op Res → Prop) (R : α → Prop) : Prog Op Res α → Prop
  | .ret _ => True
  | .call o k => ∀ r, (K ⟨o, r⟩ → ∃ a, k r = .ret a ∧ R a) ∧ (k r).EndsAt K R

section EndsAt

variable {R : α → Prop} {R' : β → Prop}

theorem endsAt_of_emits (h : p.Emits K') (hK : ∀ e, K' e → ¬ K e) : p.EndsAt K R := by
  induction p with
  | ret a => trivial
  | call o k ih => exact fun r => ⟨fun hr => absurd hr (hK _ (h r).1), ih r (h r).2⟩

/-- What follows may only pass on a result that ends the program. -/
theorem endsAt_bind {f : α → Prog Op Res β} (hp : p.EndsAt K R)
    (hpass : ∀ a, R a → ∃ b, f a = .ret b ∧ R' b) (hf : ∀ a, (f a).EndsAt K R') :
    (p >>= f).EndsAt K R' := by
  induction p with
  | ret a => exact hf a
  | call o k ih =>
    refine fun r => ⟨fun hr => ?_, ih r (hp r).2⟩
    obtain ⟨a, hk, ha⟩ := (hp r).1 hr
    obtain ⟨b, hb, hb'⟩ := hpass a ha
    refine ⟨b, ?_, hb'⟩
    show (k r >>= f) = _
    rw [hk]
    exact hb

/-- A partial run that ends with an event in `K` has a result left, and
nothing to do. -/
theorem EndsAt.steps {q : Prog Op Res α} {t : List (Event Op Res)} {e : Event Op Res}
    (hp : p.EndsAt K R) (h : p.Steps (t ++ [e]) q) (he : K e) : ∃ a, q = .ret a ∧ R a := by
  induction t generalizing p with
  | nil =>
    cases h with
    | @call o k _ q r hrest =>
      obtain ⟨a, hk, ha⟩ := (hp r).1 he
      rw [hk] at hrest
      cases hrest
      exact ⟨a, rfl, ha⟩
  | cons e' t ih =>
    cases h with
    | call r hrest => exact ih (hp r).2 hrest

end EndsAt

end Prog

end Interaction
