/-
DldDriver/Kernel/Pins.lean

A send that succeeds leaves the pins to the firmware: `perform_send` stores
to a GPIO register in the cleanup of a failed frame only, and then it returns
the error.
-/
import DldDriver.Kernel.Cleanup

namespace Dld

open Interaction

/-- Nothing is stored to a GPIO block. -/
def SparesPins (e : KEvent) : Prop := ∀ b o v, e.1 ≠ .writel v (.gpio b o)

theorem sparesPins_of_gpioless {e : KEvent} (h : gpioless.allows e) : SparesPins e := by
  obtain ⟨op, v⟩ := e
  rintro b o value ⟨⟩
  exact absurd h Bool.noConfusion

theorem sparesPins_of_releases {e : KEvent} (h : Releases e) : SparesPins e := by
  obtain ⟨op, v⟩ := e
  rintro b o value ⟨⟩
  exact h

theorem emits_tryBank (request : DldQuietSend) (policy : Bool) (bank : Bank) :
    (tryBank request policy bank).Emits gpioless.allows := by
  have hfinish (request : DldQuietSend) (changed : Option Word) (flags start : Word) (error : Int) :
      (finishBank request bank changed flags start error).Emits gpioless.allows :=
    emits_finishBank trivial (fun _ => rfl) (fun _ => rfl) (fun _ => rfl) rfl rfl _ _ _ _ _ _
  refine Prog.emits_bind ((Prog.emits_op _).mpr fun _ => trivial) fun _ => Prog.emits_bind ?_ fun _ =>
    Prog.emits_bind ((Prog.emits_op _).mpr fun _ => trivial) fun _ => Prog.emits_pure _
  refine Prog.emits_bind (emits_maskCpu trivial) fun flags => ?_
  refine Prog.emits_bind ((Prog.emits_op KOp.ccnt).mpr fun _ => trivial) fun start => ?_
  refine Prog.emits_bind (emits_admitBank (fun _ => rfl) (fun _ _ => rfl) (fun _ => rfl)
    (fun _ => rfl) _ _ _) fun attempt => ?_
  refine Prog.emits_ite (fun _ => hfinish _ _ _ _ _) fun _ => ?_
  exact Prog.emits_bind (emits_grantBank rfl rfl _ _) fun _ => hfinish _ _ _ _ _

theorem emits_sendBanks (request : DldQuietSend) (policy : Bool) (banks : List Bank) :
    (sendBanks request policy banks).Emits gpioless.allows := by
  have hwait (request : DldQuietSend) (ordinal : Word) (final : Bool) :
      (waitGate request ordinal final).Emits gpioless.allows :=
    emits_waitGate trivial (fun _ => rfl) (fun _ => rfl) trivial _ _ _
  have hbank (request : DldQuietSend) (bank : Bank) :
      (runBank request policy bank).Emits gpioless.allows := by
    refine Prog.emits_bind ((Prog.emits_op _).mpr fun _ => trivial) fun _ => Prog.emits_bind ?_ fun _ =>
      Prog.emits_bind ((Prog.emits_op _).mpr fun _ => trivial) fun _ => Prog.emits_pure _
    refine emits_dldAdmissionWait (fun request => ?_) _ _
    exact Prog.emits_bind (emits_tryBank request policy bank) fun _ => Prog.emits_pure _
  induction banks generalizing request with
  | nil =>
    refine Prog.emits_bind (hwait _ _ _) fun error => ?_
    exact Prog.emits_ite (fun _ => Prog.emits_pure _) fun _ => Prog.emits_pure _
  | cons bank rest ih =>
    refine Prog.emits_ite (fun _ => ih _) fun _ => ?_
    refine Prog.emits_bind (hwait _ _ _) fun error => Prog.emits_ite (fun _ => Prog.emits_pure _) fun _ => ?_
    refine Prog.emits_bind (hbank _ _) fun ⟨request, error⟩ =>
      Prog.emits_ite (fun _ => Prog.emits_pure _) fun _ => ?_
    exact Prog.emits_bind ((Prog.emits_op KOp.condResched).mpr fun _ => trivial) fun _ => ih _

/-- After `p`, which touches no GPIO block, the rest decides. -/
theorem spares_bind {α β : Type} {p : KProg α} {f : α → KProg β} {R : β → Prop}
    (hp : p.Emits SparesPins) (hf : ∀ a, (f a).All fun t b => R b → ∀ e ∈ t, SparesPins e) :
    (p >>= f).All fun t b => R b → ∀ e ∈ t, SparesPins e := by
  refine Prog.all_bind.mpr (Prog.all_mono hp.all fun t a ht => Prog.all_mono (hf a) fun t' b ht' hb e he => ?_)
  rcases List.mem_append.mp he with he | he
  · exact ht e he
  · exact ht' hb e he

theorem gpioless_bind {α β : Type} {p : KProg α} {f : α → KProg β} {R : β → Prop}
    (hp : p.Emits gpioless.allows) (hf : ∀ a, (f a).All fun t b => R b → ∀ e ∈ t, SparesPins e) :
    (p >>= f).All fun t b => R b → ∀ e ∈ t, SparesPins e :=
  spares_bind (hp.mono fun _ => sparesPins_of_gpioless) hf

theorem spares_pure {β : Type} {R : β → Prop} (b : β) :
    (pure b : KProg β).All fun t b => R b → ∀ e ∈ t, SparesPins e :=
  (Prog.all_pure b).mpr fun _ => nofun

/-- Only a failed frame is cleaned up. -/
theorem submittedDone_spares (request : DldQuietSend) (error : Int) :
    (submittedDone request error).All fun t a => a.2 = 0 → ∀ e ∈ t, SparesPins e := by
  have hrest (flags : Word) (request : DldQuietSend) (error : Int) :
      (unmaskCpu flags >>= fun _ => if error ≠ 0 then failedFrameCleanup request >>=
        fun request => pure (request, error) else pure (request, error)).All
        fun t a => a.2 = 0 → ∀ e ∈ t, SparesPins e := by
    refine gpioless_bind (emits_unmaskCpu trivial flags) fun _ => Prog.all_ite.mpr ⟨fun hne => ?_, fun _ => ?_⟩
    · refine Prog.all_bind.mpr (Prog.all_of_forall fun t request => (Prog.all_pure _).mpr fun hzero => ?_)
      exact absurd hzero hne
    · exact spares_pure _
  refine gpioless_bind (emits_maskCpu trivial) fun flags => ?_
  refine gpioless_bind (emits_mailboxFunctional fun _ => rfl) fun functional =>
    Prog.all_ite.mpr ⟨fun _ => ?_, fun _ => hrest _ _ _⟩
  exact gpioless_bind (emits_snapshot (fun _ => rfl) _) fun _ => hrest _ _ _

theorem sendFrame_spares (request : DldQuietSend) (policy : Bool) :
    (sendFrame request policy).All fun t a => a.2 = 0 → ∀ e ∈ t, SparesPins e := by
  refine gpioless_bind (emits_maskCpu trivial) fun flags => ?_
  refine gpioless_bind (emits_mailboxFunctional fun _ => rfl) fun functional =>
    Prog.all_ite.mpr ⟨fun _ => ?_, fun _ => ?_⟩
  · exact gpioless_bind (emits_unmaskCpu trivial flags) fun _ => spares_pure _
  · refine gpioless_bind ?_ fun _ => gpioless_bind (emits_unmaskCpu trivial flags) fun _ => ?_
    · exact fun _ => ⟨rfl, fun _ => ⟨rfl, fun _ => ⟨trivial, fun _ => ⟨rfl, fun _ => ⟨trivial, trivial⟩⟩⟩⟩⟩
    · exact gpioless_bind (emits_sendBanks _ _ _) fun ⟨request, error⟩ => submittedDone_spares request error

/-- **Successful sends spare the pins.** -/
theorem performSend_spares (request : DldQuietSend) :
    (performSend request).All fun t a => a.2 = 0 → ∀ e ∈ t, SparesPins e := by
  have hlock : (kop .mutexTrylock).Emits SparesPins := (Prog.emits_op _).mpr fun _ => nofun
  have honline : (kop .getOnlineCpus).Emits SparesPins := (Prog.emits_op _).mpr fun _ => nofun
  have hdone (request : DldQuietSend) (held : Held) (error : Int) :
      (sendDone request held >>= fun _ => pure (request, error)).All
        fun t a => a.2 = error ∧ ∀ e ∈ t, SparesPins e := by
    refine Prog.all_bind.mpr (Prog.all_mono (emits_sendDone request held).all fun t _ ht => ?_)
    refine (Prog.all_pure _).mpr ⟨rfl, fun e he => sparesPins_of_releases (ht e ?_)⟩
    exact List.append_nil t ▸ he
  refine spares_bind hlock fun locked => Prog.all_ite.mpr ⟨fun _ => spares_pure _, fun _ => ?_⟩
  refine spares_bind honline fun _ => ?_
  refine gpioless_bind (emits_preflight trivial (fun _ => rfl) (fun _ => rfl) (fun _ _ => rfl) _) ?_
  rintro ⟨request, held, error⟩
  refine Prog.all_ite.mpr ⟨fun _ => ?_, fun _ => Prog.all_bind.mpr ?_⟩
  · exact Prog.all_mono (hdone request held error) fun t a ht _ => ht.2
  · refine Prog.all_mono (sendFrame_spares request held.policy) ?_
    rintro t ⟨request, error⟩ ht
    refine Prog.all_mono (hdone request held error) fun t' a ht' hzero e he => ?_
    rcases List.mem_append.mp he with he | he
    · exact ht (ht'.1.symm.trans hzero) e he
    · exact ht'.2 e he

end Dld
