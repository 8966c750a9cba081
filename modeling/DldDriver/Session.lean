/-
DldDriver/Session.lean

What the retained command block says about the session, independently of
who reads it.

* `Configured m`: an initialization wrote a supported configuration
* `Idle m`: no request is outstanding, and the handshake words are those of
  a fresh initialization or of a completed frame
* `Outstanding m`: a request is in flight

`dld_check_mailbox` and `validate` test about twenty words each, in
different orders and with different redundant tests.  Both are shown equal
to these predicates (`dldCheckMailbox_ok_iff`, `validate_zero_iff`), and so
they agree with each other.
-/
import DldDriver.Kernel.Main
import DldDriver.Userspace.Common

namespace Dld

open Interaction

/-! ### The state of a session -/

/-- The first nine words hold a supported configuration. -/
structure Configured (m : DldCommand) : Prop where
  magic : m .magic = commandMagic
  abi : m .abiVersion = abiVersion
  profile : profileWs2812b ≤ m .profileId ∧ m .profileId ≤ profileWs2811HsBgr
  lengths : ∀ i, m (.lengths i) ≤ maxLength

/-- The lengths of the configuration. -/
abbrev DldCommand.stringLengths (m : DldCommand) : Fin 6 → Word := fun i => m (.lengths i)

/-- No request is outstanding. -/
structure Idle (m : DldCommand) : Prop where
  noError : m .errorDetail = 0
  status : m .status = statusReady ∨ m .status = statusDone
  completed : m .completionSeq = m .requestSeq
  accepted : m .acceptedSeq = m .requestSeq
  ready : m .bankReady = 0
  fresh : m .status = statusReady → m .requestSeq = 0 ∧ m .bankGrant = 0 ∧ m .bankDone = 0
  done : m .status = statusDone →
    m .bankGrant = lastOrdinal m.stringLengths ∧ m .bankDone = lastOrdinal m.stringLengths

/-- A request has been published and not completed. -/
def Outstanding (m : DldCommand) : Prop :=
  m .status = statusRunning ∨ m .status = statusWaitBank ∨ m .requestSeq ≠ m .completionSeq

instance (m : DldCommand) : Decidable (Outstanding m) :=
  inferInstanceAs (Decidable (_ ∨ _))

/-! ### The last bank -/

/-- Userspace and kernel derive the same last bank. -/
theorem lastOfBankInfo_eq (config : DldConfig) :
    lastOfBankInfo config = lastOrdinal config.stringLengths := by
  rfl

theorem lastBank_eq (request : DldQuietSend) :
    lastBank request = lastOrdinal request.stringLengths := by
  simp only [lastBank, lastOrdinal, bankLength_eq]

theorem lastOrdinal_le (l : Fin 6 → Word) : lastOrdinal l ≤ Bank.gpio0.ordinal := by
  simp only [lastOrdinal, Bank.pass, List.foldl_cons, List.foldl_nil]
  split_ifs <;> decide

/-! ### dld_check_mailbox -/

theorem dldProfileName_isSome_iff (profileId : Word) :
    dldProfileName profileId ≠ none ↔
      profileWs2812b ≤ profileId ∧ profileId ≤ profileWs2811HsBgr := by
  unfold dldProfileName
  split_ifs <;> simp only [ne_eq, reduceCtorEq, not_false_eq_true, not_true_eq_false,
    true_iff, false_iff] <;> bv_omega

/-- The tests of the configuration, in the order of both checks. -/
theorem configured_iff (m : DldCommand) :
    Configured m ↔ ¬ (m .magic ≠ commandMagic ∨ m .abiVersion ≠ abiVersion ∨
      dldProfileName (m .profileId) = none) ∧ ¬ ∃ i, m (.lengths i) > maxLength := by
  have hname := dldProfileName_isSome_iff (m .profileId)
  simp only [not_or, not_not, not_exists, gt_iff_lt, BitVec.not_lt]
  constructor
  · intro h
    exact ⟨⟨h.magic, h.abi, hname.mpr h.profile⟩, h.lengths⟩
  · rintro ⟨⟨hmagic, habi, hprofile⟩, hlengths⟩
    exact ⟨hmagic, habi, hname.mp hprofile, hlengths⟩

section CheckMailbox

variable (m : DldCommand) (config : DldConfig) (error : String) (cap : Nat)

theorem dldCheckMailbox_ok_iff :
    (dldCheckMailbox m config error cap).1 = .ok ↔ Configured m ∧ Idle m := by
  rw [configured_iff]
  constructor
  · intro h
    rw [dldCheckMailbox, lastOfBankInfo_eq] at h
    split_ifs at h with hconf hlen herr hstat hbusy hhand hready hfresh hlast
    all_goals
      refine ⟨⟨hconf, hlen⟩, ?_⟩
      simp only [not_or, not_not] at herr hbusy hhand
      obtain ⟨hrunning, hwaiting, hseq⟩ := hbusy
      obtain ⟨hbank, -, -, hacc⟩ := hhand
    · simp only [not_or, not_not] at hfresh
      exact ⟨herr.1, .inl hready, hseq.symm, hacc.trans hseq.symm, hbank,
        fun _ => ⟨hfresh.1, hfresh.2.2, hfresh.2.1⟩,
        fun hdone => absurd (hready.symm.trans hdone) (by decide)⟩
    · simp only [not_or, not_not] at hlast
      have hdone : m .status = statusDone := by tauto
      exact ⟨herr.1, .inr hdone, hseq.symm, hacc.trans hseq.symm, hbank,
        fun hready' => absurd hready' hready, fun _ => ⟨hlast.2, hlast.1⟩⟩
  · rintro ⟨⟨hconf, hlen⟩, hi⟩
    have hle : ¬ Bank.gpio0.ordinal < lastOrdinal m.stringLengths :=
      BitVec.not_lt.mpr (lastOrdinal_le m.stringLengths)
    rw [dldCheckMailbox, lastOfBankInfo_eq, if_neg hconf, if_neg hlen]
    rcases hi.status with hstatus | hstatus
    · obtain ⟨hreq, hgrant, hdone⟩ := hi.fresh hstatus
      simp [hstatus, hi.noError, hi.completed, hi.accepted, hi.ready, hreq, hgrant, hdone]
    · obtain ⟨hgrant, hdone⟩ := hi.done hstatus
      simp [hstatus, hi.noError, hi.completed, hi.accepted, hi.ready, hgrant, hdone, hle, configOf]

theorem dldCheckMailbox_busy_iff :
    (dldCheckMailbox m config error cap).1 = .busy ↔
      Configured m ∧ m .errorDetail = 0 ∧ (m .status = statusReady ∨ m .status = statusDone ∨
        m .status = statusRunning ∨ m .status = statusWaitBank) ∧ Outstanding m := by
  rw [configured_iff]
  constructor
  · intro h
    rw [dldCheckMailbox] at h
    split_ifs at h with hconf hlen herr hstat hbusy
    exact ⟨⟨hconf, hlen⟩, by tauto, by tauto, hbusy⟩
  · rintro ⟨⟨hconf, hlen⟩, herr, hstat, hbusy⟩
    have hstat' : m .status ≠ statusError := by
      rcases hstat with h | h | h | h <;> rw [h] <;> decide
    rw [dldCheckMailbox, if_neg hconf, if_neg hlen, if_neg (by tauto), if_neg (by tauto)]
    exact congrArg Prod.fst (if_pos hbusy)

/-- `*config` is written only with the result `DLD_OK`. -/
theorem dldCheckMailbox_config (h : (dldCheckMailbox m config error cap).1 ≠ .ok) :
    (dldCheckMailbox m config error cap).2.1 = config := by
  rw [dldCheckMailbox] at h ⊢
  split_ifs at h ⊢ <;> first | rfl | exact absurd rfl h

/-- With the result `DLD_OK` it is the configuration of the snapshot. -/
theorem dldCheckMailbox_configOf (h : (dldCheckMailbox m config error cap).1 = .ok) :
    (dldCheckMailbox m config error cap).2.1 = configOf m := by
  rw [dldCheckMailbox] at h ⊢
  split_ifs at h ⊢ <;> rfl

end CheckMailbox

/-! ### validate -/

/-- `request` asks for a frame of the session in `m`, from its sequence. -/
structure RequestFor (request : DldQuietSend) (m : DldCommand) : Prop where
  api : request.apiVersion = quietApiVersion
  rgb : request.rgb ≤ 0xffffff
  reserved : request.reserved 0 = 0 ∧ request.reserved 1 = 0
  profile : request.profileId = m .profileId
  lengths : ∀ i, request.stringLengths i = m (.lengths i)

/-- `request` with the fields `snapshot` fills in. -/
def DldQuietSend.observe (request : DldQuietSend) (m : DldCommand) : DldQuietSend :=
  { request with
    requestSeq := m .requestSeq
    completionSeq := m .completionSeq
    status := m .status
    errorDetail := m .errorDetail
    acceptedSeq := m .acceptedSeq
    bankReady := m .bankReady
    bankGrant := m .bankGrant
    bankDone := m .bankDone }

section Validate

variable (request : DldQuietSend) (m : DldCommand)

@[simp] theorem exec_readl_mailbox (off : Off) :
    ((readl (.mailbox off)).exec (holding m)).2 = m off := rfl

theorem exec_snapshot : ((snapshot request).exec (holding m)).2 = request.observe m := by
  simp [snapshot, DldQuietSend.observe]

theorem exec_lengthsMatch (is : List (Fin 6)) :
    ((lengthsMatch request is).exec (holding m)).2 = true ↔
      ∀ i ∈ is, m (.lengths i) = request.stringLengths i := by
  induction is with
  | nil => simp [lengthsMatch]
  | cons i rest ih =>
    rw [lengthsMatch, Prog.exec_bind, exec_readl_mailbox]
    by_cases h : m (.lengths i) = request.stringLengths i
    · rw [if_neg (not_not.mpr h), ih, List.forall_mem_cons]
      simp [h]
    · rw [if_pos h, List.forall_mem_cons]
      simp [h]

/-- The tests of `validate` on a mailbox that does not change. -/
theorem exec_validate :
    ((validate request).exec (holding m)).2.2 =
      if request.apiVersion ≠ quietApiVersion ∨ request.rgb > 0xffffff ∨
          request.reserved 0 ≠ 0 ∨ request.reserved 1 ≠ 0 ∨
          request.profileId < profileWs2812b ∨ request.profileId > profileWs2811HsBgr then -eInval
      else if ∃ i, request.stringLengths i > maxLength then -eInval
      else if m .magic ≠ commandMagic then -eProto
      else if m .abiVersion ≠ abiVersion then -eProto
      else if m .profileId ≠ request.profileId then -eProto
      else if ∀ i, m (.lengths i) = request.stringLengths i then
        validateSnapshot (request.observe m)
      else -eProto := by
  have hlengths := exec_lengthsMatch request m (List.finRange 6)
  simp only [List.mem_finRange, forall_const] at hlengths
  unfold validate
  split_ifs with h₁ h₂ h₃ h₄ h₅ h₆
  · rfl
  · rfl
  · rw [Prog.exec_bind_snd, exec_readl_mailbox, if_pos h₃, Prog.exec_pure]
  · rw [Prog.exec_bind_snd, exec_readl_mailbox, if_neg h₃, Prog.exec_bind_snd,
      exec_readl_mailbox, if_pos h₄, Prog.exec_pure]
  all_goals
    rw [Prog.exec_bind_snd, exec_readl_mailbox, if_neg h₃, Prog.exec_bind_snd,
      exec_readl_mailbox, if_neg h₄, Prog.exec_bind_snd, exec_readl_mailbox]
  · rw [if_pos h₅, Prog.exec_pure]
  · have hsame := hlengths.mpr h₆
    rw [if_neg h₅, Prog.exec_bind_snd, hsame, if_neg (by decide), Prog.exec_bind_snd,
      exec_snapshot, Prog.exec_pure]
  · have hdiffer := Bool.eq_false_iff.mpr (mt hlengths.mp h₆)
    rw [if_neg h₅, Prog.exec_bind_snd, if_pos hdiffer, Prog.exec_pure]

/-- The first tests of `validate`: it comes to the snapshot exactly when the
request is well formed and agrees with the configuration in the mailbox. -/
theorem exec_validate_of_requestFor (h : RequestFor request m) (hc : Configured m) :
    ((validate request).exec (holding m)).2.2 = validateSnapshot (request.observe m) := by
  have hprofile := hc.profile
  rw [exec_validate, if_neg, if_neg, if_neg (not_not.mpr hc.magic), if_neg (not_not.mpr hc.abi),
    if_neg (not_not.mpr h.profile.symm), if_pos fun i => (h.lengths i).symm]
  · rintro ⟨i, hi⟩
    rw [h.lengths i] at hi
    exact absurd hi (BitVec.not_lt.mpr (hc.lengths i))
  · rw [h.api, h.reserved.1, h.reserved.2, h.profile]
    have hrgb := h.rgb
    simp only [ne_eq, not_true_eq_false, false_or, not_or, BitVec.not_lt, gt_iff_lt]
    exact ⟨hrgb, hprofile⟩

theorem requestFor_of_exec_validate
    (h : ((validate request).exec (holding m)).2.2 ≠ -eInval)
    (h' : ((validate request).exec (holding m)).2.2 ≠ -eProto) :
    RequestFor request m ∧ Configured m := by
  rw [exec_validate] at h h'
  split_ifs at h h' with h₁ h₂ h₃ h₄ h₅ h₆ <;> try contradiction
  simp only [not_or, not_not, not_exists, gt_iff_lt, BitVec.not_lt] at h₁ h₂ h₃ h₄ h₅
  obtain ⟨hapi, hrgb, hres, hres', hlow, hhigh⟩ := h₁
  exact ⟨⟨hapi, hrgb, ⟨hres, hres'⟩, h₅.symm, fun i => (h₆ i).symm⟩,
    ⟨h₃, h₄, h₅ ▸ ⟨hlow, hhigh⟩, fun i => h₆ i ▸ h₂ i⟩⟩

/-- The tests of the snapshot, for a request that fits the configuration. -/
theorem validateSnapshot_observe_zero_iff (h : RequestFor request m) :
    validateSnapshot (request.observe m) = 0 ↔ request.previousSeq = m .requestSeq ∧ Idle m := by
  have hlast : lastBank (request.observe m) = lastOrdinal m.stringLengths := by
    rw [lastBank_eq]
    exact congrArg lastOrdinal (funext h.lengths)
  rw [validateSnapshot, hlast]
  constructor
  · intro h
    split_ifs at h with herr hbusy hstat hready hfresh hzero hlast <;> try contradiction
    all_goals
      simp only [DldQuietSend.observe, not_or, not_and, not_not] at *
      obtain ⟨hrunning, hwaiting, hseq⟩ := hbusy
    · exact ⟨hstat.2.symm, herr.1, .inl hfresh, hseq.symm, hzero.2.1.trans hzero.1.symm, hready,
        fun _ => ⟨hzero.1, hzero.2.2.1, hzero.2.2.2⟩,
        fun hdone => absurd (hfresh.symm.trans hdone) (by decide)⟩
    · have hdone := hstat.1 hfresh
      exact ⟨hstat.2.symm, herr.1, .inr hdone, hseq.symm, hlast.1, hready,
        fun hfresh' => absurd hfresh' hfresh, fun _ => hlast.2⟩
  · rintro ⟨hprevious, hi⟩
    simp only [DldQuietSend.observe, hprevious, hi.noError, hi.completed, hi.accepted, hi.ready]
    rcases hi.status with hstatus | hstatus
    · obtain ⟨hreq, hgrant, hdone⟩ := hi.fresh hstatus
      simp [hstatus, hreq, hgrant, hdone]
    · obtain ⟨hgrant, hdone⟩ := hi.done hstatus
      simp [hstatus, hgrant, hdone]

theorem validateSnapshot_observe_busy_iff :
    validateSnapshot (request.observe m) = -eBusy ↔
      m .errorDetail = 0 ∧ m .status ≠ statusError ∧ Outstanding m := by
  rw [validateSnapshot]
  constructor
  · intro h
    split_ifs at h with herr hbusy hstat hready hfresh hzero hlast <;> try contradiction
    simp only [DldQuietSend.observe, not_or, not_not] at herr hbusy
    exact ⟨herr.1, herr.2, hbusy⟩
  · rintro ⟨herr, hstat, hbusy⟩
    have herr' : ¬ ((request.observe m).errorDetail ≠ 0 ∨
        (request.observe m).status = statusError) := not_or.mpr ⟨not_not.mpr herr, hstat⟩
    rw [if_neg herr']
    exact if_pos hbusy

/-- `validate` accepts exactly an idle session and a request for it. -/
theorem validate_zero_iff :
    ((validate request).exec (holding m)).2.2 = 0 ↔
      RequestFor request m ∧ Configured m ∧ request.previousSeq = m .requestSeq ∧ Idle m := by
  constructor
  · intro h
    obtain ⟨hr, hc⟩ := requestFor_of_exec_validate request m (by rw [h]; decide) (by rw [h]; decide)
    rw [exec_validate_of_requestFor request m hr hc] at h
    exact ⟨hr, hc, (validateSnapshot_observe_zero_iff request m hr).mp h⟩
  · rintro ⟨hr, hc, h⟩
    rw [exec_validate_of_requestFor request m hr hc]
    exact (validateSnapshot_observe_zero_iff request m hr).mpr h

theorem validate_busy_iff :
    ((validate request).exec (holding m)).2.2 = -eBusy ↔
      RequestFor request m ∧ Configured m ∧ m .errorDetail = 0 ∧ m .status ≠ statusError ∧
        Outstanding m := by
  constructor
  · intro h
    obtain ⟨hr, hc⟩ := requestFor_of_exec_validate request m (by rw [h]; decide) (by rw [h]; decide)
    rw [exec_validate_of_requestFor request m hr hc] at h
    exact ⟨hr, hc, (validateSnapshot_observe_busy_iff request m).mp h⟩
  · rintro ⟨hr, hc, h⟩
    rw [exec_validate_of_requestFor request m hr hc]
    exact (validateSnapshot_observe_busy_iff request m).mpr h

end Validate

/-! ### Agreement -/

/-- The request `dld_sender_send` builds from a checked configuration. -/
def buildRequest (config : DldConfig) (rgb previousSeq : Word) : DldQuietSend :=
  { (default : DldQuietSend) with
    apiVersion := quietApiVersion
    rgb := rgb
    profileId := config.profileId
    previousSeq := previousSeq
    stringLengths := config.stringLengths }

theorem requestFor_buildRequest (m : DldCommand) {rgb : Word} (hrgb : rgb ≤ 0xffffff) (seq : Word) :
    RequestFor (buildRequest (configOf m) rgb seq) m :=
  ⟨rfl, hrgb, ⟨rfl, rfl⟩, rfl, fun _ => rfl⟩

/-- **Userspace and kernel agree on readiness**, for every content of the
mailbox: the one accepts exactly when the other does, they call the same
sessions busy, the configuration is written on success only, and both
derive the same last bank. -/
theorem checkMailbox_agrees_with_validate (m : DldCommand) (config : DldConfig) (error : String)
    (cap : Nat) (rgb : Word) (hrgb : rgb ≤ 0xffffff) :
    let user := dldCheckMailbox m config error cap
    let kernel := ((validate (buildRequest (configOf m) rgb (m .requestSeq))).exec (holding m)).2.2
    (user.1 = .ok ↔ kernel = 0) ∧
      (m .status = statusReady ∨ m .status = statusDone ∨ m .status = statusRunning ∨
        m .status = statusWaitBank → (user.1 = .busy ↔ kernel = -eBusy)) ∧
      (user.1 ≠ .ok → user.2.1 = config) ∧
      ∀ config' request', request'.stringLengths = config'.stringLengths →
        lastOfBankInfo config' = lastBank request' := by
  intro user kernel
  have hr := requestFor_buildRequest m hrgb (m .requestSeq)
  refine ⟨?_, ?_, dldCheckMailbox_config m config error cap, ?_⟩
  · rw [dldCheckMailbox_ok_iff, validate_zero_iff]
    constructor
    · rintro ⟨hc, hi⟩
      exact ⟨hr, hc, rfl, hi⟩
    · rintro ⟨-, hc, -, hi⟩
      exact ⟨hc, hi⟩
  · intro hstatus
    have hne : m .status ≠ statusError := by
      rcases hstatus with h | h | h | h <;> rw [h] <;> decide
    rw [dldCheckMailbox_busy_iff, validate_busy_iff]
    constructor
    · rintro ⟨hc, herr, -, hbusy⟩
      exact ⟨hr, hc, herr, hne, hbusy⟩
    · rintro ⟨-, hc, herr, -, hbusy⟩
      exact ⟨hc, herr, hstatus, hbusy⟩
  · intro config' request' h
    rw [lastOfBankInfo_eq, lastBank_eq, h]

/-- A completed frame whose sequence has wrapped: both accept it. -/
theorem checkMailbox_agrees_with_validate_wrapped :
    let m : DldCommand := fun
      | .magic => commandMagic
      | .abiVersion => abiVersion
      | .profileId => profileWs2812b
      | .lengths 1 => 3
      | .status => statusDone
      | .bankGrant => 1
      | .bankDone => 1
      | _ => 0
    (dldCheckMailbox m default "" 0).1 = .ok ∧
      ((validate (buildRequest (configOf m) 0x123456 (m .requestSeq))).exec (holding m)).2.2 = 0 := by
  intro m
  obtain ⟨hok, -⟩ := checkMailbox_agrees_with_validate m default "" 0 0x123456 (by decide)
  have huser : (dldCheckMailbox m default "" 0).1 = .ok := by decide
  exact ⟨huser, hok.mp huser⟩

end Dld
