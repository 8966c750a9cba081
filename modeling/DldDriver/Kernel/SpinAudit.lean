/-
DldDriver/Kernel/SpinAudit.lean

`kernel/audit_quiet.py`: the audit of the assembled grant-and-spin routine,
and its test of itself.

A listing is what `parse` has found in the output of `objdump`: labels,
words and halfwords by address, and relocations.  The audit compares every
word of the routine, so that one change in it cannot pass.
-/
import Mathlib.Logic.Function.Basic
import DldDriver.Abi

namespace Dld

/-- The dictionaries and lists that `parse` returns. -/
structure Listing where
  labels : String → Option Nat
  words : Nat → Option Word
  relocations : List Nat
  halfwords : Nat → Option (BitVec 16)
  relocationTypes : List (String × String)

abbrev Audit := Except String

/-- `require` -/
def require (condition : Bool) (message : String) : Audit Unit :=
  if condition then pure () else throw message

/-- `"%x" % n` -/
def hexDigits (n : Nat) : String := String.ofList (Nat.toDigits 16 n)

/-- `"%08x" % n` -/
def hex08 (w : Word) : String :=
  let digits := Nat.toDigits 16 w.toNat
  String.ofList (List.replicate (8 - digits.length) '0' ++ digits)

/-- `branch_word` -/
def branchWord (address target : Nat) (condition : Nat) : Audit Word := do
  let displacement : Int := target - address - 8
  require (displacement % 4 = 0) "unaligned branch target"
  return (BitVec.ofNat 32 condition <<< 28) ||| 0x0a000000 |||
    (BitVec.ofInt 32 (displacement / 4) &&& 0xffffff)

/-- `labels["dld_quiet_" + name]`, behind the test that it is there. -/
def Listing.label (l : Listing) (name : String) : Nat :=
  (l.labels ("dld_quiet_" ++ name)).getD 0

def auditNames : List String :=
  ["bank_entry", "bank", "grant_begin", "timer_start", "loop_begin", "loop_end", "observe"]

/-- `expected_entry` -/
def expectedEntry (entry grant : Nat) : Audit (List Word) := do
  let start ← branchWord (entry + 28) (grant + 12) 14
  return [0xe92d41f0, 0xe1a06000, 0xe1a07002, 0xe1a08003, 0xe3a00000, 0xe3a02010, 0xe3a03040,
    start] ++ List.replicate 8 0xe320f000

/-- `expected_grant` -/
def expectedGrant (grant : Nat) : Audit (List Word) := do
  let reached ← branchWord (grant + 28) (grant + 44) 2
  let again ← branchWord (grant + 36) (grant + 16) 1
  let observe ← branchWord (grant + 48) (grant + 76) 1
  let failed ← branchWord (grant + 56) (grant + 92) 1
  let publish ← branchWord (grant + 72) grant 14
  return [0xf57ff04f, 0xe586103c, 0xf57ff04f, 0xee194f1d,
    0xee195f1d, 0xe0455004, 0xe1550002, reached,
    0xe2533001, again, 0xe3855102,
    0xe3500000, observe, 0xe3150102, failed, 0xe3a00001,
    0xe1a02007, 0xe1a03008, publish,
    0xf57ff05f, 0xe5960040, 0xe1a01005, 0xe8bd81f0,
    0xe3a00000, 0xe3851101, 0xe8bd81f0]

/-- The words from `base` on are the expected ones. -/
def checkWords (l : Listing) (base : Nat) : Nat → List Word → Audit Unit
  | _, [] => pure ()
  | index, word :: rest => do
    let address := base + index * 4
    require (l.words address = some word)
      ("unexpected ARM instruction at 0x" ++ hexDigits address ++ ": expected " ++ hex08 word ++ ", got " ++
        ((l.words address).map hex08).getD "missing")
    checkWords l base (index + 1) rest

/-- `require` for each name of a list. -/
def checkLabels (l : Listing) : List String → Audit Unit
  | [] => pure ()
  | name :: rest => do
    require (l.labels ("dld_quiet_" ++ name)).isSome ("missing symbol dld_quiet_" ++ name)
    checkLabels l rest

def checkPositions (l : Listing) (grant : Nat) : List (String × Nat) → Audit Unit
  | [] => pure ()
  | (name, offset) :: rest => do
    require (l.label name = grant + offset) ("unexpected " ++ name ++ " position")
    checkPositions l grant rest

/-- The report of a listing that passes. -/
structure AuditReport where
  status : String := "pass"
  grantAddress : Nat
  cacheLineBytes : Nat := 64
  timingLoopInstructions : Nat := 7
  quietLoopDataAccesses : Nat := 0
  grantStores : Nat := 1
  completionLoads : Nat := 1
  pmuRegister : String := "CP15 c9,c13,0"
  independentIterationGuard : Bool := true
  sameLoopWarmup : Bool := true
  quietRegionRelocations : Nat := 0
  thumb2KernelEntry : Bool := true
  armCallRelocations : Nat := 0

def auditPositions : List (String × Nat) :=
  [("timer_start", 12), ("loop_begin", 16), ("loop_end", 44), ("observe", 76)]

/-- `audit` -/
def audit (l : Listing) : Audit AuditReport := do
  require (!l.relocationTypes.any fun (kind, _) => kind ∈ ["CALL", "JUMP24", "PC24"])
    "ARM call relocation is incompatible with the Thumb2 kernel loader"
  require (("THM_CALL", "dld_quiet_bank_entry") ∈ l.relocationTypes)
    "C must call the Thumb entry veneer using THM_CALL"
  checkLabels l auditNames
  let entry := l.label "bank"
  let veneer := l.label "bank_entry"
  let grant := l.label "grant_begin"
  require (veneer % 64 = 0 && entry = veneer + 64) "unexpected Thumb veneer layout"
  require (l.halfwords veneer = some 0x4778 && l.halfwords (veneer + 2) = some 0xbf00)
    "Thumb veneer must be BX PC followed by NOP"
  let toBody ← branchWord (veneer + 4) entry 14
  require (l.words (veneer + 4) = some toBody) "veneer must branch locally to ARM body"
  require (grant % 64 = 0) "grant cache line is not 64-byte aligned"
  require (grant = entry + 64) "unexpected warmup layout"
  checkPositions l grant auditPositions
  require (!l.relocations.any fun x => veneer ≤ x && x ≤ grant + 100)
    "loop/warmup has an unresolved relocation"
  let inEntry ← expectedEntry entry grant
  let inGrant ← expectedGrant grant
  checkWords l entry 0 inEntry
  checkWords l grant 0 inGrant
  return { grantAddress := grant }

/-- `altered[1][address] = word` -/
def Listing.setWord (l : Listing) (address : Nat) (word : Word) : Listing :=
  { l with words := Function.update l.words address (some word) }

/-- A mutation is rejected. -/
def rejects (l : Listing) : Nat :=
  match audit l with
  | .ok _ => 0
  | .error _ => 1

/-- `self_test` -/
def selfTest (l : Listing) : Audit Nat := do
  let _ ← audit l
  let grant := l.label "grant_begin"
  let entry := l.label "bank"
  let itself ← branchWord (grant + 36) (grant + 36) 1
  let mutations : List (Nat × Word) :=
    [(grant + 16, 0xe5960040), (grant + 32, 0xe320f000),
      (grant + 4, 0xe5861040), (grant + 80, 0xe596003c),
      (grant + 16, 0xee195f3d), (entry + 28, 0xe320f000),
      (grant + 36, itself), (grant + 20, 0xe92d4000)]
  let rejected := (mutations.map fun (address, word) => rejects (l.setWord address word)).sum +
    rejects { l with relocations := l.relocations ++ [grant + 36] } +
    rejects { l with
      halfwords := Function.update l.halfwords (l.label "bank_entry") (some 0x4700) } +
    rejects { l with relocationTypes := l.relocationTypes ++ [("CALL", "__sw_hweight32")] }
  require (rejected = 11) "audit failed to reject a dangerous mutation"
  return rejected

/-! ### What passes -/

/-- The words of the routine by their distance from the veneer. -/
def spinWords : List (Nat × Word) :=
  [(4, 0xea00000d),
    (64, 0xe92d41f0), (68, 0xe1a06000), (72, 0xe1a07002), (76, 0xe1a08003),
    (80, 0xe3a00000), (84, 0xe3a02010), (88, 0xe3a03040), (92, 0xea00000a),
    (96, 0xe320f000), (100, 0xe320f000), (104, 0xe320f000), (108, 0xe320f000),
    (112, 0xe320f000), (116, 0xe320f000), (120, 0xe320f000), (124, 0xe320f000),
    (128, 0xf57ff04f), (132, 0xe586103c), (136, 0xf57ff04f), (140, 0xee194f1d),
    (144, 0xee195f1d), (148, 0xe0455004), (152, 0xe1550002), (156, 0x2a000002),
    (160, 0xe2533001), (164, 0x1afffff9), (168, 0xe3855102),
    (172, 0xe3500000), (176, 0x1a000005), (180, 0xe3150102), (184, 0x1a000007),
    (188, 0xe3a00001), (192, 0xe1a02007), (196, 0xe1a03008), (200, 0xeaffffec),
    (204, 0xf57ff05f), (208, 0xe5960040), (212, 0xe1a01005), (216, 0xe8bd81f0),
    (220, 0xe3a00000), (224, 0xe3851101), (228, 0xe8bd81f0)]

/-- What the audit asks of a listing. -/
structure AcceptedListing (l : Listing) : Prop where
  noArmCall : ∀ r ∈ l.relocationTypes, r.1 ∉ ["CALL", "JUMP24", "PC24"]
  thumbCall : ("THM_CALL", "dld_quiet_bank_entry") ∈ l.relocationTypes
  present : ∀ name ∈ auditNames, (l.labels ("dld_quiet_" ++ name)).isSome
  aligned : l.label "bank_entry" % 64 = 0
  entry : l.label "bank" = l.label "bank_entry" + 64
  grant : l.label "grant_begin" = l.label "bank_entry" + 128
  positions : ∀ p ∈ auditPositions, l.label p.1 = l.label "bank_entry" + 128 + p.2
  veneer : l.halfwords (l.label "bank_entry") = some 0x4778
  nop : l.halfwords (l.label "bank_entry" + 2) = some 0xbf00
  words : ∀ p ∈ spinWords, l.words (l.label "bank_entry" + p.1) = some p.2
  relocations : ∀ x ∈ l.relocations, x < l.label "bank_entry" ∨ l.label "bank_entry" + 228 < x

section Accept

variable {α : Type} {l : Listing}

theorem require_bind {condition : Bool} {message : String} {f : Unit → Audit α} {a : α} :
    (require condition message >>= f) = .ok a ↔ condition = true ∧ f () = .ok a := by
  cases condition
  · constructor
    · intro h
      cases h
    · rintro ⟨h, -⟩
      cases h
  · exact (and_iff_right rfl).symm

theorem require_ok {condition : Bool} {message : String} :
    require condition message = .ok () ↔ condition = true := by
  cases condition
  · constructor <;> intro h <;> cases h
  · exact iff_of_true rfl rfl

/-- A branch is relative. -/
theorem branchWord_add (base address target condition : Nat) :
    branchWord (base + address) (base + target) condition = branchWord address target condition := by
  have h : ((base + target : Nat) : Int) - ((base + address : Nat) : Int) - 8 =
      (target : Int) - (address : Int) - 8 := by
    push_cast
    omega
  simp only [branchWord, h]

theorem checkLabels_ok {names : List String} :
    checkLabels l names = .ok () ↔ ∀ name ∈ names, (l.labels ("dld_quiet_" ++ name)).isSome := by
  induction names with
  | nil => exact iff_of_true rfl fun _ h => nomatch h
  | cons name names ih => rw [checkLabels, require_bind, ih, List.forall_mem_cons]

theorem checkPositions_ok {grant : Nat} {positions : List (String × Nat)} :
    checkPositions l grant positions = .ok () ↔ ∀ p ∈ positions, l.label p.1 = grant + p.2 := by
  induction positions with
  | nil => exact iff_of_true rfl fun _ h => nomatch h
  | cons p positions ih =>
    rw [checkPositions, require_bind, ih, List.forall_mem_cons, decide_eq_true_iff]

theorem checkWords_ok {base index : Nat} {words : List Word} :
    checkWords l base index words = .ok () ↔
      ∀ p ∈ words.zipIdx index, l.words (base + p.2 * 4) = some p.1 := by
  induction words generalizing index with
  | nil => exact iff_of_true rfl fun _ h => nomatch h
  | cons word words ih =>
    rw [checkWords, require_bind, ih, List.zipIdx_cons, List.forall_mem_cons, decide_eq_true_iff]

theorem unit_bind {x : Audit Unit} {f : Unit → Audit α} {a : α} :
    (x >>= f) = .ok a ↔ x = .ok () ∧ f () = .ok a := by
  cases x
  · constructor
    · intro h
      cases h
    · rintro ⟨h, -⟩
      cases h
  · exact (and_iff_right rfl).symm

/-- `expected_entry`, where the labels lie as they should. -/
def entryWords : List Word :=
  [0xe92d41f0, 0xe1a06000, 0xe1a07002, 0xe1a08003, 0xe3a00000, 0xe3a02010, 0xe3a03040, 0xea00000a,
    0xe320f000, 0xe320f000, 0xe320f000, 0xe320f000, 0xe320f000, 0xe320f000, 0xe320f000, 0xe320f000]

def grantWords : List Word :=
  [0xf57ff04f, 0xe586103c, 0xf57ff04f, 0xee194f1d, 0xee195f1d, 0xe0455004, 0xe1550002, 0x2a000002,
    0xe2533001, 0x1afffff9, 0xe3855102, 0xe3500000, 0x1a000005, 0xe3150102, 0x1a000007, 0xe3a00001,
    0xe1a02007, 0xe1a03008, 0xeaffffec, 0xf57ff05f, 0xe5960040, 0xe1a01005, 0xe8bd81f0,
    0xe3a00000, 0xe3851101, 0xe8bd81f0]

theorem spinWords_eq : spinWords =
    (4, 0xea00000d) :: (entryWords.zipIdx.map fun p => (64 + p.2 * 4, p.1)) ++
      grantWords.zipIdx.map fun p => (128 + p.2 * 4, p.1) :=
  rfl

theorem expectedEntry_eq (v : Nat) : expectedEntry (v + 64) (v + 128) = .ok entryWords := by
  simp only [expectedEntry, Nat.add_assoc, branchWord_add]
  rfl

theorem expectedGrant_eq (v : Nat) : expectedGrant (v + 128) = .ok grantWords := by
  have hpublish : branchWord (v + (128 + 72)) (v + 128) 14 = branchWord (128 + 72) 128 14 :=
    branchWord_add v _ _ _
  simp only [expectedGrant, Nat.add_assoc, branchWord_add, hpublish]
  rfl

/-- The words the audit compares are those of the routine. -/
theorem words_iff (v : Nat) :
    (∀ p ∈ spinWords, l.words (v + p.1) = some p.2) ↔
      l.words (v + 4) = some 0xea00000d ∧ checkWords l (v + 64) 0 entryWords = .ok () ∧
        checkWords l (v + 128) 0 grantWords = .ok () := by
  rw [spinWords_eq, List.cons_append, List.forall_mem_cons, checkWords_ok, checkWords_ok]
  simp only [List.forall_mem_append, List.forall_mem_map, Nat.add_assoc]

theorem ok_bind' {β : Type} (x : β) (f : β → Audit α) : ((Except.ok x : Audit β) >>= f) = f x := rfl

/-- **What passes**: a listing passes exactly if it is accepted. -/
theorem audit_ok_iff {report : AuditReport} :
    audit l = .ok report ↔
      AcceptedListing l ∧ report = { grantAddress := l.label "grant_begin" } := by
  have htoBody (v : Nat) : branchWord (v + 4) (v + 64) 14 = .ok 0xea00000d := branchWord_add v 4 64 14
  have hsum (v : Nat) : v + 64 + 64 = v + 128 := rfl
  simp only [audit, unit_bind, require_ok, checkLabels_ok, Bool.and_eq_true, decide_eq_true_eq,
    Bool.not_eq_true', List.any_eq_false]
  constructor
  · rintro ⟨hcall, hthumb, hpresent, ⟨haligned, hentry⟩, ⟨hveneer, hnop⟩, hrest⟩
    rw [hentry, htoBody, ok_bind'] at hrest
    simp only [unit_bind, require_ok, checkPositions_ok, decide_eq_true_eq, Bool.not_eq_true',
      List.any_eq_false, hsum] at hrest
    obtain ⟨hfirst, -, hgrant, hpositions, hrelocations, hrest⟩ := hrest
    rw [hgrant] at hpositions hrelocations
    rw [hgrant, expectedEntry_eq, ok_bind', expectedGrant_eq, ok_bind', unit_bind, unit_bind] at hrest
    obtain ⟨hentryWords, hgrantWords, hreport⟩ := hrest
    refine ⟨⟨hcall, hthumb, hpresent, haligned, hentry, hgrant, hpositions, hveneer, hnop,
      (words_iff _).mpr ⟨hfirst, hentryWords, hgrantWords⟩, fun x hx => ?_⟩, ?_⟩
    · have hx := hrelocations x hx
      simp only [Bool.and_eq_true, decide_eq_true_eq, not_and_or] at hx
      omega
    · rw [hgrant]
      exact (Except.ok.inj hreport).symm
  · rintro ⟨h, rfl⟩
    obtain ⟨hfirst, hentryWords, hgrantWords⟩ := (words_iff _).mp h.words
    refine ⟨h.noArmCall, h.thumbCall, h.present, ⟨h.aligned, h.entry⟩, ⟨h.veneer, h.nop⟩, ?_⟩
    have haligned := h.aligned
    rw [h.entry, htoBody, ok_bind', h.grant, expectedEntry_eq, expectedGrant_eq]
    simp only [ok_bind', unit_bind, require_ok, checkPositions_ok, decide_eq_true_eq,
      Bool.not_eq_true', List.any_eq_false, hsum]
    refine ⟨hfirst, by omega, trivial, h.positions, fun x hx => ?_, hentryWords, hgrantWords, rfl⟩
    have hx := h.relocations x hx
    simp only [Bool.and_eq_true, decide_eq_true_eq, not_and_or]
    omega

end Accept

/-! ### What does not pass -/

section Reject

variable {l : Listing}

/-- Some check fails. -/
def Rejected (l : Listing) : Prop := ∃ message, audit l = .error message

theorem rejected_iff : Rejected l ↔ ¬ AcceptedListing l := by
  constructor
  · rintro ⟨message, hmessage⟩ h
    have hok := audit_ok_iff.mpr ⟨h, rfl⟩
    rw [hmessage] at hok
    cases hok
  · intro h
    cases haudit : audit l with
    | ok report => exact absurd (audit_ok_iff.mp haudit).1 h
    | error message => exact ⟨message, haudit⟩

theorem rejects_of_rejected (h : Rejected l) : rejects l = 1 := by
  obtain ⟨message, hmessage⟩ := h
  rw [rejects, hmessage]

theorem rejected_setWord {k : Nat} {w w' : Word} (hk : (k, w) ∈ spinWords)
    (hne : w' ≠ w) : Rejected (l.setWord (l.label "bank_entry" + k) w') := by
  refine rejected_iff.mpr fun h' => hne ?_
  have hword := h'.words (k, w) hk
  have hchanged : (l.setWord (l.label "bank_entry" + k) w').words (l.label "bank_entry" + k) = some w' :=
    Function.update_self ..
  exact Option.some.inj (hchanged.symm.trans hword)

theorem rejected_relocation {x : Nat} (hlow : l.label "bank_entry" ≤ x)
    (hhigh : x ≤ l.label "bank_entry" + 228) :
    Rejected { l with relocations := l.relocations ++ [x] } := by
  refine rejected_iff.mpr fun h' => ?_
  rcases h'.relocations x (by simp) with hx | hx
  · exact absurd hlow (Nat.not_le.mpr hx)
  · exact absurd hhigh (Nat.not_le.mpr hx)

theorem rejected_veneer {w : BitVec 16} (hne : w ≠ 0x4778) :
    Rejected { l with halfwords := Function.update l.halfwords (l.label "bank_entry") (some w) } := by
  refine rejected_iff.mpr fun h' => hne ?_
  have hveneer := h'.veneer
  exact Option.some.inj ((Function.update_self (l.label "bank_entry") (some w) l.halfwords).symm.trans hveneer)

theorem rejected_armCall {kind target : String} (hkind : kind ∈ ["CALL", "JUMP24", "PC24"]) :
    Rejected { l with relocationTypes := l.relocationTypes ++ [(kind, target)] } := by
  refine rejected_iff.mpr fun h' => ?_
  exact h'.noArmCall (kind, target) (by simp) hkind

/-- The test of itself counts all eleven. -/
theorem selfTest_of_accepted (h : AcceptedListing l) : selfTest l = .ok 11 := by
  have hok := audit_ok_iff.mpr ⟨h, rfl⟩
  have hitself (v : Nat) : branchWord (v + 128 + 36) (v + 128 + 36) 1 = .ok 0x1afffffe :=
    branchWord_add v 164 164 1
  have hword (k : Nat) (w w' : Word) (hk : (k, w) ∈ spinWords) (hne : w' ≠ w) :
      rejects (l.setWord (l.label "bank_entry" + k) w') = 1 :=
    rejects_of_rejected (rejected_setWord hk hne)
  have hreloc : rejects { l with
      relocations := l.relocations ++ [l.label "bank_entry" + 128 + 36] } = 1 :=
    rejects_of_rejected (rejected_relocation (by omega) (by omega))
  have hveneer : rejects { l with
      halfwords := Function.update l.halfwords (l.label "bank_entry") (some 0x4700) } = 1 :=
    rejects_of_rejected (rejected_veneer (by decide))
  have hcall : rejects { l with
      relocationTypes := l.relocationTypes ++ [("CALL", "__sw_hweight32")] } = 1 :=
    rejects_of_rejected (rejected_armCall (by decide))
  simp only [selfTest, hok, ok_bind', h.grant, h.entry, hitself, List.map_cons, List.map_nil, hreloc,
    hveneer, hcall]
  rw [hword 144 0xee195f1d 0xe5960040 (by decide) (by decide),
    hword 160 0xe2533001 0xe320f000 (by decide) (by decide),
    hword 132 0xe586103c 0xe5861040 (by decide) (by decide),
    hword 208 0xe5960040 0xe596003c (by decide) (by decide),
    hword 144 0xee195f1d 0xee195f3d (by decide) (by decide),
    hword 92 0xea00000a 0xe320f000 (by decide) (by decide),
    hword 164 0x1afffff9 0x1afffffe (by decide) (by decide),
    hword 148 0xe0455004 0xe92d4000 (by decide) (by decide)]
  rfl

/-- **The audit is exact.**  A listing passes exactly if it is accepted; every
change of one word of the routine, every relocation inside it, every other
veneer and every ARM call is rejected; and the test of itself passes with the
audit. -/
theorem audit_exact (l : Listing) :
    ((∃ report, audit l = .ok report) ↔ AcceptedListing l) ∧
      (∀ k w w', (k, w) ∈ spinWords → w' ≠ w →
        Rejected (l.setWord (l.label "bank_entry" + k) w')) ∧
      (∀ x, l.label "bank_entry" ≤ x → x ≤ l.label "bank_entry" + 228 →
        Rejected { l with relocations := l.relocations ++ [x] }) ∧
      (∀ w, w ≠ 0x4778 → Rejected { l with
        halfwords := Function.update l.halfwords (l.label "bank_entry") (some w) }) ∧
      (∀ kind target, kind ∈ ["CALL", "JUMP24", "PC24"] →
        Rejected { l with relocationTypes := l.relocationTypes ++ [(kind, target)] }) ∧
      ((∃ n, selfTest l = .ok n) ↔ AcceptedListing l) ∧ (AcceptedListing l → selfTest l = .ok 11) := by
  have haudit : (∃ report, audit l = .ok report) ↔ AcceptedListing l :=
    ⟨fun ⟨_, h⟩ => (audit_ok_iff.mp h).1, fun h => ⟨_, audit_ok_iff.mpr ⟨h, rfl⟩⟩⟩
  refine ⟨haudit, fun _ _ _ => rejected_setWord, fun _ => rejected_relocation,
    fun _ => rejected_veneer, fun _ _ => rejected_armCall, ⟨?_, ?_⟩, selfTest_of_accepted⟩
  · rintro ⟨n, hn⟩
    refine haudit.mp ?_
    cases hreport : audit l with
    | ok report => exact ⟨report, rfl⟩
    | error message =>
      rw [selfTest, hreport] at hn
      cases hn
  · exact fun h => ⟨11, selfTest_of_accepted h⟩

end Reject

end Dld
