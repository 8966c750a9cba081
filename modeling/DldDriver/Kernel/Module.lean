/-
DldDriver/Kernel/Module.lean

Loading and unloading the helper (`quiet_init`, `quiet_exit` and
`release_resources` of `kernel/dld_quiet_main.c`).

`ledger` keeps the account of what the module has taken from the kernel: the
perf event, the mappings by their base, the hold on the online CPUs, and the
device node.  It asks of every event that

    nothing is given back that is not held
    nothing is given back while the device node is there
    the device node comes when everything is held
    a register is accessed in a block that is mapped

`module_life` says that this holds over any number of loads, with any system
calls in between, and that each leaves nothing behind.
-/
import DldDriver.Kernel.Footprint

namespace Dld

open Interaction

/-! ### The variables of the module -/

/-- `mailbox`, `cpsw`, `clocks`, `pru_control`, `gpio[]` and `engines[].base` -/
inductive Block
  | mailbox
  | cpsw
  | clocks
  | pruControl
  | gpio (i : Fin 3)
  | engine (i : Fin 6)
  deriving DecidableEq

/-- `PRUSS_PHYS` to `gpio_physical` and `engines[].physical` -/
def Block.physical : Block → Word
  | .mailbox => 0x4a300000
  | .cpsw => 0x4a100000
  | .clocks => 0x44e00000
  | .pruControl => 0x4a322000
  | .gpio i => ![0x44e07000, 0x4804c000, 0x481ac000] i
  | .engine i => ![0x48060000, 0x481d8000, 0x49000000, 0x49800000, 0x49900000, 0x49a00000] i

abbrev pageSize : Word := 4096

def Block.size : Block → Word
  | .pruControl => 0x3000
  | _ => pageSize

/-- The block of a register. -/
def Reg.block : Reg → Block
  | .mailbox _ => .mailbox
  | .cpsw _ => .cpsw
  | .clocks _ => .clocks
  | .pruControl _ => .pruControl
  | .gpio bank _ => .gpio bank
  | .engine i _ => .engine i

/-- The static variables; zero is `NULL`. -/
structure ModuleState where
  cycleEvent : Word := 0
  base : Block → Word := fun _ => 0

def ModuleState.setBase (g : ModuleState) (block : Block) (base : Word) : ModuleState :=
  { g with base := Function.update g.base block base }

section SetBase

variable (g : ModuleState) (block block' : Block) (base : Word)

@[simp] theorem setBase_base :
    (g.setBase block base).base block' = if block' = block then base else g.base block' :=
  Function.update_apply ..

theorem setBase_self : g.setBase block (g.base block) = g := by
  rw [ModuleState.setBase, Function.update_eq_self]

end SetBase

/-! ### Its operations -/

abbrev eNomem : Int := 12

/-- What the module asks of the kernel, beside what the helper asks. -/
inductive ModuleOp
  | kernel (o : KOp)
  | getOnlineCpus
  | putOnlineCpus
  | readCpuidId
  /-- a pinned, exclusive counter of CPU cycles, or the error of `PTR_ERR` -/
  | perfEventCreateKernelCounter
  | perfEventReleaseKernel (event : Word)
  | ioremapNocache (physical size : Word)
  | iounmap (base : Word)
  | miscRegister
  | miscDeregister
  | prErr
  | prInfo

@[reducible] def ModuleOp.Res : ModuleOp → Type
  | .kernel o => o.Res
  | .readCpuidId | .ioremapNocache .. => Word
  | .perfEventCreateKernelCounter => Except Int Word
  | .miscRegister => Int
  | _ => Unit

abbrev ModuleProg := Prog ModuleOp ModuleOp.Res

abbrev ModuleEvent := Event ModuleOp ModuleOp.Res

abbrev mop (o : ModuleOp) : ModuleProg o.Res := .op o

/-- A function of the helper. -/
def helperCall {α : Type} : KProg α → ModuleProg α
  | .ret a => .ret a
  | .call o k => .call (.kernel o) fun r => helperCall (k r)

/-! ### release_resources -/

/-- `if (base) { iounmap(base); base = NULL; }` -/
def unmapBlock (g : ModuleState) (block : Block) : ModuleProg ModuleState := do
  if g.base block ≠ 0 then do
    mop (.iounmap (g.base block))
    pure (g.setBase block 0)
  else pure g

/-- The same for each of a list. -/
def unmapAll (g : ModuleState) : List Block → ModuleProg ModuleState
  | [] => pure g
  | block :: rest => do
    let g ← unmapBlock g block
    unmapAll g rest

/-- The order of `release_resources`. -/
def releaseOrder : List Block :=
  (List.finRange 6).map .engine ++ (List.finRange 3).map .gpio ++
    [.pruControl, .clocks, .cpsw, .mailbox]

def releaseResources (g : ModuleState) : ModuleProg ModuleState := do
  let g ← if g.cycleEvent ≠ 0 then do
      mop (.perfEventReleaseKernel g.cycleEvent)
      pure { g with cycleEvent := 0 }
    else pure g
  unmapAll g releaseOrder

/-! ### quiet_init -/

/-- `block = ioremap_nocache(physical, size)` -/
def ioremap (g : ModuleState) (block : Block) : ModuleProg ModuleState := do
  let base : Word ← mop (.ioremapNocache block.physical block.size)
  pure (g.setBase block base)

/-- A loop of `ioremap_nocache` that ends at the first failure. -/
def ioremapEach (g : ModuleState) : List Block → ModuleProg (ModuleState × Int)
  | [] => pure (g, 0)
  | block :: rest => do
    let g ← ioremap g block
    if g.base block = 0 then pure (g, -eNomem) else ioremapEach g rest

/-- The mappings of `quiet_init`, in its order. -/
def mapBlocks (g : ModuleState) : ModuleProg (ModuleState × Int) := do
  let g ← ioremap g .mailbox
  let g ← ioremap g .cpsw
  let g ← ioremap g .clocks
  let g ← ioremap g .pruControl
  if g.base .mailbox = 0 ∨ g.base .cpsw = 0 ∨ g.base .clocks = 0 ∨ g.base .pruControl = 0 then
    pure (g, -eNomem)
  else do
  let (g, error) ← ioremapEach g ((List.finRange 3).map .gpio)
  if error ≠ 0 then pure (g, error) else ioremapEach g ((List.finRange 6).map .engine)

/-- `num_online_cpus() != 1 || !cpu_online(0) || …`: another machine. -/
def foreignCpu : ModuleProg Bool := do
  let online : Word ← mop (.kernel .numOnlineCpus)
  if online ≠ 1 then pure true else do
  let cpu0 : Bool ← mop (.kernel .cpuOnline)
  if cpu0 = false then pure true else do
  let cpuid : Word ← mop .readCpuidId
  pure (decide (cpuid &&& 0xff0ffff0 ≠ 0x410fc080))

/-- From the hold on the CPUs to the device node: zero, or the error with
which `goto fail` is taken. -/
def setUp (g : ModuleState) : ModuleProg (ModuleState × Int) := do
  let foreign ← foreignCpu
  if foreign then pure (g, -eNodev) else do
  let event : Except Int Word ← mop .perfEventCreateKernelCounter
  match event with
  | .error error => pure ({ g with cycleEvent := 0 }, error)
  | .ok event => do
    let g := { g with cycleEvent := event }
    mop (.kernel .preemptDisable)
    let ready ← helperCall pmuReady
    mop (.kernel .preemptEnable)
    if ready = false then do
      mop .prErr
      pure (g, -eBusy)
    else do
    let (g, error) ← mapBlocks g
    if error ≠ 0 then pure (g, error) else do
    let error : Int ← mop .miscRegister
    pure (g, error)

def quietInit (g : ModuleState) : ModuleProg (ModuleState × Int) := do
  mop .getOnlineCpus
  let (g, error) ← setUp g
  if error = 0 then do
    mop .putOnlineCpus
    mop .prInfo
    pure (g, 0)
  else do
    let g ← releaseResources g
    mop .putOnlineCpus
    pure (g, error)

def quietExit (g : ModuleState) : ModuleProg ModuleState := do
  mop .miscDeregister
  releaseResources g

/-! ### The life of the module -/

/-- System calls on the device node, with the results of each. -/
def ioctls : List Word → ModuleProg (List (Int × Option DldQuietSend))
  | [] => pure []
  | command :: rest => do
    let result ← helperCall (quietIoctl command)
    let results ← ioctls rest
    pure (result :: results)

/-- `insmod`, system calls, `rmmod`. -/
def moduleLife (commands : List Word) : ModuleProg (Int × List (Int × Option DldQuietSend)) := do
  let (g, error) ← quietInit {}
  if error ≠ 0 then pure (error, []) else do
  let results ← ioctls commands
  let _ ← quietExit g
  pure (0, results)

/-- One life after another. -/
def moduleLives : List (List Word) → ModuleProg (List (Int × List (Int × Option DldQuietSend)))
  | [] => pure []
  | commands :: rest => do
    let result ← moduleLife commands
    let results ← moduleLives rest
    pure (result :: results)

/-! ### The ledger -/

/-- What the module holds: the perf event, the mapped blocks by their bases,
the online CPUs and the device node. -/
structure Ledger where
  event : Option Word := none
  maps : Word → Option Word := fun _ => none
  online : Bool := false
  device : Bool := false

/-- A block is mapped. -/
def Ledger.Mapped (s : Ledger) (block : Block) : Prop := ∃ base, s.maps base = some block.physical

/-- Nothing is missing. -/
def Ledger.Complete (s : Ledger) : Prop := s.event.isSome ∧ ∀ block, s.Mapped block

/-- Errors are not zero, mappings lie apart, and `cycle_event` is what the
module has stored. -/
def promised (s : Ledger) : ModuleEvent → Bool
  | ⟨.perfEventCreateKernelCounter, .ok event⟩ => event ≠ 0
  | ⟨.perfEventCreateKernelCounter, .error error⟩ => error ≠ 0
  | ⟨.ioremapNocache _ _, base⟩ => base = (0 : Word) || (s.maps base).isNone
  | ⟨.kernel .cycleEvent, isSet⟩ => isSet = s.event.isSome
  | _ => true

def ledgerSafe (s : Ledger) : ModuleEvent → Prop
  | ⟨.kernel (.readl r), _⟩ | ⟨.kernel (.writel _ r), _⟩ => s.Mapped r.block
  | ⟨.perfEventCreateKernelCounter, _⟩ => s.event = none
  | ⟨.perfEventReleaseKernel event, _⟩ => s.event = some event ∧ s.device = false
  | ⟨.iounmap base, _⟩ => s.maps base ≠ none ∧ s.device = false
  | ⟨.getOnlineCpus, _⟩ => s.online = false
  | ⟨.putOnlineCpus, _⟩ => s.online = true
  | ⟨.miscRegister, _⟩ => s.Complete ∧ s.device = false
  | ⟨.miscDeregister, _⟩ => s.device = true
  | _ => True

def Ledger.next (s : Ledger) : ModuleEvent → Ledger
  | ⟨.perfEventCreateKernelCounter, .ok event⟩ => { s with event := some event }
  | ⟨.perfEventReleaseKernel _, _⟩ => { s with event := none }
  | ⟨.ioremapNocache physical _, base⟩ =>
    if base = 0 then s else { s with maps := Function.update s.maps base (some physical) }
  | ⟨.iounmap base, _⟩ => { s with maps := Function.update s.maps base none }
  | ⟨.getOnlineCpus, _⟩ => { s with online := true }
  | ⟨.putOnlineCpus, _⟩ => { s with online := false }
  | ⟨.miscRegister, error⟩ => if error = 0 then { s with device := true } else s
  | ⟨.miscDeregister, _⟩ => { s with device := false }
  | _ => s

def ledger : Monitor ModuleOp ModuleOp.Res Ledger :=
  ⟨fun s e => promised s e = true, ledgerSafe, Ledger.next⟩

instance (s : Ledger) (e : ModuleEvent) : Decidable (ledger.env s e) :=
  inferInstanceAs (Decidable (promised s e = true))

/-- The variables of the module are the account. -/
structure Holds (g : ModuleState) (s : Ledger) : Prop where
  event : s.event = if g.cycleEvent = 0 then none else some g.cycleEvent
  maps : ∀ base physical, s.maps base = some physical ↔
    base ≠ 0 ∧ ∃ block, g.base block = base ∧ block.physical = physical
  apart : ∀ block block', g.base block ≠ 0 → g.base block = g.base block' → block = block'
  device : s.device = false

section Ledger

variable {g : ModuleState} {s : Ledger} {block : Block}

theorem holds_empty {online : Bool} : Holds {} { online := online } where
  event := rfl
  maps := fun _ _ => iff_of_false nofun fun h => h.2.elim fun _ hblock => h.1 hblock.1.symm
  apart := fun _ _ h => absurd rfl h
  device := rfl

theorem Holds.mapped (h : Holds g s) (hblock : g.base block ≠ 0) : s.maps (g.base block) = some block.physical :=
  (h.maps _ _).mpr ⟨hblock, block, rfl, rfl⟩

/-- An unmapped base is nobody's. -/
theorem Holds.free (h : Holds g s) {base : Word} (hbase : base ≠ 0) (hfree : s.maps base = none)
    (block : Block) : g.base block ≠ base := by
  rintro rfl
  have hmapped := h.mapped hbase
  rw [hfree] at hmapped
  cases hmapped

/-- What a function leaves as it was. -/
structure Ledger.Kept (s s' : Ledger) : Prop where
  event : s'.event = s.event
  online : s'.online = s.online

theorem Ledger.Kept.trans {s s' s'' : Ledger} (h : s.Kept s') (h' : s'.Kept s'') : s.Kept s'' :=
  ⟨h'.event.trans h.event, h'.online.trans h.online⟩

/-- `unmapBlock` clears one pointer. -/
theorem wp_unmapBlock (h : Holds g s) (block : Block) :
    ledger.wp (unmapBlock g block) s fun s' g' => Holds g' s' ∧ s.Kept s' ∧ g' = g.setBase block 0 := by
  refine Monitor.wp_ite.mpr ⟨fun hblock => ?_, fun hzero => ?_⟩
  · refine fun _ _ => ⟨⟨by rw [h.mapped hblock]; simp, h.device⟩, ?_, ⟨rfl, rfl⟩, rfl⟩
    refine ⟨h.event, fun base physical => ?_, fun block₁ block₂ hne heq => ?_, h.device⟩
    · show Function.update s.maps (g.base block) none base = some physical ↔ _
      simp only [setBase_base]
      by_cases hbase : base = g.base block
      · subst hbase
        rw [Function.update_self]
        refine iff_of_false nofun ?_
        rintro ⟨-, block', hblock', -⟩
        split_ifs at hblock' with hsame
        · exact hblock hblock'.symm
        · exact hsame (h.apart block' block (hblock' ▸ hblock) hblock')
      · rw [Function.update_of_ne hbase, h.maps]
        refine and_congr_right fun hne => exists_congr fun block' => and_congr_left fun _ => ?_
        split_ifs with hsame
        · rw [hsame]
          exact iff_of_false (Ne.symm hbase) (Ne.symm hne)
        · rfl
    · simp only [setBase_base] at hne heq
      split_ifs at hne heq with h₁ h₂
      · exact absurd rfl hne
      · exact absurd rfl hne
      · exact absurd heq hne
      · exact h.apart _ _ hne heq
  · have hsame : g.setBase block 0 = g := by
      have hself := setBase_self g block
      rwa [not_not.mp hzero] at hself
    rw [Monitor.wp_pure, hsame]
    exact ⟨h, ⟨rfl, rfl⟩, rfl⟩

/-- `unmapAll` clears the pointers of its list. -/
theorem wp_unmapAll (h : Holds g s) (blocks : List Block) :
    ledger.wp (unmapAll g blocks) s fun s' g' =>
      Holds g' s' ∧ s.Kept s' ∧ g'.cycleEvent = g.cycleEvent ∧
        ∀ block, g'.base block = if block ∈ blocks then 0 else g.base block := by
  induction blocks generalizing g s with
  | nil => exact ⟨h, ⟨rfl, rfl⟩, rfl, fun _ => rfl⟩
  | cons block rest ih =>
    refine Monitor.wp_bind.mpr (Monitor.wp_mono (wp_unmapBlock h block) ?_)
    rintro s' g' ⟨h', hkept, rfl⟩
    refine Monitor.wp_mono (ih h') ?_
    rintro s'' g'' ⟨h'', hkept', hevent, hbase⟩
    refine ⟨h'', hkept.trans hkept', hevent, fun block' => ?_⟩
    rw [hbase block', setBase_base]
    by_cases hhead : block' = block
    · simp [hhead]
    · simp [hhead]

theorem mem_releaseOrder (block : Block) : block ∈ releaseOrder := by
  cases block <;> simp [releaseOrder]

/-- `release_resources` gives back everything, and clears every variable. -/
theorem wp_releaseResources (h : Holds g s) :
    ledger.wp (releaseResources g) s fun s' g' => g' = {} ∧ s' = { online := s.online } := by
  have hrest {g s} (h : Holds g s) (hevent : g.cycleEvent = 0) :
      ledger.wp (unmapAll g releaseOrder) s fun s' g' => g' = {} ∧ s' = { online := s.online } := by
    refine Monitor.wp_mono (wp_unmapAll h releaseOrder) ?_
    rintro ⟨event, maps, online, device⟩ ⟨cycleEvent, base⟩ ⟨h', hkept, hevent', hbase⟩
    obtain rfl : cycleEvent = 0 := hevent'.trans hevent
    obtain rfl : base = fun _ => 0 := funext fun block =>
      (hbase block).trans (if_pos (mem_releaseOrder block))
    obtain rfl : event = none := h'.event
    obtain rfl : device = false := h'.device
    obtain rfl : online = s.online := hkept.online
    obtain rfl : maps = fun _ => none := by
      funext b
      refine Option.eq_none_iff_forall_not_mem.mpr fun physical hmem => ?_
      obtain ⟨hne, block, hblock, -⟩ := (h'.maps b physical).mp hmem
      exact hne hblock.symm
    exact ⟨rfl, rfl⟩
  refine Monitor.wp_ite.mpr ⟨fun hevent => ?_, fun hevent => ?_⟩
  · refine fun _ _ => ⟨⟨h.event.trans (if_neg hevent), h.device⟩, ?_⟩
    exact hrest (g := { g with cycleEvent := 0 }) ⟨rfl, h.maps, h.apart, h.device⟩ rfl
  · exact hrest h (not_not.mp hevent)

theorem next_ioremapNocache (s : Ledger) (physical size base : Word) :
    ledger.next s ⟨.ioremapNocache physical size, base⟩ =
      if base = 0 then s else { s with maps := Function.update s.maps base (some physical) } := rfl

/-- A mapping goes to a pointer that is not set. -/
theorem wp_ioremap (h : Holds g s) (hblock : g.base block = 0) :
    ledger.wp (ioremap g block) s fun s' g' =>
      Holds g' s' ∧ s.Kept s' ∧ ∃ base, g' = g.setBase block base := by
  intro base henv
  refine ⟨trivial, ?_⟩
  by_cases hbase : base = 0
  · subst hbase
    have hself := setBase_self g block
    rw [hblock] at hself
    rw [next_ioremapNocache, if_pos rfl]
    refine ⟨?_, ⟨rfl, rfl⟩, 0, rfl⟩
    rwa [hself]
  · have hnone : s.maps base = none := by
      rcases Bool.or_eq_true_iff.mp henv with hzero | hnone
      · exact absurd (of_decide_eq_true hzero) hbase
      · exact Option.isNone_iff_eq_none.mp hnone
    have hfree := h.free hbase hnone
    rw [next_ioremapNocache, if_neg hbase]
    refine ⟨⟨h.event, fun base' physical => ?_, fun block₁ block₂ hne heq => ?_, h.device⟩, ⟨rfl, rfl⟩,
      base, rfl⟩
    · show Function.update s.maps base (some block.physical) base' = some physical ↔ _
      simp only [setBase_base]
      by_cases hsame : base' = base
      · subst hsame
        rw [Function.update_self, Option.some_inj]
        constructor
        · intro hphysical
          exact ⟨hbase, block, if_pos rfl, hphysical⟩
        · rintro ⟨-, block', hblock', hphysical⟩
          split_ifs at hblock' with hblocks
          · rwa [← hblocks]
          · exact absurd hblock' (hfree block')
      · rw [Function.update_of_ne hsame, h.maps]
        refine and_congr_right fun hne => exists_congr fun block' => and_congr_left fun _ => ?_
        split_ifs with hblocks
        · rw [hblocks, hblock]
          exact iff_of_false (Ne.symm hne) (Ne.symm hsame)
        · rfl
    · simp only [setBase_base] at hne heq
      split_ifs at hne heq with h₁ h₂ h₂
      · rw [h₁, h₂]
      · exact absurd heq.symm (hfree block₂)
      · exact absurd heq (hfree block₁)
      · exact h.apart _ _ hne heq

theorem enomem_ne : -eNomem ≠ 0 := by decide

/-- `blocks` have been mapped, up to a failure, and nothing else. -/
structure MapsOnly (blocks : List Block) (g g' : ModuleState) : Prop where
  event : g'.cycleEvent = g.cycleEvent
  others : ∀ block ∉ blocks, g'.base block = g.base block

theorem wp_ioremapEach (h : Holds g s) {blocks : List Block} (hnodup : blocks.Nodup)
    (hunset : ∀ block ∈ blocks, g.base block = 0) :
    ledger.wp (ioremapEach g blocks) s fun s' r => Holds r.1 s' ∧ s.Kept s' ∧
      MapsOnly blocks g r.1 ∧ (r.2 = 0 → ∀ block ∈ blocks, r.1.base block ≠ 0) := by
  induction blocks generalizing g s with
  | nil => exact ⟨h, ⟨rfl, rfl⟩, ⟨rfl, fun _ _ => rfl⟩, fun _ _ hmem => absurd hmem List.not_mem_nil⟩
  | cons block rest ih =>
    obtain ⟨hblock, hrest⟩ := List.nodup_cons.mp hnodup
    refine Monitor.wp_bind.mpr (Monitor.wp_mono (wp_ioremap h (hunset block (by simp))) ?_)
    rintro s' g' ⟨h', hkept, base, rfl⟩
    refine Monitor.wp_ite.mpr ⟨fun hzero => ?_, fun hset => ?_⟩
    · refine ⟨h', hkept, ⟨rfl, fun block' hblock' => ?_⟩, fun herror => absurd herror enomem_ne⟩
      rw [setBase_base, if_neg (List.ne_of_not_mem_cons hblock')]
    · have hunset' : ∀ block' ∈ rest, (g.setBase block base).base block' = 0 := by
        intro block' hblock'
        have hne : block' ≠ block := fun heq => hblock (heq ▸ hblock')
        rw [setBase_base, if_neg hne]
        exact hunset block' (by simp [hblock'])
      refine Monitor.wp_mono (ih h' hrest hunset') ?_
      rintro s'' ⟨g'', error⟩ ⟨h'', hkept', honly, hall⟩
      refine ⟨h'', hkept.trans hkept', ⟨honly.event, fun block' hblock' => ?_⟩, fun herror => ?_⟩
      · rw [honly.others block' (List.not_mem_of_not_mem_cons hblock'), setBase_base,
          if_neg (List.ne_of_not_mem_cons hblock')]
      · refine List.forall_mem_cons.mpr ⟨?_, hall herror⟩
        rw [honly.others block hblock]
        exact hset

/-- `mapBlocks` sets every pointer, or fails. -/
theorem wp_mapBlocks (h : Holds g s) (hunset : ∀ block, g.base block = 0) :
    ledger.wp (mapBlocks g) s fun s' r => Holds r.1 s' ∧ s.Kept s' ∧
      r.1.cycleEvent = g.cycleEvent ∧ (r.2 = 0 → ∀ block, r.1.base block ≠ 0) := by
  refine Monitor.wp_bind.mpr (Monitor.wp_mono (wp_ioremap h (hunset _)) ?_)
  rintro s₁ _ ⟨h₁, hkept₁, b₁, rfl⟩
  refine Monitor.wp_bind.mpr (Monitor.wp_mono (wp_ioremap h₁ (by simp [hunset])) ?_)
  rintro s₂ _ ⟨h₂, hkept₂, b₂, rfl⟩
  refine Monitor.wp_bind.mpr (Monitor.wp_mono (wp_ioremap h₂ (by simp [hunset])) ?_)
  rintro s₃ _ ⟨h₃, hkept₃, b₃, rfl⟩
  refine Monitor.wp_bind.mpr (Monitor.wp_mono (wp_ioremap h₃ (by simp [hunset])) ?_)
  rintro s₄ _ ⟨h₄, hkept₄, b₄, rfl⟩
  have hkept := ((hkept₁.trans hkept₂).trans hkept₃).trans hkept₄
  generalize hg : (((g.setBase .mailbox b₁).setBase .cpsw b₂).setBase .clocks b₃).setBase .pruControl b₄ =
    g' at *
  have hevent : g'.cycleEvent = g.cycleEvent := by
    rw [← hg]
    rfl
  have hrest : ∀ block, block ≠ .mailbox → block ≠ .cpsw → block ≠ .clocks → block ≠ .pruControl →
      g'.base block = 0 := by
    intro block n₁ n₂ n₃ n₄
    simp [← hg, n₁, n₂, n₃, n₄, hunset]
  refine Monitor.wp_ite.mpr ⟨fun _ => ⟨h₄, hkept, hevent, fun herror => absurd herror enomem_ne⟩,
    fun hset => ?_⟩
  simp only [not_or] at hset
  have hgpio : ∀ block ∈ (List.finRange 3).map Block.gpio, g'.base block = 0 := by
    intro block hblock
    obtain ⟨i, -, rfl⟩ := List.mem_map.mp hblock
    exact hrest _ nofun nofun nofun nofun
  refine Monitor.wp_bind.mpr (Monitor.wp_mono (wp_ioremapEach h₄ (by decide) hgpio) ?_)
  rintro s₅ ⟨g₅, error₅⟩ ⟨h₅, hkept₅, honly₅, hall₅⟩
  refine Monitor.wp_ite.mpr ⟨fun herror => ?_, fun herror => ?_⟩
  · exact ⟨h₅, hkept.trans hkept₅, honly₅.event.trans hevent, fun hzero => absurd hzero herror⟩
  have hengine : ∀ block ∈ (List.finRange 6).map Block.engine, g₅.base block = 0 := by
    intro block hblock
    obtain ⟨i, -, rfl⟩ := List.mem_map.mp hblock
    rw [honly₅.others _ (by simp)]
    exact hrest _ nofun nofun nofun nofun
  refine Monitor.wp_mono (wp_ioremapEach h₅ (by decide) hengine) ?_
  rintro s₆ ⟨g₆, error₆⟩ ⟨h₆, hkept₆, honly₆, hall₆⟩
  refine ⟨h₆, (hkept.trans hkept₅).trans hkept₆, (honly₆.event.trans honly₅.event).trans hevent,
    fun hzero block => ?_⟩
  have hfirst (block : Block) (hblock : g'.base block ≠ 0) (hnot : block ∉ (List.finRange 3).map Block.gpio)
      (hnot' : block ∉ (List.finRange 6).map Block.engine) : g₆.base block ≠ 0 := by
    rwa [honly₆.others block hnot', honly₅.others block hnot]
  cases block with
  | mailbox => exact hfirst _ hset.1 (by simp) (by simp)
  | cpsw => exact hfirst _ hset.2.1 (by simp) (by simp)
  | clocks => exact hfirst _ hset.2.2.1 (by simp) (by simp)
  | pruControl => exact hfirst _ hset.2.2.2 (by simp) (by simp)
  | gpio i =>
    rw [honly₆.others _ (by simp)]
    exact hall₅ (not_not.mp herror) _ (by simp)
  | engine i => exact hall₆ hzero _ (by simp)

/-! ### Loading and unloading -/

/-- A function of the helper leaves the ledger alone; its registers have to be
mapped. -/
theorem wp_helperCall {α : Type} {p : KProg α} {K : KEvent → Prop} (hp : p.Emits K)
    (hK : ∀ e, K e → ∀ r, (∃ v, e = ⟨.readl r, v⟩) ∨ (∃ v, e = ⟨.writel v r, ()⟩) → s.Mapped r.block) :
    ledger.wp (helperCall p) s fun s' _ => s' = s := by
  induction p with
  | ret a => rfl
  | call o k ih =>
    intro r _
    refine ⟨?_, ih r (hp r).2⟩
    have ho := hK _ (hp r).1
    cases o with
    | readl reg => exact ho reg (.inl ⟨r, rfl⟩)
    | writel v reg => exact ho reg (.inr ⟨v, rfl⟩)
    | _ => trivial

/-- The device node is there, and everything behind it. -/
structure Installed (g : ModuleState) (s : Ledger) : Prop where
  holds : Holds g { s with device := false }
  complete : s.Complete
  device : s.device = true

theorem Holds.complete (h : Holds g s) (hevent : g.cycleEvent ≠ 0) (hset : ∀ block, g.base block ≠ 0) :
    s.Complete := by
  refine ⟨?_, fun block => ⟨_, h.mapped (hset block)⟩⟩
  rw [h.event, if_neg hevent]
  rfl

/-- `setUp` ends with the device node, or with an error and what has to be
released. -/
theorem wp_setUp (h : Holds g s) (hevent : g.cycleEvent = 0) (hunset : ∀ block, g.base block = 0) :
    ledger.wp (setUp g) s fun s' r => s'.online = s.online ∧
      (r.2 = 0 → Installed r.1 s') ∧ (r.2 ≠ 0 → Holds r.1 s') := by
  have hfail {g s'} {error : Int} (h' : Holds g s') (hkept : s'.online = s.online) (herror : error ≠ 0) :
      s'.online = s.online ∧ (error = 0 → Installed g s') ∧ (error ≠ 0 → Holds g s') :=
    ⟨hkept, fun hzero => absurd hzero herror, fun _ => h'⟩
  have hforeign : ledger.wp foreignCpu s fun s' _ => s' = s := by
    refine fun online _ => ⟨trivial, Monitor.wp_ite.mpr ⟨fun _ => rfl, fun _ => ?_⟩⟩
    refine fun cpu0 _ => ⟨trivial, Monitor.wp_ite.mpr ⟨fun _ => rfl, fun _ => ?_⟩⟩
    exact fun _ _ => ⟨trivial, rfl⟩
  refine Monitor.wp_bind.mpr (Monitor.wp_mono hforeign ?_)
  rintro s foreign rfl
  have hnodev : -eNodev ≠ 0 := by decide
  have hbusy : -eBusy ≠ 0 := by decide
  refine Monitor.wp_ite.mpr ⟨fun _ => hfail h rfl hnodev, fun _ => Monitor.wp_op_bind fun event henv => ?_⟩
  have hnone : s.event = none := h.event.trans (if_pos hevent)
  refine ⟨hnone, ?_⟩
  cases event with
  | error error => exact hfail ⟨hnone, h.maps, h.apart, h.device⟩ rfl (of_decide_eq_true henv)
  | ok event =>
    have hset : event ≠ 0 := of_decide_eq_true henv
    have h₁ : Holds { g with cycleEvent := event } { s with event := some event } :=
      ⟨(if_neg hset).symm, h.maps, h.apart, h.device⟩
    refine Monitor.wp_op_bind fun _ _ => ⟨trivial, Monitor.wp_bind.mpr ?_⟩
    refine Monitor.wp_mono (wp_helperCall (emits_pmuReady (a := {})) ?_) ?_
    · rintro e he r (⟨v, rfl⟩ | ⟨v, rfl⟩)
      · exact he.elim
      · exact he.elim
    rintro _ ready rfl
    refine Monitor.wp_op_bind fun _ _ => ⟨trivial, Monitor.wp_ite.mpr ⟨fun _ => ?_, fun _ => ?_⟩⟩
    · exact Monitor.wp_op_bind fun _ _ => ⟨trivial, hfail h₁ rfl hbusy⟩
    refine Monitor.wp_bind.mpr (Monitor.wp_mono (wp_mapBlocks h₁ hunset) ?_)
    rintro s₂ ⟨g₂, error⟩ ⟨h₂, hkept, hevent₂, hall⟩
    refine Monitor.wp_ite.mpr ⟨fun herror => hfail h₂ hkept.online herror, fun hzero => ?_⟩
    have hcomplete : s₂.Complete :=
      h₂.complete (by rw [hevent₂]; exact hset) (hall (not_not.mp hzero))
    refine Monitor.wp_op_bind fun error _ => ⟨⟨hcomplete, h₂.device⟩, ?_⟩
    by_cases hregistered : error = 0
    · subst hregistered
      have hnext : ledger.next s₂ ⟨.miscRegister, (0 : Int)⟩ = { s₂ with device := true } := rfl
      rw [hnext]
      refine ⟨hkept.online, fun _ => ⟨?_, hcomplete, rfl⟩, fun hne => absurd rfl hne⟩
      exact ⟨h₂.event, h₂.maps, h₂.apart, rfl⟩
    · have hnext : ledger.next s₂ ⟨.miscRegister, error⟩ = s₂ := if_neg hregistered
      rw [hnext]
      exact hfail h₂ hkept.online hregistered

/-- `insmod`: the module is installed, or nothing has happened. -/
theorem wp_quietInit :
    ledger.wp (quietInit {}) {} fun s' r =>
      (r.2 = 0 → Installed r.1 s' ∧ s'.online = false) ∧ (r.2 ≠ 0 → r.1 = {} ∧ s' = {}) := by
  refine Monitor.wp_op_bind fun _ _ => ⟨rfl, Monitor.wp_bind.mpr (Monitor.wp_mono (wp_setUp holds_empty rfl fun _ => rfl) ?_)⟩
  rintro s ⟨g, error⟩ ⟨honline, hinstalled, hholds⟩
  refine Monitor.wp_ite.mpr ⟨fun hzero => ?_, fun hne => ?_⟩
  · refine Monitor.wp_op_bind fun _ _ => ⟨honline, Monitor.wp_op_bind fun _ _ => ⟨trivial, ?_⟩⟩
    refine ⟨fun _ => ⟨?_, rfl⟩, fun hne => absurd rfl hne⟩
    obtain ⟨hholds, hcomplete, hdevice⟩ := hinstalled hzero
    exact ⟨⟨hholds.event, hholds.maps, hholds.apart, rfl⟩, hcomplete, hdevice⟩
  · refine Monitor.wp_bind.mpr (Monitor.wp_mono (wp_releaseResources (hholds hne)) ?_)
    rintro _ _ ⟨rfl, rfl⟩
    exact Monitor.wp_op_bind fun _ _ => ⟨honline, fun hzero => absurd hzero hne, fun _ => ⟨rfl, rfl⟩⟩

/-- `rmmod` leaves nothing behind. -/
theorem wp_quietExit (h : Installed g s) (honline : s.online = false) :
    ledger.wp (quietExit g) s fun s' g' => g' = {} ∧ s' = {} := by
  refine Monitor.wp_op_bind fun _ _ => ⟨h.device, Monitor.wp_mono (wp_releaseResources h.holds) ?_⟩
  rintro _ _ ⟨rfl, rfl⟩
  refine ⟨rfl, ?_⟩
  show ({ online := s.online } : Ledger) = {}
  rw [honline]

/-! ### The life of the module, watched -/

theorem emits_all {α : Type} (p : KProg α) : p.Emits fun _ => True := by
  induction p with
  | ret a => trivial
  | call o k ih => exact fun r => ⟨trivial, ih r⟩

theorem wp_ioctls (h : s.Complete) (commands : List Word) :
    ledger.wp (ioctls commands) s fun s' results => s' = s ∧ results.length = commands.length := by
  induction commands with
  | nil => exact ⟨rfl, rfl⟩
  | cons command rest ih =>
    have hcall := wp_helperCall (emits_all (quietIoctl command)) fun _ _ r _ => h.2 r.block
    refine Monitor.wp_bind.mpr (Monitor.wp_mono hcall ?_)
    rintro s result rfl
    refine Monitor.wp_bind.mpr (Monitor.wp_mono ih ?_)
    rintro s results ⟨rfl, hlength⟩
    exact ⟨rfl, congrArg (· + 1) hlength⟩

/-- One life: nothing is left, and a module that was not installed has served
nobody. -/
theorem wp_moduleLife (commands : List Word) :
    ledger.wp (moduleLife commands) {} fun s' r => s' = {} ∧
      (r.1 = 0 → r.2.length = commands.length) ∧ (r.1 ≠ 0 → r.2 = []) := by
  refine Monitor.wp_bind.mpr (Monitor.wp_mono wp_quietInit ?_)
  rintro s ⟨g, error⟩ ⟨hinstalled, hfailed⟩
  refine Monitor.wp_ite.mpr ⟨fun hne => ?_, fun hzero => ?_⟩
  · obtain ⟨-, rfl⟩ := hfailed hne
    exact ⟨rfl, fun hzero => absurd hzero hne, fun _ => rfl⟩
  · obtain ⟨hg, honline⟩ := hinstalled (not_not.mp hzero)
    refine Monitor.wp_bind.mpr (Monitor.wp_mono (wp_ioctls hg.complete commands) ?_)
    rintro s results ⟨rfl, hlength⟩
    refine Monitor.wp_bind.mpr (Monitor.wp_mono (wp_quietExit hg honline) ?_)
    rintro _ _ ⟨rfl, rfl⟩
    exact ⟨rfl, fun _ => hlength, fun hne => absurd rfl hne⟩

theorem wp_moduleLives (lives : List (List Word)) :
    ledger.wp (moduleLives lives) {} fun s' results => s' = {} ∧ results.length = lives.length := by
  induction lives with
  | nil => exact ⟨rfl, rfl⟩
  | cons commands rest ih =>
    refine Monitor.wp_bind.mpr (Monitor.wp_mono (wp_moduleLife commands) ?_)
    rintro _ result ⟨rfl, -⟩
    refine Monitor.wp_bind.mpr (Monitor.wp_mono ih ?_)
    rintro _ results ⟨rfl, hlength⟩
    exact ⟨rfl, congrArg (· + 1) hlength⟩

end Ledger

/-- **The lives of the module.**  Whatever the kernel answers to loading,
system calls and unloading, one after another and up to any point: nothing is
given back that is not held, and nothing while the device node is there; the
node comes when everything is held; every register access is to a mapped
block; and at the end nothing is held. -/
theorem module_life (lives : List (List Word)) (t : List ModuleEvent)
    (q : ModuleProg (List (Int × List (Int × Option DldQuietSend))))
    (hsteps : (moduleLives lives).Steps t q) (henv : ledger.EnvAlong {} t) :
    (∀ pre e post, t = pre ++ e :: post → ledgerSafe (ledger.run {} pre) e) ∧
      ∀ results, q = .ret results → ledger.run {} t = {} ∧ results.length = lives.length := by
  obtain ⟨hsafe, hq⟩ := Monitor.wp_steps (wp_moduleLives lives) hsteps henv
  refine ⟨?_, ?_⟩
  · rintro pre e post rfl
    exact hsafe.at
  · rintro results rfl
    exact hq

/-- A kernel that gives everything, with the board behind it. -/
def givingKernel (b : Board × Nat) (o : ModuleOp) : o.Res × (Board × Nat) :=
  match o with
  | .kernel o => ((b.1.answer o).1, ((b.1.answer o).2, b.2))
  | .readCpuidId => ((0x413fc082 : Word), b)
  | .perfEventCreateKernelCounter => (.ok 0xde000000, b)
  | .ioremapNocache _ _ => (BitVec.ofNat 32 (0xfa000000 + 0x10000 * b.2), (b.1, b.2 + 1))
  | .miscRegister => ((0 : Int), b)
  | .getOnlineCpus | .putOnlineCpus | .perfEventReleaseKernel _ | .iounmap _ | .miscDeregister
  | .prErr | .prInfo => ((), b)

/-- Two lives, the first with a frame of one bank. -/
theorem module_life_oneBank :
    let run := (moduleLives [[dldQuietIoctlSend], []]).execWith givingKernel (oneBankBoard, 0)
    ledger.run {} run.1 = {} ∧ run.2.length = 2 ∧ run.2.map Prod.fst = [0, 0] := by
  intro run
  have hsteps := (Prog.execWith_runs givingKernel (oneBankBoard, 0)
    (moduleLives [[dldQuietIoctlSend], []])).steps
  obtain ⟨hempty, hlength⟩ := (module_life _ _ _ hsteps (by decide +kernel)).2 _ rfl
  exact ⟨hempty, hlength, by decide +kernel⟩

end Dld
