/-
DldDriver/Firmware/Line.lean

The data line of a string during a frame.

Register instructions and the posted stores to GPIO take one cycle; the
other accesses of the firmware take as long as they please.  `signal` lists
the edges that the events put on a pin, each with its cycle, and
`signal_completed` says what they are in a completed frame:

    one train of pulses, from the granted stream of the bank
    falls of the line while it is low, from the drain

and the line has then been low for the settle time.
-/
import Mathlib.Data.List.Range
import DldDriver.Firmware.Waveform
import DldDriver.Firmware.History
import DldDriver.Pixels.Chain

namespace Dld

open Interaction

namespace Pru

/-! ### Events with their cycles -/

/-- What takes one cycle. -/
def inOneCycle : PruEvent → Bool
  | ⟨.alu, _⟩ | ⟨.loadDelay _, _⟩ | ⟨.sbbo _ _, _⟩ => true
  | _ => false

/-- Every event has taken its cycles. -/
def Clocked (tt : List (PruEvent × Nat)) : Prop :=
  ∀ x ∈ tt, 1 ≤ x.2 ∧ (inOneCycle x.1 = true → x.2 = 1)

def cycles (tt : List (PruEvent × Nat)) : Nat := (tt.map Prod.snd).sum

/-- The edges at a pin, from cycle `now` on. -/
def signal (clear : Word) (bit : Nat) : Nat → List (PruEvent × Nat) → List Pixels.Edge
  | _, [] => []
  | now, (e, d) :: tt =>
    ((edge clear bit e).map (now, ·)).toList ++ signal clear bit (now + d) tt

section Signal

variable {clear : Word} {bit now : Nat} {tt tt' : List (PruEvent × Nat)}

@[simp] theorem cycles_append : cycles (tt ++ tt') = cycles tt + cycles tt' := by
  simp [cycles]

theorem signal_append : signal clear bit now (tt ++ tt') =
    signal clear bit now tt ++ signal clear bit (now + cycles tt) tt' := by
  induction tt generalizing now with
  | nil => rfl
  | cons x tt ih =>
    obtain ⟨e, d⟩ := x
    have hcycles : now + cycles ((e, d) :: tt) = now + d + cycles tt := by
      simp [cycles, Nat.add_assoc]
    rw [List.cons_append, signal, signal, ih, hcycles, List.append_assoc]

theorem Clocked.append (h : Clocked (tt ++ tt')) : Clocked tt ∧ Clocked tt' :=
  ⟨fun x hx => h x (List.mem_append_left _ hx), fun x hx => h x (List.mem_append_right _ hx)⟩

/-- Clocked events have taken at least their number of cycles. -/
theorem Clocked.length_le (h : Clocked tt) : tt.length ≤ cycles tt := by
  induction tt with
  | nil => exact Nat.le_refl 0
  | cons x tt ih =>
    obtain ⟨hx, htt⟩ := List.forall_mem_cons.mp h
    have hlength := ih htt
    have hcycles : cycles (x :: tt) = x.2 + cycles tt := by simp [cycles]
    rw [hcycles, List.length_cons]
    omega

/-- Events without a store to the pin. -/
theorem signal_eq_nil (h : ∀ x ∈ tt, edge clear bit x.1 = none) : signal clear bit now tt = [] := by
  induction tt generalizing now with
  | nil => rfl
  | cons x tt ih =>
    obtain ⟨hx, htt⟩ := List.forall_mem_cons.mp h
    rw [signal, hx, ih htt]
    rfl

/-- Events that only lower the pin. -/
theorem signal_falls (h : ∀ x ∈ tt, edge clear bit x.1 ≠ some true) :
    ∀ e ∈ signal clear bit now tt, e.2 = false := by
  induction tt generalizing now with
  | nil => exact nofun
  | cons x tt ih =>
    obtain ⟨hx, htt⟩ := List.forall_mem_cons.mp h
    intro e he
    rcases List.mem_append.mp he with he | he
    · cases hedge : edge clear bit x.1 with
      | none =>
        rw [hedge] at he
        cases he
      | some level =>
        rw [hedge] at he hx
        obtain rfl : e = (now, level) := List.mem_singleton.mp he
        cases level
        · rfl
        · exact absurd rfl hx
    · exact ih htt e he

/-- Where every event takes one cycle, the edges are those of the cycles. -/
theorem signal_eq_edges (clear : Word) (bit now : Nat) (h : Clocked tt) (hone : ∀ x ∈ tt, inOneCycle x.1 = true) :
    signal clear bit now tt = edges clear bit now (tt.map Prod.fst) ∧ cycles tt = tt.length := by
  induction tt generalizing now with
  | nil => exact ⟨rfl, rfl⟩
  | cons x tt ih =>
    obtain ⟨hx, htt⟩ := List.forall_mem_cons.mp h
    obtain ⟨hxone, httone⟩ := List.forall_mem_cons.mp hone
    have hd : x.2 = 1 := hx.2 hxone
    obtain ⟨hedges, hcycles⟩ := ih (now + 1) htt httone
    constructor
    · rw [signal, hd, hedges]
      rfl
    · have hsum : cycles (x :: tt) = x.2 + cycles tt := by simp [cycles]
      rw [hsum, hd, hcycles, List.length_cons, Nat.add_comm]

end Signal

/-- Later, the edges are later. -/
theorem edges_shift {clear : Word} {bit start : Nat} (t : List PruEvent) :
    edges clear bit start t = (edges clear bit 0 t).map fun e => (start + e.1, e.2) := by
  suffices h : ∀ d, edges clear bit (start + d) t =
      (edges clear bit d t).map fun e => (start + e.1, e.2) from h 0
  induction t with
  | nil => exact fun _ => rfl
  | cons e t ih =>
    intro d
    have hrest := ih (d + 1)
    rw [← Nat.add_assoc] at hrest
    rw [edges, edges, hrest, List.map_append]
    cases edge clear bit e <;> rfl

/-! ### The pulses of a string -/

/-- The pulses of a string of `n` pixels in a stream that starts at `start`. -/
def pulses (tm : Timing) (colour : Word) (n start : Nat) : List (Nat × Nat) :=
  (List.range (24 * n)).map fun k =>
    (start + k * tm.bit.toNat + 1,
      start + k * tm.bit.toNat + 1 + tm.high (colour.getLsbD (23 - k % 24)))

theorem edgesOf_pulses (tm : Timing) (colour : Word) (n start : Nat) :
    Pixels.edgesOf (pulses tm colour n start) = (List.range (24 * n)).flatMap fun k =>
      pulse tm (colour.getLsbD (23 - k % 24)) (start + k * tm.bit.toNat) := by
  rw [Pixels.edgesOf, pulses, List.flatMap_map]
  rfl

section Stream

variable {tm : Timing} {b b' : Bank} {l : Fin 6 → Word} {colour : Word} {s : Fin 6} {start : Nat}

/-- The stream of a bank, from `start` on, at the pin of one of its strings. -/
theorem edges_bankStream_at (h : tm.Admitted) (hs : s ∈ b.strings) (hne : maxOfBank l b ≠ 0) :
    edges (clearAddress b) (pinBit s) start (bankStream tm b l colour) =
      Pixels.edgesOf (pulses tm colour (l s).toNat start) := by
  rw [edges_shift, edges_bankStream h b l colour hs hne, edgesOf_pulses, List.map_flatMap]
  apply List.flatMap_congr
  intro k _
  simp only [pulse, List.map_cons, List.map_nil, Nat.add_assoc]

theorem inOneCycle_bankStream {e : PruEvent} (he : e ∈ aluEv :: bankStream tm b l colour) :
    inOneCycle e = true := by
  rcases List.mem_cons.mp he with rfl | he
  · rfl
  · obtain ⟨p, he⟩ := mem_bankStream he
    obtain rfl | ⟨one, rfl⟩ | ⟨final, one, rfl⟩ | rfl | rfl := mem_pixelEvents he <;> rfl

/-- The GPIO blocks of the banks are apart. -/
theorem clearAddress_apart : ∀ b b' : Bank, b ≠ b' → clearAddress b' ≠ clearAddress b ∧
    clearAddress b' ≠ clearAddress b + 4 ∧ clearAddress b' + 4 ≠ clearAddress b ∧
    clearAddress b' + 4 ≠ clearAddress b + 4 := by
  rintro (_ | _ | _) (_ | _ | _) <;> simp

theorem edge_apart (hb : b ≠ b') {bit : Nat} {value : Word} :
    edge (clearAddress b) bit (sbboEv (clearAddress b') value) = none ∧
      edge (clearAddress b) bit (sbboEv (clearAddress b' + 4) value) = none := by
  obtain ⟨h₁, h₂, h₃, h₄⟩ := clearAddress_apart b b' hb
  constructor
  · simp only [edge, sbboEv, if_neg h₁, if_neg h₂, ite_self]
  · simp only [edge, sbboEv, if_neg h₃, if_neg h₄, ite_self]

/-- The stream of another bank leaves the pin alone. -/
theorem edge_otherStream (hb : b ≠ b') {bit : Nat} {e : PruEvent}
    (he : e ∈ aluEv :: bankStream tm b' l colour) : edge (clearAddress b) bit e = none := by
  rcases List.mem_cons.mp he with rfl | he
  · rfl
  · obtain ⟨p, he⟩ := mem_bankStream he
    obtain rfl | ⟨one, rfl⟩ | ⟨final, one, rfl⟩ | rfl | rfl := mem_pixelEvents he
    · rfl
    · rfl
    · rfl
    · exact (edge_apart hb).2
    · exact (edge_apart hb).1

end Stream

/-! ### A frame -/

section Frame

variable {tm : Timing} {b b' : Bank} {l : Fin 6 → Word} {seq colour : Word} {bit : Nat}
variable {sent : List Bank} {w : List PruEvent} {n : Nat}

/-- Between the accesses there are register instructions. -/
theorem edge_of_accesses {clear : Word} {g a : List PruEvent} (hg : accesses g = a)
    (ha : ∀ e ∈ a, edge clear bit e = none) : ∀ e ∈ g, edge clear bit e = none := by
  intro e he
  by_cases halu : e = aluEv
  · rw [halu]
    rfl
  · exact ha e (hg ▸ (mem_accesses halu).mpr he)

/-- The gate of a bank leaves every pin alone. -/
theorem edge_passed {clear : Word} {g : List PruEvent} (hg : Passed b releaseStores g) :
    ∀ e ∈ g, edge clear bit e = none := by
  obtain ⟨polls, -, haccesses⟩ := hg
  refine edge_of_accesses haccesses ?_
  intro e he
  simp only [gateAccesses, releaseStores, List.mem_append, List.mem_cons, List.mem_map,
    List.not_mem_nil, or_false] at he
  obtain ((rfl | rfl) | ⟨v, -, rfl⟩) | rfl | rfl | rfl := he <;> rfl

theorem edge_drain {d : List PruEvent} (hd : Drain b' n d) :
    ∀ e ∈ d, edge (clearAddress b) bit e ≠ some true ∧
      (b ≠ b' → edge (clearAddress b) bit e = none) := by
  induction hd with
  | nil => exact fun e he => absurd he List.not_mem_nil
  | alu _ ih | read _ ih =>
    intro e he
    rcases List.mem_append.mp he with he | he
    · exact ih e he
    · obtain rfl := List.mem_singleton.mp he
      exact ⟨fun h => Option.some_ne_none _ h.symm, fun _ => rfl⟩
  | clear _ ih =>
    intro e he
    rcases List.mem_append.mp he with he | he
    · exact ih e he
    · obtain rfl := List.mem_singleton.mp he
      refine ⟨?_, fun hb => (edge_apart hb).1⟩
      by_cases hb : b = b'
      · have hlow : clearAddress b' ≠ clearAddress b' + 4 := by cases b' <;> simp
        rw [hb]
        simp only [edge, sbboEv, if_neg hlow, if_true]
        split <;> simp
      · rw [(edge_apart hb).1]
        exact Option.some_ne_none _ ∘ Eq.symm

/-- The edges of a string after the banks `sent`: its train, once its bank is
among them. -/
def OnLine (tm : Timing) (l : Fin 6 → Word) (colour : Word) (s : Fin 6) (now stop : Nat)
    (es : List Pixels.Edge) : Prop :=
  ∃ start falls, now ≤ start ∧ start + 24 * (l s).toNat * tm.bit.toNat ≤ stop + 1 ∧
    es = Pixels.edgesOf (pulses tm colour (l s).toNat start) ++ falls ∧ ∀ e ∈ falls, e.2 = false

theorem OnLine.append {s : Fin 6} {now stop stop' : Nat} {es falls : List Pixels.Edge}
    (h : OnLine tm l colour s now stop es) (hfalls : ∀ e ∈ falls, e.2 = false)
    (hstop : stop ≤ stop') : OnLine tm l colour s now stop' (es ++ falls) := by
  obtain ⟨start, falls', hstart, hend, rfl, hfalls'⟩ := h
  refine ⟨start, falls' ++ falls, hstart, by omega, List.append_assoc .., ?_⟩
  intro e he
  rcases List.mem_append.mp he with he | he
  · exact hfalls' e he
  · exact hfalls e he

/-- The line of string `s` after the banks `sent`. -/
structure LineAfter (tm : Timing) (l : Fin 6 → Word) (colour : Word) (b : Bank) (s : Fin 6)
    (sent : List Bank) (now : Nat) (tt : List (PruEvent × Nat)) : Prop where
  before : b ∉ sent → signal (clearAddress b) (pinBit s) now tt = []
  after : b ∈ sent → OnLine tm l colour s now (now + cycles tt)
    (signal (clearAddress b) (pinBit s) now tt)

variable {s : Fin 6} {now : Nat} {tt tt' : List (PruEvent × Nat)}

theorem LineAfter.append (h : LineAfter tm l colour b s sent now tt)
    (htt' : ∀ x ∈ tt', edge (clearAddress b) (pinBit s) x.1 = none) :
    LineAfter tm l colour b s sent now (tt ++ tt') := by
  have hnil : signal (clearAddress b) (pinBit s) (now + cycles tt) tt' = [] := signal_eq_nil htt'
  constructor
  · intro hb
    rw [signal_append, h.before hb, hnil]
    rfl
  · intro hb
    rw [signal_append, hnil]
    exact (h.after hb).append nofun (by rw [cycles_append]; omega)

theorem length_bankStream (h : tm.Admitted) (hmax : maxOfBank l b ≠ 0) :
    (bankStream tm b l colour).length + 1 = 24 * (maxOfBank l b).toNat * tm.bit.toNat := by
  have hlength := congrArg List.length (bankStream_append b l colour h hmax)
  rw [List.length_append, List.length_singleton] at hlength
  rw [hlength]
  simp [List.length_flatMap, length_pixelEvents h]
  ring

/-- The granted stream with what surrounds it, at the pin of one of its
strings. -/
theorem onLine_bank (now : Nat) (h : tm.Admitted) (hs : s ∈ b.strings) (hmax : maxOfBank l b ≠ 0)
    {tg ts td : List (PruEvent × Nat)} (hg : Passed b releaseStores (tg.map Prod.fst))
    (hts : ts.map Prod.fst = aluEv :: bankStream tm b l colour) (hd : Drain b n (td.map Prod.fst))
    (hclocked : Clocked ts) :
    OnLine tm l colour s now (now + cycles (tg ++ ts ++ td))
      (signal (clearAddress b) (pinBit s) now (tg ++ ts ++ td)) := by
  have hgate : signal (clearAddress b) (pinBit s) now tg = [] :=
    signal_eq_nil fun x hx => edge_passed hg x.1 (List.mem_map_of_mem hx)
  have hone : ∀ x ∈ ts, inOneCycle x.1 = true := fun x hx =>
    inOneCycle_bankStream (hts ▸ List.mem_map_of_mem hx)
  obtain ⟨hedges, hcycles⟩ := signal_eq_edges (clearAddress b) (pinBit s)
    (now + cycles tg) hclocked hone
  have hstream : edges (clearAddress b) (pinBit s) (now + cycles tg) (ts.map Prod.fst) =
      Pixels.edgesOf (pulses tm colour (l s).toNat (now + cycles tg + 1)) := by
    rw [hts]
    exact edges_bankStream_at h hs hmax
  have hlength : ts.length = (bankStream tm b l colour).length + 1 := by
    rw [← List.length_map (f := Prod.fst), hts, List.length_cons]
  have hn : 24 * (l s).toNat * tm.bit.toNat ≤ 24 * (maxOfBank l b).toNat * tm.bit.toNat :=
    Nat.mul_le_mul_right _ (Nat.mul_le_mul_left _ (le_maxOfBank b l hs))
  have hfalls : ∀ e ∈ signal (clearAddress b) (pinBit s) (now + cycles (tg ++ ts)) td, e.2 = false :=
    signal_falls fun x hx => (edge_drain hd x.1 (List.mem_map_of_mem hx)).1
  refine ⟨now + cycles tg + 1, _, by omega, ?_, ?_, hfalls⟩
  · rw [cycles_append, cycles_append, hcycles, hlength, length_bankStream h hmax]
    omega
  · rw [signal_append, signal_append, hgate, hedges, hstream]
    rfl

/-- The events of another bank leave the pin alone. -/
theorem edge_otherBank (hb : b ≠ b') {g d : List PruEvent} (hg : Passed b' releaseStores g)
    (hd : Drain b' n d) {e : PruEvent} (he : e ∈ g ++ aluEv :: bankStream tm b' l colour ++ d) :
    edge (clearAddress b) bit e = none := by
  rcases List.mem_append.mp he with he | he
  · rcases List.mem_append.mp he with he | he
    · exact edge_passed hg e he
    · exact edge_otherStream hb he
  · exact (edge_drain hd e he).2 hb

/-- A frame under way, at the pin of a string.  The induction is on the frame;
the bank of the string comes once. -/
theorem lineAfter_sent (now : Nat) (h : tm.Admitted) (hs : s ∈ b.strings) (hw : Sent tm l seq colour sent w)
    (hnodup : sent.Nodup) (hmax : ∀ b' ∈ sent, maxOfBank l b' ≠ 0) (htt : tt.map Prod.fst = w)
    (hclocked : Clocked tt) : LineAfter tm l colour b s sent now tt := by
  have hquiet {sent w} {e : PruEvent} {tt : List (PruEvent × Nat)}
      (he : edge (clearAddress b) (pinBit s) e = none) (htt : tt.map Prod.fst = w ++ [e])
      (hclocked : Clocked tt) (ih : ∀ tt, tt.map Prod.fst = w → Clocked tt →
        LineAfter tm l colour b s sent now tt) : LineAfter tm l colour b s sent now tt := by
    obtain ⟨tw, te, rfl, htw, hte⟩ := List.map_eq_append_iff.mp htt
    refine (ih tw htw hclocked.append.1).append fun x hx => ?_
    have hx : x.1 ∈ [e] := hte ▸ List.mem_map_of_mem hx
    rw [List.mem_singleton.mp hx]
    exact he
  induction hw generalizing tt with
  | accepted haccesses =>
    constructor
    · intro _
      refine signal_eq_nil fun x hx => ?_
      refine edge_of_accesses haccesses ?_ x.1 (htt ▸ List.mem_map_of_mem hx)
      intro e he
      simp only [acceptance, List.cons_append, List.nil_append, List.mem_cons, List.not_mem_nil,
        or_false] at he
      obtain rfl | rfl | rfl | rfl | rfl | rfl | rfl := he <;> rfl
    · exact fun hmem => absurd hmem List.not_mem_nil
  | alu _ ih => exact hquiet rfl htt hclocked fun tt htt hclocked => ih hnodup hmax htt hclocked
  | config _ ih => exact hquiet rfl htt hclocked fun tt htt hclocked => ih hnodup hmax htt hclocked
  | @bank sent w b' g n d hw hg hd _ _ ih =>
    obtain ⟨hb', hsent⟩ := List.nodup_cons.mp (List.nodup_append_comm.mp hnodup)
    refine hquiet rfl htt hclocked fun tt htt hclocked => ?_
    obtain ⟨tw, tb, rfl, htw, htb⟩ := List.map_eq_append_iff.mp htt
    have hbefore := ih hsent (fun b hb => hmax b (by simp [hb])) htw hclocked.append.1
    by_cases hb : b = b'
    · subst hb
      obtain ⟨tgs, td, rfl, htgs, rfl⟩ := List.map_eq_append_iff.mp htb
      obtain ⟨tg, ts, rfl, rfl, hts⟩ := List.map_eq_append_iff.mp htgs
      have hline := onLine_bank (now + cycles tw) h hs (hmax b (by simp)) hg hts hd
        hclocked.append.2.append.1.append.2
      refine ⟨fun hnot => absurd (by simp) hnot, fun _ => ?_⟩
      obtain ⟨start, falls, hstart, hend, hes, hfalls⟩ := hline
      refine ⟨start, falls, by omega, ?_, ?_, hfalls⟩
      · rw [cycles_append, ← Nat.add_assoc]
        exact hend
      · rw [signal_append, hbefore.before hb', hes]
        rfl
    · have hother : LineAfter tm l colour b s _ now (tw ++ tb) := hbefore.append fun x hx =>
        edge_otherBank hb hg hd (htb ▸ List.mem_map_of_mem hx)
      refine ⟨fun hnot => hother.before fun hmem => hnot (by simp [hmem]), fun hmem => hother.after ?_⟩
      exact (List.mem_append.mp hmem).resolve_right fun hlast => hb (List.mem_singleton.mp hlast)

theorem mem_nonEmpty : b ∈ nonEmpty l ↔ maxOfBank l b ≠ 0 := by
  rw [nonEmpty, List.mem_filter, decide_eq_true_iff]
  exact and_iff_right b.mem_pass

theorem nodup_nonEmpty (l : Fin 6 → Word) : (nonEmpty l).Nodup := by
  have hpass : Bank.pass.Nodup := by decide
  exact hpass.filter _

/-- **The line in a completed frame**: one train, falls while it is low, and
the settle time; and nothing on the line of a bank without strings. -/
theorem signal_completed (now : Nat) {cur : List PruEvent} (h : tm.Admitted) (hs : s ∈ b.strings)
    (hcur : Completed tm l seq colour cur) (htt : tt.map Prod.fst = cur) (hclocked : Clocked tt) :
    (maxOfBank l b = 0 → signal (clearAddress b) (pinBit s) now tt = []) ∧
      (maxOfBank l b ≠ 0 → ∃ stop, stop + settleCycles l ≤ now + cycles tt ∧
        OnLine tm l colour s now stop (signal (clearAddress b) (pinBit s) now tt)) := by
  obtain ⟨w, count, k, rest, hw, hsettle, hrest, rfl⟩ := hcur
  rw [List.append_assoc] at htt
  obtain ⟨tw, te, rfl, htw, hte⟩ := List.map_eq_append_iff.mp htt
  obtain ⟨tk, tr, rfl, htk, htr⟩ := List.map_eq_append_iff.mp hte
  have hline := lineAfter_sent now h hs hw (nodup_nonEmpty l)
    (fun b' hb' => mem_nonEmpty.mp hb') htw hclocked.append.1
  have hquiet : ∀ x ∈ tk ++ tr, edge (clearAddress b) (pinBit s) x.1 = none := by
    intro x hx
    rcases List.mem_append.mp hx with hx | hx
    · have hx : x.1 ∈ delayEv count :: idle k := htk ▸ List.mem_map_of_mem hx
      rcases List.mem_cons.mp hx with hx | hx
      · rw [hx]
        rfl
      · rw [List.eq_of_mem_replicate hx]
        rfl
    · have hx : x.1 ∈ (⟨.sbco .completionSeq seq, ()⟩ :: rest : List PruEvent) :=
        htr ▸ List.mem_map_of_mem hx
      rcases List.mem_cons.mp hx with hx | hx
      · rw [hx]
        rfl
      · have hclosing := hrest _ hx
        generalize x.1 = e at hclosing ⊢
        cases hclosing <;> rfl
  have hnil : signal (clearAddress b) (pinBit s) (now + cycles tw) (tk ++ tr) = [] :=
    signal_eq_nil hquiet
  -- the settle wait takes at least its events
  have hwait : settleCycles l ≤ cycles tk := by
    have hlength := (hclocked.append.2.append.1).length_le
    have hevents : tk.length = k + 1 := by
      rw [← List.length_map (f := Prod.fst), htk, List.length_cons, length_idle]
    omega
  rw [signal_append, hnil, List.append_nil]
  refine ⟨fun hzero => hline.before fun hb => mem_nonEmpty.mp hb hzero, fun hmax => ?_⟩
  refine ⟨now + cycles tw, ?_, hline.after (mem_nonEmpty.mpr hmax)⟩
  rw [cycles_append, cycles_append]
  omega

end Frame

/-! ### What a chain reads from it -/

/-- A kind of pixel that the timing and the settle time suit. -/
structure Suits (tm : Timing) (chip : Pixels.Chip) : Prop where
  width : chip.width = 24
  bit : ∀ one, chip.bit (tm.high one) = some one
  low : ∀ one, tm.low one < chip.reset
  reset : chip.reset ≤ resetCycles + settleMarginCycles
  delay : chip.delay ≤ propagationCycles

/-- The bits of a colour, the first first. -/
def colourBits (colour : Word) : List (Option Bool) :=
  (List.range 24).map fun k => some (colour.getLsbD (23 - k))

section Chip

variable {tm : Timing} {chip : Pixels.Chip} {colour : Word} {n start i : Nat}

theorem length_pulses : (pulses tm colour n start).length = 24 * n := by
  rw [pulses, List.length_map, List.length_range]

/-- The train has no reset in it. -/
theorem train_pulses (h : tm.Admitted) (hchip : Suits tm chip) :
    Pixels.Train chip (pulses tm colour n start) := by
  rw [Pixels.Train, pulses, List.isChain_map, List.isChain_range]
  intro k _
  have hlow := hchip.low (colour.getLsbD (23 - k % 24))
  have hsum := h.high_add_low (colour.getLsbD (23 - k % 24))
  show start + (k + 1) * tm.bit.toNat + 1 <
    start + k * tm.bit.toNat + 1 + tm.high (colour.getLsbD (23 - k % 24)) + chip.reset
  rw [Nat.succ_mul]
  omega

/-- It ends with the low of its last bit. -/
theorem lastFall_pulses (colour : Word) (start : Nat) (h : tm.Admitted) (hn : n ≠ 0) :
    Pixels.Pixel.lastFall 0 (pulses tm colour n start) + 1 ≤ start + 24 * n * tm.bit.toNat := by
  obtain ⟨m, hm⟩ : ∃ m, 24 * n = m + 1 := ⟨24 * n - 1, by omega⟩
  have hlow := h.twenty_le_low (colour.getLsbD (23 - m % 24))
  have hsum := h.high_add_low (colour.getLsbD (23 - m % 24))
  have hlast : Pixels.Pixel.lastFall 0 (pulses tm colour n start) =
      start + m * tm.bit.toNat + 1 + tm.high (colour.getLsbD (23 - m % 24)) := by
    rw [pulses, hm, List.range_succ, List.map_append, Pixels.Pixel.lastFall, List.foldl_append]
    rfl
  rw [hlast, hm, Nat.succ_mul]
  omega

/-- A pixel of the string keeps the bits of the colour. -/
theorem kept_pulses (hchip : Suits tm chip) (hi : i < n) :
    (((pulses tm colour n start).drop (chip.width * i)).take chip.width).map chip.read =
      colourBits colour := by
  have hread : (pulses tm colour n start).map chip.read =
      (List.range (24 * n)).map fun k => some (colour.getLsbD (23 - k % 24)) := by
    rw [pulses, List.map_map]
    apply List.map_congr_left
    intro k _
    show chip.bit (_ + tm.high _ - _) = _
    rw [Nat.add_sub_cancel_left, hchip.bit]
  rw [List.map_take, List.map_drop, hread, hchip.width, colourBits]
  apply List.ext_getElem
  · simp only [List.length_take, List.length_drop, List.length_map, List.length_range]
    omega
  · intro k hk _
    have hk : k < 24 := by
      simp only [List.length_take] at hk
      omega
    simp [Nat.mod_eq_of_lt hk]

/-- The settle time is enough for every pixel of a string. -/
theorem settle_enough {l : Fin 6 → Word} {b : Bank} {s : Fin 6} (hchip : Suits tm chip)
    (hs : s ∈ b.strings) (hi : i < (l s).toNat) : i * chip.delay + chip.reset ≤ settleCycles l := by
  have hle : (l s).toNat ≤ (maxOfBank l b).toNat := le_maxOfBank b l hs
  have hlongest : (maxOfBank l b).toNat ≤ max (max (maxOfBank l .gpio2).toNat
      (maxOfBank l .gpio1).toNat) (maxOfBank l .gpio0).toNat := by
    cases b <;> simp
  have hdelay : i * chip.delay ≤ (max (max (maxOfBank l .gpio2).toNat (maxOfBank l .gpio1).toNat)
      (maxOfBank l .gpio0).toNat - 1) * propagationCycles :=
    Nat.mul_le_mul (by omega) hchip.delay
  have hreset := hchip.reset
  simp only [settleCycles]
  omega

/-- **A completed frame on a chain.**  At its end every configured pixel shows
the colour, the pixels behind are as they were, and the chain is at rest. -/
theorem chain_completed {b : Bank} {l : Fin 6 → Word} {s : Fin 6} {seq : Word} {now : Nat}
    {tt : List (PruEvent × Nat)} {cur : List PruEvent} {ps : List Pixels.Pixel} {p : Pixels.Pixel}
    (h : tm.Admitted) (hchip : Suits tm chip) (hs : s ∈ b.strings)
    (hcur : Completed tm l seq colour cur) (htt : tt.map Prod.fst = cur) (hclocked : Clocked tt)
    (hrest : ∀ p ∈ ps, p.AtRest chip now) (hp : ps[i]? = some p) :
    ∃ p', (Pixels.chain chip ps (signal (clearAddress b) (pinBit s) now tt))[i]? = some p' ∧
      p'.AtRest chip (now + cycles tt) ∧
      (i < (l s).toNat → p'.showsAt chip (now + cycles tt) = colourBits colour) ∧
      ((l s).toNat ≤ i → p' = p) := by
  obtain ⟨hlow, hsince⟩ := hrest p (List.mem_of_getElem? hp)
  have hkept : p.AtRest chip (now + cycles tt) := ⟨hlow, by omega⟩
  have hwidth : 0 < chip.width := by rw [hchip.width]; decide
  obtain ⟨hnone, hsome⟩ := signal_completed now h hs hcur htt hclocked
  by_cases hmax : maxOfBank l b = 0
  · have hle : (l s).toNat ≤ (maxOfBank l b).toNat := le_maxOfBank b l hs
    have hzero : (l s).toNat = 0 := by
      rw [hmax] at hle
      exact Nat.le_zero.mp hle
    have huntouched : Pixels.chain chip ps [] = ps :=
      Pixels.chain_falls (fun p hp => (hrest p hp).1) nofun
    rw [hnone hmax, huntouched]
    exact ⟨p, hp, hkept, fun hi => absurd hi (by omega), fun _ => rfl⟩
  · obtain ⟨stop, hstop, start, falls, hstart, hend, hsignal, hfalls⟩ := hsome hmax
    have hnow : ∀ q ∈ pulses tm colour (l s).toNat start, now ≤ q.1 := by
      intro q hq
      obtain ⟨k, -, rfl⟩ := List.mem_map.mp hq
      show now ≤ start + k * tm.bit.toNat + 1
      omega
    have hget := Pixels.chain_get hwidth (train_pulses h hchip) hrest hnow hfalls i
    rw [hsignal, hget, hp]
    refine ⟨_, rfl, ?_⟩
    by_cases hi : i < (l s).toNat
    · have hlast := lastFall_pulses colour start h (Nat.ne_zero_of_lt hi)
      have hsettle := settle_enough hchip hs hi
      have hfull : chip.width * (i + 1) ≤ (pulses tm colour (l s).toNat start).length := by
        rw [hchip.width, length_pulses]
        omega
      obtain ⟨hshows, hatRest⟩ := Pixels.showsAt_received (p := p) (τ := now + cycles tt) hwidth hfull
        (by omega)
      refine ⟨hatRest, fun _ => ?_, fun hge => absurd hge (by omega)⟩
      rw [hshows, kept_pulses hchip hi]
    · have hbehind : Pixels.received chip (pulses tm colour (l s).toNat start) i p = p := by
        refine Pixels.received_behind ?_
        rw [hchip.width, length_pulses]
        omega
      rw [hbehind]
      exact ⟨hkept, fun hlt => absurd hlt hi, fun _ => rfl⟩

end Chip

end Pru

end Dld
