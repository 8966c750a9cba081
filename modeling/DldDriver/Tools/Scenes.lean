/-
DldDriver/Tools/Scenes.lean

The scenes of the panel exerciser (`tools/exercise_scenes.py`) in exact
arithmetic, and that none of them leaves the power budget.

    cos, hsv_to_rgb, sha256    parameters, `Library`
-/
import DldDriver.Tools.Apportion
import DldDriver.Tools.EncodeColor
import Mathlib.Algebra.Order.Ring.Rat
import Mathlib.Data.Rat.Floor
import Mathlib.Data.Fin.VecNotation
import Mathlib.Algebra.BigOperators.Field
import Mathlib.Tactic.FinCases
import Mathlib.Tactic.Linarith

namespace Dld

namespace Exercise

open Apportion (apportion byRemainder)

/-- Logical RGB. -/
abbrev Color := Fin 3 → ℤ

/-- `_BLACK` -/
def black : Color := ![0, 0, 0]

/-- `_PRIMARIES` -/
def primaries : Fin 3 → Color := ![![255, 0, 0], ![0, 255, 0], ![0, 0, 255]]

/-- `_BOUNDARIES` -/
def boundaries : Fin 17 → ℤ :=
  ![0, 1, 2, 3, 7, 8, 15, 16, 31, 32, 63, 64, 127, 128, 129, 254, 255]

/-- `_BIT_PATTERNS` -/
def bitPatterns : Fin 12 → Color :=
  ![![0, 0, 0], ![255, 0, 0], ![0, 255, 0], ![0, 0, 255],
    ![0x55, 0xAA, 0], ![0xAA, 0x55, 0],
    ![0, 0x55, 0xAA], ![0, 0xAA, 0x55],
    ![0x55, 0, 0xAA], ![0xAA, 0, 0x55],
    ![0x55, 0x55, 0x55], ![1, 127, 127]]

structure Scene where
  name : String
  duration : ℚ

/-- `SCENES` -/
def scenes : List Scene :=
  [⟨"Rainbow: slow (30 s cycle)", 30⟩,
    ⟨"Rainbow: medium (8 s cycle)", 24⟩,
    ⟨"Rainbow: fast (2 s cycle)", 24⟩,
    ⟨"Primary flashes: 0.5 Hz", 24⟩,
    ⟨"Primary flashes: 1 Hz", 24⟩,
    ⟨"Primary flashes: 2.5 Hz", 24⟩,
    ⟨"Random jumps: 1 Hz", 24⟩,
    ⟨"Random jumps: 2 Hz", 24⟩,
    ⟨"Random jumps: 5 Hz", 24⟩,
    ⟨"Random jumps: 10 Hz", 24⟩,
    ⟨"White breathing", 24⟩,
    ⟨"Pastel breathing", 24⟩,
    ⟨"Panel chase", 24⟩,
    ⟨"Opposed rainbows", 24⟩,
    ⟨"Red-blue counterfade", 24⟩,
    ⟨"Walking bits", 24⟩,
    ⟨"Byte boundaries", 24⟩,
    ⟨"Alternating bit patterns", 24⟩,
    ⟨"Black soak: all zero bits", 12⟩]

/-- `_SCENE_INDEX` -/
def sceneIndex (name : String) : Option Nat := (scenes.map (·.name)).idxOf? name

/-! ### What is called -/

/-- The functions of the standard library that a scene calls. -/
structure Library where
  cos : ℚ → ℚ
  hsvToRgb : ℚ → ℚ → ℚ → Fin 3 → ℚ
  sha256 : List UInt8 → Fin 32 → UInt8

/-- What is known of them: a cosine, and at full value a color of which some
channel is full. -/
structure Library.Documented (lib : Library) : Prop where
  cos_range : ∀ x, -1 ≤ lib.cos x ∧ lib.cos x ≤ 1
  hsv_range : ∀ h s, 0 ≤ h → h < 1 → 0 ≤ s → s ≤ 1 →
    ∀ i, 0 ≤ lib.hsvToRgb h s 1 i ∧ lib.hsvToRgb h s 1 i ≤ 1
  hsv_full : ∀ h s, 0 ≤ h → h < 1 → 0 ≤ s → s ≤ 1 → ∃ i, lib.hsvToRgb h s 1 i = 1

/-- `math.pi`, a double. -/
def pi : ℚ := 884279719003555 / 281474976710656

/-- `round(x)`: half to even. -/
def pyRound (x : ℚ) : ℤ :=
  if Int.fract x < 1 / 2 then ⌊x⌋
  else if 1 / 2 < Int.fract x then ⌊x⌋ + 1
  else if ⌊x⌋ % 2 = 0 then ⌊x⌋ else ⌊x⌋ + 1

/-- `int(x)`: towards zero. -/
def pyInt (x : ℚ) : ℤ := if 0 ≤ x then ⌊x⌋ else ⌈x⌉

/-- `xs[:stop]`; a negative `stop` counts from the end. -/
def sliceTo {α : Type} (xs : List α) (stop : ℤ) : List α :=
  xs.take (if 0 ≤ stop then stop.toNat else (xs.length + stop).toNat)

/-- `xs[k % len(xs)]` -/
def cyclic {α : Type} {n : ℕ} [NeZero n] (xs : Fin n → α) (k : ℤ) : α :=
  have hpos : 0 < n := Nat.pos_of_ne_zero (NeZero.ne n)
  have hlt : (k % n).toNat < n := by
    have := Int.emod_lt_of_pos k (Int.natCast_pos.mpr hpos)
    have := Int.emod_nonneg k (Int.natCast_pos.mpr hpos).ne'
    omega
  xs ⟨(k % n).toNat, hlt⟩

/-! ### The colors -/

/-- `_budget` -/
def budget (rgb : Fin 3 → ℚ) (brightness : ℚ) : Color :=
  let total := ∑ i, rgb i
  if total ≤ 0 ∨ brightness ≤ 0 then black
  else
    let budget : ℤ := min 255 (max 0 (pyRound (255 * brightness)))
    let scaled (i : Fin 3) : ℚ := rgb i * budget / total
    let result : Color := fun i => pyInt (scaled i)
    let missing := budget - ∑ i, result i
    let order := (List.finRange 3).insertionSort fun i j =>
      scaled j - result j ≤ scaled i - result i
    (sliceTo order missing).foldl
      (fun result index => Function.update result index (result index + 1)) result

section

variable (lib : Library)

/-- `_rainbow` -/
def rainbow (hue : ℚ) (brightness saturation : ℚ := 1) : Color :=
  budget (lib.hsvToRgb (Int.fract hue) saturation 1) brightness

/-- `_step` -/
def step (elapsed rate : ℚ) : ℤ := ⌊elapsed * rate + 1 / 10 ^ 9⌋

/-- `_random_color` -/
def randomColor (seed cycle step rate : ℤ) : Color :=
  let identity := toString seed ++ ":" ++ toString cycle ++ ":" ++ toString rate ++ ":" ++
    toString step
  let digest := lib.sha256 (identity.toList.map fun c => UInt8.ofNat c.toNat)
  budget ![(digest 0).toNat + 1, (digest 1).toNat + 1, (digest 2).toNat + 1] 1

/-- `color_at` after its checks. -/
def sceneColor (index : Nat) (elapsed : ℚ) (panelIndex panelCount cycle seed : ℤ) : Color :=
  let phase : ℚ := panelIndex / panelCount
  if h : index < 3 then
    rainbow lib (elapsed / (![30, 8, 2] : Fin 3 → ℚ) ⟨index, h⟩)
  else if h : index < 6 then
    let rate := (![1 / 2, 1, 5 / 2] : Fin 3 → ℚ) ⟨index - 3, by omega⟩
    let halfStep := step elapsed (2 * rate)
    if halfStep % 2 = 0 then cyclic primaries (halfStep / 2) else black
  else if h : index < 10 then
    let rate := (![1, 2, 5, 10] : Fin 4 → ℤ) ⟨index - 6, by omega⟩
    randomColor lib seed cycle (step elapsed rate) rate
  else if index = 10 then
    let brightness := 1 / 2 - 1 / 2 * lib.cos (2 * pi * elapsed / 6)
    budget ![1, 1, 1] brightness
  else if index = 11 then
    let brightness := 1 / 2 - 1 / 2 * lib.cos (2 * pi * elapsed / 8)
    rainbow lib (elapsed / 24 + phase) brightness (45 / 100)
  else if index = 12 then
    -- one lit panel moves every half second
    let step := step elapsed 2
    if step % panelCount = panelIndex then rainbow lib ((step / panelCount : ℤ) / 6) else black
  else if index = 13 then
    let direction : ℚ := if panelIndex % 2 = 0 then 1 else -1
    rainbow lib (direction * elapsed / 8 + phase)
  else if index = 14 then
    let red := 1 / 2 + 1 / 2 * lib.cos (2 * pi * (elapsed / 8 + phase))
    budget ![red, 0, 1 - red] 1
  else if index = 15 then
    let step := step elapsed 5 % 24
    Function.update black ⟨(step / 8).toNat, by omega⟩ (2 ^ (step % 8).toNat)
  else if index = 16 then
    let step := step elapsed 5
    cyclic (fun channel => Function.update black channel (cyclic boundaries step)) (step / 17)
  else if index = 17 then
    cyclic bitPatterns (step elapsed 5)
  else black

end

/-! ### The checks -/

/-- `scene`, `none` if it is no `Scene`. -/
def checkScene (scene : Option Scene) : Except String Nat :=
  match scene.bind fun scene => sceneIndex scene.name with
  | some index => .ok index
  | none => .error "unknown exercise scene"

/-- `elapsed`, `none` if it is infinite or no number. -/
def checkElapsed : Option ℚ → Except String ℚ
  | some elapsed =>
    if elapsed < 0 then .error "elapsed time must be finite and nonnegative" else .ok elapsed
  | none => .error "elapsed time must be finite and nonnegative"

def checkPanel : PyValue → PyValue → Except String (ℤ × ℤ)
  | .int panelIndex, .int panelCount =>
    if panelCount < 1 ∨ ¬ (0 ≤ panelIndex ∧ panelIndex < panelCount) then
      .error "panel index must be within a positive panel count"
    else .ok (panelIndex, panelCount)
  | _, _ => .error "panel index must be within a positive panel count"

def checkSeed : PyValue → PyValue → Except String (ℤ × ℤ)
  | .int cycle, .int seed =>
    if cycle < 0 then .error "seed and cycle must be integers; cycle cannot be negative"
    else .ok (cycle, seed)
  | _, _ => .error "seed and cycle must be integers; cycle cannot be negative"

/-- `color_at` -/
def colorAt (lib : Library) (scene : Option Scene) (elapsed : Option ℚ)
    (panelIndex panelCount cycle seed : PyValue) : Except String Color := do
  let index ← checkScene scene
  let elapsed ← checkElapsed elapsed
  let (panelIndex, panelCount) ← checkPanel panelIndex panelCount
  let (cycle, seed) ← checkSeed cycle seed
  return sceneColor lib index elapsed panelIndex panelCount cycle seed

/-! ### The budget is divided by the largest remainder -/

/-- `budget`, the sum of the channels. -/
def whole (brightness : ℚ) : ℤ := min 255 (max 0 (pyRound (255 * brightness)))

/-- `scaled`, the share of a channel. -/
def share (rgb : Fin 3 → ℚ) (brightness : ℚ) (i : Fin 3) : ℚ :=
  rgb i * whole brightness / ∑ i, rgb i

section Budget

variable {rgb : Fin 3 → ℚ} {brightness : ℚ}

theorem whole_range (brightness : ℚ) : 0 ≤ whole brightness ∧ whole brightness ≤ 255 := by
  rw [whole]
  omega

theorem share_nonneg (hrgb : ∀ i, 0 ≤ rgb i) (brightness : ℚ) (i : Fin 3) :
    0 ≤ share rgb brightness i := by
  have hwhole : (0 : ℚ) ≤ whole brightness := by exact_mod_cast (whole_range brightness).1
  have htotal : 0 ≤ ∑ i, rgb i := Finset.sum_nonneg fun i _ => hrgb i
  exact div_nonneg (mul_nonneg (hrgb i) hwhole) htotal

theorem sum_share (brightness : ℚ) (htotal : 0 < ∑ i, rgb i) :
    ∑ i, share rgb brightness i = whole brightness := by
  simp only [share]
  rw [← Finset.sum_div, ← Finset.sum_mul, mul_div_assoc, mul_comm]
  exact div_mul_cancel₀ _ htotal.ne'

/-- No unit is missing at the wrong end of the list. -/
theorem sliceTo_nonneg {α : Type} (xs : List α) {stop : ℤ} (h : 0 ≤ stop) :
    sliceTo xs stop = xs.take stop.toNat := by
  rw [sliceTo, if_pos h]

theorem budget_eq_apportion (hrgb : ∀ i, 0 ≤ rgb i) (htotal : 0 < ∑ i, rgb i)
    (hbright : 0 < brightness) :
    budget rgb brightness = apportion (share rgb brightness) (whole brightness) := by
  have hresult : (fun i => pyInt (share rgb brightness i)) =
      fun i => ⌊share rgb brightness i⌋ :=
    funext fun i => if_pos (share_nonneg hrgb brightness i)
  have hmissing := Apportion.missing_nonneg (sum_share brightness htotal)
  have hlit : ¬ (∑ i, rgb i ≤ 0 ∨ brightness ≤ 0) := by
    rintro (h | h)
    · exact absurd htotal (not_lt.mpr h)
    · exact absurd hbright (not_lt.mpr h)
  rw [budget, if_neg hlit]
  show (sliceTo ((List.finRange 3).insertionSort fun i j =>
      share rgb brightness j - pyInt (share rgb brightness j) ≤
        share rgb brightness i - pyInt (share rgb brightness i))
    (whole brightness - ∑ i, pyInt (share rgb brightness i))).foldl _
      (fun i => pyInt (share rgb brightness i)) = _
  simp only [funext_iff] at hresult
  simp only [hresult]
  exact congrArg (List.foldl _ _) (sliceTo_nonneg _ hmissing)

/-- What a scene may send. -/
structure Budgeted (rgb : Color) : Prop where
  nonneg : ∀ i, 0 ≤ rgb i
  sum_le : ∑ i, rgb i ≤ 255

instance (rgb : Color) : Decidable (Budgeted rgb) :=
  decidable_of_iff ((∀ i, 0 ≤ rgb i) ∧ ∑ i, rgb i ≤ 255)
    ⟨fun h => ⟨h.1, h.2⟩, fun h => ⟨h.nonneg, h.sum_le⟩⟩

theorem Budgeted.le {rgb : Color} (h : Budgeted rgb) (i : Fin 3) : rgb i ≤ 255 :=
  (Finset.single_le_sum (fun i _ => h.nonneg i) (Finset.mem_univ i)).trans h.sum_le

/-- The packet boundary accepts it. -/
theorem Budgeted.encodeColor {rgb : Color} (h : Budgeted rgb) :
    ∃ packet, encodeColor (List.ofFn fun i => PyValue.int (rgb i)) = .ok packet := by
  have hsum := h.sum_le
  rw [Fin.sum_univ_three] at hsum
  have h0 := h.nonneg 0
  have h1 := h.nonneg 1
  have h2 := h.nonneg 2
  apply (encodeColor_isOk_iff _).mpr
  refine ⟨(rgb 0).toNat, (rgb 1).toNat, (rgb 2).toNat, ?_, by omega, by omega, by omega, by omega⟩
  rw [Int.toNat_of_nonneg h0, Int.toNat_of_nonneg h1, Int.toNat_of_nonneg h2]
  rfl

theorem black_budgeted : Budgeted black := by decide

theorem budget_budgeted (hrgb : ∀ i, 0 ≤ rgb i) (brightness : ℚ) :
    Budgeted (budget rgb brightness) := by
  by_cases hdark : ∑ i, rgb i ≤ 0 ∨ brightness ≤ 0
  · rw [budget, if_pos hdark]
    exact black_budgeted
  obtain ⟨htotal, hbright⟩ := not_or.mp hdark
  rw [budget_eq_apportion hrgb (not_le.mp htotal) (not_le.mp hbright)]
  constructor
  · exact Apportion.apportion_nonneg (share_nonneg hrgb brightness) _
  · rw [Apportion.sum_apportion (sum_share brightness (not_le.mp htotal))]
    exact (whole_range brightness).2

/-- A larger channel never gets less. -/
theorem budget_mono (hrgb : ∀ i, 0 ≤ rgb i) (htotal : 0 < ∑ i, rgb i) (hbright : 0 < brightness)
    {i j : Fin 3} (h : rgb j < rgb i) : budget rgb brightness j ≤ budget rgb brightness i := by
  have hsum := Apportion.sum_apportion (sum_share brightness htotal)
  have hnonneg := Apportion.apportion_nonneg (share_nonneg hrgb brightness) (whole brightness)
  rw [budget_eq_apportion hrgb htotal hbright]
  rcases (whole_range brightness).1.eq_or_lt with hzero | hpos
  · -- nothing to divide
    rw [← hzero] at hsum hnonneg ⊢
    have hall := (Finset.sum_eq_zero_iff_of_nonneg fun i _ => hnonneg i).mp hsum
    rw [hall i (Finset.mem_univ i), hall j (Finset.mem_univ j)]
  · have hwhole : (0 : ℚ) < whole brightness := by exact_mod_cast hpos
    apply Apportion.apportion_mono
    exact div_lt_div_of_pos_right (mul_lt_mul_of_pos_right h hwhole) htotal

end Budget

/-! ### No scene leaves the budget -/

section Scenes

variable {lib : Library}

theorem cyclic_mem {α : Type} {n : ℕ} [NeZero n] {P : α → Prop} {xs : Fin n → α}
    (h : ∀ i, P (xs i)) (k : ℤ) : P (cyclic xs k) := h _

theorem update_black_budgeted (channel : Fin 3) {v : ℤ} (hv : 0 ≤ v ∧ v ≤ 255) :
    Budgeted (Function.update black channel v) := by
  constructor
  · intro i
    rcases eq_or_ne i channel with rfl | hne
    · rw [Function.update_self]
      exact hv.1
    · rw [Function.update_of_ne hne]
      exact black_budgeted.nonneg i
  · rw [Fin.sum_univ_three]
    fin_cases channel <;> simp [Function.update, black, hv.2]

theorem rainbow_budgeted (h : lib.Documented) (hue brightness : ℚ) {saturation : ℚ}
    (hsat : 0 ≤ saturation ∧ saturation ≤ 1) :
    Budgeted (rainbow lib hue brightness saturation) :=
  budget_budgeted (fun i => (h.hsv_range _ _ (Int.fract_nonneg hue) (Int.fract_lt_one hue)
    hsat.1 hsat.2 i).1) brightness

theorem randomColor_budgeted (seed cycle step rate : ℤ) :
    Budgeted (randomColor lib seed cycle step rate) := by
  apply budget_budgeted
  intro i
  fin_cases i <;> exact add_nonneg (Nat.cast_nonneg _) zero_le_one

/-- Half a cosine above a half. -/
theorem half_cos_range (h : lib.Documented) (x : ℚ) :
    0 ≤ 1 / 2 + 1 / 2 * lib.cos x ∧ 1 / 2 + 1 / 2 * lib.cos x ≤ 1 := by
  have hcos := h.cos_range x
  constructor <;> linarith

theorem sceneColor_budgeted (h : lib.Documented) (index : Nat) (elapsed : ℚ)
    (panelIndex panelCount cycle seed : ℤ) :
    Budgeted (sceneColor lib index elapsed panelIndex panelCount cycle seed) := by
  have hfull : (0 : ℚ) ≤ 1 ∧ (1 : ℚ) ≤ 1 := by norm_num
  unfold sceneColor
  dsimp only
  by_cases h3 : index < 3
  · rw [dif_pos h3]
    exact rainbow_budgeted h _ _ hfull
  rw [dif_neg h3]
  by_cases h6 : index < 6
  · rw [dif_pos h6]
    split_ifs
    · exact cyclic_mem (by decide) _
    · exact black_budgeted
  rw [dif_neg h6]
  by_cases h10 : index < 10
  · rw [dif_pos h10]
    exact randomColor_budgeted _ _ _ _
  rw [dif_neg h10]
  by_cases hbreathing : index = 10
  · rw [if_pos hbreathing]
    exact budget_budgeted (by decide) _
  rw [if_neg hbreathing]
  by_cases hpastel : index = 11
  · rw [if_pos hpastel]
    exact rainbow_budgeted h _ _ (by norm_num)
  rw [if_neg hpastel]
  by_cases hchase : index = 12
  · rw [if_pos hchase]
    split_ifs
    · exact rainbow_budgeted h _ _ hfull
    · exact black_budgeted
  rw [if_neg hchase]
  by_cases hopposed : index = 13
  · rw [if_pos hopposed]
    exact rainbow_budgeted h _ _ hfull
  rw [if_neg hopposed]
  by_cases hfade : index = 14
  · rw [if_pos hfade]
    have hred := half_cos_range h (2 * pi * (elapsed / 8 + panelIndex / panelCount))
    apply budget_budgeted
    intro i
    fin_cases i
    · exact hred.1
    · exact le_rfl
    · exact sub_nonneg.mpr hred.2
  rw [if_neg hfade]
  by_cases hwalking : index = 15
  · rw [if_pos hwalking]
    apply update_black_budgeted
    have hexponent : (step elapsed 5 % 24 % 8).toNat ≤ 7 := by omega
    have hpow : (2 : ℤ) ^ (step elapsed 5 % 24 % 8).toNat ≤ 2 ^ 7 :=
      pow_le_pow_right₀ (by norm_num) hexponent
    exact ⟨by positivity, hpow.trans (by norm_num)⟩
  rw [if_neg hwalking]
  by_cases hboundary : index = 16
  · rw [if_pos hboundary]
    apply cyclic_mem
    intro channel
    apply update_black_budgeted
    exact cyclic_mem (P := fun v => 0 ≤ v ∧ v ≤ 255) (by decide) _
  rw [if_neg hboundary]
  by_cases hpatterns : index = 17
  · rw [if_pos hpatterns]
    exact cyclic_mem (by decide) _
  rw [if_neg hpatterns]
  exact black_budgeted

end Scenes

theorem checkScene_isOk_iff (scene : Option Scene) :
    (∃ index, checkScene scene = .ok index) ↔ ∃ s, scene = some s ∧ s.name ∈ scenes.map (·.name) := by
  constructor
  · rintro ⟨index, h⟩
    unfold checkScene at h
    rcases scene with - | scene
    · cases h
    by_cases hmem : scene.name ∈ scenes.map (·.name)
    · exact ⟨scene, rfl, hmem⟩
    · rw [Option.bind_some, sceneIndex, List.idxOf?_eq_none_iff.mpr hmem] at h
      cases h
  · rintro ⟨scene, rfl, hmem⟩
    obtain ⟨index, hindex⟩ := Option.isSome_iff_exists.mp (List.isSome_idxOf?.mpr hmem)
    refine ⟨index, ?_⟩
    rw [checkScene, Option.bind_some, sceneIndex, hindex]

theorem checkElapsed_isOk_iff (elapsed : Option ℚ) :
    (∃ time, checkElapsed elapsed = .ok time) ↔ ∃ time, elapsed = some time ∧ 0 ≤ time := by
  rcases elapsed with - | time
  · simp [checkElapsed]
  · by_cases h : time < 0
    · simp [checkElapsed, h]
    · simp [checkElapsed, h, not_lt.mp h]

theorem checkPanel_isOk_iff (panelIndex panelCount : PyValue) :
    (∃ panel, checkPanel panelIndex panelCount = .ok panel) ↔
      ∃ i n, panelIndex = .int i ∧ panelCount = .int n ∧ 0 ≤ i ∧ i < n := by
  rcases panelIndex with i | - <;> rcases panelCount with n | -
  · by_cases h : 0 ≤ i ∧ i < n
    · have hcount : ¬ n < 1 := by omega
      simp [checkPanel, h, hcount]
    · simp [checkPanel, h]
  all_goals simp [checkPanel]

theorem checkSeed_isOk_iff (cycle seed : PyValue) :
    (∃ pair, checkSeed cycle seed = .ok pair) ↔
      ∃ c s, cycle = .int c ∧ seed = .int s ∧ 0 ≤ c := by
  rcases cycle with c | - <;> rcases seed with s | -
  · by_cases h : c < 0
    · simp [checkSeed, h]
    · simp [checkSeed, h, not_lt.mp h]
  all_goals simp [checkSeed]

theorem bind_ok_iff {α β : Type} (x : Except String α) (f : α → Except String β) (b : β) :
    (x >>= f) = .ok b ↔ ∃ a, x = .ok a ∧ f a = .ok b := by
  constructor
  · intro h
    rcases x with e | a
    · cases h
    · exact ⟨a, rfl, h⟩
  · rintro ⟨a, rfl, h⟩
    exact h

/-- **What is accepted**: a scene by its name, a time from its beginning on, a
panel among the panels, and a cycle with a seed. -/
theorem colorAt_isOk_iff (lib : Library) (scene : Option Scene) (elapsed : Option ℚ)
    (panelIndex panelCount cycle seed : PyValue) :
    (∃ rgb, colorAt lib scene elapsed panelIndex panelCount cycle seed = .ok rgb) ↔
      (∃ s, scene = some s ∧ s.name ∈ scenes.map (·.name)) ∧ (∃ time, elapsed = some time ∧ 0 ≤ time) ∧
        (∃ i n, panelIndex = .int i ∧ panelCount = .int n ∧ 0 ≤ i ∧ i < n) ∧
        ∃ c s, cycle = .int c ∧ seed = .int s ∧ 0 ≤ c := by
  rw [← checkScene_isOk_iff, ← checkElapsed_isOk_iff, ← checkPanel_isOk_iff, ← checkSeed_isOk_iff]
  simp only [colorAt, bind_ok_iff]
  constructor
  · rintro ⟨rgb, index, hindex, time, htime, panel, hpanel, pair, hpair, -⟩
    exact ⟨⟨index, hindex⟩, ⟨time, htime⟩, ⟨panel, hpanel⟩, ⟨pair, hpair⟩⟩
  · rintro ⟨⟨index, hindex⟩, ⟨time, htime⟩, ⟨panel, hpanel⟩, ⟨pair, hpair⟩⟩
    exact ⟨_, index, hindex, time, htime, panel, hpanel, pair, hpair, rfl⟩

/-- What a returned color comes from. -/
theorem colorAt_ok {lib : Library} {scene : Option Scene} {elapsed : Option ℚ}
    {panelIndex panelCount cycle seed : PyValue} {rgb : Color}
    (h : colorAt lib scene elapsed panelIndex panelCount cycle seed = .ok rgb) :
    ∃ index elapsed panelIndex panelCount cycle seed,
      rgb = sceneColor lib index elapsed panelIndex panelCount cycle seed := by
  simp only [colorAt, bind_ok_iff] at h
  obtain ⟨index, -, time, -, ⟨i, n⟩, -, ⟨c, k⟩, -, hrgb⟩ := h
  exact ⟨index, time, i, n, c, k, (Except.ok.inj hrgb).symm⟩

/-- **The budget**: a division into whole channels with exactly the requested
sum, each rounded down or up, in the order of the input; and every color of
every scene passes the packet boundary. -/
theorem budget_exact_and_scenes_encode (lib : Library) (h : lib.Documented) :
    (∀ (rgb : Fin 3 → ℚ) (brightness : ℚ), (∀ i, 0 ≤ rgb i) → 0 < ∑ i, rgb i → 0 < brightness →
      let whole : ℤ := min 255 (max 0 (pyRound (255 * brightness)))
      let share (i : Fin 3) : ℚ := rgb i * whole / ∑ i, rgb i
      let result := budget rgb brightness
      ∑ i, result i = whole ∧
        (∀ i, result i = ⌊share i⌋ ∨ result i = ⌊share i⌋ + 1) ∧
        (∀ i, result i ≤ 255) ∧
        ∀ i j, rgb j < rgb i → result j ≤ result i) ∧
    ∀ (scene : Option Scene) (elapsed : Option ℚ) (panelIndex panelCount cycle seed : PyValue)
      (rgb : Color), colorAt lib scene elapsed panelIndex panelCount cycle seed = .ok rgb →
      ∃ packet, encodeColor (List.ofFn fun i => PyValue.int (rgb i)) = .ok packet := by
  constructor
  · intro rgb brightness hrgb htotal hbright
    have heq := budget_eq_apportion hrgb htotal hbright
    refine ⟨?_, ?_, ?_, ?_⟩
    · show ∑ i, budget rgb brightness i = whole brightness
      rw [heq]
      exact Apportion.sum_apportion (sum_share brightness htotal)
    · intro i
      show budget rgb brightness i = ⌊share rgb brightness i⌋ ∨ _ = ⌊share rgb brightness i⌋ + 1
      rw [heq]
      exact Apportion.apportion_floor _ _ i
    · exact (budget_budgeted hrgb brightness).le
    · intro i j hless
      exact budget_mono hrgb htotal hbright hless
  · intro scene elapsed panelIndex panelCount cycle seed rgb hrgb
    obtain ⟨_, _, _, _, _, _, rfl⟩ := colorAt_ok hrgb
    exact (sceneColor_budgeted h ..).encodeColor

/-! ### `colorsys` -/

/-- `colorsys.hsv_to_rgb` -/
def hsvToRgb (h s v : ℚ) : Fin 3 → ℚ :=
  if s = 0 then ![v, v, v]
  else
    let i := pyInt (h * 6)
    let f := h * 6 - i
    let p := v * (1 - s)
    let q := v * (1 - s * f)
    let t := v * (1 - s * (1 - f))
    let i := i % 6
    if i = 0 then ![v, t, p]
    else if i = 1 then ![q, v, p]
    else if i = 2 then ![p, v, t]
    else if i = 3 then ![p, q, v]
    else if i = 4 then ![t, p, v]
    else ![v, p, q]

/-- A color with a full channel and two within bounds. -/
theorem hsvToRgb_full {h s : ℚ} (hh : 0 ≤ h) (hs : 0 ≤ s ∧ s ≤ 1) :
    (∀ i, 0 ≤ hsvToRgb h s 1 i ∧ hsvToRgb h s 1 i ≤ 1) ∧ ∃ i, hsvToRgb h s 1 i = 1 := by
  have hone : (0 : ℚ) ≤ 1 ∧ (1 : ℚ) ≤ 1 := by norm_num
  unfold hsvToRgb
  by_cases hgray : s = 0
  · rw [if_pos hgray]
    exact ⟨by decide, 0, rfl⟩
  rw [if_neg hgray]
  have hint : pyInt (h * 6) = ⌊h * 6⌋ := if_pos (by positivity)
  rw [hint]
  have hf := Int.fract_nonneg (h * 6)
  have hf' := (Int.fract_lt_one (h * 6)).le
  rw [show h * 6 - (⌊h * 6⌋ : ℚ) = Int.fract (h * 6) from rfl]
  -- the channels that are not full
  have hp : 0 ≤ 1 * (1 - s) ∧ 1 * (1 - s) ≤ 1 := by constructor <;> linarith
  have hsf : s * Int.fract (h * 6) ≤ 1 := mul_le_one₀ hs.2 hf hf'
  have hq : 0 ≤ 1 * (1 - s * Int.fract (h * 6)) ∧ 1 * (1 - s * Int.fract (h * 6)) ≤ 1 := by
    have := mul_nonneg hs.1 hf
    constructor <;> linarith
  have hst : s * (1 - Int.fract (h * 6)) ≤ 1 := mul_le_one₀ hs.2 (by linarith) (by linarith)
  have ht : 0 ≤ 1 * (1 - s * (1 - Int.fract (h * 6))) ∧
      1 * (1 - s * (1 - Int.fract (h * 6))) ≤ 1 := by
    have := mul_nonneg hs.1 (sub_nonneg.mpr hf')
    constructor <;> linarith
  have hthree {a b c : ℚ} (ha : 0 ≤ a ∧ a ≤ 1) (hb : 0 ≤ b ∧ b ≤ 1) (hc : 0 ≤ c ∧ c ≤ 1) (i : Fin 3) :
      0 ≤ (![a, b, c] : Fin 3 → ℚ) i ∧ (![a, b, c] : Fin 3 → ℚ) i ≤ 1 := by
    fin_cases i
    · exact ha
    · exact hb
    · exact hc
  split_ifs
  · exact ⟨hthree hone ht hp, 0, rfl⟩
  · exact ⟨hthree hq hone hp, 1, rfl⟩
  · exact ⟨hthree hp hone ht, 1, rfl⟩
  · exact ⟨hthree hp hq hone, 2, rfl⟩
  · exact ⟨hthree ht hp hone, 2, rfl⟩
  · exact ⟨hthree hone hp hq, 0, rfl⟩

/-- `colorsys` as it is, a cosine that is exact at 0, and no digest. -/
def library : Library where
  cos x := max (-1) (min 1 (1 - x ^ 2 / 2 + x ^ 4 / 24))
  hsvToRgb := hsvToRgb
  sha256 _ _ := 0

theorem library_documented : library.Documented where
  cos_range x := ⟨le_max_left _ _, max_le (by norm_num) (min_le_left _ _)⟩
  hsv_range _ _ hh _ hs hs' := (hsvToRgb_full hh ⟨hs, hs'⟩).1
  hsv_full _ _ hh _ hs hs' := (hsvToRgb_full hh ⟨hs, hs'⟩).2

/-- The beginning of the counterfade on a single panel. -/
theorem counterfade_encodes :
    colorAt library (some ⟨"Red-blue counterfade", 24⟩) (some 0) (.int 0) (.int 1) (.int 0) (.int 1) =
      .ok ![255, 0, 0] ∧
    ∃ packet, encodeColor (List.ofFn fun i => PyValue.int ((![255, 0, 0] : Color) i)) = .ok packet := by
  have hcolor : colorAt library (some ⟨"Red-blue counterfade", 24⟩) (some 0) (.int 0) (.int 1)
      (.int 0) (.int 1) = .ok ![255, 0, 0] := by
    have hscene : checkScene (some ⟨"Red-blue counterfade", 24⟩) = .ok 14 := rfl
    have hrgb : sceneColor library 14 0 0 1 0 1 = ![255, 0, 0] := by decide +kernel
    rw [colorAt, hscene]
    exact congrArg Except.ok hrgb
  exact ⟨hcolor, (budget_exact_and_scenes_encode library library_documented).2 _ _ _ _ _ _ _ hcolor⟩

end Exercise

end Dld
