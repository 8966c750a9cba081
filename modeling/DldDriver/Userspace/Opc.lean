/-
DldDriver/Userspace/Opc.lean

`dld_opc_color` (`src/dld_opc.c`), read by read, and the encoder of the
panel exerciser.  The function takes a pointer and a length; its model is a
program whose operations are the reads of single bytes, so that it can be
said which bytes are read.  `dldOpcColor_exec` connects it to the function
on lists that the receiver uses.
-/
import DldDriver.Interaction.Prog
import DldDriver.Tools.EncodeColor
import DldDriver.Userspace.Flash

namespace Dld

open Interaction

/-- `enum dld_opc_result` -/
inductive DldOpcCode
  | valid
  | malformed
  | unsupported
  deriving DecidableEq

/-- Programs that read bytes by their index. -/
abbrev ByteProg := Prog Nat fun _ => UInt8

/-- `dld_opc_color(packet, length, rgb)`: the code, and `*rgb` afterwards.  Its
tests of the two pointers against `NULL` are left out: both are addresses. -/
def dldOpcColorAt (length : Nat) (rgb : Word) : ByteProg (DldOpcCode × Word) :=
  if length < 4 then pure (.malformed, rgb) else do
  let high ← Prog.op 2
  let low ← Prog.op 3
  let payload := high.toNat <<< 8 ||| low.toNat
  if payload < 3 ∨ payload > length - 4 then pure (.malformed, rgb) else do
  let command ← Prog.op 1
  if command ≠ 0 then pure (.unsupported, rgb) else do
  let red ← Prog.op 4
  let green ← Prog.op 5
  let blue ← Prog.op 6
  pure (.valid, colourByte red 16 ||| colourByte green 8 ||| colourByte blue 0)

/-- The call on the bytes of a packet. -/
def opcDecode (packet : List UInt8) (rgb : Word) : DldOpcCode × Word :=
  ((dldOpcColorAt packet.length rgb).exec fun i => packet.getD i 0).2

/-- The declared payload length. -/
def payloadLength (packet : List UInt8) : Nat :=
  (packet.getD 2 0).toNat * 256 + (packet.getD 3 0).toNat

/-- The length is well formed: a header, and three bytes of payload at least
that are all there. -/
def WellFormed (packet : List UInt8) : Prop :=
  4 ≤ packet.length ∧ 3 ≤ payloadLength packet ∧ payloadLength packet ≤ packet.length - 4

instance (packet : List UInt8) : Decidable (WellFormed packet) :=
  inferInstanceAs (Decidable (_ ∧ _ ∧ _))

/-- The colour at the start of the payload. -/
def payloadColour (packet : List UInt8) : Word :=
  colourByte (packet.getD 4 0) 16 ||| colourByte (packet.getD 5 0) 8 ||| colourByte (packet.getD 6 0) 0

theorem payload_eq (high low : UInt8) :
    high.toNat <<< 8 ||| low.toNat = high.toNat * 256 + low.toNat := by
  rw [← Nat.shiftLeft_add_eq_or_of_lt low.toNat_lt, Nat.shiftLeft_eq]

/-- The three ways a call goes. -/
theorem opcDecode_eq (packet : List UInt8) (rgb : Word) :
    opcDecode packet rgb =
      if ¬ WellFormed packet then (.malformed, rgb)
      else if packet.getD 1 0 ≠ 0 then (.unsupported, rgb)
      else (.valid, payloadColour packet) := by
  by_cases hshort : packet.length < 4
  · have hnot : ¬ WellFormed packet := fun h => absurd h.1 (Nat.not_le.mpr hshort)
    rw [if_pos hnot, opcDecode, dldOpcColorAt, if_pos hshort]
    rfl
  · have hexec : opcDecode packet rgb =
        ((if (packet.getD 2 0).toNat <<< 8 ||| (packet.getD 3 0).toNat < 3 ∨
            (packet.getD 2 0).toNat <<< 8 ||| (packet.getD 3 0).toNat > packet.length - 4 then
          pure (.malformed, rgb)
        else do
          let command ← Prog.op 1
          if command ≠ 0 then pure (.unsupported, rgb) else do
          let red ← Prog.op 4
          let green ← Prog.op 5
          let blue ← Prog.op 6
          pure (.valid, colourByte red 16 ||| colourByte green 8 ||| colourByte blue 0) :
          ByteProg (DldOpcCode × Word)).exec fun i => packet.getD i 0).2 := by
      rw [opcDecode, dldOpcColorAt, if_neg hshort]
      rfl
    rw [hexec, payload_eq]
    by_cases hpayload : payloadLength packet < 3 ∨ payloadLength packet > packet.length - 4
    · have hnot : ¬ WellFormed packet := by
        rintro ⟨-, hthree, hfits⟩
        omega
      rw [if_pos hnot, payloadLength] at *
      rw [if_pos hpayload]
      rfl
    · have hwell : WellFormed packet := by
        rw [WellFormed]
        omega
      rw [if_neg (not_not.mpr hwell)]
      rw [payloadLength] at hpayload
      rw [if_neg hpayload]
      by_cases hcommand : packet.getD 1 0 ≠ 0
      · rw [if_pos hcommand]
        show ((if packet.getD 1 0 ≠ 0 then _ else _ : ByteProg _).exec _).2 = _
        rw [if_pos hcommand]
        rfl
      · rw [if_neg hcommand]
        show ((if packet.getD 1 0 ≠ 0 then _ else _ : ByteProg _).exec _).2 = _
        rw [if_neg hcommand]
        rfl

/-- The receiver's function on lists, by the three ways of the call. -/
theorem dldOpcColor_eq (packet : List UInt8) :
    dldOpcColor packet =
      if ¬ WellFormed packet then .malformed
      else if packet.getD 1 0 ≠ 0 then .unsupported
      else .valid (payloadColour packet) := by
  have hshort (h : packet.length < 4) : ¬ WellFormed packet :=
    fun hwell => absurd hwell.1 (Nat.not_le.mpr h)
  match packet with
  | [] => exact (if_pos (hshort (by simp))).symm
  | [_] => exact (if_pos (hshort (by simp))).symm
  | [_, _] => exact (if_pos (hshort (by simp))).symm
  | [_, _, _] => exact (if_pos (hshort (by simp))).symm
  | channel :: command :: high :: low :: data =>
    have hwell : WellFormed (channel :: command :: high :: low :: data) ↔
        ¬ (high.toNat * 256 + low.toNat < 3 ∨ high.toNat * 256 + low.toNat > data.length) := by
      show 4 ≤ data.length + 4 ∧ 3 ≤ high.toNat * 256 + low.toNat ∧
        high.toNat * 256 + low.toNat ≤ data.length + 4 - 4 ↔ _
      omega
    by_cases hpayload : high.toNat * 256 + low.toNat < 3 ∨ high.toNat * 256 + low.toNat > data.length
    · rw [if_pos fun h => hwell.mp h hpayload]
      exact if_pos hpayload
    · rw [if_neg (not_not.mpr (hwell.mpr hpayload))]
      show (if high.toNat * 256 + low.toNat < 3 ∨ high.toNat * 256 + low.toNat > data.length then _
        else if command ≠ 0 then _ else _) = if command ≠ 0 then _ else _
      rw [if_neg hpayload]
      by_cases hcommand : command ≠ 0
      · rw [if_pos hcommand, if_pos hcommand]
      · rw [if_neg hcommand, if_neg hcommand]
        -- three bytes at least follow the header
        match data with
        | [] => exact absurd (by simp; omega) hpayload
        | [_] => exact absurd (by simp; omega) hpayload
        | [_, _] => exact absurd (by simp; omega) hpayload
        | _ :: _ :: _ :: _ => rfl

/-- **The call and the receiver's function are one.** -/
theorem dldOpcColor_exec (packet : List UInt8) (rgb : Word) :
    dldOpcColor packet =
      match opcDecode packet rgb with
      | (.valid, color) => .valid color
      | (.malformed, _) => .malformed
      | (.unsupported, _) => .unsupported := by
  rw [dldOpcColor_eq, opcDecode_eq]
  by_cases hwell : WellFormed packet
  · rw [if_neg (not_not.mpr hwell), if_neg (not_not.mpr hwell)]
    by_cases hcommand : packet.getD 1 0 ≠ 0
    · rw [if_pos hcommand, if_pos hcommand]
    · rw [if_neg hcommand, if_neg hcommand]
  · rw [if_pos hwell, if_pos hwell]

/-- No byte beyond the length is read, whatever the bytes are. -/
theorem dldOpcColorAt_reads (length : Nat) (rgb : Word) :
    (dldOpcColorAt length rgb).Emits fun e => e.1 < length := by
  refine Prog.emits_ite (fun _ => Prog.emits_pure _) fun hlength => ?_
  refine Prog.emits_op_bind.mpr fun high => ⟨by show 2 < length; omega, ?_⟩
  refine Prog.emits_op_bind.mpr fun low => ⟨by show 3 < length; omega, ?_⟩
  refine Prog.emits_ite (fun _ => Prog.emits_pure _) fun hpayload => ?_
  refine Prog.emits_op_bind.mpr fun command => ⟨by show 1 < length; omega, ?_⟩
  refine Prog.emits_ite (fun _ => Prog.emits_pure _) fun _ => ?_
  refine Prog.emits_op_bind.mpr fun red => ⟨by show 4 < length; omega, ?_⟩
  refine Prog.emits_op_bind.mpr fun green => ⟨by show 5 < length; omega, ?_⟩
  exact Prog.emits_op_bind.mpr fun blue => ⟨by show 6 < length; omega, Prog.emits_pure _⟩

/-- The number of three bytes in their places. -/
theorem toNat_colourBytes {r g b : Nat} (hr : r ≤ 255) (hg : g ≤ 255) (hb : b ≤ 255) :
    (colourByte (UInt8.ofNat r) 16 ||| colourByte (UInt8.ofNat g) 8 |||
      colourByte (UInt8.ofNat b) 0).toNat = r * 65536 + g * 256 + b := by
  have hbyte {n : Nat} (hn : n ≤ 255) : (BitVec.ofNat 32 (UInt8.ofNat n).toNat).toNat = n := by
    rw [UInt8.toNat_ofNat', BitVec.toNat_ofNat]
    omega
  have horder : colourByte (UInt8.ofNat r) 16 ||| colourByte (UInt8.ofNat g) 8 |||
      colourByte (UInt8.ofNat b) 0 = (((0 : Word) ||| BitVec.ofNat 32 (UInt8.ofNat b).toNat <<< 0) |||
        BitVec.ofNat 32 (UInt8.ofNat g).toNat <<< 8) ||| BitVec.ofNat 32 (UInt8.ofNat r).toNat <<< 16 := by
    have hzero (x : Word) : 0 ||| x = x := by simp
    rw [hzero, BitVec.or_comm, BitVec.or_comm (colourByte (UInt8.ofNat r) 16), ← BitVec.or_assoc]
    rfl
  rw [horder, toNat_bytes, hbyte hr, hbyte hg, hbyte hb]
  · omega
  · rw [hbyte hb]
    omega
  · rw [hbyte hg]
    omega
  · rw [hbyte hr]
    omega

/-- What the decoder does with every packet. -/
structure OpcDecoding : Prop where
  valid : ∀ packet rgb, (opcDecode packet rgb).1 = .valid ↔
    4 ≤ packet.length ∧ 3 ≤ payloadLength packet ∧ payloadLength packet ≤ packet.length - 4 ∧
      packet.getD 1 0 = 0
  /-- A malformed length comes before the command. -/
  malformed : ∀ packet rgb, ¬ WellFormed packet → (opcDecode packet rgb).1 = .malformed
  reads : ∀ length rgb, (dldOpcColorAt length rgb).Emits fun e => e.1 < length
  unchanged : ∀ packet rgb, (opcDecode packet rgb).1 ≠ .valid → (opcDecode packet rgb).2 = rgb
  /-- Neither the channel nor anything from index 7 on matters. -/
  independent : ∀ packet packet' rgb, packet'.length = packet.length →
    (∀ i, 1 ≤ i → i < 7 → packet'.getD i 0 = packet.getD i 0) →
    opcDecode packet' rgb = opcDecode packet rgb

theorem opcDecoding : OpcDecoding := by
  refine ⟨fun packet rgb => ?_, fun packet rgb hnot => ?_, dldOpcColorAt_reads, fun packet rgb hcode => ?_,
    fun packet packet' rgb hlength hsame => ?_⟩
  · rw [opcDecode_eq]
    by_cases hwell : WellFormed packet
    · rw [if_neg (not_not.mpr hwell)]
      obtain ⟨h4, h3, hfits⟩ := hwell
      by_cases hcommand : packet.getD 1 0 ≠ 0
      · rw [if_pos hcommand]
        exact iff_of_false nofun fun h => hcommand h.2.2.2
      · rw [if_neg hcommand]
        exact iff_of_true rfl ⟨h4, h3, hfits, not_not.mp hcommand⟩
    · rw [if_pos hwell]
      exact iff_of_false nofun fun h => hwell ⟨h.1, h.2.1, h.2.2.1⟩
  · rw [opcDecode_eq, if_pos hnot]
  · rw [opcDecode_eq] at hcode ⊢
    by_cases hwell : WellFormed packet
    · rw [if_neg (not_not.mpr hwell)] at hcode ⊢
      by_cases hcommand : packet.getD 1 0 ≠ 0
      · rw [if_pos hcommand]
      · rw [if_neg hcommand] at hcode
        exact absurd rfl hcode
    · rw [if_pos hwell]
  · have hpayload : payloadLength packet' = payloadLength packet := by
      rw [payloadLength, payloadLength, hsame 2 (by omega) (by omega), hsame 3 (by omega) (by omega)]
    have hwell : WellFormed packet' ↔ WellFormed packet := by
      rw [WellFormed, WellFormed, hlength, hpayload]
    have hcolour : payloadColour packet' = payloadColour packet := by
      rw [payloadColour, payloadColour, hsame 4 (by omega) (by omega), hsame 5 (by omega) (by omega),
        hsame 6 (by omega) (by omega)]
    rw [opcDecode_eq, opcDecode_eq, hsame 1 (by omega) (by omega), hcolour]
    exact if_congr (not_congr hwell) rfl rfl

/-- **Decoder and encoder.**  The decoder accepts its format and nothing
else, reads nothing beyond the packet and stores nothing on a refusal; and
what `encode_color` accepts, and only that, comes back from its packet,
whatever the channel and whatever follows. -/
theorem opc_decoding_encoder :
    OpcDecoding ∧
    (∀ rgb, (∃ packet, encodeColor rgb = .ok packet) ↔ ∃ r g b, WithinBudget rgb r g b) ∧
    ∀ rgb r g b, WithinBudget rgb r g b → ∃ packet, encodeColor rgb = .ok packet ∧
      ∀ (channel : UInt8) (appended : List UInt8) (before : Word), ∃ color,
        opcDecode (packet.set 0 channel ++ appended) before = (.valid, color) ∧
          color.toNat = r * 65536 + g * 256 + b := by
  refine ⟨opcDecoding, encodeColor_isOk_iff, fun rgb r g b h => ⟨_, encodeColor_ok h, ?_⟩⟩
  intro channel appended before
  obtain ⟨-, hr, hg, hb, -⟩ := h
  refine ⟨colourByte (UInt8.ofNat r) 16 ||| colourByte (UInt8.ofNat g) 8 |||
    colourByte (UInt8.ofNat b) 0, ?_, toNat_colourBytes hr hg hb⟩
  have hwell : WellFormed ([channel, 0, 0, 3, UInt8.ofNat r, UInt8.ofNat g, UInt8.ofNat b] ++ appended) := by
    have hlength : ([channel, 0, 0, 3, UInt8.ofNat r, UInt8.ofNat g, UInt8.ofNat b] ++
        appended).length = 7 + appended.length := by
      rw [List.length_append]
      rfl
    have hpayload : payloadLength ([channel, 0, 0, 3, UInt8.ofNat r, UInt8.ofNat g, UInt8.ofNat b] ++
        appended) = 3 := by
      show (0 : UInt8).toNat * 256 + (3 : UInt8).toNat = 3
      decide
    rw [WellFormed, hlength, hpayload]
    omega
  show opcDecode ([channel, 0, 0, 3, UInt8.ofNat r, UInt8.ofNat g, UInt8.ofNat b] ++ appended) before = _
  rw [opcDecode_eq, if_neg (not_not.mpr hwell)]
  rfl

end Dld
