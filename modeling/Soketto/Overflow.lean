import Soketto.RoundTrip

/-! Where `decode` panics: the `MASK` arm's `min_len += payload_length` wraps past `2 ^ 64` on a
payload that is not all there, and nowhere else. -/

namespace Soketto

/-- `decode` panics exactly where the reader's rounds reach `MASK` on a payload that is not all
there, and the bytes this call has taken, which `min_len` counts, and the payload length add up
past `2 ^ 64 - 1`. -/
theorem decode_eq_panic (c : FrameCodec) (buf : List UInt8) :
    c.decode buf = .panic ↔ ∃ c' rest, c.erase.Reaches buf c' rest ∧ c'.state = .MASK ∧
      rest.length < c'.payloadLength.toNat ∧
      2 ^ 64 ≤ buf.length - rest.length + c'.payloadLength.toNat := by
  constructor
  · intro panic
    -- The reader's run ends at some round, and `decode` ends there too unless it wraps there.
    by_cases empty : buf = []
    · simp [FrameCodec.decode, empty] at panic
    obtain ⟨c', rest, reaches, exit⟩ := FrameCodec.readFrom_ends c.erase buf
    by_contra safe
    push_neg at safe
    have same := decode_of_reaches empty reaches exit (safe c' rest reaches)
    rw [panic] at same
    exact FrameCodec.step_ne_panic _ _ (same ▸ exit)
  · rintro ⟨c', rest, reaches, mask, short, wraps⟩
    exact decode_panic_of_reaches reaches mask short wraps

/-- On reaching `MASK`, a call has drained at most the fourteen bytes of a header: two, an
eight-byte length and a mask. -/
theorem drained_le_of_reaches {c c' : FrameCodec} {buf rest : List UInt8} (nonempty : buf ≠ [])
    (reaches : c.erase.Reaches buf c' rest) (mask : c'.state = .MASK) :
    buf.length - rest.length ≤ 14 := by
  -- `min_len` counts the drained bytes and is bounded by the state's header bytes.
  obtain ⟨c'', rfl, counts, -⟩ := decode_through nonempty reaches
  rw [FrameCodec.erase_state] at mask
  obtain ⟨drained, bound⟩ := counts.resolve_left (by rw [mask]; exact nofun)
  rw [mask, DecodeState.headerBound] at bound
  omega

/-- `decode` does not panic where no codec the reader reaches on the buffer is at `MASK` with a
payload length within fourteen bytes of `2 ^ 64`: `min_len` then stays below it. -/
theorem decode_ne_panic {c : FrameCodec} {buf : List UInt8}
    (small : ∀ c' rest, c.erase.Reaches buf c' rest → c'.state = .MASK →
      c'.payloadLength.toNat + 14 < 2 ^ 64) : c.decode buf ≠ .panic := by
  intro panic
  by_cases empty : buf = []
  · simp [FrameCodec.decode, empty] at panic
  -- The reader's run ends where `decode` does, since the payload it may wait for cannot wrap.
  obtain ⟨c', rest, reaches, exit⟩ := FrameCodec.readFrom_ends c.erase buf
  have ends := decode_of_reaches empty reaches exit fun mask _ => by
    have := drained_le_of_reaches empty reaches mask
    have := small c' rest reaches mask
    omega
  rw [panic] at ends
  exact FrameCodec.step_ne_panic _ _ (ends ▸ exit)

/-! ### A length that wraps -/

/-- `decode` panics on the header `encode` writes for a well-formed frame whose header and
payload lengths add up past `2 ^ 64 - 1`, followed by fewer bytes than the payload length: the
`MASK` arm's `min_len += payload_length` wraps, and the drain runs past the end of the buffer. -/
theorem decode_wrapping_header {client : Bool} {reservedBits : UInt8} {frame : Frame}
    (valid : frame.Valid client reservedBits) {data : List UInt8}
    (short : data.length < frame.payloadLength.toNat)
    (wraps : 2 ^ 64 ≤
      (encode { frame with applicationData := none } []).length + frame.payloadLength.toNat) :
    (FrameCodec.new client reservedBits).decode
      (encode { frame with applicationData := none } [] ++ data) = .panic := by
  obtain ⟨c, stored, mask, reaches⟩ := reaches_encode valid
  have length : c.payloadLength = frame.payloadLength := congrArg Frame.payloadLength stored
  exact decode_panic_of_reaches (reaches data) mask (by rw [length]; exact short)
    (by simp only [List.length_append, Nat.add_sub_cancel, length]; exact wraps)

/-- An unmasked Binary frame that announces `2 ^ 64 - 10` bytes, and carries them, is well formed
for a server codec. -/
theorem valid_wrapping_binary : Frame.Valid false 0 ⟨true, false, false, false, .Binary, false, 0,
    18446744073709551606, some (List.replicate 18446744073709551606 0), none⟩ :=
  ⟨rfl, fun _ => rfl, nofun, nofun, nofun, nofun, nofun, fun _ => rfl,
    by rw [Option.map_some', List.length_replicate]; rfl, rfl⟩

/-- A server codec panics on the ten header bytes of an unmasked Binary frame that announces
`2 ^ 64 - 10` bytes. -/
theorem decode_wrapping_binary :
    Frame.Valid false 0 ⟨true, false, false, false, .Binary, false, 0, 18446744073709551606,
      some (List.replicate 18446744073709551606 0), none⟩ ∧
    ([] : List UInt8).length < (18446744073709551606 : UInt64).toNat ∧
    2 ^ 64 ≤ (encode ⟨true, false, false, false, .Binary, false, 0, 18446744073709551606, none,
      none⟩ []).length + (18446744073709551606 : UInt64).toNat ∧
    (FrameCodec.new false 0).decode [0x82, 0x7F, 0xFF, 0xFF, 0xFF, 0xFF, 0xFF, 0xFF, 0xFF, 0xF6] =
      .panic :=
  ⟨valid_wrapping_binary, by decide, by decide,
    @decode_wrapping_header false 0 _ valid_wrapping_binary [] (by decide) (by decide)⟩

end Soketto
