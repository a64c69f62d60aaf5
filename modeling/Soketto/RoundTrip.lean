import Soketto.Refinement

/-! Encoding and decoding undo each other: the bytes `encode` writes for a frame are read back
by `decode`, and the bytes `decode` reads are the bytes `encode` writes for the frame it hands
out. -/

namespace Soketto

/-! ### Header bytes -/

/-- A statement about every byte follows from its 256 instances. -/
theorem byte_cases {P : UInt8 → Prop} (each : ∀ n : Fin 256, P (UInt8.ofNat n)) (b : UInt8) :
    P b := by
  have := each ⟨b.toNat, UInt8.toNat_lt_size b⟩
  rwa [show UInt8.ofNat b.toNat = b from
    UInt8.toNat.inj (UInt8.toNat_ofNat_of_lt (UInt8.toNat_lt_size b))] at this

/-- The first header byte of a frame carries its four flags and its opcode. -/
theorem firstByte_flags (msg : Frame) :
    (firstByte msg &&& 0x80 != 0) = msg.fin ∧ (firstByte msg &&& 0x40 != 0) = msg.rsv1 ∧
      (firstByte msg &&& 0x20 != 0) = msg.rsv2 ∧ (firstByte msg &&& 0x10 != 0) = msg.rsv3 ∧
      OpCode.fromU8 (firstByte msg &&& 0x0F) = msg.opcode := by
  -- `firstByte` reads only these five fields: sixteen flag patterns by sixteen opcodes.
  have each : ∀ fin rsv1 rsv2 rsv3 : Bool, ∀ op : OpCode,
      let b := firstByte ⟨fin, rsv1, rsv2, rsv3, op, false, 0, 0, none, none⟩
      (b &&& 0x80 != 0) = fin ∧ (b &&& 0x40 != 0) = rsv1 ∧ (b &&& 0x20 != 0) = rsv2 ∧
        (b &&& 0x10 != 0) = rsv3 ∧ OpCode.fromU8 (b &&& 0x0F) = op := by
    set_option maxRecDepth 8000 in decide
  exact each msg.fin msg.rsv1 msg.rsv2 msg.rsv3 msg.opcode

/-- A first byte whose opcode bits are not reserved is the first byte of the flags it holds. -/
theorem firstByte_of_flags (b : UInt8) (valid : (OpCode.fromU8 (b &&& 0x0F)).isInvalid = false) :
    firstByte ⟨b &&& 0x80 != 0, b &&& 0x40 != 0, b &&& 0x20 != 0, b &&& 0x10 != 0,
      OpCode.fromU8 (b &&& 0x0F), false, 0, 0, none, none⟩ = b := by
  revert valid
  refine byte_cases (P := fun b => (OpCode.fromU8 (b &&& 0x0F)).isInvalid = false →
    firstByte ⟨b &&& 0x80 != 0, b &&& 0x40 != 0, b &&& 0x20 != 0, b &&& 0x10 != 0,
      OpCode.fromU8 (b &&& 0x0F), false, 0, 0, none, none⟩ = b) ?_ b
  set_option maxRecDepth 8000 in decide

/-- The second header byte carries the mask flag over a seven-bit length code. -/
theorem secondByte_flags (masked : Bool) (code : UInt8) (small : code.toNat < 128) :
    (((if masked then 0x80 else 0) ||| code) &&& 0x80 != 0) = masked ∧
      ((if masked then 0x80 else 0) ||| code) &&& 0x7F = code := by
  have each : ∀ masked : Bool, ∀ n : Fin 128,
      ((((if masked then 0x80 else 0) ||| UInt8.ofNat n) &&& 0x80 != 0) = masked ∧
        ((if masked then 0x80 else 0) ||| UInt8.ofNat n) &&& 0x7F = UInt8.ofNat n) := by
    set_option maxRecDepth 8000 in decide
  have := each masked ⟨code.toNat, small⟩
  rwa [show UInt8.ofNat code.toNat = code from
    UInt8.toNat.inj (UInt8.toNat_ofNat_of_lt (UInt8.toNat_lt_size code))] at this

/-- Every second byte is its mask flag over its length code. -/
theorem secondByte_of_flags (b : UInt8) :
    (if b &&& 0x80 != 0 then 0x80 else 0) ||| b &&& 0x7F = b := by
  refine byte_cases (P := fun b => (if b &&& 0x80 != 0 then 0x80 else 0) ||| b &&& 0x7F = b) ?_ b
  set_option maxRecDepth 8000 in decide

/-- A length code is seven bits. -/
theorem lengthCode_lt (b : UInt8) : (b &&& 0x7F).toNat < 128 := by
  refine byte_cases (P := fun b => (b &&& 0x7F).toNat < 128) ?_ b
  set_option maxRecDepth 8000 in decide

/-- Storing the header bytes of a frame stores its flags, its opcode and its length code. -/
theorem withHeader_encoded (c : FrameCodec) (frame : Frame) {code : UInt8}
    (small : code.toNat < 128) :
    c.withHeader (firstByte frame) ((if frame.masked then 0x80 else 0) ||| code) =
      { c with fin := frame.fin, rsv1 := frame.rsv1, rsv2 := frame.rsv2, rsv3 := frame.rsv3,
               opcode := frame.opcode, masked := frame.masked, lengthCode := code,
               state := .HEADER } := by
  obtain ⟨fin, rsv1, rsv2, rsv3, opcode⟩ := firstByte_flags frame
  obtain ⟨masked, lengthCode⟩ := secondByte_flags frame.masked code small
  simp only [FrameCodec.withHeader, fin, rsv1, rsv2, rsv3, opcode, masked, lengthCode]

/-! ### The length and the mask -/

/-- The three length encodings `encode` chooses between, by the value of the length. -/
theorem lengthField_eq (masked : Bool) (len : UInt64) :
    lengthField masked len =
      if len.toNat < 126 then [(if masked then 0x80 else 0) ||| len.toUInt8]
      else if len.toNat < 65536 then ((if masked then 0x80 else 0) ||| twoExt) :: writeU16 len.toUInt16
      else ((if masked then 0x80 else 0) ||| eightExt) :: writeU64 len := by
  simp [lengthField, lt_iff_toNat_lt, UInt64.size]

/-- The length field `encode` writes is a second byte over a seven-bit code, followed by the
extended length that code calls for. -/
theorem lengthField_extended (masked : Bool) (len : UInt64) :
    ∃ code ext, lengthField masked len = ((if masked then 0x80 else 0) ||| code) :: ext ∧
      code.toNat < 128 ∧ ExtendedLength code ext len := by
  have bound : len.toNat < 256 ^ 8 := UInt64.toNat_lt_size len
  unfold ExtendedLength
  rw [lengthField_eq]
  by_cases small : len.toNat < 126
  · -- Inline: the code is the length.
    have code : len.toUInt8.toNat = len.toNat := by simp; omega
    refine ⟨len.toUInt8, [], by rw [if_pos small], by omega, ?_⟩
    rw [if_neg (fun two => by simp [two] at code; omega),
      if_neg (fun eight => by simp [eight] at code; omega)]
    exact ⟨rfl, UInt64.toNat.inj (by simp; omega)⟩
  by_cases medium : len.toNat < 65536
  · -- Two extension bytes.
    refine ⟨twoExt, writeU16 len.toUInt16, by rw [if_neg small, if_pos medium], by decide, ?_⟩
    rw [if_pos rfl, writeU16_eq, beValue_beBytes]
    exact ⟨beBytes_length _ _, by simp; omega⟩
  · -- Eight extension bytes.
    refine ⟨eightExt, writeU64 len, by rw [if_neg small, if_neg medium], by decide, ?_⟩
    rw [if_neg (by decide), if_pos rfl, writeU64_eq, beValue_beBytes, Nat.mod_eq_of_lt bound]
    exact ⟨beBytes_length _ _, rfl⟩

/-- An extended length in its shortest encoding is the one `encode` writes. -/
theorem lengthField_of_extended (masked : Bool) {code : UInt8} {ext : List UInt8} {len : UInt64}
    (small : code.toNat < 128) (extended : ExtendedLength code ext len)
    (minimal : (code = twoExt → 126 ≤ len.toNat) ∧ (code = eightExt → 65536 ≤ len.toNat)) :
    lengthField masked len = ((if masked then 0x80 else 0) ||| code) :: ext := by
  unfold ExtendedLength at extended
  split_ifs at extended with two eight
  · -- Two extension bytes hold a length from 126 on.
    subst two
    obtain ⟨exact, worth⟩ := extended
    have fits : len.toNat < 65536 := by
      have := beValue_lt ext
      rw [exact] at this
      omega
    have long := minimal.1 rfl
    rw [lengthField_eq, if_neg (by omega), if_pos fits]
    congr 1
    rw [writeU16_eq, ← exact, show len.toUInt16.toNat = beValue ext by simp; omega, beBytes_beValue]
  · -- Eight extension bytes hold a length from 65536 on.
    subst eight
    obtain ⟨exact, worth⟩ := extended
    have long := minimal.2 rfl
    rw [lengthField_eq, if_neg (by omega), if_neg (by omega)]
    congr 1
    rw [writeU64_eq, ← exact, worth, beBytes_beValue]
  · -- An inline code is below 126.
    obtain ⟨rfl, rfl⟩ := extended
    have inline : code.toNat < 126 := by
      have : code.toNat ≠ 126 := fun same => two (UInt8.toNat.inj (by simp [same]))
      have : code.toNat ≠ 127 := fun same => eight (UInt8.toNat.inj (by simp [same]))
      omega
    rw [lengthField_eq, if_pos (by simpa using inline)]
    congr
    exact UInt8.toNat.inj (by simp; omega)

/-- The mask field `encode` writes is the one the `LENGTH` arm reads. -/
theorem maskField_encoded (masked : Bool) (key : UInt32) (unmasked : masked = false → key = 0) :
    MaskField masked (if masked then writeU32 key else []) key := by
  unfold MaskField
  split_ifs with isMasked
  · have small : key.toNat < 256 ^ 4 := UInt32.toNat_lt_size key
    exact ⟨beBytes_length _ _, by rw [writeU32_eq, beValue_beBytes, Nat.mod_eq_of_lt small]⟩
  · exact ⟨rfl, unmasked (by simpa using isMasked)⟩

/-- The mask field the `LENGTH` arm reads is the one `encode` writes. -/
theorem maskField_bytes {masked : Bool} {keyBytes : List UInt8} {key : UInt32}
    (field : MaskField masked keyBytes key) :
    (if masked then writeU32 key else []) = keyBytes := by
  unfold MaskField at field
  split_ifs at field ⊢
  · rw [writeU32_eq, field.2, ← field.1, beBytes_beValue]
  · exact field.1.symm

/-! ### Reading back what `encode` wrote -/

/-- `frame` with its application data masked under its own key again when it is masked: what
`decode` hands out for a frame `encode` wrote, and the frame whose encoding `decode` read. -/
def Frame.toggleMask (frame : Frame) : Frame :=
  { frame with applicationData :=
      if frame.masked then frame.applicationData.map (applyMask · frame.mask)
      else frame.applicationData }

/-- The header `encode` writes for a frame: everything but the application data. -/
theorem encode_header (frame : Frame) :
    encode { frame with applicationData := none } [] =
      firstByte frame :: lengthField frame.masked frame.payloadLength ++
        (if frame.masked then writeU32 frame.mask else []) := by
  simp only [encode, List.nil_append, Option.getD_none, List.append_nil]
  rfl

/-- `encode` writes the header, then the application data. -/
theorem encode_split (frame : Frame) :
    encode frame [] = encode { frame with applicationData := none } [] ++
      frame.applicationData.getD [] := by
  rw [encode_header]
  simp [encode]

/-- From a fresh codec, the reader's rounds take the header, the length and the mask `encode`
wrote for a well-formed frame, whatever follows them, and reach `MASK` with the frame's
fields. -/
theorem reaches_encode {client : Bool} {reservedBits : UInt8} {frame : Frame}
    (valid : frame.Valid client reservedBits) :
    ∃ c : FrameCodec, c.toFrame = { frame with applicationData := none } ∧ c.state = .MASK ∧
      ∀ rest, (FrameCodec.new client reservedBits).Reaches
        (encode { frame with applicationData := none } [] ++ rest) c rest := by
  obtain ⟨code, ext, field, small, extended⟩ := lengthField_extended frame.masked frame.payloadLength
  have stored := withHeader_encoded (FrameCodec.new client reservedBits) frame small
  generalize parsed : (FrameCodec.new client reservedBits).withHeader (firstByte frame)
    ((if frame.masked then 0x80 else 0) ||| code) = header at stored
  -- One round per field, each by the arm's own lemma.
  have checks : header.HeaderChecks := by
    rw [stored]
    exact ⟨valid.rsv1_allowed, valid.rsv2_allowed, valid.rsv3_allowed, valid.opcode_valid,
      valid.control_fin, valid.client_masked⟩
  have headerRound : ∀ more, (FrameCodec.new client reservedBits).step
      (firstByte frame :: ((if frame.masked then 0x80 else 0) ||| code) :: more) =
        .next header more :=
    fun more => FrameCodec.stepNone_next.mpr ⟨_, _, rfl, parsed.symm, parsed ▸ checks⟩
  have lengthRound : ∀ more, header.step (ext ++ more) =
      .next { header with payloadLength := frame.payloadLength, state := .LENGTH } more :=
    fun more => by
      subst stored
      exact FrameCodec.stepHeader_next.mpr ⟨ext, _, rfl, extended, valid.control_length, rfl⟩
  have maskRound : ∀ more,
      ({ header with payloadLength := frame.payloadLength, state := .LENGTH } : FrameCodec).step
        ((if frame.masked then writeU32 frame.mask else []) ++ more) =
      .next
        { header with payloadLength := frame.payloadLength, maskKey := frame.mask, state := .MASK }
        more :=
    fun more => FrameCodec.stepLength_next.mpr ⟨_, _, rfl,
      by rw [stored]; exact maskField_encoded _ _ valid.unmasked_key, rfl⟩
  refine ⟨{ header with payloadLength := frame.payloadLength, maskKey := frame.mask, state := .MASK },
    ?_, rfl, fun rest => ?_⟩
  · rw [stored]
    simp [FrameCodec.toFrame, FrameCodec.new, FrameCodec.setReservedBits, FrameCodec.setClient,
      FrameCodec.default, valid.no_extension]
  · rw [encode_header, field]
    simp only [List.cons_append, List.append_assoc]
    exact .round (headerRound _) (.round (lengthRound _) (.round (maskRound rest) (.refl _ _)))

/-- From a fresh codec, the reader takes the header, the length and the mask `encode` wrote for
a well-formed frame, whatever follows them, and is left at `MASK` with the frame's fields. -/
theorem readFrom_encode {client : Bool} {reservedBits : UInt8} {frame : Frame}
    (valid : frame.Valid client reservedBits) :
    ∃ c : FrameCodec, c.toFrame = { frame with applicationData := none } ∧
      ∀ rest, (FrameCodec.new client reservedBits).readFrom (encode frame [] ++ rest) =
        c.readMask (frame.applicationData.getD [] ++ rest) := by
  obtain ⟨c, stored, mask, reaches⟩ := reaches_encode valid
  refine ⟨c, stored, fun rest => ?_⟩
  rw [encode_split, List.append_assoc, (reaches _).readFrom, FrameCodec.readFrom, mask]

/-- A well-formed frame's payload, as `encode` writes it, has the announced length. -/
theorem Frame.Valid.payload_length {client : Bool} {reservedBits : UInt8} {frame : Frame}
    (valid : frame.Valid client reservedBits) :
    (frame.applicationData.getD []).length = frame.payloadLength.toNat := by
  have data := valid.data_length
  split_ifs at data with empty
  · simp only [Option.map_eq_none'] at data
    simp [data, empty]
  · obtain ⟨bytes, stored, fits⟩ := Option.map_eq_some'.mp data
    simpa [stored] using fits

/-- A well-formed frame with a nonempty payload carries its data. -/
theorem Frame.Valid.data_some {client : Bool} {reservedBits : UInt8} {frame : Frame}
    (valid : frame.Valid client reservedBits) (nonempty : 0 < frame.payloadLength) :
    frame.applicationData = some (frame.applicationData.getD []) := by
  have data := valid.data_length
  rw [if_neg (fun empty => by simp [empty, lt_iff_toNat_lt] at nonempty)] at data
  obtain ⟨bytes, stored, -⟩ := Option.map_eq_some'.mp data
  simp [stored]

/-- A well-formed frame with an empty payload carries no data. -/
theorem Frame.Valid.data_none {client : Bool} {reservedBits : UInt8} {frame : Frame}
    (valid : frame.Valid client reservedBits) (empty : ¬0 < frame.payloadLength) :
    frame.applicationData = none := by
  have zero : frame.payloadLength = 0 := UInt64.toNat.inj (by simpa [lt_iff_toNat_lt] using empty)
  simpa [zero] using valid.data_length

/-- From the codec `readFrom_encode` leaves, a masked or empty payload gives the frame with its
data unmasked, leaving what follows. -/
theorem readMask_encoded {c : FrameCodec} {client : Bool} {reservedBits : UInt8} {frame : Frame}
    (stored : c.toFrame = { frame with applicationData := none })
    (valid : frame.Valid client reservedBits)
    (unmaskable : frame.masked = true ∨ frame.payloadLength = 0) :
    ∃ c' : FrameCodec, ∀ more, c.readMask (frame.applicationData.getD [] ++ more) =
      .done (.ok (some frame.toggleMask)) c' more := by
  have length : c.payloadLength = frame.payloadLength := congrArg Frame.payloadLength stored
  have masked : c.masked = frame.masked := congrArg Frame.masked stored
  have nonempty_masked : 0 < c.payloadLength → c.masked = true := fun nonempty =>
    masked ▸ unmaskable.resolve_right fun empty => by simp [length, empty] at nonempty
  -- The frame handed out is the stored header with the payload unmasked under the frame's key.
  have handed : (c.withPayload (frame.applicationData.getD [])).toFrame = frame.toggleMask := by
    have key : c.maskKey = frame.mask := congrArg Frame.mask stored
    have empty : c.applicationData = none := congrArg Frame.applicationData stored
    rw [FrameCodec.withPayload_toFrame, stored, length, key, empty]
    by_cases nonempty : 0 < frame.payloadLength
    · obtain ⟨bytes, data⟩ : ∃ bytes, frame.applicationData = some bytes :=
        ⟨_, valid.data_some nonempty⟩
      have isMasked := nonempty_masked (length ▸ nonempty)
      rw [masked] at isMasked
      simp only [if_pos nonempty, Frame.toggleMask, isMasked, if_true, data, Option.map_some',
        Option.getD_some]
    · simp only [if_neg nonempty, Frame.toggleMask, valid.data_none nonempty, Option.map_none',
        ite_self]
  exact ⟨_, fun more => handed ▸ FrameCodec.readMask_payload more
    (by rw [length]; exact valid.payload_length) nonempty_masked⟩

/-- From the codec `readFrom_encode` leaves, an unmasked nonempty payload is refused once it is
all there, leaving what follows. -/
theorem readMask_encoded_unmasked {c : FrameCodec} {client : Bool} {reservedBits : UInt8}
    {frame : Frame} (stored : c.toFrame = { frame with applicationData := none })
    (valid : frame.Valid client reservedBits) (unmasked : frame.masked = false)
    (nonempty : 0 < frame.payloadLength) (more : List UInt8) :
    c.readMask (frame.applicationData.getD [] ++ more) = .done (.error "cannot unmask data") c more := by
  have length : c.payloadLength = frame.payloadLength := congrArg Frame.payloadLength stored
  exact FrameCodec.readMask_unmasked more (by rw [length]; exact valid.payload_length)
    (length ▸ nonempty) ((congrArg Frame.masked stored).trans unmasked)

/-- `encode` always writes something. -/
theorem encode_append_ne_nil (frame : Frame) (rest : List UInt8) : encode frame [] ++ rest ≠ [] := by
  simp [encode]

/-- A fresh codec decodes the bytes `encode` wrote for a well-formed frame that is masked or
empty, whatever follows them: it hands out the frame with its data unmasked, and leaves exactly
the bytes that follow. -/
theorem decode_encode {client : Bool} {reservedBits : UInt8} {frame : Frame}
    (valid : frame.Valid client reservedBits)
    (unmaskable : frame.masked = true ∨ frame.payloadLength = 0) (rest : List UInt8) :
    ∃ c, (FrameCodec.new client reservedBits).decode (encode frame [] ++ rest) =
      .done (.ok (some frame.toggleMask)) c rest := by
  obtain ⟨header, stored, reads⟩ := readFrom_encode valid
  obtain ⟨final, finish⟩ := readMask_encoded stored valid unmaskable
  have whole : ∀ more, (FrameCodec.new client reservedBits).erase.readFrom
      (encode frame [] ++ rest ++ more) = .done (.ok (some frame.toggleMask)) final (rest ++ more) :=
    fun more => by rw [FrameCodec.erase_new, List.append_assoc, reads, finish]
  obtain ⟨c, decoded, -⟩ := decode_of_forall (encode_append_ne_nil frame rest) whole
  exact ⟨c, decoded⟩

/-- A masked Text frame carrying "Hi" comes back from a server codec unmasked. -/
theorem decode_encode_text :
    Frame.Valid true 0 ⟨true, false, false, false, .Text, true, 0x01020304, 2,
        some [0x48, 0x69], none⟩ ∧
      (true = true ∨ (2 : UInt64) = 0) ∧
      ∃ c, (FrameCodec.new true 0).decode
          (encode ⟨true, false, false, false, .Text, true, 0x01020304, 2, some [0x48, 0x69], none⟩ [] ++
            []) =
        .done (.ok (some (Frame.toggleMask ⟨true, false, false, false, .Text, true, 0x01020304, 2,
          some [0x48, 0x69], none⟩))) c [] :=
  ⟨by decide, .inl rfl, decode_encode (by decide) (.inl rfl) []⟩

/-- A fresh codec refuses the bytes `encode` wrote for any well-formed unmasked frame with a
payload, whatever its configuration and whatever follows: the `MASK` arm drains the payload and
fails with "cannot unmask data". -/
theorem decode_encode_unmasked {client : Bool} {reservedBits : UInt8} {frame : Frame}
    (valid : frame.Valid client reservedBits) (unmasked : frame.masked = false)
    (nonempty : 0 < frame.payloadLength) (rest : List UInt8) :
    ∃ c, (FrameCodec.new client reservedBits).decode (encode frame [] ++ rest) =
      .done (.error "cannot unmask data") c rest := by
  obtain ⟨header, stored, reads⟩ := readFrom_encode valid
  have whole : ∀ more, (FrameCodec.new client reservedBits).erase.readFrom
      (encode frame [] ++ rest ++ more) = .done (.error "cannot unmask data") header (rest ++ more) :=
    fun more => by
      rw [FrameCodec.erase_new, List.append_assoc, reads,
        readMask_encoded_unmasked stored valid unmasked nonempty]
  obtain ⟨c, decoded, -⟩ := decode_of_forall (encode_append_ne_nil frame rest) whole
  exact ⟨c, decoded⟩

/-- An unmasked one-byte Binary frame from a server, `0x82 0x01 0x41`, is refused by the client
codec it is meant for. -/
theorem decode_encode_unmasked_binary :
    Frame.Valid false 0 ⟨true, false, false, false, .Binary, false, 0, 1, some [0x41], none⟩ ∧
      false = false ∧ (0 : UInt64) < 1 ∧
      ∃ c, (FrameCodec.new false 0).decode
          (encode ⟨true, false, false, false, .Binary, false, 0, 1, some [0x41], none⟩ [] ++ []) =
        .done (.error "cannot unmask data") c [] :=
  ⟨by decide, rfl, by decide, decode_encode_unmasked (by decide) rfl (by decide) []⟩

/-! ### Encoding back what `decode` read -/

/-- The length code of a header names the shortest encoding of the length after it, as `encode`
always writes: code 126 only for lengths from 126 on, code 127 only from 65536 on. The protocol
asks for this, and `decode` does not check it. -/
def MinimalLength : List UInt8 → Prop
  | _ :: second :: rest =>
    (second &&& 0x7F = twoExt → 126 ≤ beValue (rest.take 2)) ∧
      (second &&& 0x7F = eightExt → 65536 ≤ beValue (rest.take 8))
  | _ => True

/-- Whether a header uses the shortest length encoding can be checked. -/
instance (bytes : List UInt8) : Decidable (MinimalLength bytes) :=
  match bytes with
  | _ :: _ :: _ => inferInstanceAs (Decidable (_ ∧ _))
  | [] => isTrue trivial
  | [_] => isTrue trivial

/-- The shortest-encoding condition on the bytes, read on the length they carry. -/
theorem minimal_of_extended {code : UInt8} {ext more : List UInt8} {len : UInt64}
    (extended : ExtendedLength code ext len)
    (minimal : (code = twoExt → 126 ≤ beValue ((ext ++ more).take 2)) ∧
      (code = eightExt → 65536 ≤ beValue ((ext ++ more).take 8))) :
    (code = twoExt → 126 ≤ len.toNat) ∧ (code = eightExt → 65536 ≤ len.toNat) := by
  unfold ExtendedLength at extended
  split_ifs at extended with two eight
  · obtain ⟨exact, worth⟩ := extended
    refine ⟨fun _ => ?_, fun eight => absurd (two.symm.trans eight) (by decide)⟩
    rw [worth]
    simpa [List.take_left' exact] using minimal.1 two
  · obtain ⟨exact, worth⟩ := extended
    refine ⟨fun two' => absurd two' two, fun _ => ?_⟩
    rw [worth]
    simpa [List.take_left' exact] using minimal.2 eight
  · exact ⟨fun two' => absurd two' two, fun eight' => absurd eight' eight⟩

/-- Whatever frame a fresh codec decodes from bytes in the shortest length encoding, those
bytes are what `encode` writes for the frame with its data masked again, followed by the bytes
`decode` left. -/
theorem encode_decode {client : Bool} {reservedBits : UInt8} {bytes rest : List UInt8}
    {frame : Frame} {c : FrameCodec}
    (decoded : (FrameCodec.new client reservedBits).decode bytes = .done (.ok (some frame)) c rest)
    (minimal : MinimalLength bytes) : bytes = encode frame.toggleMask [] ++ rest := by
  have read := read_of_decode decoded
  have nonempty : bytes ≠ [] := by
    rintro rfl
    simp [FrameCodec.read] at read
  simp only [FrameCodec.erase_new, FrameCodec.read, if_neg nonempty, FrameCodec.readFrom,
    FrameCodec.new_state] at read
  -- The four rounds that lead to the frame, each inverted by its arm's lemma.
  obtain ⟨c₁, buf₁, none, read⟩ := FrameCodec.readNone_frame read
  obtain ⟨c₂, buf₂, header, read⟩ := FrameCodec.readHeader_frame read
  obtain ⟨c₃, buf₃, length, read⟩ := FrameCodec.readLength_frame read
  obtain ⟨mask, rfl⟩ := FrameCodec.readMask_frame read
  obtain ⟨first, second, rfl, rfl, checks⟩ := FrameCodec.stepNone_next.mp none
  obtain ⟨ext, len, rfl, extended, -, rfl⟩ := FrameCodec.stepHeader_next.mp header
  obtain ⟨keyBytes, key, rfl, field, rfl⟩ := FrameCodec.stepLength_next.mp length
  obtain ⟨data, rfl, fits, unmaskable, payload⟩ := FrameCodec.stepMask_next.mp mask
  rw [payload, FrameCodec.withPayload_toFrame]
  simp only [FrameCodec.withHeader, FrameCodec.new_applicationData,
    FrameCodec.new_extensionData] at extended field fits unmaskable checks ⊢
  simp only [encode, Frame.toggleMask, FrameCodec.toFrame, List.nil_append, List.cons_append,
    List.append_assoc]
  -- Each field `encode` writes is the one the round read.
  rw [lengthField_of_extended _ (lengthCode_lt second) extended (minimal_of_extended extended minimal),
    secondByte_of_flags, maskField_bytes field, List.cons_append]
  congr 2
  · exact (firstByte_of_flags first checks.2.2.2.1).symm
  · -- The payload is unmasked again under the same key, or there is none.
    by_cases nonempty : 0 < len
    · simp [unmaskable nonempty, nonempty]
    · have empty : data = [] :=
        List.length_eq_zero.mp (by rw [fits]; simpa [lt_iff_toNat_lt] using nonempty)
      simp [nonempty, empty]

/-- A masked Text frame carrying "Hi" under the key `01 02 03 04` is decoded with its data
unmasked, and `encode` writes the same bytes again for that frame masked back. -/
theorem encode_decode_text :
    ∃ c, (FrameCodec.new true 0).decode [0x81, 0x82, 1, 2, 3, 4, 0x48, 0x69] =
        .done (.ok (some ⟨true, false, false, false, .Text, true, 0x01020304, 2, some [0x49, 0x6B],
          none⟩)) c [] ∧
      MinimalLength [0x81, 0x82, 1, 2, 3, 4, 0x48, 0x69] ∧
      [0x81, 0x82, 1, 2, 3, 4, 0x48, 0x69] =
        encode (Frame.toggleMask ⟨true, false, false, false, .Text, true, 0x01020304, 2,
          some [0x49, 0x6B], none⟩) [] ++ [] :=
  ⟨_, rfl, by decide, @encode_decode true 0 _ _ _ _ rfl (by decide)⟩

end Soketto
