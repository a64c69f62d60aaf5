import Soketto.Overflow

/-! Runs of `decode` calls on one codec: what every codec reached without an error knows about
the frame it is reading, and what a codec does after it has handed out a frame or refused one. -/

namespace Soketto

namespace FrameCodec

/-- What a codec reached without an error knows about the frame it is reading, by how far it
has got: the configuration it was given, the checks of the arms it has passed, and application
data only once the frame is complete. -/
structure Consistent (client : Bool) (reservedBits : UInt8) (c : FrameCodec) : Prop where
  /-- The configuration is the one it was given. -/
  client_eq : c.client = client
  reservedBits_eq : c.reservedBits = reservedBits
  /-- No extension data is ever stored. -/
  no_extension : c.extensionData = none
  /-- Past `NONE`, the header passed the checks of the `NONE` arm. -/
  header : c.state ≠ .NONE → c.HeaderChecks
  /-- Past `HEADER`, a control frame carries at most 125 bytes. -/
  control_length : 2 ≤ c.state.rank → c.opcode.isControl = true → c.payloadLength ≤ 125
  /-- Past `LENGTH`, an unmasked frame has the zero key. -/
  unmasked_key : 3 ≤ c.state.rank → c.masked = false → c.maskKey = 0
  /-- Before `FULL`, no application data. -/
  partial_data : c.state ≠ .FULL → c.applicationData = none
  /-- At `FULL`, the payload, of its announced length, unless it is empty. -/
  full_data : c.state = .FULL → c.applicationData.map List.length =
    if c.payloadLength = 0 then none else some c.payloadLength.toNat

/-- A fresh codec knows nothing yet and holds nothing. -/
theorem consistent_new (client : Bool) (reservedBits : UInt8) :
    (new client reservedBits).Consistent client reservedBits :=
  ⟨rfl, rfl, rfl, fun fresh => absurd rfl fresh, fun deep => by simp [DecodeState.rank] at deep,
    fun deep => by simp [DecodeState.rank] at deep, fun _ => rfl, fun full => by cases full⟩

/-- `min_len` is no part of what a codec knows. -/
theorem consistent_erase {client : Bool} {reservedBits : UInt8} {c : FrameCodec} :
    c.erase.Consistent client reservedBits ↔ c.Consistent client reservedBits :=
  ⟨fun known => ⟨known.1, known.2, known.3, known.4, known.5, known.6, known.7, known.8⟩,
    fun known => ⟨known.1, known.2, known.3, known.4, known.5, known.6, known.7, known.8⟩⟩

/-- A complete frame that a consistent codec holds follows the structural rules. -/
theorem Consistent.toFrame_valid {client : Bool} {reservedBits : UInt8} {c : FrameCodec}
    (known : c.Consistent client reservedBits) (full : c.state = .FULL) :
    c.toFrame.Valid client reservedBits := by
  have passed := known.header (by simp [full])
  have deep : ∀ n, n ≤ 4 → n ≤ c.state.rank := fun n small => by
    simp [full, DecodeState.rank, small]
  obtain ⟨rsv1, rsv2, rsv3, opcode, fin, masked⟩ := passed
  rw [known.reservedBits_eq] at rsv1 rsv2 rsv3
  exact ⟨opcode, fin, known.control_length (deep 2 (by omega)), rsv1, rsv2, rsv3,
    known.client_eq ▸ masked, known.unmasked_key (deep 3 (by omega)), known.full_data full,
    known.no_extension⟩

variable {client : Bool} {reservedBits : UInt8} {c c' : FrameCodec} {buf buf' : List UInt8}

/-- Each round of the reader that goes on keeps what the codec knows, adding the check of the
arm it ran. -/
theorem Consistent.step (known : c.Consistent client reservedBits)
    (next : c.step buf = .next c' buf') : c'.Consistent client reservedBits := by
  unfold FrameCodec.step at next
  cases state : c.state <;> simp only [state] at next
  · -- `NONE`: the header is stored, with its checks passed.
    obtain ⟨first, second, -, rfl, checks⟩ := stepNone_next.mp next
    exact ⟨known.1, known.2, known.3, fun _ => checks, fun deep => by simp [withHeader,
      DecodeState.rank] at deep, fun deep => by simp [withHeader, DecodeState.rank] at deep,
      fun _ => known.partial_data (by simp [state]), fun full => by cases full⟩
  · -- `HEADER`: the length is stored, with the control check passed.
    obtain ⟨ext, len, -, -, allowed, rfl⟩ := stepHeader_next.mp next
    exact ⟨known.1, known.2, known.3, fun _ => known.header (by simp [state]), fun _ => allowed,
      fun deep => by simp [DecodeState.rank] at deep, fun _ => known.partial_data (by simp [state]),
      fun full => by cases full⟩
  · -- `LENGTH`: the key is stored, zero unless masked.
    obtain ⟨keyBytes, key, -, field, rfl⟩ := stepLength_next.mp next
    refine ⟨known.1, known.2, known.3, fun _ => known.header (by simp [state]),
      fun _ => known.control_length (by simp [state, DecodeState.rank]), fun _ unmasked => ?_,
      fun _ => known.partial_data (by simp [state]), fun full => by cases full⟩
    rw [MaskField, if_neg (by simpa using unmasked)] at field
    exact field.2
  · -- `MASK`: the payload is stored, unmasked, when there is one.
    obtain ⟨data, -, fits, -, rfl⟩ := stepMask_next.mp next
    have empty := known.partial_data (by simp [state])
    have header := known.header (by simp [state])
    have control := known.control_length (by simp [state, DecodeState.rank])
    have key := known.unmasked_key (by simp [state, DecodeState.rank])
    unfold withPayload
    split_ifs with nonempty
    · refine ⟨known.1, known.2, known.3, fun _ => header, fun _ => control, fun _ => key,
        fun notFull => absurd rfl notFull, fun _ => ?_⟩
      dsimp only
      rw [if_neg (fun zero => by simp [zero] at nonempty)]
      simp [applyMask, fits]
    · refine ⟨known.1, known.2, known.3, fun _ => header, fun _ => control, fun _ => key,
        fun notFull => absurd rfl notFull, fun _ => ?_⟩
      have zero : c.payloadLength = 0 :=
        UInt64.toNat.inj (by simpa [lt_iff_toNat_lt] using nonempty)
      simp [empty, zero]
  · cases next

/-- The reader ends with `Ok` only on a codec that still knows what it knew, handing out a frame
that follows the structural rules. -/
theorem Consistent.readFrom (known : c.Consistent client reservedBits) {ret : Option Frame}
    (read : c.readFrom buf = .done (.ok ret) c' buf') :
    c'.Consistent client reservedBits ∧
      ∀ frame, ret = some frame → frame.Valid client reservedBits := by
  refine readFrom_induction (fun c _ => c.Consistent client reservedBits)
    (fun o => ∀ ret c' buf', o = .done (.ok ret) c' buf' → c'.Consistent client reservedBits ∧
      ∀ frame, ret = some frame → frame.Valid client reservedBits)
    (fun _ _ _ _ known next => known.step next) (fun c buf o known exit ret c' buf' same => ?_)
    c buf known ret c' buf' read
  -- A round that leaves with `Ok` changes nothing and hands out only a complete frame.
  subst same
  obtain ⟨rfl, -, handed⟩ := step_exit_ok exit
  refine ⟨known, fun frame some => ?_⟩
  split_ifs at handed with full
  · rw [Option.some.inj (some.symm.trans handed)]
    exact known.toFrame_valid full
  · cases some.symm.trans handed

/-- A call of `decode` that returns `Ok` keeps what the codec knows, and hands out only frames
that follow the structural rules. -/
theorem Consistent.decode (known : c.Consistent client reservedBits) {ret : Option Frame}
    (decoded : c.decode buf = .done (.ok ret) c' buf') :
    c'.Consistent client reservedBits ∧
      ∀ frame, ret = some frame → frame.Valid client reservedBits := by
  have read := read_of_decode decoded
  rw [← consistent_erase] at known ⊢
  unfold FrameCodec.read at read
  split_ifs at read
  · obtain ⟨same, erased, -⟩ := Outcome.done.inj read
    cases Except.ok.inj same
    exact ⟨erased ▸ known, fun frame none => by cases none⟩
  · exact known.readFrom read

end FrameCodec

/-- The codecs a run of `decode` calls can leave, from a fresh one configured with `client` and
`reserved_bits`, when no call returns an error: each call is given any buffer, the bytes the
previous call left with more appended among them. -/
inductive ReachableOk (client : Bool) (reservedBits : UInt8) : FrameCodec → Prop
  | fresh : ReachableOk client reservedBits (FrameCodec.new client reservedBits)
  | call {c c' : FrameCodec} {buf buf' : List UInt8} {ret : Option Frame} :
      ReachableOk client reservedBits c → c.decode buf = .done (.ok ret) c' buf' →
      ReachableOk client reservedBits c'

/-- Every codec a run reaches without an error is consistent. -/
theorem ReachableOk.consistent {client : Bool} {reservedBits : UInt8} {c : FrameCodec}
    (reachable : ReachableOk client reservedBits c) : c.Consistent client reservedBits := by
  induction reachable with
  | fresh => exact FrameCodec.consistent_new client reservedBits
  | call _ decoded known => exact (known.decode decoded).1

/-- Every frame that a run of `decode` calls from a fresh codec hands out, while no call has
returned an error, follows the structural rules of the codec's configuration. -/
theorem decode_valid {client : Bool} {reservedBits : UInt8} {c c' : FrameCodec}
    {buf buf' : List UInt8} {frame : Frame} (reachable : ReachableOk client reservedBits c)
    (decoded : c.decode buf = .done (.ok (some frame)) c' buf') : frame.Valid client reservedBits :=
  (reachable.consistent.decode decoded).2 frame rfl

/-- A Ping split after its first byte: the first call waits, and the second hands out a frame
that follows the rules. -/
theorem decode_valid_split_ping :
    ReachableOk true 0 { FrameCodec.new true 0 with minLen := 2 } ∧
      ({ FrameCodec.new true 0 with minLen := 2 } : FrameCodec).decode [0x89, 0x80, 0, 0, 0, 1] =
        .done (.ok (some ⟨true, false, false, false, .Ping, true, 1, 0, none, none⟩))
          { FrameCodec.new true 0 with
            fin := true, opcode := .Ping, masked := true, maskKey := 1, state := .FULL, minLen := 6 }
          [] ∧
      Frame.Valid true 0 ⟨true, false, false, false, .Ping, true, 1, 0, none, none⟩ :=
  by
  refine ⟨@ReachableOk.call true 0 _ _ [0x89] [0x89] none .fresh rfl, ?decoded,
    decode_valid (@ReachableOk.call true 0 _ _ [0x89] [0x89] none .fresh rfl) ?decoded⟩
  rfl

/-! ### After a frame -/

/-- Once a call has handed out a frame, the codec stays at `FULL`: every later call with bytes
hands out the same frame again and drains nothing. -/
theorem decode_after_frame {c c' : FrameCodec} {buf buf' next : List UInt8} {frame : Frame}
    (decoded : c.decode buf = .done (.ok (some frame)) c' buf') (nonempty : next ≠ []) :
    c'.decode next = .done (.ok (some frame)) { c' with minLen := 0 } next := by
  have read := read_of_decode decoded
  unfold FrameCodec.read at read
  split_ifs at read
  · cases (Outcome.done.inj read).1
  obtain ⟨full, rfl⟩ := FrameCodec.readFrom_frame_full _ _ _ _ _ read
  simp only [FrameCodec.erase_state] at full
  simp [FrameCodec.decode, nonempty, FrameCodec.loop, FrameCodec.pass, full]
  rfl

/-- After the Ping of the source's test, a codec given the next Ping hands out the first one
again, where a fresh codec reads the new one. -/
theorem decode_after_ping :
    (FrameCodec.new true 0).decode [0x89, 0x80, 0, 0, 0, 1] =
        .done (.ok (some ⟨true, false, false, false, .Ping, true, 1, 0, none, none⟩))
          { FrameCodec.new true 0 with
            fin := true, opcode := .Ping, masked := true, maskKey := 1, state := .FULL, minLen := 6 }
          [] ∧
      [0x89, 0x80, 0, 0, 0, 2] ≠ [] ∧
      ({ FrameCodec.new true 0 with
          fin := true, opcode := .Ping, masked := true, maskKey := 1, state := .FULL, minLen := 6 } :
          FrameCodec).decode [0x89, 0x80, 0, 0, 0, 2] =
        .done (.ok (some ⟨true, false, false, false, .Ping, true, 1, 0, none, none⟩))
          { FrameCodec.new true 0 with
            fin := true, opcode := .Ping, masked := true, maskKey := 1, state := .FULL, minLen := 0 }
          [0x89, 0x80, 0, 0, 0, 2] ∧
      (FrameCodec.new true 0).decode [0x89, 0x80, 0, 0, 0, 2] =
        .done (.ok (some ⟨true, false, false, false, .Ping, true, 2, 0, none, none⟩))
          { FrameCodec.new true 0 with
            fin := true, opcode := .Ping, masked := true, maskKey := 2, state := .FULL, minLen := 6 }
          [] :=
  by
  refine ⟨?first, by simp, decode_after_frame ?first (by simp), rfl⟩
  rfl

/-! ### After a refused frame -/

/-- A control opcode is not a reserved one. -/
theorem OpCode.isInvalid_of_isControl {op : OpCode} (control : op.isControl = true) :
    op.isInvalid = false := by
  cases op <;> simp_all [OpCode.isControl, OpCode.isInvalid]

/-- The control check refuses a control frame that announces more than 125 bytes, leaving the
codec and the buffer as they are. -/
theorem FrameCodec.checkControl_refuses {c : FrameCodec} (buf : List UInt8)
    (control : c.opcode.isControl = true) (long : 125 < c.payloadLength.toNat) :
    c.checkControl buf = .exit (.done (.error "invalid control frame") c buf) := by
  rw [checkControl, if_pos (by simpa [lt_iff_toNat_lt] using And.intro long control)]

/-- A control frame announcing more than 125 bytes is refused by the `HEADER` arm only after it
has moved `state` on to `LENGTH`: a second call on the bytes the refusal left reads the mask and
the payload, and hands the refused frame out. -/
theorem decode_refused_control {client : Bool} {reservedBits : UInt8} {op : OpCode}
    (control : op.isControl = true) (key : UInt32) {len : UInt64} (long : 125 < len.toNat)
    {data : List UInt8} (fits : data.length = len.toNat) (rest : List UInt8) :
    ∃ c c' : FrameCodec, (FrameCodec.new client reservedBits).decode
        (encode ⟨true, false, false, false, op, true, key, len, some data, none⟩ [] ++ rest) =
          .done (.error "invalid control frame") c (writeU32 key ++ data ++ rest) ∧
      c.decode (writeU32 key ++ data ++ rest) =
        .done (.ok (some ⟨true, false, false, false, op, true, key, len,
          some (applyMask data key), none⟩)) c' rest := by
  obtain ⟨code, ext, field, small, extended⟩ := lengthField_extended true len
  have stored := withHeader_encoded (FrameCodec.new client reservedBits)
    ⟨true, false, false, false, op, true, key, len, some data, none⟩ small
  generalize parsed : (FrameCodec.new client reservedBits).withHeader
    (firstByte ⟨true, false, false, false, op, true, key, len, some data, none⟩)
    ((if true then 0x80 else 0) ||| code) = header at stored
  have checks : header.HeaderChecks := by
    rw [stored]
    exact ⟨nofun, nofun, nofun, OpCode.isInvalid_of_isControl control, fun _ => rfl, fun _ => rfl⟩
  -- The first call: the header, then the length, which the control check refuses.
  have headerRound : ∀ more, (FrameCodec.new client reservedBits).stepNone
      (firstByte ⟨true, false, false, false, op, true, key, len, some data, none⟩ ::
        (0x80 ||| code) :: more) = .next header more :=
    fun more => FrameCodec.stepNone_next.mpr ⟨_, _, rfl, parsed.symm, parsed ▸ checks⟩
  have lengthRound : ∀ more, header.stepHeader (ext ++ more) =
      .exit (.done (.error "invalid control frame")
        { header with payloadLength := len, state := .LENGTH } more) := fun more => by
    rw [FrameCodec.stepHeader_extended more (by rw [stored]; exact extended),
      FrameCodec.checkControl_refuses more (by rw [stored]; exact control) long]
  have first : ∀ more, (FrameCodec.new client reservedBits).erase.readFrom
      (encode ⟨true, false, false, false, op, true, key, len, some data, none⟩ [] ++ rest ++ more) =
        .done (.error "invalid control frame") { header with payloadLength := len, state := .LENGTH }
          (writeU32 key ++ data ++ rest ++ more) := fun more => by
    simp only [encode, List.nil_append, field, List.cons_append, List.append_assoc, if_true,
      Option.getD_some, FrameCodec.erase_new, FrameCodec.readFrom, FrameCodec.new_state,
      FrameCodec.readNone, headerRound, FrameCodec.readHeader, lengthRound]
  obtain ⟨c, refused, erased⟩ := decode_of_forall (encode_append_ne_nil _ rest) first
  -- The second call: the mask, then the payload, which is unmasked and handed out.
  have maskRound : ∀ more,
      ({ header with payloadLength := len, state := .LENGTH } : FrameCodec).stepLength
      (writeU32 key ++ more) =
      .next { header with payloadLength := len, maskKey := key, state := .MASK } more :=
    fun more => FrameCodec.stepLength_next.mpr ⟨_, _, rfl,
      by rw [stored]; exact maskField_encoded true key (by simp), rfl⟩
  have second : ∀ more, c.erase.readFrom (writeU32 key ++ data ++ rest ++ more) =
      .done (.ok (some ⟨true, false, false, false, op, true, key, len, some (applyMask data key),
        none⟩))
        (({ header with payloadLength := len, maskKey := key, state := .MASK } : FrameCodec).withPayload
          data) (rest ++ more) := fun more => by
    rw [erased, FrameCodec.readFrom]
    simp only [FrameCodec.readLength, List.append_assoc, maskRound]
    rw [FrameCodec.readMask_payload _ fits (fun _ => by rw [stored]), FrameCodec.withPayload_toFrame,
      stored]
    simp [FrameCodec.toFrame, lt_iff_toNat_lt, show 0 < len.toNat by omega]
  obtain ⟨c', delivered, -⟩ := decode_of_forall (List.ne_nil_of_length_pos (by simp [writeU32_eq]))
    second
  exact ⟨c, c', refused, delivered⟩

/-- A client codec refuses a masked Ping that announces 126 bytes, and its next call on the bytes
left hands that Ping out. -/
theorem decode_refused_ping :
    OpCode.Ping.isControl = true ∧ 125 < (126 : UInt64).toNat ∧
      (List.replicate 126 (0 : UInt8)).length = (126 : UInt64).toNat ∧
      ∃ c c' : FrameCodec, (FrameCodec.new true 0).decode
          (encode ⟨true, false, false, false, .Ping, true, 1, 126, some (List.replicate 126 0), none⟩
            [] ++ []) =
            .done (.error "invalid control frame") c (writeU32 1 ++ List.replicate 126 0 ++ []) ∧
        c.decode (writeU32 1 ++ List.replicate 126 0 ++ []) =
          .done (.ok (some ⟨true, false, false, false, .Ping, true, 1, 126,
            some (applyMask (List.replicate 126 0) 1), none⟩)) c' [] :=
  ⟨rfl, by decide, rfl,
    @decode_refused_control true 0 .Ping rfl 1 126 (by decide) (List.replicate 126 0) rfl []⟩

/-- A masked Text frame whose payload opens with bytes the validator rejects is refused by the
early UTF-8 check while the rest of its payload is missing, and the codec stays at `MASK`: a later
call on the rest of the payload hands the frame out, its data never validated. -/
theorem decode_refused_text {client : Bool} {reservedBits : UInt8} {frame : Frame}
    (valid : frame.Valid client reservedBits) (text : frame.opcode = .Text)
    (masked : frame.masked = true) {early late : List UInt8}
    (data : frame.applicationData = some (early ++ late)) (pending : late ≠ [])
    (rejected : validate (applyMask early frame.mask) = .error ())
    (fits : (encode { frame with applicationData := none } []).length +
      frame.payloadLength.toNat < 2 ^ 64) (rest : List UInt8) :
    ∃ c c' : FrameCodec, (FrameCodec.new client reservedBits).decode
        (encode { frame with applicationData := none } [] ++ early) =
          .done (.error "error during UTF-8 validation") c early ∧ c.state = .MASK ∧
      c.decode (early ++ late ++ rest) = .done (.ok (some frame.toggleMask)) c' rest := by
  obtain ⟨cM, stored, mask, reaches⟩ := reaches_encode valid
  have length : cM.payloadLength = frame.payloadLength := congrArg Frame.payloadLength stored
  have whole : (early ++ late).length = frame.payloadLength.toNat := by
    simpa [data] using valid.payload_length
  -- The first call reaches `MASK` with part of the payload, and the early check rejects it.
  have short : early.length < cM.payloadLength.toNat := by
    have := List.length_pos.mpr pending
    rw [length, ← whole, List.length_append]
    omega
  have refused : cM.step early =
      .exit (.done (.error "error during UTF-8 validation") cM early) := by
    have key : cM.maskKey = frame.mask := congrArg Frame.mask stored
    have opcode : cM.opcode = frame.opcode := congrArg Frame.opcode stored
    have isMasked : cM.masked = true := (congrArg Frame.masked stored).trans masked
    simp [FrameCodec.step, mask, FrameCodec.stepMask, short, FrameCodec.checkPartial, key, rejected,
      opcode, text, isMasked]
  obtain ⟨c, first, erased⟩ := Outcome.erase_eq_done
    (@decode_of_reaches (FrameCodec.new client reservedBits) _ _ _ _ (encode_append_ne_nil _ early)
      (reaches early) refused fun _ _ => by
      simpa only [List.length_append, Nat.add_sub_cancel, length] using fits)
  -- The second call finds the whole payload there and unmasks it.
  obtain ⟨final, finish⟩ := readMask_encoded stored valid (.inl masked)
  have reads : ∀ more, c.erase.readFrom (early ++ late ++ rest ++ more) =
      .done (.ok (some frame.toggleMask)) final (rest ++ more) := fun more => by
    rw [erased, FrameCodec.readFrom, mask, List.append_assoc (early ++ late)]
    simpa [data] using finish (rest ++ more)
  obtain ⟨c', second, -⟩ := decode_of_forall (by simp [pending]) reads
  exact ⟨c, c', first, by rw [← FrameCodec.erase_state, erased, mask], second⟩

/-- A client codec refuses the masked Text frame `C3 28 41`, whose first two bytes are no UTF-8,
while its last byte is missing, and then hands it out once that byte comes. -/
theorem decode_refused_text_later :
    Frame.Valid true 0 ⟨true, false, false, false, .Text, true, 0, 3, some [0xC3, 0x28, 0x41], none⟩ ∧
    validate (applyMask [0xC3, 0x28] 0) = .error () ∧
    (encode ⟨true, false, false, false, .Text, true, 0, 3, none, none⟩ []).length +
      (3 : UInt64).toNat < 2 ^ 64 ∧
    ∃ c c' : FrameCodec, (FrameCodec.new true 0).decode
        (encode ⟨true, false, false, false, .Text, true, 0, 3, none, none⟩ [] ++ [0xC3, 0x28]) =
          .done (.error "error during UTF-8 validation") c [0xC3, 0x28] ∧ c.state = .MASK ∧
      c.decode ([0xC3, 0x28] ++ [0x41] ++ []) =
        .done (.ok (some (Frame.toggleMask
          ⟨true, false, false, false, .Text, true, 0, 3, some [0xC3, 0x28, 0x41], none⟩))) c' [] :=
  ⟨by decide, rfl, by decide,
    @decode_refused_text true 0 ⟨true, false, false, false, .Text, true, 0, 3,
      some [0xC3, 0x28, 0x41], none⟩ (by decide) rfl rfl [0xC3, 0x28] [0x41] rfl (by simp) rfl
      (by decide) []⟩

end Soketto
