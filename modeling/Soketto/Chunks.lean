import Soketto.Overflow

/-! Feeding a stream to `decode` in chunks: the bytes of each chunk are appended to what the
previous call left, and `decode` is called again, until it hands out something other than
`Ok(None)`. -/

namespace Soketto

/-- Modelled from the spec: the chunks appended one by one to the bytes the previous call left,
with a call of `dec` after each, until a call returns something other than `Ok(None)`. That
outcome is reported with every byte it left unread, those of the chunks not yet fed included. -/
def feed (dec : FrameCodec → List UInt8 → Outcome) (c : FrameCodec) (buf : List UInt8) :
    List (List UInt8) → Outcome
  | [] => .done (.ok none) c buf
  | chunk :: chunks =>
    match dec c (buf ++ chunk) with
    | .done (.ok none) c' buf' => feed dec c' buf' chunks
    | .done ret c' buf' => .done ret c' (buf' ++ chunks.flatten)
    | .panic => .panic

/-! ### A length that wraps in one call but not in two -/

/-- The header `encode` writes is at most fourteen bytes: two, eight more for the longest
length, and four for the mask. -/
theorem encode_header_length_le (frame : Frame) :
    (encode { frame with applicationData := none } []).length ≤ 14 := by
  rw [encode_header, lengthField_eq]
  split_ifs <;> simp [writeU16_eq, writeU32_eq, writeU64_eq]

/-- A well-formed frame that is not Text and whose header and payload lengths add up to
`2 ^ 64` or `2 ^ 64 + 1`, cut short: `decode` on its header and data at once panics, since
`min_len` wraps, but fed as the two header bytes and then the rest, every call returns
`Ok(None)`, since the second call has taken two bytes fewer and `min_len` does not wrap. -/
theorem feed_wrapping_header {client : Bool} {reservedBits : UInt8} {frame : Frame}
    (valid : frame.Valid client reservedBits) (notText : frame.opcode ≠ .Text)
    {data : List UInt8} (short : data.length < frame.payloadLength.toNat)
    (wraps : 2 ^ 64 ≤
      (encode { frame with applicationData := none } []).length + frame.payloadLength.toNat)
    (narrowly : (encode { frame with applicationData := none } []).length +
      frame.payloadLength.toNat < 2 ^ 64 + 2) :
    (FrameCodec.new client reservedBits).decode
        (encode { frame with applicationData := none } [] ++ data) = .panic ∧
      ∃ c, feed FrameCodec.decode (FrameCodec.new client reservedBits) []
          [(encode { frame with applicationData := none } []).take 2,
            (encode { frame with applicationData := none } []).drop 2 ++ data] =
        .done (.ok none) c data := by
  obtain ⟨cM, stored, mask, reaches⟩ := reaches_encode valid
  have length : cM.payloadLength = frame.payloadLength := congrArg Frame.payloadLength stored
  have opcode : cM.opcode = frame.opcode := congrArg Frame.opcode stored
  refine ⟨decode_panic_of_reaches (reaches data) mask (by rw [length]; exact short)
    (by simp only [List.length_append, Nat.add_sub_cancel, length]; exact wraps), ?_⟩
  -- The header is the two header bytes, the eight bytes of the length, and the mask field.
  have bounded := encode_header_length_le frame
  have split : encode { frame with applicationData := none } [] =
      firstByte frame :: ((if frame.masked then 0x80 else 0) ||| eightExt) ::
        (writeU64 frame.payloadLength ++ (if frame.masked then writeU32 frame.mask else [])) := by
    rw [encode_header, lengthField_eq, if_neg (by omega), if_neg (by omega)]
    rfl
  have whole := reaches data
  rw [split] at whole bounded narrowly ⊢
  simp only [List.cons_append] at whole
  obtain ⟨header, first, rest⟩ := whole.header rfl (by rw [mask]; exact nofun)
  obtain ⟨_, _, same, rfl, -⟩ := FrameCodec.stepNone_next.mp first
  obtain ⟨rfl, rfl⟩ : _ ∧ _ := by simpa using same
  -- The first call stores the header and waits for the eight length bytes.
  have waits := @FrameCodec.stepHeader_waits ((FrameCodec.new client reservedBits).withHeader
    (firstByte frame) ((if frame.masked then 0x80 else 0) ||| eightExt)) []
    (secondByte_flags frame.masked eightExt (by decide)).2 (by decide)
  obtain ⟨c₁, firstCall, erased⟩ := Outcome.erase_eq_done
    (@decode_of_reaches (FrameCodec.new client reservedBits) _ _ _ _ (by simp)
      (.round first (.refl _ _)) waits fun stuck => absurd stuck (by simp [FrameCodec.withHeader]))
  -- The second call takes them and the mask, and waits for the payload without a wrap.
  have waitsPayload : cM.step data = .exit (.done (.ok none) cM data) := by
    simp only [FrameCodec.step, mask, FrameCodec.stepMask, length, if_pos short,
      FrameCodec.checkPartial]
    rw [if_neg (by simpa [opcode] using notText)]
  obtain ⟨c₂, secondCall, -⟩ := Outcome.erase_eq_done
    (@decode_of_reaches c₁ _
      ((writeU64 frame.payloadLength ++ if frame.masked then writeU32 frame.mask else []) ++ data) _ _
      (List.ne_nil_of_length_pos (by simp only [List.length_append, writeU64_eq, beBytes_length]; omega))
      (by rw [erased]; exact rest) waitsPayload
      fun _ _ => by
        simp only [List.length_append, List.length_cons, length] at bounded narrowly ⊢
        omega)
  refine ⟨c₂, ?_⟩
  simp only [feed, List.take_succ_cons, List.take_zero, List.drop_succ_cons, List.drop_zero,
    List.nil_append, firstCall, secondCall]

/-- The ten header bytes of an unmasked Binary frame that announces `2 ^ 64 - 10` bytes: a
server codec panics on them at once, and returns `Ok(None)` twice on them fed as two bytes and
then eight. -/
theorem feed_wrapping_binary :
    Frame.Valid false 0 ⟨true, false, false, false, .Binary, false, 0, 18446744073709551606,
      some (List.replicate 18446744073709551606 0), none⟩ ∧
    OpCode.Binary ≠ .Text ∧
    ([] : List UInt8).length < (18446744073709551606 : UInt64).toNat ∧
    2 ^ 64 ≤ (encode ⟨true, false, false, false, .Binary, false, 0, 18446744073709551606, none,
      none⟩ []).length + (18446744073709551606 : UInt64).toNat ∧
    (encode ⟨true, false, false, false, .Binary, false, 0, 18446744073709551606, none,
      none⟩ []).length + (18446744073709551606 : UInt64).toNat < 2 ^ 64 + 2 ∧
    (FrameCodec.new false 0).decode [0x82, 0x7F, 0xFF, 0xFF, 0xFF, 0xFF, 0xFF, 0xFF, 0xFF, 0xF6] =
      .panic ∧
    ∃ c, feed FrameCodec.decode (FrameCodec.new false 0) []
        [[0x82, 0x7F], [0xFF, 0xFF, 0xFF, 0xFF, 0xFF, 0xFF, 0xFF, 0xF6]] = .done (.ok none) c [] :=
  ⟨valid_wrapping_binary, by decide, by decide, by decide, by decide,
    @feed_wrapping_header false 0 _ valid_wrapping_binary (by decide) [] (by decide) (by decide)
      (by decide)⟩

/-! ### The reader on a longer buffer -/

/-- Whether an outcome is an error. -/
def Outcome.isError : Outcome → Bool
  | .done (.error _) _ _ => true
  | _ => false

/-- Clearing `min_len` keeps whether an outcome is an error. -/
@[simp] theorem Outcome.isError_erase (o : Outcome) : o.erase.isError = o.isError := by
  rcases o with ⟨_ | _, _, _⟩ | _ <;> rfl

/-- Bytes whose unmasked copy the validator rejects stay rejected whatever follows them. -/
theorem validate_applyMask_append {xs : List UInt8} {key : UInt32}
    (rejected : validate (applyMask xs key) = .error ()) (ys : List UInt8) :
    validate (applyMask (xs ++ ys) key) = .error () := by
  -- Unmasking commutes with taking the first `xs.length` bytes.
  have front : applyMask xs key = (applyMask (xs ++ ys) key).take xs.length := by
    rw [applyMask, applyMask, ← maskFrom_take, List.take_left]
  rw [← List.take_append_drop xs.length (applyMask (xs ++ ys) key), ← front]
  exact validate_append_of_error rejected _

namespace FrameCodec

variable {c c' : FrameCodec} {buf buf' : List UInt8}

/-- The control check leaves the same way on a longer buffer, leaving the extra bytes. -/
theorem checkControl_exit_append {o : Outcome} (exit : c.checkControl buf = .exit o)
    (extra : List UInt8) : c.checkControl (buf ++ extra) = .exit (o.extend extra) := by
  unfold checkControl at exit ⊢
  split_ifs at exit ⊢
  cases exit
  rfl

/-- An extended length leaves the same way on a longer rest. -/
theorem onExtended_exit_append (read : List UInt8 → Option UInt64) (c : FrameCodec)
    (bytes rest : List UInt8) (o : Outcome) (exit : c.onExtended read bytes rest = .exit o)
    (extra : List UInt8) : c.onExtended read bytes (rest ++ extra) = .exit (o.extend extra) := by
  cases reads : read bytes <;> simp only [onExtended, reads] at exit ⊢
  · cases exit
    rfl
  · exact checkControl_exit_append exit extra

/-- The mask leaves the same way on a longer rest. -/
theorem onMask_exit_append (c : FrameCodec) (bytes rest : List UInt8) (o : Outcome)
    (exit : c.onMask bytes rest = .exit o) (extra : List UInt8) :
    c.onMask bytes (rest ++ extra) = .exit (o.extend extra) := by
  cases read : readU32 bytes <;> simp only [onMask, read] at exit ⊢
  · cases exit
    rfl
  · cases exit

/-- A field read that fails, fails the same way on a longer buffer, when its continuation
leaves the same way on a longer rest. -/
theorem readField_error_append {width : Nat} {k : FrameCodec → List UInt8 → List UInt8 → Pass}
    (keeps : ∀ c bytes rest o, k c bytes rest = .exit o →
      ∀ extra, k c bytes (rest ++ extra) = .exit (o.extend extra))
    {msg : String} (exit : c.readField buf width k = .exit (.done (.error msg) c' buf'))
    (extra : List UInt8) :
    c.readField (buf ++ extra) width k = .exit (.done (.error msg) c' (buf' ++ extra)) := by
  unfold readField at exit ⊢
  split_ifs at exit with short
  · cases exit
  · rw [if_neg (by simp only [List.length_append]; omega), List.take_append_of_le_length (by omega),
      List.drop_append_of_le_length (by omega)]
    exact keeps _ _ _ _ exit extra

/-- A round that fails, fails the same way on a longer buffer, but for the early check of a
payload that is not all there. -/
theorem step_error_append {msg : String} (exit : c.step buf = .exit (.done (.error msg) c' buf'))
    (extra : List UInt8) :
    (c.state = .MASK ∧ buf.length < c.payloadLength.toNat) ∨
      c.step (buf ++ extra) = .exit (.done (.error msg) c' (buf' ++ extra)) := by
  by_cases early : c.state = .MASK ∧ buf.length < c.payloadLength.toNat
  · exact .inl early
  right
  unfold step at exit ⊢
  cases state : c.state <;> simp only [state] at exit early ⊢
  · -- `NONE`: a check fails on the same two header bytes.
    unfold stepNone at exit ⊢
    split_ifs at exit with short
    · cases exit
    have first : (buf ++ extra).getD 0 0 = buf.getD 0 0 := by
      simp only [List.getD_eq_getElem?_getD, List.getElem?_append_left (show 0 < buf.length by omega)]
    have second : (buf ++ extra).getD 1 0 = buf.getD 1 0 := by
      simp only [List.getD_eq_getElem?_getD, List.getElem?_append_left (show 1 < buf.length by omega)]
    rw [if_neg (by simp only [List.length_append]; omega), first, second,
      List.drop_append_of_le_length (by omega)]
    split at exit
    · cases exit
    · rename_i parsed
      cases exit
      simp only [parsed]
  · -- `HEADER`: the extended length or the control check fails on the same bytes.
    unfold stepHeader at exit ⊢
    split_ifs at exit ⊢
    · exact readField_error_append (onExtended_exit_append _) exit extra
    · exact readField_error_append (onExtended_exit_append _) exit extra
    · exact checkControl_exit_append exit extra
  · -- `LENGTH`: reading the mask fails on the same bytes.
    unfold stepLength at exit ⊢
    split_ifs at exit ⊢
    exact readField_error_append onMask_exit_append exit extra
  · -- `MASK`: the whole payload is there, unmasked, and stays so.
    have long : ¬buf.length < c.payloadLength.toNat := by simpa using early
    unfold stepMask at exit ⊢
    rw [if_neg long] at exit
    rw [if_neg (by simp only [List.length_append]; omega)]
    split_ifs at exit ⊢
    · rw [List.take_append_of_le_length (by omega), List.drop_append_of_le_length (by omega)]
      unfold finishPayload at exit ⊢
      split_ifs at exit ⊢
      cases exit
      rfl
  · -- `FULL` hands out its frame and never fails.
    cases exit

/-- An early check that fails, fails on a longer buffer too: the validator keeps rejecting, and
an unmasked payload stays unmasked. -/
theorem checkPartial_error_append {msg : String}
    (failed : c.checkPartial buf = .done (.error msg) c' buf') (extra : List UInt8) :
    (c.checkPartial (buf ++ extra)).isError := by
  unfold checkPartial at failed ⊢
  split_ifs at failed ⊢
  · cases rejected : validate (applyMask buf c.maskKey) with
    | ok _ => simp [rejected] at failed
    | error _ => simp [validate_applyMask_append rejected, Outcome.isError]
  · rfl
  · cases failed

/-- What an early check that fails says about the payload: it is a Text payload, and the
validator rejects its unmasked copy when it is masked. -/
theorem checkPartial_error {msg : String} (failed : c.checkPartial buf = .done (.error msg) c' buf') :
    c.opcode = .Text ∧ (c.masked = true → validate (applyMask buf c.maskKey) = .error ()) := by
  unfold checkPartial at failed
  split_ifs at failed with text masked
  · refine ⟨by simpa using text, fun _ => ?_⟩
    cases rejected : validate (applyMask buf c.maskKey) with
    | ok _ => simp [rejected] at failed
    | error _ => rfl
  · exact ⟨by simpa using text, fun isMasked => absurd isMasked masked⟩
  · cases failed

/-- Where the reader waits, a longer buffer lets it go on from where it waited. -/
theorem readFrom_append_waiting (waiting : c.readFrom buf = .done (.ok none) c' buf')
    (extra : List UInt8) : c.readFrom (buf ++ extra) = c'.readFrom (buf' ++ extra) :=
  ((reaches_of_waiting waiting).append extra).readFrom

/-- A frame the reader hands out, it hands out on a longer buffer too, leaving the extra bytes
behind. -/
theorem readFrom_append_frame {frame : Frame}
    (read : c.readFrom buf = .done (.ok (some frame)) c' buf') (extra : List UInt8) :
    c.readFrom (buf ++ extra) = .done (.ok (some frame)) c' (buf' ++ extra) := by
  obtain ⟨c₁, buf₁, reaches, exit⟩ := readFrom_ends c buf
  rw [read] at exit
  obtain ⟨rfl, rfl, handed⟩ := step_exit_ok exit
  split_ifs at handed with full
  rw [(reaches.append extra).readFrom, readFrom, full, Option.some.inj handed]

/-- An error of the reader stays an error on a longer buffer, but for an early check of a Text
payload that the longer buffer completes: that payload is handed out, and the validator rejects
its data. -/
theorem readFrom_append_error {msg : String}
    (read : c.readFrom buf = .done (.error msg) c' buf') (extra : List UInt8) :
    (c.readFrom (buf ++ extra)).isError ∨ ∃ frame c'' buf'',
      c.readFrom (buf ++ extra) = .done (.ok (some frame)) c'' buf'' ∧ frame.opcode = .Text ∧
        validate (frame.applicationData.getD []) = .error () := by
  obtain ⟨c₁, buf₁, reaches, exit⟩ := readFrom_ends c buf
  rw [read] at exit
  rw [(reaches.append extra).readFrom]
  rcases step_error_append exit extra with ⟨mask, short⟩ | settled
  · -- The early check failed on a payload that is not all there.
    have failed : c₁.checkPartial buf₁ = .done (.error msg) c' buf' := by
      simpa [step, mask, stepMask, short] using exit
    obtain ⟨text, rejected⟩ := checkPartial_error failed
    rw [readFrom, mask, readMask, stepMask]
    split_ifs with stillShort nonempty
    · exact .inl (checkPartial_error_append failed extra)
    · -- The longer buffer completes the payload; the bytes checked are a prefix of it.
      unfold finishPayload
      split_ifs with masked
      · refine .inr ⟨_, _, _, rfl, text, ?_⟩
        rw [List.take_append_eq_append_take, List.take_of_length_le (by omega)]
        exact validate_applyMask_append (rejected masked) _
      · exact .inl rfl
    · exact absurd (by simpa [lt_iff_toNat_lt] using Nat.lt_of_le_of_lt (Nat.zero_le _) short)
        nonempty
  · rw [readFrom_step, settled]
    exact .inl rfl

/-- The reader never panics. -/
theorem readFrom_ne_panic (c : FrameCodec) (buf : List UInt8) : c.readFrom buf ≠ .panic :=
  fun panic => by simpa [panic, Outcome.LeavesSuffix] using readFrom_leavesSuffix c buf

/-! ### What a call computes, on a longer buffer -/

/-- A call that waits has left the codec waiting on the bytes it left, and on a longer buffer
the call goes on from there. -/
theorem read_append_waiting (waiting : c.read buf = .done (.ok none) c' buf')
    (extra : List UInt8) :
    c'.read buf' = .done (.ok none) c' buf' ∧ c.read (buf ++ extra) = c'.read (buf' ++ extra) := by
  unfold read at waiting
  split_ifs at waiting with empty
  · -- An empty buffer: nothing was read.
    obtain ⟨-, rfl, rfl⟩ := Outcome.done.inj waiting
    subst empty
    simp [read]
  · -- The reader waited where its rounds stopped, and goes on from there.
    have fixed : c'.readFrom buf' = .done (.ok none) c' buf' :=
      (reaches_of_waiting waiting).readFrom ▸ waiting
    unfold read
    refine ⟨?_, ?_⟩
    · split_ifs
      · rfl
      · exact fixed
    · rw [if_neg (by simp [empty]), readFrom_append_waiting waiting]
      split_ifs with drained
      · obtain ⟨rfl, rfl⟩ := List.append_eq_nil.mp drained
        simpa using fixed
      · rfl

/-- Where a call waits, the reader's rounds went on up to the codec and the bytes it leaves. -/
theorem reaches_of_read_waiting (waiting : c.read buf = .done (.ok none) c' buf') :
    c.Reaches buf c' buf' := by
  unfold read at waiting
  split_ifs at waiting
  · obtain ⟨-, rfl, rfl⟩ := Outcome.done.inj waiting
    exact .refl _ _
  · exact reaches_of_waiting waiting

/-- A frame a call hands out, it hands out on a longer buffer too, leaving the extra bytes
behind. -/
theorem read_append_frame {frame : Frame} (read : c.read buf = .done (.ok (some frame)) c' buf')
    (extra : List UInt8) : c.read (buf ++ extra) = .done (.ok (some frame)) c' (buf' ++ extra) := by
  unfold FrameCodec.read at read ⊢
  split_ifs at read with empty
  · cases read
  · rw [if_neg (by simp [empty]), readFrom_append_frame read]

/-- An error of a call stays an error on a longer buffer, but for an early check of a Text
payload that the longer buffer completes, whose data the validator rejects. -/
theorem read_append_error {msg : String} (read : c.read buf = .done (.error msg) c' buf')
    (extra : List UInt8) :
    (c.read (buf ++ extra)).isError ∨ ∃ frame c'' buf'',
      c.read (buf ++ extra) = .done (.ok (some frame)) c'' buf'' ∧ frame.opcode = .Text ∧
        validate (frame.applicationData.getD []) = .error () := by
  unfold FrameCodec.read at read ⊢
  split_ifs at read with empty
  · cases read
  · rw [if_neg (by simp [empty])]
    exact readFrom_append_error read extra

/-- A call never panics without `min_len`. -/
theorem read_ne_panic (c : FrameCodec) (buf : List UInt8) : c.read buf ≠ .panic := by
  unfold read
  split_ifs
  · exact nofun
  · exact readFrom_ne_panic c buf

end FrameCodec

/-- A frame `decode` hands out does not depend on the bytes after it: on any longer buffer the
call hands out the same frame, leaving the same bytes followed by the extra ones, and the same
codec but for `min_len`. -/
theorem decode_append_frame {c c' : FrameCodec} {buf buf' : List UInt8} {frame : Frame}
    (decoded : c.decode buf = .done (.ok (some frame)) c' buf') (extra : List UInt8) :
    ∃ c'', c.decode (buf ++ extra) = .done (.ok (some frame)) c'' (buf' ++ extra) ∧
      c''.erase = c'.erase := by
  -- The reader hands the frame out whatever follows, so the loop never waits on a payload.
  have read := read_of_decode decoded
  have nonempty : buf ≠ [] := by
    rintro rfl
    cases decoded
  refine decode_of_forall (by simp [nonempty]) fun more => ?_
  have longer := FrameCodec.read_append_frame read (extra ++ more)
  rwa [FrameCodec.read, if_neg (by simp [nonempty]), ← List.append_assoc,
    ← List.append_assoc] at longer

/-- The Ping of the source's test comes out the same with a byte after it, which stays. -/
theorem decode_append_ping :
    ∃ c', (FrameCodec.new true 0).decode [0x89, 0x80, 0, 0, 0, 1] =
        .done (.ok (some ⟨true, false, false, false, .Ping, true, 1, 0, none, none⟩)) c' [] ∧
      ∃ c'', (FrameCodec.new true 0).decode ([0x89, 0x80, 0, 0, 0, 1] ++ [0x41]) =
          .done (.ok (some ⟨true, false, false, false, .Ping, true, 1, 0, none, none⟩)) c''
            ([] ++ [0x41]) ∧
        c''.erase = c'.erase :=
  ⟨_, rfl, @decode_append_frame (FrameCodec.new true 0) _ [0x89, 0x80, 0, 0, 0, 1] _ _ rfl [0x41]⟩

/-! ### Chunking independence -/

/-- Fed chunk by chunk from a codec that waits on `buf`, the calls without `min_len` give what
one call on all the bytes gives, or an error as it does; the early check makes the difference
only where it rejects a Text payload that the whole stream completes and hands out. -/
theorem feed_read {c : FrameCodec} {buf : List UInt8}
    (waiting : c.read buf = .done (.ok none) c buf) (chunks : List (List UInt8))
    (text : ∀ frame c' buf', c.read (buf ++ chunks.flatten) = .done (.ok (some frame)) c' buf' →
      frame.opcode = .Text → validate (frame.applicationData.getD []) ≠ .error ()) :
    feed FrameCodec.read c buf chunks = c.read (buf ++ chunks.flatten) ∨
      ((feed FrameCodec.read c buf chunks).isError ∧ (c.read (buf ++ chunks.flatten)).isError) := by
  induction chunks generalizing c buf with
  | nil =>
    -- Nothing fed: the codec still waits on `buf`.
    left
    simp [feed, waiting]
  | cons chunk chunks ih =>
    rw [List.flatten_cons, ← List.append_assoc] at text ⊢
    cases call : c.read (buf ++ chunk) with
    | panic => exact absurd call (FrameCodec.read_ne_panic _ _)
    | done ret c' buf' =>
      rcases ret with msg | _ | frame
      · -- An error: the whole stream gives an error too, the early check apart.
        refine .inr ⟨by simp [feed, call, Outcome.isError], ?_⟩
        rcases FrameCodec.read_append_error call chunks.flatten with
          failed | ⟨frame, c'', buf'', whole, isText, rejected⟩
        · exact failed
        · exact absurd rejected (text frame c'' buf'' whole isText)
      · -- Waiting: the next chunk goes on from where this call left the codec.
        obtain ⟨waits, same⟩ := FrameCodec.read_append_waiting call chunks.flatten
        rw [same] at text ⊢
        simpa [feed, call] using ih waits text
      · -- A frame: the whole stream hands it out, leaving the same bytes.
        left
        rw [FrameCodec.read_append_frame call]
        simp only [feed, call]

/-- Fed chunk by chunk, `decode` gives what the calls without `min_len` give, but for
`min_len`, wherever it does not panic. -/
theorem feed_refines {c : FrameCodec} {buf : List UInt8} (chunks : List (List UInt8))
    (going : feed FrameCodec.decode c buf chunks ≠ .panic) :
    (feed FrameCodec.decode c buf chunks).erase = feed FrameCodec.read c.erase buf chunks := by
  induction chunks generalizing c buf with
  | nil => rfl
  | cons chunk chunks ih =>
    cases call : c.decode (buf ++ chunk) with
    | panic => simp [feed, call] at going
    | done ret c' buf' =>
      have read := read_of_decode call
      rcases ret with msg | _ | frame
      · simp [feed, call, read, Outcome.erase]
      · simp only [feed, call, read] at going ⊢
        exact ih going
      · simp [feed, call, read, Outcome.erase]

/-- Fed chunk by chunk, `decode` does not panic where no codec the reader reaches on the whole
stream is at `MASK` with a payload length within fourteen bytes of `2 ^ 64`: each call reads a
piece of that stream, from where the call before it waited. -/
theorem feed_ne_panic {c : FrameCodec} {buf : List UInt8} (chunks : List (List UInt8))
    (small : ∀ c' rest, c.erase.Reaches (buf ++ chunks.flatten) c' rest → c'.state = .MASK →
      c'.payloadLength.toNat + 14 < 2 ^ 64) :
    feed FrameCodec.decode c buf chunks ≠ .panic := by
  induction chunks generalizing c buf with
  | nil => exact nofun
  | cons chunk chunks ih =>
    rw [List.flatten_cons, ← List.append_assoc] at small
    -- This call's rounds are the first rounds of the reader on the whole stream.
    have call : c.decode (buf ++ chunk) ≠ .panic := decode_ne_panic fun c' rest reaches =>
      small c' (rest ++ chunks.flatten) (reaches.append _)
    cases decoded : c.decode (buf ++ chunk) with
    | panic => exact absurd decoded call
    | done ret c' buf' =>
      rcases ret with msg | _ | frame
      · simp [feed, decoded]
      · -- Waiting: the next call goes on from where the reader stopped.
        simp only [feed, decoded]
        have waited := FrameCodec.reaches_of_read_waiting (read_of_decode decoded)
        exact ih fun c'' rest reaches => small c'' rest ((waited.append _).trans reaches)
      · simp [feed, decoded]

/-- Chunking independence wherever `decode` does not panic: fed to a fresh codec chunk by chunk,
a stream gives what one `decode` of all of it gives, but for `min_len`: `Ok(None)` from every
call, or the same frame with the same bytes left; or an error in both. It holds as long as the
early UTF-8 check does not reject the data of a Text frame that the whole stream hands out. -/
theorem feed_decode (client : Bool) (reservedBits : UInt8) (chunks : List (List UInt8))
    (fed : feed FrameCodec.decode (FrameCodec.new client reservedBits) [] chunks ≠ .panic)
    (whole : (FrameCodec.new client reservedBits).decode chunks.flatten ≠ .panic)
    (text : ∀ frame c buf, (FrameCodec.new client reservedBits).decode chunks.flatten =
        .done (.ok (some frame)) c buf →
      frame.opcode = .Text → validate (frame.applicationData.getD []) ≠ .error ()) :
    (feed FrameCodec.decode (FrameCodec.new client reservedBits) [] chunks).erase =
        ((FrameCodec.new client reservedBits).decode chunks.flatten).erase ∨
      ((feed FrameCodec.decode (FrameCodec.new client reservedBits) [] chunks).isError ∧
        ((FrameCodec.new client reservedBits).decode chunks.flatten).isError) := by
  have single := decode_refines _ _ whole
  rw [FrameCodec.erase_new] at single
  rw [feed_refines chunks fed, FrameCodec.erase_new, single,
    ← Outcome.isError_erase (feed FrameCodec.decode _ [] chunks), feed_refines chunks fed,
    ← Outcome.isError_erase ((FrameCodec.new client reservedBits).decode _), single,
    FrameCodec.erase_new]
  refine @feed_read (FrameCodec.new client reservedBits) [] rfl chunks
    fun frame c buf read isText => ?_
  obtain ⟨c', decoded, -⟩ := Outcome.erase_eq_done (single.trans read)
  exact text frame c' buf decoded isText

/-- A client codec fed the Ping of the source's test in three chunks, cut inside the header and
inside the mask, hands out what one call on all six bytes hands out. -/
theorem feed_split_ping :
    feed FrameCodec.decode (FrameCodec.new true 0) [] [[0x89], [0x80, 0, 0], [0, 1]] ≠ .panic ∧
    (FrameCodec.new true 0).decode [0x89, 0x80, 0, 0, 0, 1] ≠ .panic ∧
    (∀ frame c buf, (FrameCodec.new true 0).decode [0x89, 0x80, 0, 0, 0, 1] =
        .done (.ok (some frame)) c buf →
      frame.opcode = .Text → validate (frame.applicationData.getD []) ≠ .error ()) ∧
    ((feed FrameCodec.decode (FrameCodec.new true 0) [] [[0x89], [0x80, 0, 0], [0, 1]]).erase =
        ((FrameCodec.new true 0).decode [0x89, 0x80, 0, 0, 0, 1]).erase ∨
      ((feed FrameCodec.decode (FrameCodec.new true 0) [] [[0x89], [0x80, 0, 0], [0, 1]]).isError ∧
        ((FrameCodec.new true 0).decode [0x89, 0x80, 0, 0, 0, 1]).isError)) := by
  have fed : feed FrameCodec.decode (FrameCodec.new true 0) [] [[0x89], [0x80, 0, 0], [0, 1]] ≠
      .panic := fun stuck => by cases stuck
  have whole : (FrameCodec.new true 0).decode [0x89, 0x80, 0, 0, 0, 1] ≠ .panic :=
    fun stuck => by cases stuck
  have text : ∀ frame c buf, (FrameCodec.new true 0).decode [0x89, 0x80, 0, 0, 0, 1] =
      .done (.ok (some frame)) c buf →
      frame.opcode = .Text → validate (frame.applicationData.getD []) ≠ .error () :=
    fun frame c buf decoded isText => by
      cases decoded
      cases isText
  exact ⟨fed, whole, text, feed_decode true 0 _ fed whole text⟩

/-! ### Every chunking of an encoded frame -/

/-- Fed to a fresh codec in any chunks, the bytes `encode` wrote for a well-formed frame that is
masked or empty, with whatever follows them, come back as the frame with its data unmasked,
leaving exactly what follows: no call panics while the payload length stays fourteen bytes short
of `2 ^ 64`, and the early UTF-8 check refuses nothing of a Text frame that carries UTF-8. -/
theorem feed_encode {client : Bool} {reservedBits : UInt8} {frame : Frame}
    (valid : frame.Valid client reservedBits)
    (unmaskable : frame.masked = true ∨ frame.payloadLength = 0)
    (small : frame.payloadLength.toNat + 14 < 2 ^ 64)
    (utf8 : frame.opcode = .Text → validate (frame.toggleMask.applicationData.getD []) ≠ .error ())
    {rest : List UInt8} {chunks : List (List UInt8)}
    (stream : chunks.flatten = encode frame [] ++ rest) :
    ∃ c, feed FrameCodec.decode (FrameCodec.new client reservedBits) [] chunks =
      .done (.ok (some frame.toggleMask)) c rest := by
  -- The reader hands out the frame from the whole stream.
  obtain ⟨header, stored, reads⟩ := readFrom_encode valid
  obtain ⟨final, finish⟩ := readMask_encoded stored valid unmaskable
  have whole : (FrameCodec.new client reservedBits).read chunks.flatten =
      .done (.ok (some frame.toggleMask)) final rest := by
    rw [FrameCodec.read, if_neg (stream ▸ encode_append_ne_nil frame rest), stream,
      reads, finish]
  -- Fed in chunks, the reader hands it out too: the early check refuses nothing.
  have fed : feed FrameCodec.read (FrameCodec.new client reservedBits) [] chunks =
      .done (.ok (some frame.toggleMask)) final rest := by
    rcases @feed_read (FrameCodec.new client reservedBits) [] rfl chunks
      (fun handed c' buf' read isText => by
        simp only [List.nil_append, whole, Outcome.done.injEq, Except.ok.injEq,
          Option.some.injEq] at read
        obtain ⟨rfl, -, -⟩ := read
        exact utf8 isText) with same | ⟨-, failed⟩
    · rwa [List.nil_append, whole] at same
    · simp [whole, Outcome.isError] at failed
  -- No call panics: the only codec at `MASK` on the stream's run holds the frame's header.
  obtain ⟨masked, stored', mask, run⟩ := reaches_encode valid
  have going := feed_ne_panic chunks fun c' rest' reaches isMask => by
    rw [List.nil_append, stream, encode_split, List.append_assoc, FrameCodec.erase_new] at reaches
    obtain ⟨same, -⟩ := reaches.eq_of_rank_eq (run _) (by rw [isMask, mask])
    rw [same, show masked.payloadLength = frame.payloadLength from
      congrArg Frame.payloadLength stored']
    exact small
  have erased := feed_refines chunks going
  rw [FrameCodec.erase_new, fed] at erased
  obtain ⟨c, handed, -⟩ := Outcome.erase_eq_done erased
  exact ⟨c, handed⟩

/-- A masked Text frame carrying "Hi", cut inside the header, the mask and the payload, comes
back from a server codec unmasked. -/
theorem feed_encode_text :
    Frame.Valid true 0 ⟨true, false, false, false, .Text, true, 0x01020304, 2,
        some [0x48, 0x69], none⟩ ∧
      (true = true ∨ (2 : UInt64) = 0) ∧ (2 : UInt64).toNat + 14 < 2 ^ 64 ∧
      (OpCode.Text = .Text → validate ((Frame.toggleMask ⟨true, false, false, false, .Text, true,
        0x01020304, 2, some [0x48, 0x69], none⟩).applicationData.getD []) ≠ .error ()) ∧
      ([[0x81], [0x82, 1, 2], [3, 4, 0x48], [0x69]] : List (List UInt8)).flatten =
        encode ⟨true, false, false, false, .Text, true, 0x01020304, 2, some [0x48, 0x69], none⟩ [] ++
          [] ∧
      ∃ c, feed FrameCodec.decode (FrameCodec.new true 0) [] [[0x81], [0x82, 1, 2], [3, 4, 0x48], [0x69]] =
        .done (.ok (some (Frame.toggleMask ⟨true, false, false, false, .Text, true, 0x01020304, 2,
          some [0x48, 0x69], none⟩))) c [] :=
  have utf8 : OpCode.Text = .Text → validate ((Frame.toggleMask ⟨true, false, false, false, .Text,
      true, 0x01020304, 2, some [0x48, 0x69], none⟩).applicationData.getD []) ≠ .error () :=
    fun _ stuck => by cases stuck
  ⟨by decide, .inl rfl, by decide, utf8, rfl,
    feed_encode (by decide) (.inl rfl) (by decide) utf8 rfl⟩

/-! ### Waiting -/

/-- `decode` waits only where it must: on a nonempty buffer it returns `Ok(None)` only while the
field the codec has got to is not all in the bytes it left; and called again on those bytes, as
a driver does on a spurious wakeup, it waits again, changing nothing but `min_len`. -/
theorem decode_waits {c c' : FrameCodec} {buf buf' : List UInt8}
    (waiting : c.decode buf = .done (.ok none) c' buf') :
    (buf = [] ∨ buf'.length < c'.needs) ∧
      ∃ c'', c'.decode buf' = .done (.ok none) c'' buf' ∧ c''.erase = c'.erase := by
  have read := read_of_decode waiting
  refine ⟨?_, ?_⟩
  · -- The reader's run waits where the field it has got to is short.
    unfold FrameCodec.read at read
    split_ifs at read with empty
    · exact .inl empty
    · have short := FrameCodec.readFrom_waits read
      exact .inr short
  · by_cases drained : buf' = []
    · -- Nothing left: the call returns at once.
      subst drained
      exact ⟨c', rfl, rfl⟩
    · -- The reader's run on what is left stops where it starts, so the loop cannot wrap.
      obtain ⟨again, -⟩ := FrameCodec.read_append_waiting read []
      rw [FrameCodec.read, if_neg drained] at again
      obtain ⟨c₁, buf₁, reaches, exit⟩ := FrameCodec.readFrom_ends c'.erase buf'
      rw [again] at exit
      obtain ⟨rfl, rfl, -⟩ := FrameCodec.step_exit_ok exit
      refine Outcome.erase_eq_done (decode_of_reaches drained reaches exit fun _ _ => ?_)
      simpa using UInt64.toNat_lt _

/-- A server codec given a masked Ping header and half its mask waits for the other half, and
waits again when called on what it left. -/
theorem decode_waits_mask :
    ∃ c', (FrameCodec.new false 0).decode [0x89, 0x80, 0, 0] = .done (.ok none) c' [0, 0] ∧
      (([0x89, 0x80, 0, 0] : List UInt8) = [] ∨ ([0, 0] : List UInt8).length < c'.needs) ∧
        ∃ c'', c'.decode [0, 0] = .done (.ok none) c'' [0, 0] ∧ c''.erase = c'.erase :=
  ⟨_, rfl, @decode_waits (FrameCodec.new false 0) _ [0x89, 0x80, 0, 0] _ rfl⟩

/-! ### Only a prefix of the stream is taken -/

/-- A suffix stays a suffix with the same bytes after both. -/
theorem suffix_append_right {xs ys : List UInt8} (suffix : xs <:+ ys) (zs : List UInt8) :
    xs ++ zs <:+ ys ++ zs := by
  obtain ⟨front, rfl⟩ := suffix
  exact ⟨front, (List.append_assoc ..).symm⟩

/-- Fed chunk by chunk, the calls of `decode` take the bytes they take from the front of the
stream: whatever the run ends with, short of a panic, leaves a suffix of all the bytes fed. -/
theorem feed_suffix {c c' : FrameCodec} {buf rest : List UInt8}
    {ret : Except String (Option Frame)} (chunks : List (List UInt8))
    (fed : feed FrameCodec.decode c buf chunks = .done ret c' rest) :
    rest <:+ buf ++ chunks.flatten := by
  induction chunks generalizing c buf with
  | nil =>
    -- Nothing fed: the bytes already there are left.
    obtain ⟨-, -, rfl⟩ := Outcome.done.inj fed
    simp
  | cons chunk chunks ih =>
    -- Each call leaves a suffix of its buffer, and the chunks not yet fed follow it.
    rw [List.flatten_cons, ← List.append_assoc]
    cases call : c.decode (buf ++ chunk) with
    | panic => simp [feed, call] at fed
    | done ret' c₁ buf₁ =>
      have taken := suffix_append_right (decode_suffix call) chunks.flatten
      rcases ret' with msg | _ | frame <;> simp only [feed, call] at fed
      · obtain ⟨-, -, rfl⟩ := Outcome.done.inj fed
        exact taken
      · exact (ih fed).trans taken
      · obtain ⟨-, -, rfl⟩ := Outcome.done.inj fed
        exact taken

/-- The Ping of the source's test fed in three chunks, with the first byte of a next frame in
the last: the run hands out the Ping and leaves that byte, the last byte fed. -/
theorem feed_suffix_ping :
    ∃ ret c', feed FrameCodec.decode (FrameCodec.new true 0) []
          [[0x89], [0x80, 0, 0], [0, 1, 0x81]] = .done ret c' [0x81] ∧
      ([0x81] : List UInt8) <:+
        [] ++ ([[0x89], [0x80, 0, 0], [0, 1, 0x81]] : List (List UInt8)).flatten :=
  ⟨_, _, rfl, @feed_suffix (FrameCodec.new true 0) _ [] [0x81] _
    [[0x89], [0x80, 0, 0], [0, 1, 0x81]] rfl⟩

end Soketto
