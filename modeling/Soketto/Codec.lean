import Soketto.Frame
import Soketto.Wire
import Soketto.Utf8

/-! The base-frame codec of `codec/base.rs`: its fields, the arms of the decoding loop,
`decode` and `encode`. -/

namespace Soketto

/-- If the payload length byte is 126, the following two bytes are the payload length. -/
def twoExt : UInt8 := 126

/-- If the payload length byte is 127, the following eight bytes are the payload length. -/
def eightExt : UInt8 := 127

@[simp] theorem twoExt_toNat : twoExt.toNat = 126 := rfl

@[simp] theorem eightExt_toNat : eightExt.toNat = 127 := rfl

/-- How far the decoding of the current frame has got. -/
inductive DecodeState where
  /-- None of the frame has been decoded. -/
  | NONE
  /-- The header has been decoded. -/
  | HEADER
  /-- The length has been decoded. -/
  | LENGTH
  /-- The mask has been decoded. -/
  | MASK
  /-- The decoding is complete. -/
  | FULL
  deriving DecidableEq, Repr

/-- The position of a state along `NONE`, `HEADER`, `LENGTH`, `MASK`, `FULL`. -/
def DecodeState.rank : DecodeState → Nat
  | .NONE => 0 | .HEADER => 1 | .LENGTH => 2 | .MASK => 3 | .FULL => 4

/-- The codec: the fields of the frame under construction, the decode state, and the
configuration (`client`, `reserved_bits`). -/
structure FrameCodec where
  client : Bool
  fin : Bool
  rsv1 : Bool
  rsv2 : Bool
  rsv3 : Bool
  opcode : OpCode
  masked : Bool
  lengthCode : UInt8
  payloadLength : UInt64
  maskKey : UInt32
  extensionData : Option (List UInt8)
  applicationData : Option (List UInt8)
  state : DecodeState
  /-- Minimum length required to parse the next part of the frame. -/
  minLen : UInt64
  reservedBits : UInt8
  deriving DecidableEq, Repr

/-- What a call of `decode` ends with: the value it returns, with the codec and the buffer it
leaves behind, or a panic. -/
inductive Outcome where
  | done (ret : Except String (Option Frame)) (c : FrameCodec) (buf : List UInt8)
  | panic

/-- What one round of the loop in `decode` ends with. -/
inductive Pass where
  /-- The arm moved `state` on, and the loop goes round again. -/
  | next (c : FrameCodec) (buf : List UInt8)
  /-- The arm left `decode`. -/
  | exit (o : Outcome)

namespace FrameCodec

/-- `FrameCodec::default()`: no flags, zero numbers, no data, state `NONE`. -/
def default : FrameCodec where
  client := false
  fin := false
  rsv1 := false
  rsv2 := false
  rsv3 := false
  opcode := OpCode.default
  masked := false
  lengthCode := 0
  payloadLength := 0
  maskKey := 0
  extensionData := none
  applicationData := none
  state := .NONE
  minLen := 0
  reservedBits := 0

/-- `FrameCodec::set_client`. -/
def setClient (c : FrameCodec) (client : Bool) : FrameCodec := { c with client }

/-- `FrameCodec::set_reserved_bits`. -/
def setReservedBits (c : FrameCodec) (reservedBits : UInt8) : FrameCodec := { c with reservedBits }

/-- A fresh codec configured with `set_client` and `set_reserved_bits`. -/
def new (client : Bool) (reservedBits : UInt8) : FrameCodec :=
  (default.setClient client).setReservedBits reservedBits

/-- A fresh codec is at the start of a frame. -/
@[simp] theorem new_state (client : Bool) (reservedBits : UInt8) :
    (new client reservedBits).state = .NONE := rfl

/-- A fresh codec holds no application data. -/
@[simp] theorem new_applicationData (client : Bool) (reservedBits : UInt8) :
    (new client reservedBits).applicationData = none := rfl

/-- A fresh codec holds no extension data. -/
@[simp] theorem new_extensionData (client : Bool) (reservedBits : UInt8) :
    (new client reservedBits).extensionData = none := rfl

/-- `From<FrameCodec> for Frame`: the frame the codec's fields describe. -/
def toFrame (c : FrameCodec) : Frame where
  fin := c.fin
  rsv1 := c.rsv1
  rsv2 := c.rsv2
  rsv3 := c.rsv3
  masked := c.masked
  opcode := c.opcode
  mask := c.maskKey
  payloadLength := c.payloadLength
  applicationData := c.applicationData
  extensionData := c.extensionData

end FrameCodec

namespace FrameCodec

/-- The `NONE` arm once its two header bytes are drained: the flags of `first` and `second`
are stored one by one, and each check returns as soon as it fails. -/
def parseHeader (c : FrameCodec) (first second : UInt8) :
    Except (String × FrameCodec) FrameCodec :=
  let c := { c with fin := first &&& 0x80 != 0, rsv1 := first &&& 0x40 != 0 }
  if c.rsv1 && c.reservedBits &&& 0x4 == 0 then .error ("invalid rsv1 bit set", c) else
  let c := { c with rsv2 := first &&& 0x20 != 0 }
  if c.rsv2 && c.reservedBits &&& 0x2 == 0 then .error ("invalid rsv2 bit set", c) else
  let c := { c with rsv3 := first &&& 0x10 != 0 }
  if c.rsv3 && c.reservedBits &&& 0x1 == 0 then .error ("invalid rsv3 bit set", c) else
  let c := { c with opcode := OpCode.fromU8 (first &&& 0x0F) }
  if c.opcode.isInvalid then .error ("invalid opcode set", c) else
  if c.opcode.isControl && !c.fin then .error ("control frames must not be fragmented", c) else
  let c := { c with masked := second &&& 0x80 != 0 }
  if !c.masked && c.client then .error ("all client frames must have a mask", c) else
  .ok { c with lengthCode := second &&& 0x7F, state := .HEADER }

/-- The codec with both header bytes stored, as the `NONE` arm leaves it when every check
passes. -/
def withHeader (c : FrameCodec) (first second : UInt8) : FrameCodec :=
  { c with fin := first &&& 0x80 != 0, rsv1 := first &&& 0x40 != 0, rsv2 := first &&& 0x20 != 0,
           rsv3 := first &&& 0x10 != 0, opcode := OpCode.fromU8 (first &&& 0x0F),
           masked := second &&& 0x80 != 0, lengthCode := second &&& 0x7F, state := .HEADER }

/-- The checks of the `NONE` arm, read on the stored flags. -/
def HeaderChecks (c : FrameCodec) : Prop :=
  (c.rsv1 = true → c.reservedBits &&& 0x4 ≠ 0) ∧ (c.rsv2 = true → c.reservedBits &&& 0x2 ≠ 0) ∧
  (c.rsv3 = true → c.reservedBits &&& 0x1 ≠ 0) ∧ c.opcode.isInvalid = false ∧
  (c.opcode.isControl = true → c.fin = true) ∧ (c.client = true → c.masked = true)

/-- The header parses exactly when its checks pass, into the codec with the header stored. -/
theorem parseHeader_eq_ok {c c' : FrameCodec} {first second : UInt8} :
    c.parseHeader first second = .ok c' ↔
      c' = c.withHeader first second ∧ HeaderChecks (c.withHeader first second) := by
  -- The header parses when no check fires, and a check that does not fire is the stored
  -- check, the mask check read the other way round.
  have contra : ∀ masked client : Bool,
      (masked = false → client = false) ↔ (client = true → masked = true) := by decide
  simp only [parseHeader, apply_ite (· = Except.ok c'), reduceCtorEq, Except.ok.injEq,
    if_false_left, withHeader, HeaderChecks, Bool.and_eq_true, beq_iff_eq, not_and,
    Bool.not_eq_true, Bool.not_eq_true', Bool.not_eq_false, contra]
  exact ⟨fun ⟨r1, r2, r3, valid, control, mask, stored⟩ =>
      ⟨stored.symm, r1, r2, r3, valid, control, mask⟩,
    fun ⟨stored, r1, r2, r3, valid, control, mask⟩ =>
      ⟨r1, r2, r3, valid, control, mask, stored.symm⟩⟩

/-- A failed check changes nothing but the header flags stored before it. -/
theorem parseHeader_eq_error {c c' : FrameCodec} {first second : UInt8} {msg : String}
    (failed : c.parseHeader first second = .error (msg, c')) :
    c' = { c with fin := c'.fin, rsv1 := c'.rsv1, rsv2 := c'.rsv2, rsv3 := c'.rsv3,
                  opcode := c'.opcode, masked := c'.masked } := by
  -- Every codec a check fails on is `c` with some header flags stored: putting those flags back
  -- on `c` changes nothing.
  have restored : (c.parseHeader first second).mapError (fun e => (e.1,
      { c with fin := e.2.fin, rsv1 := e.2.rsv1, rsv2 := e.2.rsv2, rsv3 := e.2.rsv3,
               opcode := e.2.opcode, masked := e.2.masked })) = c.parseHeader first second := by
    simp only [parseHeader, apply_ite (Except.mapError _)]
    rfl
  rw [failed] at restored
  exact (Prod.mk.inj (Except.error.inj restored)).2.symm

/-- The messages of the header checks, in the order the `NONE` arm runs them. -/
def headerErrors : List String :=
  ["invalid rsv1 bit set", "invalid rsv2 bit set", "invalid rsv3 bit set", "invalid opcode set",
    "control frames must not be fragmented", "all client frames must have a mask"]

/-- A failed header check reports the message of one of the header checks. -/
theorem parseHeader_error_mem {c c' : FrameCodec} {first second : UInt8} {msg : String}
    (failed : c.parseHeader first second = .error (msg, c')) : msg ∈ headerErrors := by
  -- Every check that fires names itself: take the implication into each branch.
  revert failed
  simp only [parseHeader, apply_ite (· = Except.error (msg, c')), reduceCtorEq, Except.error.injEq,
    Prod.mk.injEq, apply_ite (· → msg ∈ headerErrors), and_imp]
  simp +contextual [headerErrors]

/-- The `NONE` arm: `min_len += 2`, and when the buffer holds the two header bytes, drain and
parse them. Unlike the other arms it leaves the 2 on `min_len` when it returns `Ok(None)`. -/
def passNone (c : FrameCodec) (buf : List UInt8) (bufLen : Nat) : Pass :=
  let c := { c with minLen := c.minLen + 2 }
  if bufLen < c.minLen.toNat then .exit (.done (.ok none) c buf) else
  match drainTo buf 2 with
  | none => .exit .panic
  | some (header, rest) =>
    match c.parseHeader (header.getD 0 0) (header.getD 1 0) with
    | .ok c => .next c rest
    | .error (msg, c) => .exit (.done (.error msg) c rest)

/-- The bookkeeping of the arms that read a field of fixed `width`: `min_len += width`; when
the buffer is shorter than `min_len`, `min_len -= width` and `Ok(None)`; otherwise the field
is drained and handed to `read`. `min_len as usize` is the whole `u64`, as on a 64-bit target. -/
def takeField (c : FrameCodec) (buf : List UInt8) (bufLen : Nat) (width : UInt64)
    (read : FrameCodec → List UInt8 → List UInt8 → Pass) : Pass :=
  let c := { c with minLen := c.minLen + width }
  if bufLen < c.minLen.toNat then .exit (.done (.ok none) { c with minLen := c.minLen - width } buf)
  else
    match drainTo buf width.toNat with
    | none => .exit .panic
    | some (bytes, rest) => read c bytes rest

/-- The check that closes the `HEADER` arm, run after `state` is already `LENGTH`: a control
frame may carry at most 125 bytes. -/
def checkControl (c : FrameCodec) (buf : List UInt8) : Pass :=
  if c.payloadLength > 125 && c.opcode.isControl then
    .exit (.done (.error "invalid control frame") c buf)
  else .next c buf

/-- The `HEADER` arm's use of an extended length, which `read` reads from the drained bytes as a
`u64`: `state` becomes `LENGTH` and the control check runs on the length, or the cursor runs
short and the arm fails. -/
def onExtended (read : List UInt8 → Option UInt64) (c : FrameCodec) (bytes rest : List UInt8) :
    Pass :=
  match read bytes with
  | some len => checkControl { c with payloadLength := len, state := .LENGTH } rest
  | none => .exit (.done (.error "invalid length bytes") c rest)

/-- The `HEADER` arm's use of a two-byte extended length: `read_u16`, then `len as u64`. -/
def onTwoExt : FrameCodec → List UInt8 → List UInt8 → Pass :=
  onExtended fun bytes => (readU16 bytes).map UInt16.toUInt64

/-- The `HEADER` arm's use of an eight-byte extended length: `read_u64`. -/
def onEightExt : FrameCodec → List UInt8 → List UInt8 → Pass :=
  onExtended readU64

/-- The `HEADER` arm: the payload length, inline or in a two- or eight-byte extension. -/
def passHeader (c : FrameCodec) (buf : List UInt8) (bufLen : Nat) : Pass :=
  if c.lengthCode == twoExt then c.takeField buf bufLen 2 onTwoExt
  else if c.lengthCode == eightExt then c.takeField buf bufLen 8 onEightExt
  else checkControl { c with payloadLength := c.lengthCode.toUInt64, state := .LENGTH } buf

/-- The `LENGTH` arm's use of the four mask bytes. -/
def onMask (c : FrameCodec) (bytes rest : List UInt8) : Pass :=
  match readU32 bytes with
  | some mask => .next { c with maskKey := mask, state := .MASK } rest
  | none => .exit (.done (.error "invalid mask value") c rest)

/-- The `LENGTH` arm: the four-byte mask of a masked frame, the zero mask otherwise. -/
def passLength (c : FrameCodec) (buf : List UInt8) (bufLen : Nat) : Pass :=
  if c.masked then c.takeField buf bufLen 4 onMask
  else .next { c with maskKey := 0, state := .MASK } buf

/-- The early check of the `MASK` arm while a payload is not all there: a Text frame's
buffered bytes, unmasked on a copy, go through the UTF-8 validator; both `Ok` answers end in
`Ok(None)`. -/
def checkPartial (c : FrameCodec) (buf : List UInt8) : Outcome :=
  if c.opcode == .Text then
    if c.masked then
      match validate (applyMask buf c.maskKey) with
      | .ok _ => .done (.ok none) c buf
      | .error _ => .done (.error "error during UTF-8 validation") c buf
    else .done (.error "cannot unmask data") c buf
  else .done (.ok none) c buf

/-- The early check leaves the codec and the buffer as they are. -/
theorem checkPartial_keeps (c : FrameCodec) (buf : List UInt8) :
    ∃ ret, c.checkPartial buf = .done ret c buf := by
  unfold checkPartial
  split_ifs <;> (try split) <;> exact ⟨_, rfl⟩

/-- The end of the `MASK` arm once a nonempty payload is drained: it is unmasked in place. -/
def finishPayload (c : FrameCodec) (bytes rest : List UInt8) : Pass :=
  if c.masked then
    .next { c with applicationData := some (applyMask bytes c.maskKey), state := .FULL } rest
  else .exit (.done (.error "cannot unmask data") c rest)

/-- Unmasking the payload never panics. -/
theorem finishPayload_ne_panic (c : FrameCodec) (bytes rest : List UInt8) :
    c.finishPayload bytes rest ≠ .exit .panic := by
  unfold finishPayload
  split <;> nofun

/-- The `MASK` arm: `min_len += payload_length`, which wraps past `2 ^ 64` as a release build
does, then the early check or the payload. `min_len as usize` and `payload_length as usize` are
the whole `u64`, as on a 64-bit target; on a 32-bit target both casts would truncate. -/
def passMask (c : FrameCodec) (buf : List UInt8) (bufLen : Nat) : Pass :=
  let c := { c with minLen := c.minLen + c.payloadLength }
  if bufLen < c.minLen.toNat then
    .exit (checkPartial { c with minLen := c.minLen - c.payloadLength } buf)
  else if c.payloadLength > (0 : UInt64) then
    match drainTo buf c.payloadLength.toNat with
    | none => .exit .panic
    | some (bytes, rest) => c.finishPayload bytes rest
  else .next { c with state := .FULL } buf

/-- One round of the loop: the arm of the current state. `FULL` breaks out and returns the
frame. -/
def pass (c : FrameCodec) (buf : List UInt8) (bufLen : Nat) : Pass :=
  match c.state with
  | .NONE => c.passNone buf bufLen
  | .HEADER => c.passHeader buf bufLen
  | .LENGTH => c.passLength buf bufLen
  | .MASK => c.passMask buf bufLen
  | .FULL => .exit (.done (.ok (some c.toFrame)) c buf)

/-- The loop of `decode`, given `fuel` rounds. An arm that goes round again has moved `state`
one step along `NONE`, `HEADER`, `LENGTH`, `MASK`, `FULL`, and `FULL` leaves, so five rounds
always suffice; running out is counted as a panic, and `rounds` tells it apart from leaving. -/
def loop : Nat → FrameCodec → List UInt8 → Nat → Outcome
  | 0, _, _, _ => .panic
  | fuel + 1, c, buf, bufLen =>
    match c.pass buf bufLen with
    | .next c buf => loop fuel c buf bufLen
    | .exit o => o

/-- The first `n` rounds of the loop's body: the exit of the round that leaves or, after `n`
rounds that go on, where they have got to. Unlike `loop`, running out is not an outcome. -/
def rounds : Nat → FrameCodec → List UInt8 → Nat → Pass
  | 0, c, buf, _ => .next c buf
  | n + 1, c, buf, bufLen =>
    match c.pass buf bufLen with
    | .next c buf => rounds n c buf bufLen
    | .exit o => .exit o

/-- The loop is its rounds, with running out counted as a panic. -/
theorem loop_eq_rounds (fuel : Nat) (c : FrameCodec) (buf : List UInt8) (bufLen : Nat) :
    c.loop fuel buf bufLen = match c.rounds fuel buf bufLen with
      | .next _ _ => .panic
      | .exit o => o := by
  induction fuel generalizing c buf with
  | zero => rfl
  | succ fuel ih =>
    rw [loop, rounds]
    cases c.pass buf bufLen with
    | next c' buf' => exact ih c' buf'
    | exit o => rfl

/-- `Codec::decode`, as a release build on a 64-bit target runs it: nothing on an empty buffer;
otherwise `min_len` starts at zero and the loop runs from the current state. -/
def decode (c : FrameCodec) (buf : List UInt8) : Outcome :=
  let bufLen := buf.length
  if bufLen = 0 then .done (.ok none) c buf
  else loop 5 { c with minLen := 0 } buf bufLen

end FrameCodec

/-! ### Encoding -/

/-- The first byte `encode` writes: `fin` and the three reserved bits over the opcode. -/
def firstByte (msg : Frame) : UInt8 :=
  let b : UInt8 := 0
  let b := if msg.fin then b ||| 0x80 else b
  let b := if msg.rsv1 then b ||| 0x40 else b
  let b := if msg.rsv2 then b ||| 0x20 else b
  let b := if msg.rsv3 then b ||| 0x10 else b
  b ||| msg.opcode.intoU8

/-- The second byte `encode` writes and the extended length after it: the shortest of the
three length encodings that fits. -/
def lengthField (masked : Bool) (len : UInt64) : List UInt8 :=
  let secondByte : UInt8 := if masked then 0x80 else 0
  if len < twoExt.toUInt64 then [secondByte ||| len.toUInt8]
  else if len < 65536 then (secondByte ||| twoExt) :: writeU16 len.toUInt16
  else (secondByte ||| eightExt) :: writeU64 len

/-- `Codec::encode`: the header, the length, the mask when `masked`, and the application data
as given (the caller masks it), appended to `buf`. Writes into a `Vec` cannot fail. -/
def encode (msg : Frame) (buf : List UInt8) : List UInt8 :=
  buf ++ firstByte msg :: lengthField msg.masked msg.payloadLength ++
    (if msg.masked then writeU32 msg.mask else []) ++ msg.applicationData.getD []

end Soketto
