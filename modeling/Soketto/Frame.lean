import Mathlib.Data.String.Basic
import Mathlib.Tactic.DeriveFintype

/-! Opcodes and frames of the WebSocket base-frame layer, and the structural rules of a frame. -/

namespace Soketto

/-- Modelled from the spec: `frame::base::OpCode`, one variant for each of the sixteen
four-bit codes, the reserved ones `0x3`–`0x7` and `0xB`–`0xF` included. -/
inductive OpCode where
  | Continuation | Text | Binary
  | Reserved3 | Reserved4 | Reserved5 | Reserved6 | Reserved7
  | Close | Ping | Pong
  | ReservedB | ReservedC | ReservedD | ReservedE | ReservedF
  deriving DecidableEq, Repr, Fintype

namespace OpCode

/-- Modelled from the spec: `OpCode::from(u8)`, read on the four opcode bits of a header byte;
`decode` never passes it anything past `0xF`, which lands on the last reserved code. -/
def fromU8 (code : UInt8) : OpCode :=
  match code.toNat with
  | 0 => Continuation | 1 => Text | 2 => Binary
  | 3 => Reserved3 | 4 => Reserved4 | 5 => Reserved5 | 6 => Reserved6 | 7 => Reserved7
  | 8 => Close | 9 => Ping | 10 => Pong
  | 11 => ReservedB | 12 => ReservedC | 13 => ReservedD | 14 => ReservedE
  | _ => ReservedF

/-- Modelled from the spec: `u8::from(OpCode)`, the code `encode` writes. -/
def intoU8 : OpCode → UInt8
  | Continuation => 0x0 | Text => 0x1 | Binary => 0x2
  | Reserved3 => 0x3 | Reserved4 => 0x4 | Reserved5 => 0x5 | Reserved6 => 0x6
  | Reserved7 => 0x7
  | Close => 0x8 | Ping => 0x9 | Pong => 0xA
  | ReservedB => 0xB | ReservedC => 0xC | ReservedD => 0xD | ReservedE => 0xE
  | ReservedF => 0xF

/-- Modelled from the spec: `OpCode::is_control`, true of exactly Close, Ping and Pong. -/
def isControl : OpCode → Bool
  | Close | Ping | Pong => true
  | _ => false

/-- Modelled from the spec: `OpCode::is_invalid`, true of exactly the reserved codes. -/
def isInvalid : OpCode → Bool
  | Reserved3 | Reserved4 | Reserved5 | Reserved6 | Reserved7 => true
  | ReservedB | ReservedC | ReservedD | ReservedE | ReservedF => true
  | _ => false

/-- Modelled from the spec: the opcode a `Default` codec holds before any header is read. -/
def default : OpCode := Continuation

/-- Every code fits in the four low bits of the header byte. -/
theorem intoU8_lt (op : OpCode) : op.intoU8 < 16 := by
  -- Sixteen constants, each below sixteen.
  cases op <;> decide

/-- Reading back the code of an opcode gives that opcode. -/
@[simp] theorem fromU8_intoU8 (op : OpCode) : fromU8 op.intoU8 = op := by
  -- Each constant selects its own arm of the match.
  cases op <;> rfl

end OpCode

/-- Modelled from the spec: `frame::base::Frame`, with the fields `From<FrameCodec>` sets. -/
structure Frame where
  fin : Bool
  rsv1 : Bool
  rsv2 : Bool
  rsv3 : Bool
  opcode : OpCode
  masked : Bool
  mask : UInt32
  payloadLength : UInt64
  applicationData : Option (List UInt8)
  extensionData : Option (List UInt8)
  deriving DecidableEq, Repr

/-- The structural rules of a frame that a codec with this `client` flag and these
`reserved_bits` exchanges. -/
structure Frame.Valid (client : Bool) (reservedBits : UInt8) (frame : Frame) : Prop where
  /-- No reserved opcode. -/
  opcode_valid : frame.opcode.isInvalid = false
  /-- A control frame is never fragmented. -/
  control_fin : frame.opcode.isControl = true → frame.fin = true
  /-- A control frame carries at most 125 bytes. -/
  control_length : frame.opcode.isControl = true → frame.payloadLength ≤ 125
  /-- Each reserved bit is set only when an extension claimed it. -/
  rsv1_allowed : frame.rsv1 = true → reservedBits &&& 0x4 ≠ 0
  rsv2_allowed : frame.rsv2 = true → reservedBits &&& 0x2 ≠ 0
  rsv3_allowed : frame.rsv3 = true → reservedBits &&& 0x1 ≠ 0
  /-- A frame from a client is masked. -/
  client_masked : client = true → frame.masked = true
  /-- An unmasked frame has the zero mask. -/
  unmasked_key : frame.masked = false → frame.mask = 0
  /-- No data for an empty payload, and otherwise exactly `payload_length` bytes. -/
  data_length : frame.applicationData.map List.length =
    if frame.payloadLength = 0 then none else some frame.payloadLength.toNat
  /-- No extension data. -/
  no_extension : frame.extensionData = none

/-- The structural rules can be checked. -/
instance (client : Bool) (reservedBits : UInt8) (frame : Frame) :
    Decidable (frame.Valid client reservedBits) :=
  decidable_of_iff (frame.opcode.isInvalid = false ∧
      (frame.opcode.isControl = true → frame.fin = true) ∧
      (frame.opcode.isControl = true → frame.payloadLength ≤ 125) ∧
      (frame.rsv1 = true → reservedBits &&& 0x4 ≠ 0) ∧
      (frame.rsv2 = true → reservedBits &&& 0x2 ≠ 0) ∧
      (frame.rsv3 = true → reservedBits &&& 0x1 ≠ 0) ∧
      (client = true → frame.masked = true) ∧ (frame.masked = false → frame.mask = 0) ∧
      frame.applicationData.map List.length =
        (if frame.payloadLength = 0 then none else some frame.payloadLength.toNat) ∧
      frame.extensionData = none)
    ⟨fun ⟨a, b, c, d, e, f, g, h, i, j⟩ => ⟨a, b, c, d, e, f, g, h, i, j⟩,
      fun v => ⟨v.1, v.2, v.3, v.4, v.5, v.6, v.7, v.8, v.9, v.10⟩⟩

end Soketto
