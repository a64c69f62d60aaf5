import Soketto.Refinement

/-! The configuration that `set_client` and `set_reserved_bits` write is read by the header
checks alone: past the header a codec decodes alike whatever it holds, and a configuration that
admits more headers keeps every call that succeeds. -/

namespace Soketto

namespace FrameCodec

/-- The codec after `set_client` and then `set_reserved_bits`. -/
def configure (c : FrameCodec) (client : Bool) (reservedBits : UInt8) : FrameCodec :=
  (c.setClient client).setReservedBits reservedBits

/-- Configuring keeps the state. -/
@[simp] theorem configure_state (c : FrameCodec) (client : Bool) (reservedBits : UInt8) :
    (c.configure client reservedBits).state = c.state := rfl

/-- Configuring keeps the length code. -/
@[simp] theorem configure_lengthCode (c : FrameCodec) (client : Bool) (reservedBits : UInt8) :
    (c.configure client reservedBits).lengthCode = c.lengthCode := rfl

/-- Configuring keeps the mask flag. -/
@[simp] theorem configure_masked (c : FrameCodec) (client : Bool) (reservedBits : UInt8) :
    (c.configure client reservedBits).masked = c.masked := rfl

/-- Configuring keeps the payload length. -/
@[simp] theorem configure_payloadLength (c : FrameCodec) (client : Bool) (reservedBits : UInt8) :
    (c.configure client reservedBits).payloadLength = c.payloadLength := rfl

/-- The configuration `client`, `reservedBits` admits every header that `c`'s admits: it asks
for a mask only where `c` does, and allows every reserved bit that `c` allows. -/
def Admits (c : FrameCodec) (client : Bool) (reservedBits : UInt8) : Prop :=
  (client = true → c.client = true) ∧ (c.reservedBits &&& 0x4 ≠ 0 → reservedBits &&& 0x4 ≠ 0) ∧
    (c.reservedBits &&& 0x2 ≠ 0 → reservedBits &&& 0x2 ≠ 0) ∧
    (c.reservedBits &&& 0x1 ≠ 0 → reservedBits &&& 0x1 ≠ 0)

instance (c : FrameCodec) (client : Bool) (reservedBits : UInt8) :
    Decidable (c.Admits client reservedBits) :=
  inferInstanceAs (Decidable (_ ∧ _))

/-- A header that passes the checks under `c`'s configuration passes them under one that admits
more. -/
theorem Admits.headerChecks {c : FrameCodec} {client : Bool} {reservedBits : UInt8}
    {first second : UInt8} (admits : c.Admits client reservedBits)
    (checks : HeaderChecks (c.withHeader first second)) :
    HeaderChecks ((c.configure client reservedBits).withHeader first second) := by
  -- The flags are the header's either way; only the two configured checks move.
  obtain ⟨r1, r2, r3, valid, control, mask⟩ := checks
  obtain ⟨masks, b4, b2, b1⟩ := admits
  exact ⟨fun set => b4 (r1 set), fun set => b2 (r2 set), fun set => b1 (r3 set), valid, control,
    fun isClient => mask (masks isClient)⟩

end FrameCodec

/-- An outcome with the configuration set. -/
def Outcome.configure (client : Bool) (reservedBits : UInt8) : Outcome → Outcome
  | .done ret c buf => .done ret (c.configure client reservedBits) buf
  | .panic => .panic

/-- Setting the configuration and clearing `min_len` commute. -/
theorem Outcome.configure_erase (client : Bool) (reservedBits : UInt8) (o : Outcome) :
    (o.configure client reservedBits).erase = o.erase.configure client reservedBits := by
  cases o <;> rfl

/-- A round with the configuration set. -/
def Pass.configure (client : Bool) (reservedBits : UInt8) : Pass → Pass
  | .next c buf => .next (c.configure client reservedBits) buf
  | .exit o => .exit (o.configure client reservedBits)

namespace FrameCodec

variable {c c' : FrameCodec} {buf buf' : List UInt8} {client : Bool} {reservedBits : UInt8}

/-! ### Past the header the configuration is not read -/

/-- The control check does not read the configuration. -/
theorem checkControl_configure (c : FrameCodec) (buf : List UInt8) :
    (c.configure client reservedBits).checkControl buf =
      (c.checkControl buf).configure client reservedBits := by
  simp only [checkControl, configure, setClient, setReservedBits]
  split <;> rfl

/-- Reading an extended length does not read the configuration. -/
theorem onExtended_configure (read : List UInt8 → Option UInt64) (c : FrameCodec)
    (bytes rest : List UInt8) :
    (c.configure client reservedBits).onExtended read bytes rest =
      (c.onExtended read bytes rest).configure client reservedBits := by
  simp only [onExtended]
  split
  · exact checkControl_configure { c with payloadLength := _, state := .LENGTH } rest
  · rfl

/-- Reading the mask does not read the configuration. -/
theorem onMask_configure (c : FrameCodec) (bytes rest : List UInt8) :
    (c.configure client reservedBits).onMask bytes rest =
      (c.onMask bytes rest).configure client reservedBits := by
  simp only [onMask]
  split <;> rfl

/-- The early check does not read the configuration. -/
theorem checkPartial_configure (c : FrameCodec) (buf : List UInt8) :
    (c.configure client reservedBits).checkPartial buf =
      (c.checkPartial buf).configure client reservedBits := by
  simp only [checkPartial, configure, setClient, setReservedBits]
  split_ifs <;> (try split) <;> rfl

/-- Unmasking the payload does not read the configuration. -/
theorem finishPayload_configure (c : FrameCodec) (bytes rest : List UInt8) :
    (c.configure client reservedBits).finishPayload bytes rest =
      (c.finishPayload bytes rest).configure client reservedBits := by
  simp only [finishPayload, configure, setClient, setReservedBits]
  split <;> rfl

/-- A field does not read the configuration when its continuation does not. -/
theorem readField_configure {width : Nat} {k : FrameCodec → List UInt8 → List UInt8 → Pass}
    (blind : ∀ c bytes rest, k (c.configure client reservedBits) bytes rest =
      (k c bytes rest).configure client reservedBits) :
    (c.configure client reservedBits).readField buf width k =
      (c.readField buf width k).configure client reservedBits := by
  unfold readField
  split_ifs
  · rfl
  · exact blind _ _ _

/-- A round past the header does not read the configuration. -/
theorem step_configure (started : c.state ≠ .NONE) :
    (c.configure client reservedBits).step buf = (c.step buf).configure client reservedBits := by
  unfold step
  cases state : c.state <;> simp only [configure_state, state]
  case NONE => exact absurd state started
  case HEADER =>
    unfold stepHeader
    simp only [configure_lengthCode]
    split_ifs
    · exact readField_configure (onExtended_configure _)
    · exact readField_configure (onExtended_configure _)
    · exact checkControl_configure { c with payloadLength := _, state := .LENGTH } buf
  case LENGTH =>
    unfold stepLength
    simp only [configure_masked]
    split_ifs
    · exact readField_configure onMask_configure
    · rfl
  case MASK =>
    unfold stepMask
    simp only [configure_payloadLength]
    split_ifs
    · exact congrArg Pass.exit (checkPartial_configure c buf)
    · exact finishPayload_configure c _ _
    · rfl
  case FULL => rfl

/-- A round that does not fail does what it did under a configuration that admits more. -/
theorem step_configure_of_admits (admits : c.state = .NONE → c.Admits client reservedBits)
    (passes : ∀ msg c' buf', c.step buf ≠ .exit (.done (.error msg) c' buf')) :
    (c.configure client reservedBits).step buf = (c.step buf).configure client reservedBits := by
  by_cases started : c.state = .NONE
  · -- The header: it parses, and parses under the configuration that admits more.
    unfold step at passes ⊢
    simp only [configure_state, started] at passes ⊢
    unfold stepNone at passes ⊢
    split_ifs with short
    · rfl
    · rw [if_neg short] at passes
      cases parsed : c.parseHeader (buf.getD 0 0) (buf.getD 1 0) with
      | error e => exact absurd (by rw [parsed]) (passes e.1 e.2 (buf.drop 2))
      | ok c₁ =>
        obtain ⟨rfl, checks⟩ := parseHeader_eq_ok.mp parsed
        rw [parseHeader_eq_ok.mpr ⟨rfl, (admits started).headerChecks checks⟩]
        rfl
  · exact step_configure started

/-! ### Runs under a configuration that admits more -/

/-- The rounds of a run that goes on are rounds under a configuration that admits more, which
only the first of them can need, at the header. -/
theorem Reaches.configure (admits : c.state = .NONE → c.Admits client reservedBits)
    (reaches : c.Reaches buf c' buf') :
    (c.configure client reservedBits).Reaches buf (c'.configure client reservedBits) buf' := by
  induction reaches with
  | refl => exact .refl _ _
  | round next _ ih =>
    -- The round after the first one is past the header.
    have moved := step_next_rank next
    refine .round ?_ (ih fun none => absurd moved (by simp [none, DecodeState.rank]))
    rw [step_configure_of_admits admits (by simp [next]), next]
    rfl

end FrameCodec

/-- Where the reader's run ends alike once reconfigured, so does `decode`: on the reconfigured
codec it ends as on the codec, reconfigured, panics included, but for `min_len`. -/
theorem decode_configure_of_reaches {c c₁ : FrameCodec} {buf rest : List UInt8} {o : Outcome}
    {client : Bool} {reservedBits : UInt8} (nonempty : buf ≠ [])
    (admits : c.state = .NONE → c.Admits client reservedBits)
    (reaches : c.erase.Reaches buf c₁ rest) (exit : c₁.step rest = .exit o)
    (exit' : (c₁.configure client reservedBits).step rest = .exit (o.configure client reservedBits)) :
    ((c.configure client reservedBits).decode buf).erase =
      ((c.decode buf).configure client reservedBits).erase := by
  have run : (c.erase.configure client reservedBits).Reaches buf
      (c₁.configure client reservedBits) rest := reaches.configure admits
  by_cases wraps : c₁.state = .MASK ∧ rest.length < c₁.payloadLength.toNat ∧
      2 ^ 64 ≤ buf.length - rest.length + c₁.payloadLength.toNat
  · -- Both calls panic where the payload they wait for wraps `min_len`.
    obtain ⟨mask, short, big⟩ := wraps
    have panics : (c.configure client reservedBits).decode buf = .panic :=
      decode_panic_of_reaches run mask short big
    rw [panics, decode_panic_of_reaches reaches mask short big]
    rfl
  · -- Neither wraps: both calls give what the reader gives.
    have safe : c₁.state = .MASK → rest.length < c₁.payloadLength.toNat →
        buf.length - rest.length + c₁.payloadLength.toNat < 2 ^ 64 :=
      fun mask short => Nat.lt_of_not_le fun big => wraps ⟨mask, short, big⟩
    have configured : ((c.configure client reservedBits).decode buf).erase =
        o.configure client reservedBits :=
      decode_of_reaches nonempty run exit' safe
    rw [configured, Outcome.configure_erase, decode_of_reaches nonempty reaches exit safe]

/-- A call of `decode` that succeeds still succeeds, with the same result and the same bytes
left, under a configuration that admits more headers: one that asks for a mask only where the
codec did and allows every reserved bit it allowed. The codec it leaves is the one the call
left, so configured, but for `min_len`. -/
theorem decode_configure {c c' : FrameCodec} {buf buf' : List UInt8} {r : Option Frame}
    {client : Bool} {reservedBits : UInt8} (admits : c.Admits client reservedBits)
    (decoded : c.decode buf = .done (.ok r) c' buf') :
    ∃ d, (c.configure client reservedBits).decode buf = .done (.ok r) d buf' ∧
      d.erase = (c'.configure client reservedBits).erase := by
  by_cases empty : buf = []
  · -- An empty buffer: both calls return at once.
    subst empty
    obtain ⟨waits, rfl, rfl⟩ := Outcome.done.inj decoded
    cases waits
    exact ⟨_, rfl, rfl⟩
  · -- The reader's run ends with the same success under the configuration that admits more.
    have read := read_of_decode decoded
    rw [FrameCodec.read, if_neg empty] at read
    obtain ⟨c₁, rest, reaches, exit⟩ := FrameCodec.readFrom_ends c.erase buf
    rw [read] at exit
    obtain ⟨rfl, rfl, -⟩ := FrameCodec.step_exit_ok exit
    have admits' : c'.erase.state = .NONE → c'.erase.Admits client reservedBits := fun none => by
      rw [FrameCodec.erase_state] at none
      obtain ⟨same, -⟩ := reaches.eq_of_rank_le (by simp [none, DecodeState.rank])
      exact same ▸ admits
    have same := decode_configure_of_reaches empty (fun _ => admits) reaches exit
      ((FrameCodec.step_configure_of_admits admits' (by simp [exit])).trans (by rw [exit]; rfl))
    rw [decoded] at same
    exact Outcome.erase_eq_done same

/-- A Ping that a codec asking for masks decodes, it still decodes with the mask check off and
the first reserved bit allowed. -/
theorem decode_configure_ping :
    (FrameCodec.new true 0).Admits false 0x4 ∧
      ∃ r c', (FrameCodec.new true 0).decode [0x89, 0x80, 0, 0, 0, 0] = .done (.ok r) c' [] ∧
        ∃ d, ((FrameCodec.new true 0).configure false 0x4).decode [0x89, 0x80, 0, 0, 0, 0] =
          .done (.ok r) d [] ∧ d.erase = (c'.configure false 0x4).erase :=
  ⟨by decide, _, _, rfl, decode_configure (by decide) rfl⟩

end Soketto
