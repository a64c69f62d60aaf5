import Soketto.Codec

/-! The frame reader that `decode` implements, stated without `min_len`, and the proof that each
round of the loop agrees with the reader's: `min_len` counts what the call has drained, so every
`buf_len < min_len` test asks whether the next field is all there. -/

namespace Soketto

namespace FrameCodec

/-- The codec with `min_len` cleared: what is left of it that a later call can observe. -/
def erase (c : FrameCodec) : FrameCodec := { c with minLen := 0 }

/-- Clearing twice is clearing once. -/
@[simp] theorem erase_erase (c : FrameCodec) : c.erase.erase = c.erase := rfl

/-- Whatever `min_len` held is gone once it is cleared. -/
@[simp] theorem erase_minLen (c : FrameCodec) (m : UInt64) :
    ({ c with minLen := m } : FrameCodec).erase = c.erase := rfl

/-- Clearing `min_len` keeps the state. -/
@[simp] theorem erase_state (c : FrameCodec) : c.erase.state = c.state := rfl

/-- Clearing `min_len` keeps the length code. -/
@[simp] theorem erase_lengthCode (c : FrameCodec) : c.erase.lengthCode = c.lengthCode := rfl

/-- Clearing `min_len` keeps the mask flag. -/
@[simp] theorem erase_masked (c : FrameCodec) : c.erase.masked = c.masked := rfl

/-- Clearing `min_len` keeps the payload length. -/
@[simp] theorem erase_payloadLength (c : FrameCodec) : c.erase.payloadLength = c.payloadLength :=
  rfl

/-- Clearing `min_len` keeps the frame the codec describes. -/
@[simp] theorem erase_toFrame (c : FrameCodec) : c.erase.toFrame = c.toFrame := rfl

/-- Clearing `min_len` of a fresh codec changes nothing. -/
@[simp] theorem erase_new (client : Bool) (reservedBits : UInt8) :
    (new client reservedBits).erase = new client reservedBits := rfl

end FrameCodec

/-- An outcome with `min_len` cleared. -/
def Outcome.erase : Outcome → Outcome
  | .done ret c buf => .done ret c.erase buf
  | .panic => .panic

/-- A round with `min_len` cleared. -/
def Pass.erase : Pass → Pass
  | .next c buf => .next c.erase buf
  | .exit o => .exit o.erase

namespace FrameCodec

/-! ### The arms read abstractly -/

/-- The `NONE` arm without `min_len`: the header, once its two bytes are there. -/
def stepNone (c : FrameCodec) (buf : List UInt8) : Pass :=
  if buf.length < 2 then .exit (.done (.ok none) c buf) else
  match c.parseHeader (buf.getD 0 0) (buf.getD 1 0) with
  | .ok c => .next c (buf.drop 2)
  | .error (msg, c) => .exit (.done (.error msg) c (buf.drop 2))

/-- A field of `width` bytes, handed to `read` once the buffer holds all of it. -/
def readField (c : FrameCodec) (buf : List UInt8) (width : Nat)
    (read : FrameCodec → List UInt8 → List UInt8 → Pass) : Pass :=
  if buf.length < width then .exit (.done (.ok none) c buf)
  else read c (buf.take width) (buf.drop width)

/-- The `HEADER` arm without `min_len`. -/
def stepHeader (c : FrameCodec) (buf : List UInt8) : Pass :=
  if c.lengthCode == twoExt then c.readField buf 2 onTwoExt
  else if c.lengthCode == eightExt then c.readField buf 8 onEightExt
  else checkControl { c with payloadLength := c.lengthCode.toUInt64, state := .LENGTH } buf

/-- The `LENGTH` arm without `min_len`. -/
def stepLength (c : FrameCodec) (buf : List UInt8) : Pass :=
  if c.masked then c.readField buf 4 onMask
  else .next { c with maskKey := 0, state := .MASK } buf

/-- The `MASK` arm without `min_len`: the early check while the payload is not all there. -/
def stepMask (c : FrameCodec) (buf : List UInt8) : Pass :=
  if buf.length < c.payloadLength.toNat then .exit (c.checkPartial buf)
  else if c.payloadLength > (0 : UInt64) then
    c.finishPayload (buf.take c.payloadLength.toNat) (buf.drop c.payloadLength.toNat)
  else .next { c with state := .FULL } buf

/-- One round read abstractly. -/
def step (c : FrameCodec) (buf : List UInt8) : Pass :=
  match c.state with
  | .NONE => c.stepNone buf
  | .HEADER => c.stepHeader buf
  | .LENGTH => c.stepLength buf
  | .MASK => c.stepMask buf
  | .FULL => .exit (.done (.ok (some c.toFrame)) c buf)

/-- The frame from the `MASK` state on. -/
def readMask (c : FrameCodec) (buf : List UInt8) : Outcome :=
  match c.stepMask buf with
  | .next c buf => .done (.ok (some c.toFrame)) c buf
  | .exit o => o

/-- The frame from the `LENGTH` state on. -/
def readLength (c : FrameCodec) (buf : List UInt8) : Outcome :=
  match c.stepLength buf with
  | .next c buf => c.readMask buf
  | .exit o => o

/-- The frame from the `HEADER` state on. -/
def readHeader (c : FrameCodec) (buf : List UInt8) : Outcome :=
  match c.stepHeader buf with
  | .next c buf => c.readLength buf
  | .exit o => o

/-- The frame from the `NONE` state on. -/
def readNone (c : FrameCodec) (buf : List UInt8) : Outcome :=
  match c.stepNone buf with
  | .next c buf => c.readHeader buf
  | .exit o => o

/-- The frame reader from the codec's state on: every field the buffer holds, in order. -/
def readFrom (c : FrameCodec) (buf : List UInt8) : Outcome :=
  match c.state with
  | .NONE => c.readNone buf
  | .HEADER => c.readHeader buf
  | .LENGTH => c.readLength buf
  | .MASK => c.readMask buf
  | .FULL => .done (.ok (some c.toFrame)) c buf

/-- What a call of `decode` computes, stated without `min_len`: nothing on an empty buffer,
and otherwise the frame reader from the current state. -/
def read (c : FrameCodec) (buf : List UInt8) : Outcome :=
  if buf = [] then .done (.ok none) c buf else c.readFrom buf

/-! ### The continuations do not read `min_len` -/

/-- Parsing the header does not read `min_len`. -/
theorem parseHeader_erase (c : FrameCodec) (first second : UInt8) :
    c.erase.parseHeader first second =
      ((c.parseHeader first second).map erase).mapError (fun e => (e.1, e.2.erase)) := by
  -- Push both maps through the checks; the two sides then agree check by check.
  simp only [parseHeader, apply_ite (Except.map erase), apply_ite (Except.mapError _)]
  rfl

/-- The control check does not read `min_len`. -/
theorem checkControl_erase (c : FrameCodec) (buf : List UInt8) :
    c.erase.checkControl buf = (c.checkControl buf).erase := by
  simp only [checkControl, erase]
  split <;> rfl

/-- Reading an extended length does not read `min_len`. -/
theorem onExtended_erase (read : List UInt8 → Option UInt64) (c : FrameCodec)
    (bytes rest : List UInt8) :
    c.erase.onExtended read bytes rest = (c.onExtended read bytes rest).erase := by
  simp only [onExtended]
  split
  · exact checkControl_erase { c with payloadLength := _, state := .LENGTH } rest
  · rfl

/-- Reading the mask does not read `min_len`. -/
theorem onMask_erase (c : FrameCodec) (bytes rest : List UInt8) :
    c.erase.onMask bytes rest = (c.onMask bytes rest).erase := by
  simp only [onMask]
  split <;> rfl

/-- The early check does not read `min_len`. -/
theorem checkPartial_erase (c : FrameCodec) (buf : List UInt8) :
    c.erase.checkPartial buf = (c.checkPartial buf).erase := by
  simp only [checkPartial, erase]
  split_ifs <;> (try split) <;> rfl

/-- Unmasking the payload does not read `min_len`. -/
theorem finishPayload_erase (c : FrameCodec) (bytes rest : List UInt8) :
    c.erase.finishPayload bytes rest = (c.finishPayload bytes rest).erase := by
  simp only [finishPayload, erase]
  split <;> rfl

end FrameCodec

/-! ### `min_len` counts what the call has drained -/

/-- The most header bytes one call can have drained on reaching a state. -/
def DecodeState.headerBound : DecodeState → Nat
  | .NONE => 0 | .HEADER => 2 | .LENGTH => 10 | .MASK => 14 | .FULL => 14

/-- `min_len` counts the bytes this call has drained from a buffer of `bufLen` bytes: the
invariant of the loop, which makes each `buf_len < min_len` test mean that the next field is
not all there. -/
def Counts (bufLen : Nat) (c : FrameCodec) (buf : List UInt8) : Prop :=
  c.state = .FULL ∨ (c.minLen.toNat + buf.length = bufLen ∧ c.minLen.toNat ≤ c.state.headerBound)

/-- A round of the loop agrees with the round of the reader from the erased codec: the same
exit once `min_len` is cleared, or the same next state, which `min_len` still counts. -/
def Pass.Agrees (bufLen : Nat) : Pass → Pass → Prop
  | .next c buf, .next c' buf' => c.erase = c' ∧ buf = buf' ∧ Counts bufLen c buf
  | .exit o, .exit o' => o.erase = o'
  | _, _ => False

/-- Adding a small count to `min_len` does not wrap. -/
theorem toNat_add_of_lt {a b : UInt64} (small : a.toNat + b.toNat < 2 ^ 64) :
    (a + b).toNat = a.toNat + b.toNat := by
  rw [UInt64.toNat_add]
  exact Nat.mod_eq_of_lt small

namespace FrameCodec

/-- The `NONE` arm, which only a fresh call reaches, agrees with the reader. -/
theorem passNone_agrees {c : FrameCodec} {buf : List UInt8} {bufLen : Nat}
    (counts : c.minLen.toNat + buf.length = bufLen) (fresh : c.minLen.toNat = 0) :
    Pass.Agrees bufLen (c.passNone buf bufLen) (c.erase.stepNone buf) := by
  have bumped : (c.minLen + 2).toNat = 2 := by
    rw [toNat_add_of_lt (by rw [fresh]; decide), fresh]; rfl
  subst counts
  unfold passNone stepNone
  simp only [bumped, fresh, Nat.zero_add]
  by_cases short : buf.length < 2
  · simp only [short, if_true]
    rfl
  · rw [if_neg short, if_neg short, drainTo_of_le (by omega)]
    have first : (buf.take 2).getD 0 0 = buf.getD 0 0 := by
      simp [List.getD_eq_getElem?_getD, List.getElem?_take]
    have second : (buf.take 2).getD 1 0 = buf.getD 1 0 := by
      simp [List.getD_eq_getElem?_getD, List.getElem?_take]
    simp only [first, second]
    rw [← erase_minLen c (c.minLen + 2), parseHeader_erase]
    cases parsed :
        ({ c with minLen := c.minLen + 2 } : FrameCodec).parseHeader (buf.getD 0 0) (buf.getD 1 0) with
    | error e => rfl
    | ok c' =>
      obtain ⟨rfl, -⟩ := parseHeader_eq_ok.mp parsed
      refine ⟨rfl, rfl, .inr ⟨?_, ?_⟩⟩ <;> simp [withHeader, bumped, DecodeState.headerBound]
      omega

/-- A round that cannot panic agrees with itself read without `min_len`, once `min_len` counts
for every next state it reaches. -/
theorem agrees_erase {p : Pass} {bufLen : Nat}
    (counts : ∀ c buf, p = .next c buf → Counts bufLen c buf) : Pass.Agrees bufLen p p.erase := by
  cases p with
  | next c buf => exact ⟨rfl, rfl, counts c buf rfl⟩
  | exit o => rfl

/-- The control check goes on with the codec and the buffer it was given. -/
theorem checkControl_next {c c' : FrameCodec} {buf buf' : List UInt8}
    (next : c.checkControl buf = .next c' buf') : c' = c ∧ buf' = buf := by
  unfold checkControl at next
  split at next <;> cases next
  exact ⟨rfl, rfl⟩

/-- The bookkeeping of a fixed-width field agrees with reading the field, for a continuation
that ignores `min_len` and, when it goes on, keeps it and moves to `target`. -/
theorem takeField_agrees {c : FrameCodec} {buf : List UInt8} {bufLen : Nat} {width : UInt64}
    {k : FrameCodec → List UInt8 → List UInt8 → Pass} {target : DecodeState}
    (erases : ∀ c bytes rest, k c.erase bytes rest = (k c bytes rest).erase)
    (moves : ∀ c bytes rest c' rest', k c bytes rest = .next c' rest' →
      c'.minLen = c.minLen ∧ rest' = rest ∧ c'.state = target)
    (counts : c.minLen.toNat + buf.length = bufLen)
    (room : c.minLen.toNat + width.toNat ≤ target.headerBound) (bound : target.headerBound ≤ 14) :
    Pass.Agrees bufLen (c.takeField buf bufLen width k) (c.erase.readField buf width.toNat k) := by
  have bumped : (c.minLen + width).toNat = c.minLen.toNat + width.toNat :=
    toNat_add_of_lt (by omega)
  subst counts
  unfold takeField readField
  simp only [bumped]
  by_cases short : buf.length < width.toNat
  · simp only [short, if_true, Nat.add_lt_add_iff_left]
    rfl
  · rw [if_neg short, if_neg (by omega), drainTo_of_le (by omega),
      ← erase_minLen c (c.minLen + width), erases]
    refine agrees_erase fun c' rest' next => ?_
    obtain ⟨kept, rfl, moved⟩ := moves _ _ _ _ _ next
    refine .inr ⟨?_, ?_⟩ <;> simp only [kept, bumped, moved, List.length_drop] <;> omega

/-- An extended length goes on to `LENGTH`, keeping `min_len` and the rest of the buffer. -/
theorem onExtended_continues (read : List UInt8 → Option UInt64) (c : FrameCodec)
    (bytes rest : List UInt8) (c' : FrameCodec) (rest' : List UInt8)
    (next : c.onExtended read bytes rest = .next c' rest') :
    c'.minLen = c.minLen ∧ rest' = rest ∧ c'.state = .LENGTH := by
  unfold onExtended at next
  split at next
  · obtain ⟨rfl, rfl⟩ := checkControl_next next
    exact ⟨rfl, rfl, rfl⟩
  · cases next

/-- The mask goes on to `MASK`, keeping `min_len` and the rest of the buffer. -/
theorem onMask_continues (c : FrameCodec) (bytes rest : List UInt8) (c' : FrameCodec)
    (rest' : List UInt8) (next : c.onMask bytes rest = .next c' rest') :
    c'.minLen = c.minLen ∧ rest' = rest ∧ c'.state = .MASK := by
  unfold onMask at next
  split at next <;> cases next
  exact ⟨rfl, rfl, rfl⟩

/-- The `HEADER` arm agrees with the reader. -/
theorem passHeader_agrees {c : FrameCodec} {buf : List UInt8} {bufLen : Nat}
    (counts : c.minLen.toNat + buf.length = bufLen) (bound : c.minLen.toNat ≤ 2) :
    Pass.Agrees bufLen (c.passHeader buf bufLen) (c.erase.stepHeader buf) := by
  unfold passHeader stepHeader
  simp only [erase_lengthCode]
  split_ifs
  · exact takeField_agrees (onExtended_erase _) (onExtended_continues _) counts
      (by simp [DecodeState.headerBound, UInt64.size]; omega) (by decide)
  · exact takeField_agrees (onExtended_erase _) (onExtended_continues _) counts
      (by simp [DecodeState.headerBound, UInt64.size]; omega) (by decide)
  · let inline : FrameCodec := { c with payloadLength := c.lengthCode.toUInt64, state := .LENGTH }
    show Pass.Agrees bufLen (inline.checkControl buf) (inline.erase.checkControl buf)
    rw [checkControl_erase]
    refine agrees_erase fun c' rest' next => ?_
    obtain ⟨rfl, rfl⟩ := checkControl_next next
    exact .inr ⟨counts, by simp [DecodeState.headerBound]; omega⟩

/-- The `LENGTH` arm agrees with the reader. -/
theorem passLength_agrees {c : FrameCodec} {buf : List UInt8} {bufLen : Nat}
    (counts : c.minLen.toNat + buf.length = bufLen) (bound : c.minLen.toNat ≤ 10) :
    Pass.Agrees bufLen (c.passLength buf bufLen) (c.erase.stepLength buf) := by
  unfold passLength stepLength
  simp only [erase_masked]
  split_ifs
  · exact takeField_agrees onMask_erase onMask_continues counts
      (by simp [DecodeState.headerBound, UInt64.size]; omega) (by decide)
  · exact ⟨rfl, rfl, .inr ⟨counts, by simp [DecodeState.headerBound]; omega⟩⟩

/-- The `MASK` arm panics exactly when the payload is not all there and `min_len +
payload_length` wraps past `2 ^ 64`: the wrapped sum passes the length test, and draining the
payload runs past the end of the buffer. -/
theorem passMask_eq_panic {c : FrameCodec} {buf : List UInt8} {bufLen : Nat}
    (counts : c.minLen.toNat + buf.length = bufLen) :
    c.passMask buf bufLen = .exit .panic ↔
      buf.length < c.payloadLength.toNat ∧ 2 ^ 64 ≤ c.minLen.toNat + c.payloadLength.toNat := by
  subst counts
  have sum : (c.minLen + c.payloadLength).toNat =
      (c.minLen.toNat + c.payloadLength.toNat) % 2 ^ 64 := UInt64.toNat_add c.minLen c.payloadLength
  have bounded := UInt64.toNat_lt c.payloadLength
  have minBounded := UInt64.toNat_lt c.minLen
  unfold passMask
  by_cases fits : c.minLen.toNat + c.payloadLength.toNat < 2 ^ 64
  · -- Without a wrap the test sees whether the payload is there, and no drain runs past it.
    rw [Nat.mod_eq_of_lt fits] at sum
    simp only [sum, Nat.add_lt_add_iff_left]
    split_ifs with short nonempty
    · obtain ⟨ret, kept⟩ :=
        checkPartial_keeps { c with minLen := c.minLen + c.payloadLength - c.payloadLength } buf
      simp only [kept, Pass.exit.injEq, reduceCtorEq, false_iff, not_and, not_le]
      omega
    · rw [drainTo_of_le (by omega)]
      simp only [finishPayload_ne_panic, false_iff]
      omega
    · simp only [reduceCtorEq, false_iff]
      omega
  · -- With a wrap the sum falls below `min_len`: the test passes, and the drain decides.
    have wrapped : (c.minLen + c.payloadLength).toNat < c.minLen.toNat := by
      rw [sum, Nat.mod_eq_sub_mod (by omega), Nat.mod_eq_of_lt (by omega)]
      omega
    rw [if_neg (by simp only; omega), if_pos (by show 0 < c.payloadLength.toNat; omega)]
    by_cases short : buf.length < c.payloadLength.toNat
    · simp only [drainTo_of_lt short, true_iff]
      omega
    · simp only [drainTo_of_le (Nat.le_of_not_lt short), finishPayload_ne_panic, false_iff, not_and]
      exact fun long => absurd long short

/-- The `MASK` arm agrees with the reader, except that it panics when `min_len +
payload_length` wraps past `2 ^ 64` while the payload is not all there. -/
theorem passMask_agrees {c : FrameCodec} {buf : List UInt8} {bufLen : Nat}
    (counts : c.minLen.toNat + buf.length = bufLen) :
    (buf.length < c.payloadLength.toNat ∧ c.passMask buf bufLen = .exit .panic) ∨
      Pass.Agrees bufLen (c.passMask buf bufLen) (c.erase.stepMask buf) := by
  by_cases wraps : buf.length < c.payloadLength.toNat ∧
      2 ^ 64 ≤ c.minLen.toNat + c.payloadLength.toNat
  · exact .inl ⟨wraps.1, (passMask_eq_panic counts).mpr wraps⟩
  right
  subst counts
  have sum : (c.minLen + c.payloadLength).toNat =
      (c.minLen.toNat + c.payloadLength.toNat) % 2 ^ 64 := UInt64.toNat_add c.minLen c.payloadLength
  have below := Nat.mod_le (c.minLen.toNat + c.payloadLength.toNat) (2 ^ 64)
  unfold passMask stepMask
  simp only [erase_payloadLength]
  by_cases short : buf.length < c.payloadLength.toNat
  · -- Without a wrap the test sees the payload is not all there, as the reader does.
    rw [Nat.mod_eq_of_lt (by omega)] at sum
    rw [if_pos (by omega), if_pos short]
    show (checkPartial _ buf).erase = _
    rw [← checkPartial_erase]
    rfl
  · -- With the payload all there, neither side stops short, wrap or not.
    rw [if_neg (by omega), if_neg short]
    split_ifs with nonempty
    · rw [drainTo_of_le (by omega)]
      let bumped : FrameCodec := { c with minLen := c.minLen + c.payloadLength }
      show Pass.Agrees _ (bumped.finishPayload _ _) (bumped.erase.finishPayload _ _)
      rw [finishPayload_erase]
      refine agrees_erase fun c' rest' next => ?_
      unfold finishPayload at next
      split at next <;> cases next
      exact .inl rfl
    · exact ⟨rfl, rfl, .inl rfl⟩

/-- Each round of the loop agrees with the reader's round, but for the panic of the `MASK`
arm on a payload that is not all there. -/
theorem pass_agrees {c : FrameCodec} {buf : List UInt8} {bufLen : Nat}
    (counts : Counts bufLen c buf) :
    (c.state = .MASK ∧ buf.length < c.payloadLength.toNat ∧ c.pass buf bufLen = .exit .panic) ∨
      Pass.Agrees bufLen (c.pass buf bufLen) (c.erase.step buf) := by
  unfold pass step
  rcases counts with full | ⟨counts, bound⟩
  · simp only [erase_state, full]
    exact .inr rfl
  · cases state : c.state <;> simp only [erase_state, state] <;>
      simp only [state, DecodeState.headerBound] at bound
    · exact .inr (passNone_agrees counts (by omega))
    · exact .inr (passHeader_agrees counts bound)
    · exact .inr (passLength_agrees counts bound)
    · rcases passMask_agrees counts with ⟨short, panic⟩ | agrees
      · exact .inl ⟨by simp, short, panic⟩
      · exact .inr agrees
    · exact .inr rfl

/-- A field read goes on only through its continuation. -/
theorem readField_next {c c' : FrameCodec} {buf buf' : List UInt8} {width : Nat}
    {k : FrameCodec → List UInt8 → List UInt8 → Pass}
    (next : c.readField buf width k = .next c' buf') :
    k c (buf.take width) (buf.drop width) = .next c' buf' := by
  unfold readField at next
  split at next
  · cases next
  · exact next

/-- Each round of the reader that goes on moves one state along. -/
theorem step_next_state {c c' : FrameCodec} {buf buf' : List UInt8}
    (next : c.step buf = .next c' buf') :
    (c.state = .NONE ∧ c'.state = .HEADER) ∨ (c.state = .HEADER ∧ c'.state = .LENGTH) ∨
      (c.state = .LENGTH ∧ c'.state = .MASK) ∨ (c.state = .MASK ∧ c'.state = .FULL) := by
  unfold step at next
  cases state : c.state <;> simp only [state] at next
  · unfold stepNone at next
    split at next
    · cases next
    · split at next
      · cases next
        exact .inl ⟨rfl, (parseHeader_eq_ok.mp ‹_›).1 ▸ rfl⟩
      · cases next
  · unfold stepHeader at next
    split_ifs at next
    · exact .inr (.inl ⟨rfl, (onExtended_continues _ _ _ _ _ _ (readField_next next)).2.2⟩)
    · exact .inr (.inl ⟨rfl, (onExtended_continues _ _ _ _ _ _ (readField_next next)).2.2⟩)
    · exact .inr (.inl ⟨rfl, (checkControl_next next).1 ▸ rfl⟩)
  · unfold stepLength at next
    split_ifs at next
    · exact .inr (.inr (.inl ⟨rfl, (onMask_continues _ _ _ _ _ (readField_next next)).2.2⟩))
    · cases next
      exact .inr (.inr (.inl ⟨rfl, rfl⟩))
  · unfold stepMask at next
    split_ifs at next
    · unfold finishPayload at next
      split at next <;> cases next
      exact .inr (.inr (.inr ⟨rfl, rfl⟩))
    · cases next
      exact .inr (.inr (.inr ⟨rfl, rfl⟩))
  · cases next

/-- The reader is one round followed by the reader from where it leads. -/
theorem readFrom_step (c : FrameCodec) (buf : List UInt8) :
    c.readFrom buf = match c.step buf with
      | .next c' buf' => c'.readFrom buf'
      | .exit o => o := by
  cases next : c.step buf with
  | exit o =>
    unfold readFrom
    cases state : c.state <;> simp only [step, state] at next <;>
      simp_all [readNone, readHeader, readLength, readMask]
  | next c' buf' =>
    have moved := step_next_state next
    unfold readFrom
    cases state : c.state <;> simp only [step, state] at next <;>
      simp_all [readNone, readHeader, readLength, readMask, readFrom]

/-- Each round of the reader that goes on moves one rank along. -/
theorem step_next_rank {c c' : FrameCodec} {buf buf' : List UInt8}
    (next : c.step buf = .next c' buf') : c'.state.rank = c.state.rank + 1 := by
  rcases step_next_state next with ⟨h, h'⟩ | ⟨h, h'⟩ | ⟨h, h'⟩ | ⟨h, h'⟩ <;>
    simp [h, h', DecodeState.rank]

/-- `FULL` is the last state. -/
theorem rank_le_four (s : DecodeState) : s.rank ≤ 4 := by
  cases s <;> decide

end FrameCodec

end Soketto
