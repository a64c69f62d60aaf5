import Soketto.Reader

/-! What each round of the reader does: one lemma per arm, saying which bytes it takes and which
fields it sets, and the induction that carries a property of rounds to the whole reader. -/

namespace Soketto

/-- The bytes after the second header byte that carry the payload length `len` under the
seven-bit length `code`: two or eight big-endian bytes for the extended codes, none otherwise,
where the code is the length. -/
def ExtendedLength (code : UInt8) (ext : List UInt8) (len : UInt64) : Prop :=
  if code = twoExt then ext.length = 2 ∧ len.toNat = beValue ext
  else if code = eightExt then ext.length = 8 ∧ len.toNat = beValue ext
  else ext = [] ∧ len = code.toUInt64

/-- The mask field of a frame: four big-endian bytes when it is masked; none otherwise, and
then the key is zero. -/
def MaskField (masked : Bool) (keyBytes : List UInt8) (key : UInt32) : Prop :=
  if masked then keyBytes.length = 4 ∧ key.toNat = beValue keyBytes else keyBytes = [] ∧ key = 0

/-- Two bytes read as a `u16` give their big-endian value. -/
theorem readU16_of_length {bytes : List UInt8} (exact : bytes.length = 2) :
    ∃ value, readU16 bytes = some value ∧ value.toNat = beValue bytes :=
  readUN_of_length u16 exact

/-- Four bytes read as a `u32` give their big-endian value. -/
theorem readU32_of_length {bytes : List UInt8} (exact : bytes.length = 4) :
    ∃ value, readU32 bytes = some value ∧ value.toNat = beValue bytes :=
  readUN_of_length u32 exact

/-- Eight bytes read as a `u64` give their big-endian value. -/
theorem readU64_of_length {bytes : List UInt8} (exact : bytes.length = 8) :
    ∃ value, readU64 bytes = some value ∧ value.toNat = beValue bytes :=
  readUN_of_length u64 exact

/-- An outcome that takes its bytes from the front of `buf`: it leaves a suffix of `buf`, and it
is not a panic. -/
def Outcome.LeavesSuffix (buf : List UInt8) : Outcome → Prop
  | .done _ _ rest => rest <:+ buf
  | .panic => False

/-- A round that takes its bytes from the front of `buf`, whether it goes on or leaves. -/
def Pass.LeavesSuffix (buf : List UInt8) : Pass → Prop
  | .next _ rest => rest <:+ buf
  | .exit o => o.LeavesSuffix buf

/-- Leaving a suffix of a suffix of `buf` is leaving a suffix of `buf`. -/
theorem Pass.LeavesSuffix.trans {p : Pass} {rest buf : List UInt8} (leaves : p.LeavesSuffix rest)
    (suffix : rest <:+ buf) : p.LeavesSuffix buf :=
  match p, leaves with
  | .next _ _, leaves => List.IsSuffix.trans leaves suffix
  | .exit (.done _ _ _), leaves => List.IsSuffix.trans leaves suffix

namespace FrameCodec

variable {c c' : FrameCodec} {buf buf' : List UInt8}

/-! ### Rounds that go on -/

/-- A field goes on exactly when the buffer holds all of it and the continuation goes on. -/
theorem readField_next_iff {width : Nat} {k : FrameCodec → List UInt8 → List UInt8 → Pass} :
    c.readField buf width k = .next c' buf' ↔
      width ≤ buf.length ∧ k c (buf.take width) (buf.drop width) = .next c' buf' := by
  unfold readField
  split_ifs with short
  · exact ⟨fun next => (by cases next), fun ⟨long, _⟩ => absurd long (by omega)⟩
  · exact ⟨fun next => ⟨by omega, next⟩, fun ⟨_, next⟩ => next⟩

/-- The control check goes on exactly when a control frame carries at most 125 bytes. -/
theorem checkControl_next_iff :
    c.checkControl buf = .next c' buf' ↔
      (c.opcode.isControl = true → c.payloadLength ≤ 125) ∧ c' = c ∧ buf' = buf := by
  unfold checkControl
  split_ifs with failed <;> simp only [Bool.and_eq_true, decide_eq_true_eq] at failed
  · simp only [reduceCtorEq, false_iff, not_and]
    exact fun allowed => absurd (allowed failed.2) (UInt64.not_le.mpr failed.1)
  · simp only [Pass.next.injEq]
    exact ⟨fun ⟨same, rest⟩ =>
        ⟨fun control => UInt64.not_lt.mp fun long => failed ⟨long, control⟩, same.symm, rest.symm⟩,
      fun ⟨_, same, rest⟩ => ⟨same.symm, rest.symm⟩⟩

/-- The `NONE` arm goes on exactly when the buffer starts with two header bytes that pass the
checks, and then stores them. -/
theorem stepNone_next :
    c.stepNone buf = .next c' buf' ↔
      ∃ first second, buf = first :: second :: buf' ∧ c' = c.withHeader first second ∧
        HeaderChecks (c.withHeader first second) := by
  constructor
  · intro next
    unfold stepNone at next
    split at next
    · cases next
    · rcases buf with _ | ⟨first, _ | ⟨second, rest⟩⟩
      · simp at *
      · simp at *
      · split at next
        · rename_i parsed
          cases next
          obtain ⟨rfl, checks⟩ := parseHeader_eq_ok.mp parsed
          exact ⟨first, second, rfl, rfl, checks⟩
        · cases next
  · rintro ⟨first, second, rfl, rfl, checks⟩
    simp [stepNone, parseHeader_eq_ok.mpr ⟨rfl, checks⟩]

/-- The `HEADER` arm on a buffer that starts with the extended length its code calls for: the
control check on the length it reads. -/
theorem stepHeader_extended {ext : List UInt8} {len : UInt64} (more : List UInt8)
    (extended : ExtendedLength c.lengthCode ext len) :
    c.stepHeader (ext ++ more) = checkControl { c with payloadLength := len, state := .LENGTH } more := by
  unfold ExtendedLength at extended
  unfold stepHeader
  split_ifs at extended with two eight
  · -- Two extension bytes.
    obtain ⟨exact, worth⟩ := extended
    obtain ⟨value, read, worth'⟩ := readU16_of_length exact
    have same : value.toUInt64 = len := UInt64.toNat.inj (by simp [worth, worth'])
    subst same
    rw [if_pos (beq_iff_eq.mpr two), readField, if_neg (by simp [exact]), List.take_left' exact,
      List.drop_left' exact]
    simp only [onTwoExt, onExtended, read, Option.map_some']
  · -- Eight extension bytes.
    obtain ⟨exact, worth⟩ := extended
    obtain ⟨value, read, worth'⟩ := readU64_of_length exact
    have same : value = len := UInt64.toNat.inj (by rw [worth, worth'])
    subst same
    rw [if_neg (by simpa using two), if_pos (beq_iff_eq.mpr eight), readField,
      if_neg (by simp [exact]), List.take_left' exact, List.drop_left' exact]
    simp only [onEightExt, onExtended, read]
  · -- The code is the length.
    obtain ⟨rfl, rfl⟩ := extended
    rw [if_neg (by simpa using two), if_neg (by simpa using eight), List.nil_append]

/-- The `HEADER` arm goes on exactly when the buffer starts with the extended length the code
calls for, and the length passes the control check. -/
theorem stepHeader_next :
    c.stepHeader buf = .next c' buf' ↔
      ∃ ext len, buf = ext ++ buf' ∧ ExtendedLength c.lengthCode ext len ∧
        (c.opcode.isControl = true → len ≤ 125) ∧
        c' = { c with payloadLength := len, state := .LENGTH } := by
  constructor
  · intro next
    -- Going on, the arm has found the whole extension its code calls for.
    obtain ⟨ext, len, split, extended⟩ :
        ∃ ext len, buf = ext ++ buf.drop ext.length ∧ ExtendedLength c.lengthCode ext len := by
      unfold stepHeader at next
      unfold ExtendedLength
      by_cases two : c.lengthCode = twoExt
      · rw [if_pos (beq_iff_eq.mpr two), readField_next_iff] at next
        obtain ⟨value, -, worth⟩ := readU16_of_length (by simp; omega : (buf.take 2).length = 2)
        refine ⟨buf.take 2, value.toUInt64, ?_, ?_⟩
        · simp only [List.length_take, Nat.min_eq_left next.1, List.take_append_drop]
        · rw [if_pos two]
          exact ⟨by simp; omega, by simpa using worth⟩
      by_cases eight : c.lengthCode = eightExt
      · rw [if_neg (by simpa using two), if_pos (beq_iff_eq.mpr eight), readField_next_iff] at next
        obtain ⟨value, -, worth⟩ := readU64_of_length (by simp; omega : (buf.take 8).length = 8)
        refine ⟨buf.take 8, value, ?_, ?_⟩
        · simp only [List.length_take, Nat.min_eq_left next.1, List.take_append_drop]
        · rw [if_neg two, if_pos eight]
          exact ⟨by simp; omega, worth⟩
      · exact ⟨[], _, rfl, by rw [if_neg two, if_neg eight]; exact ⟨rfl, rfl⟩⟩
    rw [split, stepHeader_extended _ extended, checkControl_next_iff] at next
    obtain ⟨allowed, rfl, rfl⟩ := next
    exact ⟨ext, len, split, extended, allowed, rfl⟩
  · rintro ⟨ext, len, rfl, extended, allowed, rfl⟩
    rw [stepHeader_extended _ extended]
    exact checkControl_next_iff.mpr ⟨allowed, rfl, rfl⟩

/-- The `LENGTH` arm goes on exactly when the buffer starts with the mask field, and then stores
the key. -/
theorem stepLength_next :
    c.stepLength buf = .next c' buf' ↔
      ∃ keyBytes key, buf = keyBytes ++ buf' ∧ MaskField c.masked keyBytes key ∧
        c' = { c with maskKey := key, state := .MASK } := by
  unfold stepLength
  by_cases masked : c.masked = true
  · simp only [if_pos masked, MaskField, readField_next_iff, onMask]
    constructor
    · rintro ⟨long, next⟩
      obtain ⟨value, read, worth⟩ := readU32_of_length (by simp; omega : (buf.take 4).length = 4)
      rw [read] at next
      cases next
      exact ⟨buf.take 4, _, (List.take_append_drop 4 buf).symm, ⟨by simp; omega, worth⟩, rfl⟩
    · rintro ⟨keyBytes, key, rfl, ⟨exact, worth⟩, rfl⟩
      obtain ⟨value, read, worth'⟩ := readU32_of_length exact
      have same : value = key := UInt32.toNat.inj (by rw [worth, worth'])
      simp only [List.length_append, exact, List.take_left' exact, List.drop_left' exact, read, same,
        and_true]
      omega
  · simp only [if_neg masked, MaskField, Pass.next.injEq]
    constructor
    · rintro ⟨rfl, rfl⟩
      exact ⟨[], 0, rfl, ⟨rfl, rfl⟩, rfl⟩
    · rintro ⟨keyBytes, key, rfl, ⟨rfl, rfl⟩, rfl⟩
      exact ⟨rfl, rfl⟩

/-- The codec once the `MASK` arm has taken the payload `data`: unmasked into
`application_data` when there is one, and `FULL` either way. -/
def withPayload (c : FrameCodec) (data : List UInt8) : FrameCodec :=
  if 0 < c.payloadLength then
    { c with applicationData := some (applyMask data c.maskKey), state := .FULL }
  else { c with state := .FULL }

/-- The frame of a codec that has taken its payload. -/
theorem withPayload_toFrame (c : FrameCodec) (data : List UInt8) :
    (c.withPayload data).toFrame =
      { c.toFrame with
        applicationData := if 0 < c.payloadLength then some (applyMask data c.maskKey)
          else c.applicationData } := by
  unfold withPayload
  split_ifs <;> rfl

/-- The `MASK` arm goes on exactly when the buffer holds the whole payload, which must be masked
unless it is empty, and then stores it unmasked. -/
theorem stepMask_next :
    c.stepMask buf = .next c' buf' ↔
      ∃ data, buf = data ++ buf' ∧ data.length = c.payloadLength.toNat ∧
        (0 < c.payloadLength → c.masked = true) ∧ c' = c.withPayload data := by
  unfold stepMask withPayload
  by_cases short : buf.length < c.payloadLength.toNat
  · simp only [if_pos short, reduceCtorEq, false_iff, not_exists, not_and]
    rintro data rfl fits
    simp only [List.length_append] at short
    omega
  by_cases nonempty : 0 < c.payloadLength
  · simp only [if_neg short, if_pos nonempty, finishPayload]
    by_cases masked : c.masked = true
    · simp only [if_pos masked, Pass.next.injEq]
      constructor
      · rintro ⟨rfl, rfl⟩
        exact ⟨buf.take c.payloadLength.toNat, (List.take_append_drop _ buf).symm,
          by simp; omega, fun _ => masked, rfl⟩
      · rintro ⟨data, rfl, fits, -, rfl⟩
        simp [← fits]
    · simp only [if_neg masked, reduceCtorEq, false_iff, not_exists, not_and]
      exact fun _ _ _ unmaskable => absurd (unmaskable nonempty) masked
  · have empty : c.payloadLength.toNat = 0 := by
      simpa [UInt64.lt_def, BitVec.lt_def] using nonempty
    simp only [if_neg short, if_neg nonempty, Pass.next.injEq, empty, List.length_eq_zero]
    constructor
    · rintro ⟨rfl, rfl⟩
      exact ⟨[], rfl, rfl, fun _ => by contradiction, rfl⟩
    · rintro ⟨data, rfl, rfl, -, rfl⟩
      simp

/-! ### Rounds that leave -/

/-- The `NONE` arm leaves with `Ok` only while the header is not all there, changing nothing. -/
theorem stepNone_exit_ok {r : Option Frame} (exit : c.stepNone buf = .exit (.done (.ok r) c' buf')) :
    r = none ∧ c' = c ∧ buf' = buf := by
  unfold stepNone at exit
  split at exit
  · cases exit
    exact ⟨rfl, rfl, rfl⟩
  · split at exit <;> cases exit

/-- A field leaves with `Ok` only while it is not all there, changing nothing, when its
continuation never leaves with `Ok`. -/
theorem readField_exit_ok {width : Nat} {k : FrameCodec → List UInt8 → List UInt8 → Pass}
    {r : Option Frame}
    (never : ∀ c bytes rest r c' buf', k c bytes rest ≠ .exit (.done (.ok r) c' buf'))
    (exit : c.readField buf width k = .exit (.done (.ok r) c' buf')) :
    r = none ∧ c' = c ∧ buf' = buf := by
  unfold readField at exit
  split at exit
  · cases exit
    exact ⟨rfl, rfl, rfl⟩
  · exact absurd exit (never _ _ _ _ _ _)

/-- The control check never leaves with `Ok`. -/
theorem checkControl_ne_ok (c : FrameCodec) (buf : List UInt8) (r : Option Frame) (c' : FrameCodec)
    (buf' : List UInt8) : c.checkControl buf ≠ .exit (.done (.ok r) c' buf') := by
  unfold checkControl
  split <;> simp

/-- An extended length never leaves with `Ok`. -/
theorem onExtended_ne_ok (read : List UInt8 → Option UInt64) (c : FrameCodec)
    (bytes rest : List UInt8) (r : Option Frame) (c' : FrameCodec) (buf' : List UInt8) :
    c.onExtended read bytes rest ≠ .exit (.done (.ok r) c' buf') := by
  unfold onExtended
  split
  · exact checkControl_ne_ok _ _ _ _ _
  · simp

/-- A mask never leaves with `Ok`. -/
theorem onMask_ne_ok (c : FrameCodec) (bytes rest : List UInt8) (r : Option Frame)
    (c' : FrameCodec) (buf' : List UInt8) : c.onMask bytes rest ≠ .exit (.done (.ok r) c' buf') := by
  unfold onMask
  split <;> simp

/-- The `HEADER` arm leaves with `Ok` only while the extended length is not all there. -/
theorem stepHeader_exit_ok {r : Option Frame}
    (exit : c.stepHeader buf = .exit (.done (.ok r) c' buf')) : r = none ∧ c' = c ∧ buf' = buf := by
  unfold stepHeader at exit
  split_ifs at exit
  · exact readField_exit_ok (onExtended_ne_ok _) exit
  · exact readField_exit_ok (onExtended_ne_ok _) exit
  · exact absurd exit (checkControl_ne_ok _ _ _ _ _)

/-- The `LENGTH` arm leaves with `Ok` only while the mask is not all there. -/
theorem stepLength_exit_ok {r : Option Frame}
    (exit : c.stepLength buf = .exit (.done (.ok r) c' buf')) : r = none ∧ c' = c ∧ buf' = buf := by
  unfold stepLength at exit
  split_ifs at exit
  exact readField_exit_ok onMask_ne_ok exit

/-- The early check leaves with `Ok` only with nothing, changing nothing. -/
theorem checkPartial_ok {r : Option Frame} (exit : c.checkPartial buf = .done (.ok r) c' buf') :
    r = none ∧ c' = c ∧ buf' = buf := by
  unfold checkPartial at exit
  split_ifs at exit
  · split at exit <;> cases exit
    exact ⟨rfl, rfl, rfl⟩
  · cases exit
  · cases exit
    exact ⟨rfl, rfl, rfl⟩

/-- The `MASK` arm leaves with `Ok` only while the payload is not all there. -/
theorem stepMask_exit_ok {r : Option Frame}
    (exit : c.stepMask buf = .exit (.done (.ok r) c' buf')) : r = none ∧ c' = c ∧ buf' = buf := by
  unfold stepMask at exit
  split_ifs at exit
  · exact checkPartial_ok (Pass.exit.inj exit)
  · unfold finishPayload at exit
    split at exit <;> cases exit

/-- A round leaves with `Ok` only with the frame of a `FULL` codec, or with nothing before it,
and either way changes nothing. -/
theorem step_exit_ok {r : Option Frame} (exit : c.step buf = .exit (.done (.ok r) c' buf')) :
    c' = c ∧ buf' = buf ∧ r = if c.state = .FULL then some c.toFrame else none := by
  unfold step at exit
  cases state : c.state <;> simp only [state] at exit <;> simp only [reduceCtorEq, if_false]
  · obtain ⟨rfl, rfl, rfl⟩ := stepNone_exit_ok exit
    exact ⟨rfl, rfl, rfl⟩
  · obtain ⟨rfl, rfl, rfl⟩ := stepHeader_exit_ok exit
    exact ⟨rfl, rfl, rfl⟩
  · obtain ⟨rfl, rfl, rfl⟩ := stepLength_exit_ok exit
    exact ⟨rfl, rfl, rfl⟩
  · obtain ⟨rfl, rfl, rfl⟩ := stepMask_exit_ok exit
    exact ⟨rfl, rfl, rfl⟩
  · cases exit
    exact ⟨rfl, rfl, rfl⟩

/-- The bytes the field at the codec's state needs: the two header bytes, the two or eight of
an extended length, the four of a mask, or the payload; none for a length carried in the
header, the mask of an unmasked frame, or a full frame. -/
def needs (c : FrameCodec) : Nat :=
  match c.state with
  | .NONE => 2
  | .HEADER => if c.lengthCode == twoExt then 2 else if c.lengthCode == eightExt then 8 else 0
  | .LENGTH => if c.masked then 4 else 0
  | .MASK => c.payloadLength.toNat
  | .FULL => 0

/-- A field leaves with `Ok` only while the buffer is shorter than it, when its continuation
never leaves with `Ok`. -/
theorem readField_exit_short {width : Nat} {k : FrameCodec → List UInt8 → List UInt8 → Pass}
    {r : Option Frame}
    (never : ∀ c bytes rest r c' buf', k c bytes rest ≠ .exit (.done (.ok r) c' buf'))
    (exit : c.readField buf width k = .exit (.done (.ok r) c' buf')) : buf.length < width := by
  unfold readField at exit
  split at exit
  · assumption
  · exact absurd exit (never _ _ _ _ _ _)

/-- A round waits only while the field at the codec's state is not all in the buffer. -/
theorem step_waits (exit : c.step buf = .exit (.done (.ok none) c' buf')) : buf.length < c.needs := by
  unfold step at exit
  unfold needs
  cases state : c.state <;> simp only [state] at exit ⊢
  case NONE =>
    unfold stepNone at exit
    split at exit
    · assumption
    · split at exit <;> cases exit
  case HEADER =>
    unfold stepHeader at exit
    split_ifs at exit ⊢
    · exact readField_exit_short (onExtended_ne_ok _) exit
    · exact readField_exit_short (onExtended_ne_ok _) exit
    · exact absurd exit (checkControl_ne_ok _ _ _ _ _)
  case LENGTH =>
    unfold stepLength at exit
    split_ifs at exit ⊢
    exact readField_exit_short onMask_ne_ok exit
  case MASK =>
    unfold stepMask at exit
    split_ifs at exit with short
    · exact short
    · unfold finishPayload at exit
      split at exit <;> cases exit
  case FULL => cases exit

/-- The control check fails only with its own message, leaving the codec and the buffer. -/
theorem checkControl_exit {o : Outcome} (exit : c.checkControl buf = .exit o) :
    o = .done (.error "invalid control frame") c buf := by
  unfold checkControl at exit
  split at exit
  · exact (Pass.exit.inj exit).symm
  · cases exit

/-- A field that fails, fails in its continuation, on the whole field. -/
theorem readField_exit_error {width : Nat} {k : FrameCodec → List UInt8 → List UInt8 → Pass}
    {msg : String} (exit : c.readField buf width k = .exit (.done (.error msg) c' buf')) :
    (buf.take width).length = width ∧
      k c (buf.take width) (buf.drop width) = .exit (.done (.error msg) c' buf') := by
  unfold readField at exit
  split_ifs at exit with short
  · cases exit
  · exact ⟨List.length_take_of_le (by omega), exit⟩

/-- The early check fails on a Text payload, changing nothing: the validator rejects the
unmasked bytes, or they cannot be unmasked. -/
theorem checkPartial_exit_error {msg : String}
    (failed : c.checkPartial buf = .done (.error msg) c' buf') :
    c' = c ∧ buf' = buf ∧ (msg = "error during UTF-8 validation" ∨ msg = "cannot unmask data") := by
  unfold checkPartial at failed
  split_ifs at failed
  · split at failed <;> cases failed
    exact ⟨rfl, rfl, .inl rfl⟩
  · cases failed
    exact ⟨rfl, rfl, .inr rfl⟩
  · cases failed

/-- The `NONE` arm fails only at a header check, keeping `NONE`, with the two header bytes
taken. -/
theorem stepNone_exit_error {msg : String} (exit : c.stepNone buf = .exit (.done (.error msg) c' buf'))
    (none : c.state = .NONE) : c'.state = .NONE ∧ msg ∈ headerErrors ∧ buf' = buf.drop 2 := by
  unfold stepNone at exit
  split at exit
  · cases exit
  · split at exit
    · cases exit
    · rename_i parsed
      cases exit
      exact ⟨by rw [parseHeader_eq_error parsed]; exact none, parseHeader_error_mem parsed, rfl⟩

/-- The `HEADER` arm fails only at the control check: the extended length is all there when it
is read. -/
theorem stepHeader_exit_error {msg : String}
    (exit : c.stepHeader buf = .exit (.done (.error msg) c' buf')) :
    c'.state = .LENGTH ∧ msg = "invalid control frame" := by
  unfold stepHeader at exit
  split_ifs at exit
  · obtain ⟨two, exit⟩ := readField_exit_error exit
    obtain ⟨len, read, -⟩ := readU16_of_length two
    simp only [onTwoExt, onExtended, read, Option.map_some'] at exit
    cases checkControl_exit exit
    exact ⟨rfl, rfl⟩
  · obtain ⟨eight, exit⟩ := readField_exit_error exit
    obtain ⟨len, read, -⟩ := readU64_of_length eight
    simp only [onEightExt, onExtended, read] at exit
    cases checkControl_exit exit
    exact ⟨rfl, rfl⟩
  · cases checkControl_exit exit
    exact ⟨rfl, rfl⟩

/-- The `LENGTH` arm never fails: the mask is all there when it is read. -/
theorem stepLength_ne_error (c : FrameCodec) (buf : List UInt8) (msg : String) (c' : FrameCodec)
    (buf' : List UInt8) : c.stepLength buf ≠ .exit (.done (.error msg) c' buf') := by
  intro exit
  unfold stepLength at exit
  split_ifs at exit
  obtain ⟨four, exit⟩ := readField_exit_error exit
  obtain ⟨key, read, -⟩ := readU32_of_length four
  simp only [onMask, read, reduceCtorEq] at exit

/-- The `MASK` arm fails only at a payload check, keeping the codec. -/
theorem stepMask_exit_error {msg : String} (exit : c.stepMask buf = .exit (.done (.error msg) c' buf')) :
    c' = c ∧ (msg = "error during UTF-8 validation" ∨ msg = "cannot unmask data") := by
  unfold stepMask at exit
  split_ifs at exit
  · obtain ⟨rfl, -, named⟩ := checkPartial_exit_error (Pass.exit.inj exit)
    exact ⟨rfl, named⟩
  · unfold finishPayload at exit
    split at exit <;> cases exit
    exact ⟨rfl, .inr rfl⟩

/-- Where a round fails: at a header check, from `NONE`, which it does not leave, with the two
header bytes taken; at the control check, once `state` is `LENGTH`; or at a payload check, at
`MASK`. Reading a length or a mask never fails, since the field is all there when it is read. -/
theorem step_exit_error {msg : String} (exit : c.step buf = .exit (.done (.error msg) c' buf')) :
    (c.state = .NONE ∧ c'.state = .NONE ∧ msg ∈ headerErrors ∧ buf' = buf.drop 2) ∨
      (c'.state = .LENGTH ∧ msg = "invalid control frame") ∨
      (c'.state = .MASK ∧ (msg = "error during UTF-8 validation" ∨ msg = "cannot unmask data")) := by
  unfold step at exit
  cases state : c.state <;> simp only [state] at exit
  case NONE => exact .inl ⟨rfl, stepNone_exit_error exit state⟩
  case HEADER => exact .inr (.inl (stepHeader_exit_error exit))
  case LENGTH => exact absurd exit (stepLength_ne_error _ _ _ _ _)
  case MASK =>
    obtain ⟨rfl, named⟩ := stepMask_exit_error exit
    exact .inr (.inr ⟨state, named⟩)
  case FULL => cases exit

/-- Every round takes its bytes from the front of the buffer and none panics: only draining past
the end does, and the reader tests the length before it takes anything. -/
theorem step_leavesSuffix (c : FrameCodec) (buf : List UInt8) : (c.step buf).LeavesSuffix buf := by
  unfold step stepNone stepHeader stepLength stepMask readField onTwoExt onEightExt onExtended onMask
    checkControl finishPayload checkPartial
  split <;> (repeat' split) <;> simp [Pass.LeavesSuffix, Outcome.LeavesSuffix, List.drop_suffix]

/-- No round of the reader panics. -/
theorem step_ne_panic (c : FrameCodec) (buf : List UInt8) : c.step buf ≠ .exit .panic :=
  fun panic => by simpa [panic, Pass.LeavesSuffix, Outcome.LeavesSuffix] using step_leavesSuffix c buf

/-! ### Readers that hand out a frame -/

/-- From `NONE`, a frame comes only after the header round goes on. -/
theorem readNone_frame {frame : Frame}
    (read : c.readNone buf = .done (.ok (some frame)) c' buf') :
    ∃ c₁ buf₁, c.stepNone buf = .next c₁ buf₁ ∧
      c₁.readHeader buf₁ = .done (.ok (some frame)) c' buf' := by
  unfold readNone at read
  cases next : c.stepNone buf with
  | next c₁ buf₁ => rw [next] at read; exact ⟨c₁, buf₁, rfl, read⟩
  | exit o => rw [next] at read; subst read; exact absurd (stepNone_exit_ok next).1 (by simp)

/-- From `HEADER`, a frame comes only after the length round goes on. -/
theorem readHeader_frame {frame : Frame}
    (read : c.readHeader buf = .done (.ok (some frame)) c' buf') :
    ∃ c₁ buf₁, c.stepHeader buf = .next c₁ buf₁ ∧
      c₁.readLength buf₁ = .done (.ok (some frame)) c' buf' := by
  unfold readHeader at read
  cases next : c.stepHeader buf with
  | next c₁ buf₁ => rw [next] at read; exact ⟨c₁, buf₁, rfl, read⟩
  | exit o => rw [next] at read; subst read; exact absurd (stepHeader_exit_ok next).1 (by simp)

/-- From `LENGTH`, a frame comes only after the mask round goes on. -/
theorem readLength_frame {frame : Frame}
    (read : c.readLength buf = .done (.ok (some frame)) c' buf') :
    ∃ c₁ buf₁, c.stepLength buf = .next c₁ buf₁ ∧
      c₁.readMask buf₁ = .done (.ok (some frame)) c' buf' := by
  unfold readLength at read
  cases next : c.stepLength buf with
  | next c₁ buf₁ => rw [next] at read; exact ⟨c₁, buf₁, rfl, read⟩
  | exit o => rw [next] at read; subst read; exact absurd (stepLength_exit_ok next).1 (by simp)

/-- From `MASK`, a frame comes only from the payload round, and it is the codec's frame. -/
theorem readMask_frame {frame : Frame}
    (read : c.readMask buf = .done (.ok (some frame)) c' buf') :
    c.stepMask buf = .next c' buf' ∧ frame = c'.toFrame := by
  unfold readMask at read
  cases next : c.stepMask buf with
  | next c₁ buf₁ =>
    rw [next] at read
    obtain ⟨same, rfl, rfl⟩ := Outcome.done.inj read
    exact ⟨rfl, (Option.some.inj (Except.ok.inj same)).symm⟩
  | exit o => rw [next] at read; subst read; exact absurd (stepMask_exit_ok next).1 (by simp)

/-- With the whole payload there, masked unless it is empty, the reader from `MASK` hands out
the frame and leaves what follows the payload. -/
theorem readMask_payload {data : List UInt8} (more : List UInt8)
    (fits : data.length = c.payloadLength.toNat) (unmaskable : 0 < c.payloadLength → c.masked = true) :
    c.readMask (data ++ more) =
      .done (.ok (some (c.withPayload data).toFrame)) (c.withPayload data) more := by
  simp only [readMask, stepMask_next.mpr ⟨data, rfl, fits, unmaskable, rfl⟩]

/-- With the whole of a nonempty payload there but no mask, the reader from `MASK` fails. -/
theorem readMask_unmasked {data : List UInt8} (more : List UInt8)
    (fits : data.length = c.payloadLength.toNat) (nonempty : 0 < c.payloadLength)
    (unmasked : c.masked = false) :
    c.readMask (data ++ more) = .done (.error "cannot unmask data") c more := by
  simp only [readMask, stepMask, finishPayload, List.length_append, unmasked, fits]
  rw [if_neg (by omega), if_pos nonempty]
  simp [← fits]

/-! ### The whole reader -/

/-- A property of the reader's outcome, from an invariant that every round going on keeps and
a property that every round leaving has. -/
theorem readFrom_induction (Inv : FrameCodec → List UInt8 → Prop) (P : Outcome → Prop)
    (keeps : ∀ c buf c' buf', Inv c buf → c.step buf = .next c' buf' → Inv c' buf')
    (exits : ∀ c buf o, Inv c buf → c.step buf = .exit o → P o) :
    ∀ c buf, Inv c buf → P (c.readFrom buf) := by
  -- Each round that goes on moves one rank along, so four rounds at most precede the exit.
  suffices ∀ fuel c buf, 4 ≤ c.state.rank + fuel → Inv c buf → P (c.readFrom buf) from
    fun c buf holds => this 4 c buf (by omega) holds
  intro fuel
  induction fuel with
  | zero =>
    intro c buf enough holds
    rw [readFrom_step]
    cases next : c.step buf with
    | next c' buf' =>
      have := step_next_rank next
      have := rank_le_four c'.state
      omega
    | exit o => exact exits c buf o holds next
  | succ fuel ih =>
    intro c buf enough holds
    rw [readFrom_step]
    cases next : c.step buf with
    | next c' buf' =>
      have := step_next_rank next
      exact ih c' buf' (by omega) (keeps c buf c' buf' holds next)
    | exit o => exact exits c buf o holds next

/-- The reader takes its bytes from the front of the buffer, and never panics. -/
theorem readFrom_leavesSuffix (c : FrameCodec) (buf : List UInt8) :
    (c.readFrom buf).LeavesSuffix buf :=
  -- Every round leaves a suffix of the suffix the rounds before it left.
  readFrom_induction (fun _ rest => rest <:+ buf) (·.LeavesSuffix buf)
    (fun c₁ buf₁ _ _ suffix next => by simpa [next, Pass.LeavesSuffix] using
      (step_leavesSuffix c₁ buf₁).trans suffix)
    (fun c₁ buf₁ _ suffix exit => by simpa [exit, Pass.LeavesSuffix] using
      (step_leavesSuffix c₁ buf₁).trans suffix)
    c buf (List.suffix_refl buf)

/-- The reader hands out only the frame of a codec that has reached `FULL`. -/
theorem readFrom_frame_full (c : FrameCodec) (buf : List UInt8) :
    ∀ frame c' buf', c.readFrom buf = .done (.ok (some frame)) c' buf' →
      c'.state = .FULL ∧ frame = c'.toFrame := by
  refine readFrom_induction (fun _ _ => True) (fun o => ∀ frame c' buf',
      o = .done (.ok (some frame)) c' buf' → c'.state = .FULL ∧ frame = c'.toFrame)
    (fun _ _ _ _ _ _ => trivial) (fun c buf o _ exit frame c' buf' same => ?_) c buf trivial
  subst same
  obtain ⟨rfl, -, handed⟩ := step_exit_ok exit
  split_ifs at handed with full
  exact ⟨full, Option.some.inj handed⟩

/-- A round that goes on takes the same bytes from a longer buffer. -/
theorem step_append_next (next : c.step buf = .next c' buf') (extra : List UInt8) :
    c.step (buf ++ extra) = .next c' (buf' ++ extra) := by
  -- Every arm that goes on takes a prefix, and what it checks does not look past it.
  unfold step at next ⊢
  cases state : c.state <;> simp only [state] at next ⊢
  · obtain ⟨first, second, rfl, rfl, checks⟩ := stepNone_next.mp next
    exact stepNone_next.mpr ⟨first, second, rfl, rfl, checks⟩
  · obtain ⟨ext, len, rfl, extended, allowed, rfl⟩ := stepHeader_next.mp next
    exact stepHeader_next.mpr ⟨ext, len, List.append_assoc .., extended, allowed, rfl⟩
  · obtain ⟨keyBytes, key, rfl, field, rfl⟩ := stepLength_next.mp next
    exact stepLength_next.mpr ⟨keyBytes, key, List.append_assoc .., field, rfl⟩
  · obtain ⟨data, rfl, fits, unmaskable, rfl⟩ := stepMask_next.mp next
    exact stepMask_next.mpr ⟨data, List.append_assoc .., fits, unmaskable, rfl⟩
  · cases next

/-- With the whole of a nonempty payload there, the reader from `MASK` drains it. -/
theorem readMask_drains (nonempty : 0 < c.payloadLength.toNat)
    (long : c.payloadLength.toNat ≤ buf.length) :
    ∃ ret c', c.readMask buf = .done ret c' (buf.drop c.payloadLength.toNat) := by
  have positive : 0 < c.payloadLength := by simpa [UInt64.lt_def, BitVec.lt_def] using nonempty
  unfold readMask stepMask finishPayload
  rw [if_neg (by omega), if_pos positive]
  split_ifs
  · exact ⟨_, _, rfl⟩
  · exact ⟨_, _, rfl⟩

end FrameCodec

/-- An outcome with `extra` bytes appended to the buffer it leaves. -/
def Outcome.extend (extra : List UInt8) : Outcome → Outcome
  | .done ret c buf => .done ret c (buf ++ extra)
  | .panic => .panic

namespace FrameCodec

/-! ### Runs of rounds -/

/-- The reader's rounds lead from one codec and buffer to another, each of them going on. -/
inductive Reaches : FrameCodec → List UInt8 → FrameCodec → List UInt8 → Prop
  /-- No round at all. -/
  | refl (c : FrameCodec) (buf : List UInt8) : Reaches c buf c buf
  /-- One round that goes on, and the rounds after it. -/
  | round {c c₁ c' : FrameCodec} {buf buf₁ buf' : List UInt8} (next : c.step buf = .next c₁ buf₁)
      (rest : Reaches c₁ buf₁ c' buf') : Reaches c buf c' buf'

variable {c c' c'' : FrameCodec} {buf buf' buf'' : List UInt8}

/-- The reader ends as it does from where its rounds lead. -/
theorem Reaches.readFrom (reaches : c.Reaches buf c' buf') : c.readFrom buf = c'.readFrom buf' := by
  induction reaches with
  | refl => rfl
  | round next _ ih =>
    rw [readFrom_step, next]
    exact ih

/-- Rounds that go on take the same bytes from a longer buffer. -/
theorem Reaches.append (reaches : c.Reaches buf c' buf') (extra : List UInt8) :
    c.Reaches (buf ++ extra) c' (buf' ++ extra) := by
  induction reaches with
  | refl => exact .refl _ _
  | round next _ ih => exact .round (step_append_next next extra) ih

/-- Rounds move along the states. -/
theorem Reaches.rank_le (reaches : c.Reaches buf c' buf') : c.state.rank ≤ c'.state.rank := by
  induction reaches with
  | refl => exact Nat.le_refl _
  | round next _ ih =>
    have := step_next_rank next
    omega

/-- A run of rounds followed by one more round that goes on. -/
theorem Reaches.snoc (reaches : c.Reaches buf c' buf') (next : c'.step buf' = .next c'' buf'') :
    c.Reaches buf c'' buf'' := by
  induction reaches with
  | refl => exact .round next (.refl _ _)
  | round first _ ih => exact .round first (ih next)

/-- The reader's outcome is the exit of the round where its run of rounds ends. -/
theorem readFrom_ends (c : FrameCodec) (buf : List UInt8) :
    ∃ c' buf', c.Reaches buf c' buf' ∧ c'.step buf' = .exit (c.readFrom buf) :=
  readFrom_induction (fun c' buf' => c.Reaches buf c' buf')
    (fun o => ∃ c' buf', c.Reaches buf c' buf' ∧ c'.step buf' = .exit o)
    (fun _ _ _ _ reaches next => reaches.snoc next)
    (fun c' buf' _ reaches exit => ⟨c', buf', reaches, exit⟩) c buf (.refl c buf)

/-- Where the reader waits, its rounds went on up to the codec and the bytes it leaves. -/
theorem reaches_of_waiting (waiting : c.readFrom buf = .done (.ok none) c' buf') :
    c.Reaches buf c' buf' := by
  obtain ⟨c₁, buf₁, reaches, exit⟩ := readFrom_ends c buf
  rw [waiting] at exit
  obtain ⟨rfl, rfl, -⟩ := step_exit_ok exit
  exact reaches

/-- A run waits only while the field it has got to is not all in the bytes it left. -/
theorem readFrom_waits (waiting : c.readFrom buf = .done (.ok none) c' buf') :
    buf'.length < c'.needs := by
  obtain ⟨c₁, buf₁, -, exit⟩ := readFrom_ends c buf
  rw [waiting] at exit
  obtain ⟨rfl, rfl, -⟩ := step_exit_ok exit
  exact step_waits exit

/-- Rounds that end at a state no later than where they start have not moved. -/
theorem Reaches.eq_of_rank_le (reaches : c.Reaches buf c' buf')
    (back : c'.state.rank ≤ c.state.rank) : c' = c ∧ buf' = buf := by
  cases reaches with
  | refl => exact ⟨rfl, rfl⟩
  | round next rest =>
    have := step_next_rank next
    have := rest.rank_le
    omega

/-- Runs of rounds compose. -/
theorem Reaches.trans (first : c.Reaches buf c' buf') (second : c'.Reaches buf' c'' buf'') :
    c.Reaches buf c'' buf'' := by
  induction first with
  | refl => exact second
  | round next _ ih => exact .round next (ih second)

/-- The rounds are determined: two runs from one codec and buffer that end at states of the same
rank end at the same codec and bytes. -/
theorem Reaches.eq_of_rank_eq {c₁ c₂ : FrameCodec} {buf₁ buf₂ : List UInt8}
    (first : c.Reaches buf c₁ buf₁) (second : c.Reaches buf c₂ buf₂)
    (same : c₁.state.rank = c₂.state.rank) : c₁ = c₂ ∧ buf₁ = buf₂ := by
  induction first with
  | refl =>
    obtain ⟨rfl, rfl⟩ := second.eq_of_rank_le same.ge
    exact ⟨rfl, rfl⟩
  | round next rest ih =>
    cases second with
    | refl =>
      -- The first run has moved past the state the second one stays at.
      have := step_next_rank next
      have := rest.rank_le
      omega
    | round next' rest' =>
      -- Both runs take the same first round.
      obtain ⟨rfl, rfl⟩ := Pass.next.inj (next.symm.trans next')
      exact ih rest' same

/-- Where the reader fails, its last round failed: a header check only in the first round, from
`NONE`, since no round leads back there. -/
theorem readFrom_exit_error {msg : String} (failed : c.readFrom buf = .done (.error msg) c' buf') :
    (c.state = .NONE ∧ c'.state = .NONE ∧ msg ∈ headerErrors ∧ buf' = buf.drop 2) ∨
      (c'.state = .LENGTH ∧ msg = "invalid control frame") ∨
      (c'.state = .MASK ∧ (msg = "error during UTF-8 validation" ∨ msg = "cannot unmask data")) := by
  obtain ⟨c₁, buf₁, reaches, exit⟩ := readFrom_ends c buf
  rw [failed] at exit
  rcases step_exit_error exit with ⟨none, header⟩ | later
  · obtain ⟨rfl, rfl⟩ := reaches.eq_of_rank_le (by simp [none, DecodeState.rank])
    exact .inl ⟨none, header⟩
  · exact .inr later

/-- The first round from `NONE` takes the two header bytes alone: on those two bytes it leads to
the codec that the other rounds start from. -/
theorem Reaches.header {first second : UInt8} {rest : List UInt8}
    (reaches : c.Reaches (first :: second :: rest) c' buf') (none : c.state = .NONE)
    (moved : c'.state ≠ .NONE) :
    ∃ header, c.step [first, second] = .next header [] ∧ header.Reaches rest c' buf' := by
  cases reaches with
  | refl => exact absurd none moved
  | round next rest' =>
    simp only [step, none] at next ⊢
    obtain ⟨_, _, same, rfl, checks⟩ := stepNone_next.mp next
    obtain ⟨rfl, rfl, rfl⟩ : _ ∧ _ ∧ _ := by simpa using same
    exact ⟨_, stepNone_next.mpr ⟨_, _, rfl, rfl, checks⟩, rest'⟩

/-- The `HEADER` arm waits, changing nothing, while the eight bytes of an extended length are
not all there. -/
theorem stepHeader_waits (eight : c.lengthCode = eightExt) (short : buf.length < 8) :
    c.stepHeader buf = .exit (.done (.ok none) c buf) := by
  rw [stepHeader, if_neg (by simp [eight]; decide), if_pos (by simp [eight]), readField, if_pos short]

/-! ### Readers that need no more bytes -/

/-- The reader needs none of the bytes that might follow `buf`: on any longer buffer it ends
the same way and leaves the extra bytes behind. -/
def Settled (c : FrameCodec) (buf : List UInt8) : Prop :=
  ∀ extra, c.readFrom (buf ++ extra) = (c.readFrom buf).extend extra

/-- A round that goes on keeps the reader settled. -/
theorem settled_step (settled : c.Settled buf) (next : c.step buf = .next c' buf') :
    c'.Settled buf' := by
  intro extra
  have longer := settled extra
  rw [readFrom_step, step_append_next next, readFrom_step c buf, next] at longer
  exact longer

/-- The reader is not settled where it waits for a payload: more bytes would let it go on. -/
theorem not_settled_of_short (mask : c.state = .MASK) (short : buf.length < c.payloadLength.toNat) :
    ¬c.Settled buf := by
  intro settled
  -- Waiting, the reader keeps the whole buffer; with the payload there, it drains some of it.
  have atMask : ∀ buf, c.readFrom buf = c.readMask buf := by simp [readFrom, mask]
  have waits : c.readMask buf = c.checkPartial buf := by
    simp only [readMask, stepMask, if_pos short]
  obtain ⟨ret, kept⟩ := checkPartial_keeps c buf
  let extra := List.replicate c.payloadLength.toNat (0 : UInt8)
  obtain ⟨ret', c', drained⟩ := @readMask_drains c (buf ++ extra) (by omega)
    (by simp [extra])
  have same := settled extra
  rw [atMask, atMask, drained, waits, kept, Outcome.extend] at same
  have := congrArg List.length (Outcome.done.inj same).2.2
  simp [extra] at this
  omega

/-- A reader that ends the same way whatever follows `buf`, leaving `buf'` and what follows,
is settled on `buf`. -/
theorem settled_of_forall {ret : Except String (Option Frame)}
    (reads : ∀ more, c.readFrom (buf ++ more) = .done ret c' (buf' ++ more)) : c.Settled buf := by
  intro extra
  have alone := reads []
  rw [List.append_nil, List.append_nil] at alone
  rw [reads, alone, Outcome.extend]

/-- Rounds that go on keep the reader settled. -/
theorem Reaches.settled (reaches : c.Reaches buf c' buf') (settled : c.Settled buf) :
    c'.Settled buf' := by
  induction reaches with
  | refl => exact settled
  | round next _ ih => exact ih (settled_step settled next)

end FrameCodec

end Soketto
