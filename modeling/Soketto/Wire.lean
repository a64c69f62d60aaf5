import Mathlib.Data.String.Basic
import Mathlib.Tactic.Positivity

/-! Big-endian integers, draining a buffer, and the masking transform. -/

namespace Soketto

/-! ### Big-endian integers -/

/-- The unsigned integer `bytes` spell, most significant byte first. -/
def beValue : List UInt8 → Nat
  | [] => 0
  | b :: bs => b.toNat * 256 ^ bs.length + beValue bs

/-- The `width` bytes of `value`, most significant first. -/
def beBytes : Nat → Nat → List UInt8
  | 0, _ => []
  | width + 1, value => UInt8.ofNat (value / 256 ^ width % 256) :: beBytes width value

/-- `ReadBytesExt::read_uN::<BigEndian>` on a cursor over `bytes`, `N` being `8 * width`: the
value of the first `width` bytes, or an error when fewer are left. -/
def readBE (width : Nat) (bytes : List UInt8) : Option Nat :=
  if width ≤ bytes.length then some (beValue (bytes.take width)) else none

/-- An unsigned integer type of `width` bytes as `ReadBytesExt` and `WriteBytesExt` see it: its
values are the naturals below `256 ^ width`, each the value of its own `toNat`. -/
structure Unsigned (α : Type) (width : Nat) where
  /-- The value of a natural below `256 ^ width`. -/
  ofNat : Nat → α
  /-- The natural a value stands for. -/
  toNat : α → Nat
  /-- Every value stands for a natural below `256 ^ width`. -/
  toNat_lt : ∀ a, toNat a < 256 ^ width
  /-- A natural below `256 ^ width` is kept. -/
  toNat_ofNat : ∀ n, n < 256 ^ width → toNat (ofNat n) = n
  /-- Values are told apart by their naturals. -/
  toNat_inj : ∀ a b, toNat a = toNat b → a = b

/-- `u16`. -/
def u16 : Unsigned UInt16 2 :=
  ⟨UInt16.ofNat, UInt16.toNat, UInt16.toNat_lt_size, fun _ small => UInt16.toNat_ofNat_of_lt small,
    fun _ _ same => UInt16.toNat.inj same⟩

/-- `u32`. -/
def u32 : Unsigned UInt32 4 :=
  ⟨UInt32.ofNat, UInt32.toNat, UInt32.toNat_lt_size, fun _ small => UInt32.toNat_ofNat_of_lt small,
    fun _ _ same => UInt32.toNat.inj same⟩

/-- `u64`. -/
def u64 : Unsigned UInt64 8 :=
  ⟨UInt64.ofNat, UInt64.toNat, UInt64.toNat_lt_size, fun _ small => UInt64.toNat_ofNat_of_lt small,
    fun _ _ same => UInt64.toNat.inj same⟩

/-- `ReadBytesExt::read_uN::<BigEndian>` for the type `u` of `width` bytes. -/
def readUN {α : Type} {width : Nat} (u : Unsigned α width) (bytes : List UInt8) : Option α :=
  (readBE width bytes).map u.ofNat

/-- `WriteBytesExt::write_uN::<BigEndian>` into an empty `Vec`, for the type `u`. -/
def writeUN {α : Type} {width : Nat} (u : Unsigned α width) (value : α) : List UInt8 :=
  beBytes width (u.toNat value)

/-- `read_u16::<BigEndian>`. -/
def readU16 (bytes : List UInt8) : Option UInt16 := readUN u16 bytes

/-- `read_u32::<BigEndian>`. -/
def readU32 (bytes : List UInt8) : Option UInt32 := readUN u32 bytes

/-- `read_u64::<BigEndian>`. -/
def readU64 (bytes : List UInt8) : Option UInt64 := readUN u64 bytes

/-- `write_u16::<BigEndian>` into an empty `Vec`. -/
def writeU16 (value : UInt16) : List UInt8 := writeUN u16 value

/-- `write_u32::<BigEndian>` into an empty `Vec`. -/
def writeU32 (value : UInt32) : List UInt8 := writeUN u32 value

/-- `write_u64::<BigEndian>` into an empty `Vec`. -/
def writeU64 (value : UInt64) : List UInt8 := writeUN u64 value

/-- A `u16` is written as its two big-endian bytes. -/
theorem writeU16_eq (value : UInt16) : writeU16 value = beBytes 2 value.toNat := rfl

/-- A `u32` is written as its four big-endian bytes. -/
theorem writeU32_eq (value : UInt32) : writeU32 value = beBytes 4 value.toNat := rfl

/-- A `u64` is written as its eight big-endian bytes. -/
theorem writeU64_eq (value : UInt64) : writeU64 value = beBytes 8 value.toNat := rfl

/-- A `u64` comparison compares the values. -/
theorem lt_iff_toNat_lt {a b : UInt64} : a < b ↔ a.toNat < b.toNat := Iff.rfl

/-- A byte built from a residue modulo 256 holds that residue. -/
theorem toNat_byte (n : Nat) : (UInt8.ofNat (n % 256)).toNat = n % 256 :=
  UInt8.toNat_ofNat_of_lt (Nat.mod_lt _ (by decide))

/-- Writing gives exactly the width asked for. -/
@[simp] theorem beBytes_length (width value : Nat) : (beBytes width value).length = width := by
  induction width <;> simp [beBytes, *]

/-- The value of `n` bytes is below `256 ^ n`. -/
theorem beValue_lt (bytes : List UInt8) : beValue bytes < 256 ^ bytes.length := by
  -- Each byte adds less than one more unit of the power below it.
  induction bytes with
  | nil => simp [beValue]
  | cons b bs ih =>
    have byte : b.toNat < 256 := UInt8.toNat_lt_size b
    simp only [beValue, List.length_cons, pow_succ]
    calc b.toNat * 256 ^ bs.length + beValue bs < (b.toNat + 1) * 256 ^ bs.length := by
          rw [Nat.add_mul]; omega
      _ ≤ 256 * 256 ^ bs.length := Nat.mul_le_mul_right _ byte
      _ = 256 ^ bs.length * 256 := Nat.mul_comm _ _

/-- Reading what was written gives the value modulo the width. -/
theorem beValue_beBytes (width value : Nat) :
    beValue (beBytes width value) = value % 256 ^ width := by
  -- The leading byte is the digit that `Nat.mod_pow_succ` splits off.
  induction width with
  | zero => simp [beBytes, beValue, Nat.mod_one]
  | succ width ih =>
    simp only [beBytes, beValue, beBytes_length, ih, toNat_byte, Nat.mod_pow_succ]
    rw [Nat.mul_comm]; omega

/-- Multiples of `256 ^ width` leave no trace in `width` bytes. -/
theorem beBytes_add (width value k : Nat) :
    beBytes width (k * 256 ^ width + value) = beBytes width value := by
  induction width generalizing k with
  | zero => rfl
  | succ width ih =>
    have shift : k * 256 ^ (width + 1) = k * 256 * 256 ^ width := by
      rw [pow_succ, Nat.mul_comm (256 ^ width), Nat.mul_assoc]
    -- The leading digit only sees the added multiple as a multiple of 256.
    have digit : (k * 256 * 256 ^ width + value) / 256 ^ width % 256 =
        value / 256 ^ width % 256 := by
      rw [Nat.add_comm, Nat.add_mul_div_right _ _ (by positivity)]
      simp [Nat.add_mod]
    simp only [beBytes, shift, digit, ih]

/-- Writing the value of some bytes at their own width gives them back. -/
theorem beBytes_beValue (bytes : List UInt8) : beBytes bytes.length (beValue bytes) = bytes := by
  induction bytes with
  | nil => rfl
  | cons b bs ih =>
    -- The rest is below one unit of the leading byte, so the leading digit is that byte.
    have digit : (b.toNat * 256 ^ bs.length + beValue bs) / 256 ^ bs.length % 256 = b.toNat := by
      rw [Nat.add_comm, Nat.add_mul_div_right _ _ (by positivity), Nat.div_eq_of_lt (beValue_lt bs)]
      simpa using UInt8.toNat_lt_size b
    simp only [List.length_cons, beBytes, beValue, beBytes_add, ih, digit]
    rw [UInt8.toNat.inj (UInt8.toNat_ofNat_of_lt (UInt8.toNat_lt_size b))]

/-- A reader given exactly its width of bytes reads all of them. -/
theorem readBE_of_length {width : Nat} {bytes : List UInt8} (exact : bytes.length = width) :
    readBE width bytes = some (beValue bytes) := by
  subst exact
  simp [readBE]

/-- Reading back a write of the same width gives the value modulo the width. -/
theorem readBE_beBytes (width value : Nat) :
    readBE width (beBytes width value) = some (value % 256 ^ width) := by
  rw [readBE_of_length (beBytes_length _ _), beValue_beBytes]

/-- A value written big-endian reads back. -/
theorem readUN_writeUN {α : Type} {width : Nat} (u : Unsigned α width) (value : α) :
    readUN u (writeUN u value) = some value := by
  rw [readUN, writeUN, readBE_beBytes, Nat.mod_eq_of_lt (u.toNat_lt value)]
  exact congrArg some (u.toNat_inj _ _ (u.toNat_ofNat _ (u.toNat_lt value)))

/-- Bytes of the type's width read as the value they spell. -/
theorem readUN_of_length {α : Type} {width : Nat} (u : Unsigned α width) {bytes : List UInt8}
    (exact : bytes.length = width) :
    ∃ value, readUN u bytes = some value ∧ u.toNat value = beValue bytes := by
  have small := beValue_lt bytes
  rw [exact] at small
  exact ⟨_, by rw [readUN, readBE_of_length exact]; rfl, u.toNat_ofNat _ small⟩

/-! ### Draining -/

/-- `EasyBuf::drain_to(n)`: the first `n` bytes split off the front, or `none` for the panic
when fewer than `n` are left. -/
def drainTo (buf : List UInt8) (n : Nat) : Option (List UInt8 × List UInt8) :=
  if n ≤ buf.length then some (buf.take n, buf.drop n) else none

/-- Draining within the buffer splits it. -/
theorem drainTo_of_le {buf : List UInt8} {n : Nat} (within : n ≤ buf.length) :
    drainTo buf n = some (buf.take n, buf.drop n) := by
  simp [drainTo, within]

/-- Draining past the end of the buffer panics. -/
theorem drainTo_of_lt {buf : List UInt8} {n : Nat} (past : buf.length < n) :
    drainTo buf n = none := by
  simp [drainTo, Nat.not_le.mpr past]

/-! ### Masking -/

/-- The loop of `apply_mask` from position `i` on: each byte XORed with key byte `i % 4`. -/
def maskFrom (key : List UInt8) : Nat → List UInt8 → List UInt8
  | _, [] => []
  | i, b :: bs => (b ^^^ key.getD (i % 4) 0) :: maskFrom key (i + 1) bs

/-- `FrameCodec::apply_mask`: the buffer zipped with the cycled big-endian bytes of `mask`,
each pair XORed. Writing four bytes into a `Vec` cannot fail, so its `Result` is always `Ok`. -/
def applyMask (buf : List UInt8) (mask : UInt32) : List UInt8 :=
  maskFrom (writeU32 mask) 0 buf

/-- XOR with the same key byte twice is no change. -/
theorem xor_xor_cancel (b k : UInt8) : b ^^^ k ^^^ k = b := by
  apply UInt8.eq_of_toBitVec_eq
  show (b.toBitVec ^^^ k.toBitVec) ^^^ k.toBitVec = b.toBitVec
  rw [BitVec.xor_assoc, BitVec.xor_self, BitVec.xor_zero]

@[simp] theorem maskFrom_length (key : List UInt8) (i : Nat) (bs : List UInt8) :
    (maskFrom key i bs).length = bs.length := by
  induction bs generalizing i <;> simp [maskFrom, *]

/-- Byte `j` of the loop's output is byte `j` of its input XORed with key byte `(i + j) % 4`. -/
theorem maskFrom_getElem? (key : List UInt8) (i j : Nat) (bs : List UInt8) :
    (maskFrom key i bs)[j]? = bs[j]?.map (· ^^^ key.getD ((i + j) % 4) 0) := by
  induction bs generalizing i j with
  | nil => simp [maskFrom]
  | cons b bs ih =>
    cases j with
    | zero => simp [maskFrom]
    | succ j => simp [maskFrom, ih, Nat.add_assoc, Nat.add_comm 1 j]

/-- Running the loop twice with the same key restores the input. -/
theorem maskFrom_maskFrom (key : List UInt8) (i : Nat) (bs : List UInt8) :
    maskFrom key i (maskFrom key i bs) = bs := by
  induction bs generalizing i <;> simp [maskFrom, xor_xor_cancel, *]

/-- The loop commutes with taking a prefix. -/
theorem maskFrom_take (key : List UInt8) (i n : Nat) (bs : List UInt8) :
    maskFrom key i (bs.take n) = (maskFrom key i bs).take n := by
  induction bs generalizing i n with
  | nil => simp [maskFrom]
  | cons b bs ih => cases n <;> simp [maskFrom, ih]

/-- Masking twice with the same key restores the buffer. -/
@[simp] theorem applyMask_applyMask (buf : List UInt8) (mask : UInt32) :
    applyMask (applyMask buf mask) mask = buf :=
  maskFrom_maskFrom _ _ _

/-- Key byte `j` of a big-endian write is digit `width - 1 - j` of the value. -/
theorem beBytes_getD {width j : Nat} (value : Nat) (within : j < width) :
    (beBytes width value).getD j 0 = UInt8.ofNat (value / 256 ^ (width - 1 - j) % 256) := by
  induction width generalizing j with
  | zero => omega
  | succ width ih =>
    cases j with
    | zero => simp [beBytes]
    | succ j =>
      simp only [beBytes, List.getD_cons_succ, ih (Nat.lt_of_succ_lt_succ within)]
      rw [show width + 1 - 1 - (j + 1) = width - 1 - j by omega]

end Soketto
