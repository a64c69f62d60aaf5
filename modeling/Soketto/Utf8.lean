import Mathlib.Data.String.Basic

/-! The UTF-8 validator that the early Text check of `decode` calls. -/

namespace Soketto

/-- What the validator waits for next: `need` more continuation bytes, the next one between
`lo` and `hi`. -/
structure Utf8Expect where
  need : Nat
  lo : UInt8
  hi : UInt8
  deriving DecidableEq, Repr

namespace Utf8Expect

/-- Between two code points. -/
def boundary : Utf8Expect := ⟨0, 0x80, 0xBF⟩

/-- One byte through the validator, `none` where well-formed UTF-8 cannot have it: no
overlong forms, no surrogates, nothing past `U+10FFFF`. -/
def push (e : Utf8Expect) (b : UInt8) : Option Utf8Expect :=
  match e.need with
  | 0 =>
    if b < 0x80 then some boundary
    else if b < 0xC2 then none
    else if b < 0xE0 then some ⟨1, 0x80, 0xBF⟩
    else if b = 0xE0 then some ⟨2, 0xA0, 0xBF⟩
    else if b = 0xED then some ⟨2, 0x80, 0x9F⟩
    else if b < 0xF0 then some ⟨2, 0x80, 0xBF⟩
    else if b = 0xF0 then some ⟨3, 0x90, 0xBF⟩
    else if b < 0xF4 then some ⟨3, 0x80, 0xBF⟩
    else if b = 0xF4 then some ⟨3, 0x80, 0x8F⟩
    else none
  | n + 1 => if e.lo ≤ b ∧ b ≤ e.hi then some ⟨n, 0x80, 0xBF⟩ else none

/-- The validator over a run of bytes. -/
def run : Utf8Expect → List UInt8 → Option Utf8Expect
  | e, [] => some e
  | e, b :: bs =>
    match e.push b with
    | some e => e.run bs
    | none => none

/-- Running over two pieces is running over the first and then the second. -/
theorem run_append (e : Utf8Expect) (xs ys : List UInt8) :
    e.run (xs ++ ys) = (e.run xs).bind (·.run ys) := by
  induction xs generalizing e with
  | nil => rfl
  | cons b bs ih =>
    simp only [List.cons_append, run]
    cases e.push b <;> simp [ih]

end Utf8Expect

/-- Modelled from the spec: `util::utf8::validate`. `Ok(Some(n))` when the `n` bytes are valid
UTF-8 ending on a code point boundary, `Ok(None)` when they are valid but end inside a
multi-byte sequence, and `Err` when they hold an invalid sequence. It takes the spec's strict
reading: a byte that no well-formed UTF-8 can have where it stands is an error at once, even as
the last byte, so a lone `C0`, or `E0 80` or `ED A0` at the end, is `Err` here where the crate's
own validator, outside `src/`, returns `Ok(None)` and waits for more. -/
def validate (bytes : List UInt8) : Except Unit (Option Nat) :=
  match Utf8Expect.boundary.run bytes with
  | none => .error ()
  | some e => .ok (if e.need = 0 then some bytes.length else none)

/-- Bytes the validator rejects stay rejected whatever follows them. -/
theorem validate_append_of_error {xs : List UInt8} (rejected : validate xs = .error ())
    (ys : List UInt8) : validate (xs ++ ys) = .error () := by
  -- Rejection is a `none` of the run, and a run that has stopped stays stopped.
  unfold validate at rejected ⊢
  cases stopped : Utf8Expect.boundary.run xs with
  | none => simp [Utf8Expect.run_append, stopped]
  | some e => simp [stopped] at rejected

example : validate [0x61, 0xC3, 0xA9] = .ok (some 3) := rfl
example : validate [0x61, 0xC3] = .ok none := rfl
example : validate [0xC3, 0x28] = .error () := rfl

end Soketto
