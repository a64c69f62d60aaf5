import Soketto.Steps

/-! `decode` refines the reader: its loop follows the reader's rounds, with `min_len` counting
what the call has taken, and ends as the reader does but for `min_len`, unless the `MASK` arm's
`min_len + payload_length` wraps past `2 ^ 64` on a payload that is not all there. -/

namespace Soketto

namespace FrameCodec

/-! ### The loop along the reader's rounds -/

/-- Where the reader's round goes on, so does the loop's, to the same codec but for `min_len`,
which still counts. -/
theorem pass_next {c c₁ : FrameCodec} {buf buf₁ : List UInt8} {bufLen : Nat}
    (counts : Counts bufLen c buf) (next : c.erase.step buf = .next c₁ buf₁) :
    ∃ c₂, c.pass buf bufLen = .next c₂ buf₁ ∧ c₂.erase = c₁ ∧
      Counts bufLen c₂ buf₁ := by
  rcases pass_agrees counts with ⟨mask, short, -⟩ | agrees
  · -- A `MASK` round that goes on has its whole payload, so it is not the panicking one.
    simp only [step, erase_state, mask] at next
    obtain ⟨data, rfl, fits, -⟩ := stepMask_next.mp next
    simp only [List.length_append, erase_payloadLength] at short fits
    omega
  · cases p : c.pass buf bufLen with
    | next c₂ buf₂ =>
      rw [p, next] at agrees
      obtain ⟨rfl, rfl, counts'⟩ := agrees
      exact ⟨c₂, rfl, rfl, counts'⟩
    | exit o =>
      rw [p, next] at agrees
      exact (agrees : False).elim

/-- Where the reader's round leaves, so does the loop's, with the same outcome but for
`min_len`, unless it is a `MASK` round on a payload that is not all there whose
`min_len + payload_length` wraps. -/
theorem pass_exit {c : FrameCodec} {buf : List UInt8} {bufLen : Nat} {o : Outcome}
    (counts : Counts bufLen c buf) (exit : c.erase.step buf = .exit o)
    (safe : c.state = .MASK → buf.length < c.payloadLength.toNat →
      c.minLen.toNat + c.payloadLength.toNat < 2 ^ 64) :
    ∃ o', c.pass buf bufLen = .exit o' ∧ o'.erase = o := by
  rcases pass_agrees counts with ⟨mask, short, panic⟩ | agrees
  · -- The panic of the `MASK` arm is the wrap, which `safe` rules out.
    have drained := counts.resolve_left (by rw [mask]; exact nofun)
    simp only [pass, mask] at panic
    have := ((passMask_eq_panic drained.1).mp panic).2
    have := safe mask short
    omega
  · cases p : c.pass buf bufLen with
    | next c₂ buf₂ =>
      rw [p, exit] at agrees
      exact (agrees : False).elim
    | exit o' =>
      rw [p, exit] at agrees
      exact ⟨o', rfl, agrees⟩

/-- Where the reader's round leaves, so does the loop's, with a panic or not. -/
theorem pass_leaves {c : FrameCodec} {buf : List UInt8} {bufLen : Nat} {o : Outcome}
    (counts : Counts bufLen c buf) (exit : c.erase.step buf = .exit o) :
    ∃ o', c.pass buf bufLen = .exit o' := by
  rcases pass_agrees counts with ⟨-, -, panic⟩ | agrees
  · exact ⟨_, panic⟩
  · cases p : c.pass buf bufLen with
    | next c₂ buf₂ =>
      rw [p, exit] at agrees
      exact (agrees : False).elim
    | exit o' => exact ⟨o', rfl⟩

/-- The loop's rounds follow the reader's: as many of them reach the codec the reader's reach,
but for `min_len`, which still counts. -/
theorem rounds_of_reaches {bufLen : Nat} {c c' : FrameCodec} {buf buf' : List UInt8}
    (reaches : c.erase.Reaches buf c' buf') (counts : Counts bufLen c buf) :
    ∃ c'', c''.erase = c' ∧ Counts bufLen c'' buf' ∧ ∀ n,
      c.rounds (n + (c'.state.rank - c.state.rank)) buf bufLen = c''.rounds n buf' bufLen := by
  generalize erased : c.erase = d at reaches
  induction reaches generalizing c with
  | refl => exact ⟨c, erased, counts, fun n => by simp [← erased]⟩
  | @round _ c₁ c₃ _ _ _ next rest ih =>
    subst erased
    -- One round of the loop, then the rest of the run from where it leads.
    obtain ⟨c₂, passed, rfl, counts₂⟩ := pass_next counts next
    obtain ⟨c'', same, counts'', runs⟩ := ih counts₂ rfl
    refine ⟨c'', same, counts'', fun n => ?_⟩
    have moved := step_next_rank next
    have ahead := rest.rank_le
    simp only [erase_state] at moved ahead
    rw [show n + (c₃.state.rank - c.state.rank) =
      n + (c₃.state.rank - c₂.state.rank) + 1 by omega, rounds, passed]
    exact runs n

/-- The loop follows the reader's rounds: as many rounds of it reach the codec they reach, but
for `min_len`, which still counts. -/
theorem loop_of_reaches {bufLen : Nat} {c c' : FrameCodec} {buf buf' : List UInt8}
    (reaches : c.erase.Reaches buf c' buf') (counts : Counts bufLen c buf) :
    ∃ c'', c''.erase = c' ∧ Counts bufLen c'' buf' ∧ ∀ fuel,
      c.loop (fuel + (c'.state.rank - c.state.rank)) buf bufLen = c''.loop fuel buf' bufLen := by
  obtain ⟨c'', erased, counts'', runs⟩ := rounds_of_reaches reaches counts
  exact ⟨c'', erased, counts'', fun fuel => by rw [loop_eq_rounds, runs, loop_eq_rounds]⟩

end FrameCodec

/-! ### `decode` along the reader's rounds -/

/-- An outcome that is a `done` once `min_len` is cleared was that `done`, with the same codec
but for `min_len`. -/
theorem Outcome.erase_eq_done {o : Outcome} {ret : Except String (Option Frame)} {c : FrameCodec}
    {buf : List UInt8} (erased : o.erase = .done ret c buf) :
    ∃ c', o = .done ret c' buf ∧ c'.erase = c := by
  cases o with
  | done ret' c' buf' =>
    obtain ⟨rfl, rfl, rfl⟩ := Outcome.done.inj erased
    exact ⟨c', rfl, rfl⟩
  | panic => cases erased

/-- On a nonempty buffer, `decode` runs the loop through the reader's rounds, to a codec with the
same fields but for `min_len`, which counts, and then on from there. -/
theorem decode_through {c c' : FrameCodec} {buf rest : List UInt8} (nonempty : buf ≠ [])
    (reaches : c.erase.Reaches buf c' rest) :
    ∃ c'', c''.erase = c' ∧ Counts buf.length c'' rest ∧
      c.decode buf = c''.loop (5 - (c'.state.rank - c.state.rank)) rest buf.length := by
  have counts : Counts buf.length { c with minLen := 0 } buf := .inr ⟨by simp, by simp⟩
  obtain ⟨c'', erased, counts'', runs⟩ :=
    FrameCodec.loop_of_reaches (by rwa [FrameCodec.erase_minLen]) counts
  have := FrameCodec.rank_le_four c'.state
  refine ⟨c'', erased, counts'', ?_⟩
  rw [FrameCodec.decode, if_neg (by simpa using nonempty), ← runs]
  congr 1
  simp only
  omega

/-- `decode` ends as the reader's run of rounds does, but for `min_len`, unless the run stops
at `MASK` on a payload that is not all there and the bytes this call has taken and the payload
length add up past `2 ^ 64 - 1`. -/
theorem decode_of_reaches {c c' : FrameCodec} {buf rest : List UInt8} {o : Outcome}
    (nonempty : buf ≠ []) (reaches : c.erase.Reaches buf c' rest) (exit : c'.step rest = .exit o)
    (safe : c'.state = .MASK → rest.length < c'.payloadLength.toNat →
      buf.length - rest.length + c'.payloadLength.toNat < 2 ^ 64) :
    (c.decode buf).erase = o := by
  obtain ⟨c'', rfl, counts, decoded⟩ := decode_through nonempty reaches
  obtain ⟨o', passed, same⟩ := FrameCodec.pass_exit counts exit fun mask short => by
    -- At `MASK`, `min_len` is what this call has taken.
    have drained := counts.resolve_left (by rw [mask]; exact nofun)
    have := safe mask short
    simp only [FrameCodec.erase_payloadLength] at this
    omega
  have := FrameCodec.rank_le_four c''.erase.state
  rw [decoded, show 5 - (c''.erase.state.rank - c.state.rank) =
    4 - (c''.erase.state.rank - c.state.rank) + 1 by omega, FrameCodec.loop, passed]
  exact same

/-- `decode` panics where the reader's rounds reach `MASK` on a payload that is not all there
and the bytes this call has taken and the payload length add up past `2 ^ 64 - 1`. -/
theorem decode_panic_of_reaches {c c' : FrameCodec} {buf rest : List UInt8}
    (reaches : c.erase.Reaches buf c' rest) (mask : c'.state = .MASK)
    (short : rest.length < c'.payloadLength.toNat)
    (wraps : 2 ^ 64 ≤ buf.length - rest.length + c'.payloadLength.toNat) : c.decode buf = .panic := by
  have nonempty : buf ≠ [] := by
    rintro rfl
    have := UInt64.toNat_lt c'.payloadLength
    simp only [List.length_nil, Nat.zero_sub, Nat.zero_add] at wraps
    omega
  obtain ⟨c'', rfl, counts, decoded⟩ := decode_through nonempty reaches
  have drained := counts.resolve_left (by rw [← FrameCodec.erase_state, mask]; exact nofun)
  simp only [FrameCodec.erase_state, FrameCodec.erase_payloadLength] at mask short wraps
  have := FrameCodec.rank_le_four c''.erase.state
  rw [decoded, show 5 - (c''.erase.state.rank - c.state.rank) =
    4 - (c''.erase.state.rank - c.state.rank) + 1 by omega, FrameCodec.loop]
  simp only [FrameCodec.pass, mask, (FrameCodec.passMask_eq_panic drained.1).mpr ⟨short, by omega⟩]

/-- `decode` computes the reader's outcome, up to `min_len`, whenever it does not panic. -/
theorem decode_refines (c : FrameCodec) (buf : List UInt8) (going : c.decode buf ≠ .panic) :
    (c.decode buf).erase = c.erase.read buf := by
  unfold FrameCodec.read
  split_ifs with empty
  · -- An empty buffer: `decode` returns at once.
    subst empty
    rfl
  · -- The loop ends where the reader's run does, since it does not wrap there.
    obtain ⟨c', rest, reaches, exit⟩ := FrameCodec.readFrom_ends c.erase buf
    exact decode_of_reaches empty reaches exit fun mask short => by
      by_contra wraps
      exact going (decode_panic_of_reaches reaches mask short (by omega))

/-- What `decode` returns, the reader returns, but for `min_len`. -/
theorem read_of_decode {c c' : FrameCodec} {buf buf' : List UInt8}
    {ret : Except String (Option Frame)} (decoded : c.decode buf = .done ret c' buf') :
    c.erase.read buf = .done ret c'.erase buf' := by
  rw [← decode_refines c buf (by rw [decoded]; exact fun stuck => by cases stuck), decoded]
  rfl

/-- Each call of `decode` takes its bytes from the front of the buffer: what it leaves is a
suffix of what it was given. -/
theorem decode_suffix {c c' : FrameCodec} {buf buf' : List UInt8}
    {ret : Except String (Option Frame)} (decoded : c.decode buf = .done ret c' buf') :
    buf' <:+ buf := by
  -- The call reads as the reader does, which leaves nothing taken on an empty buffer.
  have read := read_of_decode decoded
  unfold FrameCodec.read at read
  split_ifs at read
  · obtain ⟨-, -, rfl⟩ := Outcome.done.inj read
    exact List.suffix_refl buf
  · simpa [read, Outcome.LeavesSuffix] using FrameCodec.readFrom_leavesSuffix c.erase buf

/-- On a nonempty buffer after which the reader ends the same way whatever follows, `decode`
ends as the reader does. -/
theorem decode_of_forall {c c' : FrameCodec} {buf buf' : List UInt8}
    {ret : Except String (Option Frame)} (nonempty : buf ≠ [])
    (reads : ∀ more, c.erase.readFrom (buf ++ more) = .done ret c' (buf' ++ more)) :
    ∃ c'', c.decode buf = .done ret c'' buf' ∧ c''.erase = c' := by
  -- The reader needs none of the bytes after `buf`, so its run does not stop waiting for a
  -- payload, the one place where `decode` can panic.
  obtain ⟨c₁, rest, reaches, exit⟩ := FrameCodec.readFrom_ends c.erase buf
  have settled := reaches.settled (FrameCodec.settled_of_forall reads)
  have alone : c.erase.readFrom buf = .done ret c' buf' := by simpa using reads []
  rw [alone] at exit
  exact Outcome.erase_eq_done (decode_of_reaches nonempty reaches exit fun mask short =>
    absurd settled (FrameCodec.not_settled_of_short mask short))

/-! ### What every call does -/

/-- `decode`'s loop leaves within five rounds: every arm leaves or moves `state` one step on
towards `FULL`, which leaves. Five rounds of the loop's body end in the round that leaves, with
what `decode` returns, so no bound of five rounds or more runs out, and each gives that outcome. -/
theorem loop_ends (c : FrameCodec) {buf : List UInt8} (nonempty : buf ≠ []) :
    FrameCodec.rounds 5 { c with minLen := 0 } buf buf.length = .exit (c.decode buf) ∧
      ∀ fuel, 5 ≤ fuel → FrameCodec.loop fuel { c with minLen := 0 } buf buf.length = c.decode buf := by
  -- The rounds follow the reader's up to the round where the reader leaves, and leave there.
  obtain ⟨c', rest, reaches, exit⟩ := FrameCodec.readFrom_ends c.erase buf
  have counts : Counts buf.length { c with minLen := 0 } buf := .inr ⟨by simp, by simp⟩
  obtain ⟨c'', rfl, counts'', runs⟩ :=
    FrameCodec.rounds_of_reaches (by rwa [FrameCodec.erase_minLen]) counts
  obtain ⟨o, leaves⟩ := FrameCodec.pass_leaves counts'' exit
  have := FrameCodec.rank_le_four c''.erase.state
  have ends : ∀ n, 5 ≤ n → FrameCodec.rounds n { c with minLen := 0 } buf buf.length = .exit o :=
    fun n far => by
      rw [show n = n - (c''.erase.state.rank - c.state.rank) - 1 + 1 +
        (c''.erase.state.rank - c.state.rank) by omega, runs, FrameCodec.rounds, leaves]
  have decoded : c.decode buf = o := by
    rw [FrameCodec.decode, if_neg (by simpa using nonempty), FrameCodec.loop_eq_rounds,
      ends 5 le_rfl]
  subst decoded
  exact ⟨ends 5 le_rfl, fun fuel enough => by rw [FrameCodec.loop_eq_rounds, ends fuel enough]⟩

/-- The Ping of the source's test is read in five rounds, each bound from five on giving what
`decode` gives. -/
theorem loop_ends_ping :
    [0x89, 0x80, 0, 0, 0, 1] ≠ ([] : List UInt8) ∧
      FrameCodec.rounds 5 { FrameCodec.new true 0 with minLen := 0 } [0x89, 0x80, 0, 0, 0, 1] 6 =
        .exit ((FrameCodec.new true 0).decode [0x89, 0x80, 0, 0, 0, 1]) ∧
      ∀ fuel, 5 ≤ fuel →
        FrameCodec.loop fuel { FrameCodec.new true 0 with minLen := 0 } [0x89, 0x80, 0, 0, 0, 1] 6 =
          (FrameCodec.new true 0).decode [0x89, 0x80, 0, 0, 0, 1] :=
  ⟨nofun, @loop_ends (FrameCodec.new true 0) [0x89, 0x80, 0, 0, 0, 1] nofun⟩

/-- Where a call of `decode` fails, it leaves the codec at the arm that refused: a header check
fails only from `NONE`, which the codec keeps, with just the two header bytes taken; the control
check fails once `state` is `LENGTH`; the payload checks fail at `MASK`. No call fails to read a
length or a mask. -/
theorem decode_error_leaves {c c' : FrameCodec} {buf buf' : List UInt8} {msg : String}
    (failed : c.decode buf = .done (.error msg) c' buf') :
    (c.state = .NONE ∧ c'.state = .NONE ∧ msg ∈ FrameCodec.headerErrors ∧ buf' = buf.drop 2) ∨
      (c'.state = .LENGTH ∧ msg = "invalid control frame") ∨
      (c'.state = .MASK ∧ (msg = "error during UTF-8 validation" ∨ msg = "cannot unmask data")) := by
  -- The call fails as the reader does, on a nonempty buffer.
  have read := read_of_decode failed
  unfold FrameCodec.read at read
  split_ifs at read
  · cases read
  · simpa using FrameCodec.readFrom_exit_error read

/-- A client codec refuses an unmasked Ping at its header, keeping `NONE` and the byte after. -/
theorem decode_error_unmasked_ping :
    ∃ c', (FrameCodec.new true 0).decode [0x89, 0, 0x41] =
        .done (.error "all client frames must have a mask") c' [0x41] ∧
      (((FrameCodec.new true 0).state = .NONE ∧ c'.state = .NONE ∧
          "all client frames must have a mask" ∈ FrameCodec.headerErrors ∧
          [0x41] = ([0x89, 0, 0x41] : List UInt8).drop 2) ∨
        (c'.state = .LENGTH ∧ "all client frames must have a mask" = "invalid control frame") ∨
        (c'.state = .MASK ∧ ("all client frames must have a mask" = "error during UTF-8 validation" ∨
          "all client frames must have a mask" = "cannot unmask data"))) :=
  ⟨_, rfl, decode_error_leaves rfl⟩

end Soketto
