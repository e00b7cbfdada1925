import DraginoFwd.Lib.Memory
import DraginoFwd.Lib.ResultLoop

/-!
# Transfers over the LBT serial line

Model of `safe_read` and `uart_send` in `uart.c`: loops around `read` and `write`, whose results are
an arbitrary sequence. A `read` hands over at most the bytes that it is asked for, and a `write`
takes at most those.

`safe_read` tests for the end of the file only among the errors, where it never is, so a line that
is at its end for good keeps it for ever (`StallsAtEof`). `uart_send` does not test for -1 at all:
it subtracts it, steps back one byte and asks for one more (`StepsBack`). Its `remain` is an `int`,
so a line that fails for good ends in a signed overflow (`errors_overflow`), for which C gives no
value.
-/

set_option autoImplicit false

namespace DraginoFwd.Uart

open DraginoFwd.Lib.Memory
open DraginoFwd.Lib.ResultLoop

/-- `EINTR` -/
def eintr : Nat := 4

/-! ## `safe_read` -/

/-- A result of `read`: the bytes that are there, none at the end of the file, or -1 with an
`errno`. -/
inductive ReadResult where
  | count (bytes : List (BitVec 8))
  | error (errno : Nat)

/-- `r_buf` and the variables `left` and `ptr`, an offset into the buffer. -/
structure ReadState (n : Nat) where
  rBuf : Vector (BitVec 8) n
  left : Nat
  ptr : Nat

/-- The head of the loop: the function returns the buffer and `len - left`. -/
def readHead {n : Nat} (len : Nat) (s : ReadState n) :
    ReadState n ⊕ Except OutOfBounds (Vector (BitVec 8) n × Nat) :=
  if 0 < s.left then .inl s else .inr (.ok (s.rBuf, len - s.left))

/-- A round of the loop with the result of `read(fd, ptr, left)`. -/
def readRound {n : Nat} (len : Nat) (s : ReadState n) :
    ReadResult → ReadState n ⊕ Except OutOfBounds (Vector (BitVec 8) n × Nat)
  | .count bytes =>
      match copy s.rBuf s.ptr (bytes.take s.left) with
      | .error e => .inr (.error e)
      | .ok rBuf =>
          let nread := (bytes.take s.left).length
          readHead len ⟨rBuf, s.left - nread, s.ptr + nread⟩
  | .error errno =>
      if errno = eintr then readHead len s else .inr (.ok (s.rBuf, len - s.left))

/-- `safe_read(fd, r_buf, len)` returns with the `k`-th `read`. -/
def SafeReadEnds {n : Nat} (reads : Nat → ReadResult) (rBuf : Vector (BitVec 8) n) (len k : Nat)
    (r : Except OutOfBounds (Vector (BitVec 8) n × Nat)) : Prop :=
  EndsAt (readRound len) reads (readHead len ⟨rBuf, len, 0⟩) k r

/-- The bytes of a result. -/
def ReadResult.bytes : ReadResult → List (BitVec 8)
  | .count bytes => bytes
  | .error _ => []

/-- An error that `safe_read` does not retry. -/
def ReadResult.Fails : ReadResult → Prop
  | .count _ => False
  | .error errno => errno ≠ eintr

/-- The bytes of the first `k` results. -/
def delivered (reads : Nat → ReadResult) (k : Nat) : List (BitVec 8) :=
  (List.range k).flatMap fun i => (reads i).bytes

/-- `safe_read` returns after finitely many calls, and what it has stored is what they delivered, as
far as it was asked for: in order from the first byte of the buffer on, with the rest of the buffer
as it was. -/
def SafeReadOk {n : Nat} (reads : Nat → ReadResult) (rBuf : Vector (BitVec 8) n) (len : Nat) :
    Prop :=
  ∃ k buf ret, SafeReadEnds reads rBuf len k (.ok (buf, ret)) ∧
    ret = ((delivered reads k).take len).length ∧
    buf.toList = (delivered reads k).take len ++ rBuf.toList.drop ret

/-- The line is at its end for good, before `len` bytes and without an error that ends the loop. -/
def StallsAtEof (reads : Nat → ReadResult) (len : Nat) : Prop :=
  ∃ k, (delivered reads k).length < len ∧ (∀ j, j < k → ¬ (reads j).Fails) ∧
    ∀ j, k ≤ j → reads j = .count []

/-- `EINTR` stops at some call. -/
def FinitelyInterrupted (reads : Nat → ReadResult) : Prop :=
  ∃ k, ∀ j, k ≤ j → reads j ≠ .error eintr

@[simp] theorem delivered_zero (reads : Nat → ReadResult) : delivered reads 0 = [] := rfl

theorem delivered_succ (reads : Nat → ReadResult) (k : Nat) :
    delivered reads (k + 1) = delivered reads k ++ (reads k).bytes := by
  rw [delivered, List.range_succ, List.flatMap_append, List.flatMap_singleton]
  rfl

/-- What the loop maintains: no result has failed, fewer than `len` bytes have come, and they
stand in front of the rest of the buffer. -/
structure Reading {n : Nat} (reads : Nat → ReadResult) (rBuf : Vector (BitVec 8) n) (len k : Nat)
    (s : ReadState n) : Prop where
  quiet : ∀ j, j < k → ¬ (reads j).Fails
  short : (delivered reads k).length < len
  left : s.left = len - (delivered reads k).length
  ptr : s.ptr = (delivered reads k).length
  stored : s.rBuf.toList = delivered reads k ++ rBuf.toList.drop (delivered reads k).length

section Read

variable {n : Nat} {reads : Nat → ReadResult} {rBuf : Vector (BitVec 8) n} {len : Nat}

theorem quiet_succ {k : Nat} (h : ∀ j, j < k → ¬ (reads j).Fails) (hk : ¬ (reads k).Fails) :
    ∀ j, j < k + 1 → ¬ (reads j).Fails := by
  intro j hj
  rcases Nat.lt_succ_iff_lt_or_eq.1 hj with hlt | rfl
  · exact h j hlt
  · exact hk

/-- A round stores what comes, up to what is asked for. -/
theorem Reading.copy {k : Nat} {s : ReadState n} (h : Reading reads rBuf len k s) (hlen : len ≤ n) :
    ∃ buf, Lib.Memory.copy s.rBuf s.ptr ((reads k).bytes.take s.left) = .ok buf ∧
      buf.toList = (delivered reads (k + 1)).take len ++
        rBuf.toList.drop ((delivered reads (k + 1)).take len).length := by
  have hshort := h.short
  have hleft := h.left
  -- `read` was asked for `left` bytes and stores no more, whatever comes
  have htake : ((reads k).bytes.take s.left).length = min s.left (reads k).bytes.length :=
    List.length_take
  have hfit : s.ptr + ((reads k).bytes.take s.left).length ≤ n := by
    rw [htake, h.ptr, hleft]
    omega
  obtain ⟨buf, hcopy, hbuf⟩ := copy_spec s.rBuf s.ptr ((reads k).bytes.take s.left) hfit
  have hall : (delivered reads (k + 1)).take len =
      delivered reads k ++ (reads k).bytes.take s.left := by
    rw [delivered_succ, List.take_append, List.take_of_length_le hshort.le, hleft]
  refine ⟨buf, hcopy, ?_⟩
  have hfront : s.rBuf.toList.take s.ptr = delivered reads k := by
    rw [h.stored, h.ptr, List.take_left' rfl]
  have hback : s.rBuf.toList.drop (s.ptr + ((reads k).bytes.take s.left).length) =
      rBuf.toList.drop (s.ptr + ((reads k).bytes.take s.left).length) := by
    rw [h.stored, h.ptr, List.drop_length_add_append, List.drop_drop]
  rw [hbuf, hfront, hback, hall, List.length_append, h.ptr]

/-- What is stored when the loop ends with the `k`-th call. -/
def Stored (reads : Nat → ReadResult) (rBuf : Vector (BitVec 8) n) (len k : Nat)
    (r : Except OutOfBounds (Vector (BitVec 8) n × Nat)) : Prop :=
  ∃ buf ret, r = .ok (buf, ret) ∧ ret = ((delivered reads k).take len).length ∧
    buf.toList = (delivered reads k).take len ++ rBuf.toList.drop ret

/-- A call that fails ends the loop with what is there. -/
theorem Reading.round_fails {k : Nat} {s : ReadState n} (h : Reading reads rBuf len k s)
    (hfail : (reads k).Fails) :
    ∃ r, readRound len s (reads k) = .inr r ∧ Stored reads rBuf len (k + 1) r := by
  cases hread : reads k with
  | count bytes =>
    rw [hread] at hfail
    exact hfail.elim
  | error errno =>
    rw [hread] at hfail
    have hall : (delivered reads (k + 1)).take len = delivered reads k := by
      rw [delivered_succ, hread]
      show (delivered reads k ++ []).take len = _
      rw [List.append_nil, List.take_of_length_le h.short.le]
    refine ⟨_, if_neg hfail, s.rBuf, len - s.left, rfl, ?_, ?_⟩
    · rw [hall, h.left]
      have hshort := h.short
      omega
    · rw [hall, h.stored, h.left, Nat.sub_sub_self h.short.le]

/-- Any other call adds its bytes; the loop ends when `len` bytes have come. -/
theorem Reading.round {k : Nat} {s : ReadState n} (h : Reading reads rBuf len k s) (hlen : len ≤ n)
    (hgo : ¬ (reads k).Fails) :
    if len ≤ (delivered reads (k + 1)).length then
      ∃ r, readRound len s (reads k) = .inr r ∧ Stored reads rBuf len (k + 1) r
    else ∃ s', readRound len s (reads k) = .inl s' ∧ Reading reads rBuf len (k + 1) s' := by
  have hshort := h.short
  have hleft := h.left
  cases hread : reads k with
  | error errno =>
    -- an interrupted call is made again
    rw [hread] at hgo
    have herrno : errno = eintr := not_not.1 hgo
    have hsame : delivered reads (k + 1) = delivered reads k := by
      rw [delivered_succ, hread]
      exact List.append_nil _
    rw [if_neg (by rw [hsame]; omega)]
    refine ⟨s, ?_, ?_⟩
    · rw [readRound, if_pos herrno, readHead, if_pos (by omega)]
    · refine ⟨quiet_succ h.quiet (by rw [hread]; exact hgo), ?_, ?_, ?_, ?_⟩
      · rw [hsame]
        exact h.short
      · rw [hsame]
        exact h.left
      · rw [hsame]
        exact h.ptr
      · rw [hsame]
        exact h.stored
  | count bytes =>
    -- the bytes that came go behind the others, and the loop tests `left` again
    obtain ⟨buf, hcopy, hbuf⟩ := h.copy hlen
    have hbytes : (reads k).bytes = bytes := by rw [hread]; rfl
    rw [hbytes] at hcopy
    have hcount : (delivered reads (k + 1)).length = (delivered reads k).length + bytes.length := by
      rw [delivered_succ, List.length_append, hbytes]
    have hround : readRound len s (.count bytes) =
        readHead len ⟨buf, s.left - min s.left bytes.length, s.ptr + min s.left bytes.length⟩ := by
      simp only [readRound, hcopy, List.length_take]
    split
    · next hfull =>
      refine ⟨_, ?_, buf, len, rfl, ?_, ?_⟩
      · rw [hround, readHead, if_neg (by simp only; omega)]
        simp only
        rw [show len - (s.left - min s.left bytes.length) = len by omega]
      · rw [List.length_take, Nat.min_eq_left hfull]
      · rw [hbuf, List.length_take, Nat.min_eq_left hfull]
    · next hmore =>
      refine ⟨_, by rw [hround, readHead, if_pos (by simp only; omega)],
        quiet_succ h.quiet hgo, by omega, ?_, ?_, ?_⟩
      · simp only
        omega
      · simp only [h.ptr]
        omega
      · simp only
        rw [hbuf, List.take_of_length_le (by omega)]

theorem reading_start (hpos : 0 < len) : Reading reads rBuf len 0 ⟨rBuf, len, 0⟩ :=
  ⟨fun _ hj => absurd hj (Nat.not_lt_zero _), hpos, rfl, rfl, rfl⟩

theorem reading_of_head (s : ReadState n) (hs : readHead len ⟨rBuf, len, 0⟩ = .inl s) :
    Reading reads rBuf len 0 s := by
  rw [readHead] at hs
  split at hs
  · next hpos =>
    cases hs
    exact reading_start hpos
  · cases hs

/-- A round ends the loop with what is stored, or the loop goes on reading. -/
theorem Reading.round_cases {k : Nat} {s : ReadState n} (hs : Reading reads rBuf len k s)
    (hlen : len ≤ n) :
    (∃ r, readRound len s (reads k) = .inr r ∧ Stored reads rBuf len (k + 1) r) ∨
      ∃ s', readRound len s (reads k) = .inl s' ∧ Reading reads rBuf len (k + 1) s' := by
  by_cases hfail : (reads k).Fails
  · exact Or.inl (hs.round_fails hfail)
  · have hround := hs.round hlen hfail
    split at hround
    · exact Or.inl hround
    · exact Or.inr hround

theorem reading_step (hlen : len ≤ n) (k : Nat) (s s' : ReadState n)
    (hs : Reading reads rBuf len k s) (hstep : readRound len s (reads k) = .inl s') :
    Reading reads rBuf len (k + 1) s' := by
  rcases hs.round_cases hlen with ⟨r, hr, -⟩ | ⟨s'', hs'', hnext⟩
  · rw [hr] at hstep
    cases hstep
  · rw [hs''] at hstep
    cases hstep
    exact hnext

/-- Where `safe_read` ends, it has stored what came. -/
theorem SafeReadEnds.stored {k : Nat} {r : Except OutOfBounds (Vector (BitVec 8) n × Nat)}
    (h : SafeReadEnds reads rBuf len k r) (hlen : len ≤ n) : Stored reads rBuf len k r := by
  -- by the invariant `Reading`: a length of 0 ends the loop at once, any other in a round
  refine EndsAt.post (I := Reading reads rBuf len) reading_of_head ?_ (reading_step hlen) ?_ h
  · intro r hr
    rw [readHead] at hr
    split at hr
    · cases hr
    · next hzero =>
      cases hr
      have hnil : len = 0 := by simpa using hzero
      subst hnil
      exact ⟨_, _, rfl, rfl, rfl⟩
  · intro k s r hs hstep
    rcases hs.round_cases hlen with ⟨r', hr', hstored⟩ | ⟨s', hs', -⟩
    · rw [hr'] at hstep
      cases hstep
      exact hstored
    · rw [hs'] at hstep
      cases hstep

theorem delivered_mono (reads : Nat → ReadResult) {j k : Nat} (h : j ≤ k) :
    (delivered reads j).length ≤ (delivered reads k).length := by
  induction h with
  | refl => exact Nat.le_refl _
  | step _ ih =>
    rw [delivered_succ, List.length_append]
    omega

theorem delivered_of_eof {k j : Nat} (heof : ∀ i, k ≤ i → reads i = .count []) (h : k ≤ j) :
    delivered reads j = delivered reads k := by
  induction h with
  | refl => rfl
  | @step j hj ih =>
    rw [delivered_succ, heof j hj, ih]
    exact List.append_nil _

/-- At the end of the file, `safe_read` asks again for ever. -/
theorem not_safeReadEnds_of_stalls (hlen : len ≤ n) (h : StallsAtEof reads len) (k : Nat)
    (r : Except OutOfBounds (Vector (BitVec 8) n × Nat)) : ¬ SafeReadEnds reads rBuf len k r := by
  obtain ⟨stop, hshort, hquiet, heof⟩ := h
  have hpos : 0 < len := by omega
  have hgo : ∀ j, ¬ (reads j).Fails := by
    intro j
    rcases Nat.lt_or_ge j stop with hlt | hge
    · exact hquiet j hlt
    · rw [heof j hge]
      exact id
  have hfew : ∀ j, (delivered reads j).length < len := by
    intro j
    rcases Nat.le_total j stop with hle | hge
    · exact Nat.lt_of_le_of_lt (delivered_mono reads hle) hshort
    · rw [delivered_of_eof heof hge]
      exact hshort
  -- no call fails and never enough bytes have come, so that every round goes on
  refine not_endsAt_of_forever (I := Reading reads rBuf len) (if_pos hpos)
    (reading_start hpos) ?_ k r
  intro j s hs
  have hround := hs.round hlen (hgo j)
  rwa [if_neg (Nat.not_le.2 (hfew (j + 1)))] at hround

/-- Calls that neither fail nor stay empty deliver any number of bytes. -/
theorem exists_delivered (hmore : ∀ k, ∃ j, k ≤ j ∧ (reads j).bytes ≠ []) (len : Nat) :
    ∃ k, len ≤ (delivered reads k).length := by
  induction len with
  | zero => exact ⟨0, Nat.zero_le _⟩
  | succ len ih =>
    obtain ⟨k, hk⟩ := ih
    obtain ⟨j, hj, hbytes⟩ := hmore k
    have hmono := delivered_mono reads hj
    have hpos := List.length_pos_iff.2 hbytes
    refine ⟨j + 1, ?_⟩
    rw [delivered_succ, List.length_append]
    omega

/-- A `safe_read` that never ends has come to the end of the file. -/
theorem stalls_of_running (hlen : len ≤ n) (hint : FinitelyInterrupted reads)
    (hrun : ∀ k, ∃ s, after (readRound len) reads (readHead len ⟨rBuf, len, 0⟩) k = .inl s) :
    StallsAtEof reads len := by
  have hreading : ∀ k, ∃ s, Reading reads rBuf len k s := by
    intro k
    obtain ⟨s, hs⟩ := hrun k
    exact ⟨s, invariant reading_of_head (reading_step hlen) hs⟩
  have hquiet : ∀ j, ¬ (reads j).Fails := by
    intro j
    obtain ⟨s, hs⟩ := hreading (j + 1)
    exact hs.quiet j (Nat.lt_succ_self j)
  -- either bytes come again and again, and `len` of them end the loop, or they stop for good
  by_cases hmore : ∀ k, ∃ j, k ≤ j ∧ (reads j).bytes ≠ []
  · obtain ⟨k, hk⟩ := exists_delivered hmore len
    obtain ⟨s, hs⟩ := hreading k
    exact absurd hs.short (Nat.not_lt.2 hk)
  · push Not at hmore
    obtain ⟨last, hlast⟩ := hmore
    obtain ⟨calm, hcalm⟩ := hint
    obtain ⟨s, hs⟩ := hreading (max last calm)
    refine ⟨max last calm, hs.short, fun j _ => hquiet j, ?_⟩
    intro j hj
    have hbytes := hlast j (by omega)
    have hnever := hcalm j (by omega)
    have hgo := hquiet j
    cases hread : reads j with
    | count bytes =>
      rw [hread] at hbytes
      exact congrArg ReadResult.count hbytes
    | error errno =>
      rw [hread] at hnever hgo
      exact absurd (congrArg ReadResult.error (not_not.1 hgo)) hnever

/-- `safe_read` does what it should exactly if the line does not stay at its end. -/
theorem safeReadOk_iff (hlen : len ≤ n) (hint : FinitelyInterrupted reads) :
    SafeReadOk reads rBuf len ↔ ¬ StallsAtEof reads len := by
  constructor
  · rintro ⟨k, buf, ret, hend, -, -⟩ hstall
    exact not_safeReadEnds_of_stalls hlen hstall k _ hend
  · intro h
    rcases endsAt_or_running (readRound len) reads (readHead len ⟨rBuf, len, 0⟩) with
      ⟨k, r, hend⟩ | hrun
    · obtain ⟨buf, ret, rfl, hret, hbuf⟩ := SafeReadEnds.stored hend hlen
      exact ⟨k, buf, ret, hend, hret, hbuf⟩
    · exact absurd (stalls_of_running hlen hint hrun) h

end Read

/-! ## `uart_send` -/

/-- A result of `write`: the number of bytes it takes, or -1 with an `errno`. -/
inductive WriteResult where
  | count (n : Nat)
  | error (errno : Nat)

/-- `INT_MAX` -/
def intMax : Nat := 2147483647

/-- The value of a sum or difference that an `int` cannot hold. -/
structure IntOverflow where
  value : Int

/-- A sum or difference of two `int`s; C gives it no value outside the range of an `int`. -/
def toInt (v : Int) : Except IntOverflow Int :=
  if -(intMax : Int) - 1 ≤ v ∧ v ≤ intMax then .ok v else .error ⟨v⟩

/-- The `int` variables `remain` and `writed`, and the positions in `data` that were written so
far. -/
structure SendState where
  remain : Int
  writed : Int
  sent : List Int

/-- How `uart_send` ends: with the value that it returns and the positions that it has written, or
with an overflow. -/
abbrev SendEnd : Type := Except IntOverflow (Int × List Int)

/-- The head of the loop. -/
def sendHead (s : SendState) : SendState ⊕ SendEnd :=
  if 0 < s.remain then .inl s else .inr (.ok (s.writed, s.sent))

/-- `remain -= len; writed += len`, and the head of the loop with the positions that are written
now. -/
def sendMove (s : SendState) (len : Int) (sent : List Int) : SendState ⊕ SendEnd :=
  match toInt (s.remain - len) with
  | .error e => .inr (.error e)
  | .ok remain =>
      match toInt (s.writed + len) with
      | .error e => .inr (.error e)
      | .ok writed => sendHead ⟨remain, writed, sent⟩

/-- A round of the loop with the result of `write(fd, data + writed, remain)`. -/
def sendRound (s : SendState) : WriteResult → SendState ⊕ SendEnd
  | .count n =>
      let len := min n s.remain.toNat
      if len = 0 then .inr (.ok (-1, s.sent))
      else sendMove s len (s.sent ++ (List.range len).map fun i : Nat => s.writed + i)
  | .error _ => sendMove s (-1) s.sent

/-- `uart_send(fd, data, len)` ends with the `k`-th `write`. -/
def UartSendEnds (writes : Nat → WriteResult) (fd : Int) (dataNull : Bool) (len k : Nat)
    (r : SendEnd) : Prop :=
  EndsAt sendRound writes
    (if fd = -1 ∨ dataNull then .inr (.ok (-1, [])) else sendHead ⟨len, 0, []⟩) k r

/-- `uart_send` returns -1 or `len` after finitely many calls, and it has written only bytes of
`data`, in order and each at most once. -/
def UartSendOk (writes : Nat → WriteResult) (fd : Int) (dataNull : Bool) (len : Nat) : Prop :=
  ∃ k ret sent, UartSendEnds writes fd dataNull len k (.ok (ret, sent)) ∧
    (ret = -1 ∨ ret = len) ∧ sent.Pairwise (· < ·) ∧ ∀ i ∈ sent, 0 ≤ i ∧ i < len

/-- The count of a result. -/
def WriteResult.taken : WriteResult → Nat
  | .count n => n
  | .error _ => 0

/-- The sum of the first `k` counts. -/
def takenSum (writes : Nat → WriteResult) (k : Nat) : Nat :=
  ((List.range k).map fun i => (writes i).taken).sum

/-- The call has returned -1. -/
def WriteResult.IsError : WriteResult → Prop
  | .count _ => False
  | .error _ => True

theorem WriteResult.not_isError {w : WriteResult} (h : 0 < w.taken) : ¬ w.IsError := by
  cases w with
  | count n => exact id
  | error errno => exact absurd h (lt_irrefl 0)

/-- The first result that is not a positive count is -1 and comes before `len` bytes are out, and
what comes behind it and its repetitions, while `remain` still is an `int`, is not a zero. -/
def StepsBack (writes : Nat → WriteResult) (len : Nat) : Prop :=
  ∃ k, (∀ j, j < k → 0 < (writes j).taken) ∧ takenSum writes k < len ∧ (writes k).IsError ∧
    ∀ m, k ≤ m → (∀ j, k ≤ j → j < m → (writes j).IsError) →
      len - takenSum writes k + (m - k) ≤ intMax → writes m ≠ .count 0

/-- The positions of the first `m` bytes. -/
def positions (m : Nat) : List Int := (List.range m).map fun i : Nat => (i : Int)

theorem mem_positions {m : Nat} {i : Int} : i ∈ positions m ↔ 0 ≤ i ∧ i < m := by
  rw [positions, List.mem_map]
  constructor
  · rintro ⟨k, hk, rfl⟩
    have hlt := List.mem_range.1 hk
    omega
  · rintro ⟨h0, hlt⟩
    exact ⟨i.toNat, List.mem_range.2 (by omega), by omega⟩

theorem positions_pairwise (m : Nat) : (positions m).Pairwise (· < ·) := by
  rw [positions, List.pairwise_map]
  exact List.pairwise_lt_range.imp fun h => Int.ofNat_lt.2 h

/-- The next bytes go behind those that were sent. -/
theorem positions_append (m len : Nat) :
    positions m ++ (List.range len).map (fun i : Nat => (m : Int) + i) = positions (m + len) := by
  rw [positions, positions, List.range_add, List.map_append, List.map_map]
  congr 1

theorem takenSum_succ (writes : Nat → WriteResult) (k : Nat) :
    takenSum writes (k + 1) = takenSum writes k + (writes k).taken := by
  rw [takenSum, List.range_succ, List.map_append, List.sum_append]
  simp [takenSum]

/-- The variables when `m` bytes were sent and `e` errors have come since. -/
def steppedBack (len m e : Nat) : SendState :=
  ⟨(len : Int) - m + e, (m : Int) - e, positions m⟩

section Send

variable {writes : Nat → WriteResult} {len m e : Nat}

theorem toInt_of_fits {v : Int} (hlow : -(intMax : Int) - 1 ≤ v) (hhigh : v ≤ intMax) :
    toInt v = .ok v := if_pos ⟨hlow, hhigh⟩

theorem toInt_of_lt {v : Int} (h : intMax < v) : toInt v = .error ⟨v⟩ :=
  if_neg fun hfits => absurd hfits.2 (not_le.2 h)

theorem sendHead_of_pos {s : SendState} (h : 0 < s.remain) : sendHead s = .inl s := if_pos h

theorem sendHead_of_not_pos {s : SendState} (h : ¬ 0 < s.remain) :
    sendHead s = .inr (.ok (s.writed, s.sent)) := if_neg h

/-- A count or an error that leaves an `int` in `remain` moves both variables. -/
theorem sendMove_steppedBack (hlen : len ≤ intMax) {d : Int} (hhigh : d ≤ (len : Int) - m + e)
    (hfits : (len : Int) - m + e - d ≤ intMax) (sent : List Int) :
    sendMove (steppedBack len m e) d sent =
      sendHead ⟨(len : Int) - m + e - d, (m : Int) - e + d, sent⟩ := by
  have hremain : toInt ((steppedBack len m e).remain - d) = .ok ((len : Int) - m + e - d) :=
    toInt_of_fits (by simp only [steppedBack]; omega) hfits
  -- the sum of the two variables is always `len`
  have hwrited : toInt ((steppedBack len m e).writed + d) = .ok ((m : Int) - e + d) :=
    toInt_of_fits (by simp only [steppedBack]; omega) (by simp only [steppedBack]; omega)
  rw [sendMove, hremain]
  simp only [hwrited]

theorem sendRound_error (hlen : len ≤ intMax) (hm : m < len)
    (hfits : len - m + (e + 1) ≤ intMax) (errno : Nat) :
    sendRound (steppedBack len m e) (.error errno) = .inl (steppedBack len m (e + 1)) := by
  have hremain : (len : Int) - m + e - -1 = (len : Int) - m + (e + 1 : Nat) := by omega
  have hwrited : (m : Int) - e + -1 = (m : Int) - (e + 1 : Nat) := by omega
  rw [sendRound, sendMove_steppedBack hlen (by omega) (by omega), hremain, hwrited]
  apply sendHead_of_pos
  simp only
  omega

/-- The error that takes `remain` out of the range of an `int`. -/
theorem sendRound_overflow (hm : m < len) (hover : intMax < len - m + (e + 1)) (errno : Nat) :
    ∃ v, sendRound (steppedBack len m e) (.error errno) = .inr (.error v) := by
  refine ⟨⟨(steppedBack len m e).remain - -1⟩, ?_⟩
  rw [sendRound, sendMove, toInt_of_lt]
  simp only [steppedBack]
  omega

theorem sendRound_zero (s : SendState) : sendRound s (.count 0) = .inr (.ok (-1, s.sent)) := by
  rw [sendRound, Nat.zero_min, if_pos rfl]

/-- Without an error the count goes behind what was sent, and the loop ends with `len`. -/
theorem sendRound_count (hlen : len ≤ intMax) (hm : m < len) {n : Nat} (hn : 0 < n) :
    sendRound (steppedBack len m 0) (.count n) =
      if len ≤ m + n then .inr (.ok ((len : Int), positions len))
      else .inl (steppedBack len (m + n) 0) := by
  have htaken : min n (steppedBack len m 0).remain.toNat = min n (len - m) := by
    simp only [steppedBack]
    omega
  have hwrited : (steppedBack len m 0).writed = m := by
    simp only [steppedBack]
    omega
  -- the new variables are those behind `m + min n (len - m)` bytes
  have hnext : sendMove (steppedBack len m 0) (min n (len - m) : Nat)
      ((steppedBack len m 0).sent ++ (List.range (min n (len - m))).map fun i : Nat =>
        (steppedBack len m 0).writed + i) =
      sendHead (steppedBack len (m + min n (len - m)) 0) := by
    rw [sendMove_steppedBack hlen (by omega) (by omega), hwrited]
    congr 1
    simp only [steppedBack, positions_append, SendState.mk.injEq, and_true]
    omega
  rw [sendRound, htaken, if_neg (by omega), hnext]
  split
  · next hall =>
    rw [show m + min n (len - m) = len by omega, sendHead_of_not_pos]
    · simp [steppedBack]
    · simp [steppedBack]
  · next hmore =>
    rw [show min n (len - m) = n by omega, sendHead_of_pos]
    simp only [steppedBack]
    omega

/-- Behind an error the first byte goes to a position where one was sent, or in front of `data`. -/
theorem sendRound_behind (hlen : len ≤ intMax) (hm : m < len) (he : 0 < e)
    (hfits : len - m + e ≤ intMax) {n : Nat} (hn : 0 < n) :
    ∃ rest, (∃ s, sendRound (steppedBack len m e) (.count n) = .inl s ∧
        s.sent = positions m ++ ((m : Int) - e) :: rest) ∨
      ∃ ret, sendRound (steppedBack len m e) (.count n) =
        .inr (.ok (ret, positions m ++ ((m : Int) - e) :: rest)) := by
  have hpos : 0 < min n ((len : Int) - m + e).toNat := by omega
  -- at least one byte is sent, and the first of them is that at `writed`
  obtain ⟨k, hk⟩ := Nat.exists_eq_succ_of_ne_zero hpos.ne'
  refine ⟨((List.range k).map Nat.succ).map fun i : Nat => (m : Int) - e + i, ?_⟩
  have hsent : positions m ++ (List.range (k + 1)).map (fun i : Nat => (m : Int) - e + i) =
      positions m ++ ((m : Int) - e) ::
        ((List.range k).map Nat.succ).map fun i : Nat => (m : Int) - e + i := by
    rw [List.range_succ_eq_map, List.map_cons]
    simp
  have htaken : min n (steppedBack len m e).remain.toNat = k + 1 := hk
  rw [sendRound, htaken, if_neg (Nat.succ_ne_zero k),
    sendMove_steppedBack hlen (by omega) (by omega)]
  simp only [steppedBack]
  rw [hsent, sendHead]
  split
  · exact Or.inl ⟨_, rfl, rfl⟩
  · exact Or.inr ⟨_, rfl⟩

/-- Bytes that are sent from such a position on are not in order, or not all of `data`. -/
theorem not_ordered_behind {sent rest : List Int} (he : 0 < e)
    (h : sent = positions m ++ ((m : Int) - e) :: rest) (hlow : ∀ i ∈ sent, 0 ≤ i) :
    ¬ sent.Pairwise (· < ·) := by
  subst h
  intro hordered
  -- the position is negative, or it is one of the first `m` positions, which stand in front
  have hpos := hlow ((m : Int) - e) (by simp)
  have hlt := (List.pairwise_append.1 hordered).2.2 ((m : Int) - e)
    (mem_positions.2 ⟨hpos, by omega⟩) _ List.mem_cons_self
  exact absurd hlt (lt_irrefl _)

/-- A running loop: `good` calls with a positive count were made, and then `e` that failed, so few
that `remain` still is an `int`. -/
structure SendAt (writes : Nat → WriteResult) (len good e k : Nat) (s : SendState) : Prop where
  calls : good + e = k
  counts : ∀ j, j < good → 0 < (writes j).taken
  short : takenSum writes good < len
  fits : len - takenSum writes good + e ≤ intMax
  errors : ∀ j, good ≤ j → j < k → (writes j).IsError
  state : s = steppedBack len (takenSum writes good) e

/-- An end of `uart_send` as it should be. -/
def Ordered (len : Nat) (r : SendEnd) : Prop :=
  ∃ ret sent, r = .ok (ret, sent) ∧ (ret = -1 ∨ ret = len) ∧ sent.Pairwise (· < ·) ∧
    ∀ i ∈ sent, 0 ≤ i ∧ i < len

theorem ordered_positions {ret : Int} (hret : ret = -1 ∨ ret = len) (hm : m ≤ len) :
    Ordered len (.ok (ret, positions m)) := by
  refine ⟨ret, positions m, rfl, hret, positions_pairwise m, fun i hi => ?_⟩
  have hbounds := mem_positions.1 hi
  omega

theorem sendAt_start (hlen : len ≤ intMax) (hpos : 0 < len) :
    SendAt writes len 0 0 0 ⟨len, 0, []⟩ := by
  refine ⟨rfl, fun j hj => absurd hj (Nat.not_lt_zero j), hpos, hlen,
    fun j _ hj => absurd hj (Nat.not_lt_zero j), ?_⟩
  simp [steppedBack, takenSum, positions]

theorem sendAt_of_head (hlen : len ≤ intMax) (s : SendState)
    (hs : sendHead ⟨len, 0, []⟩ = .inl s) : SendAt writes len 0 0 0 s := by
  rw [sendHead] at hs
  split at hs
  · next hpos =>
    cases hs
    exact sendAt_start hlen (Int.natCast_pos.1 hpos)
  · cases hs

variable {good k : Nat} {s : SendState}

/-- An error is one more step back, as long as `remain` can grow. -/
theorem SendAt.error (h : SendAt writes len good e k s) (hlen : len ≤ intMax)
    (herr : (writes k).IsError) (hfits : len - takenSum writes good + (e + 1) ≤ intMax) :
    ∃ s', sendRound s (writes k) = .inl s' ∧ SendAt writes len good (e + 1) (k + 1) s' := by
  cases hwrite : writes k with
  | count n =>
    rw [hwrite] at herr
    exact herr.elim
  | error errno =>
    refine ⟨_, by rw [h.state, sendRound_error hlen h.short hfits], ?_, h.counts, h.short, hfits,
      ?_, rfl⟩
    · rw [← h.calls]
      rfl
    · intro j hj hlt
      rcases Nat.lt_succ_iff_lt_or_eq.1 hlt with hlt | rfl
      · exact h.errors j hj hlt
      · exact herr

/-- The error behind that is undefined. -/
theorem SendAt.overflow (h : SendAt writes len good e k s) (herr : (writes k).IsError)
    (hover : intMax < len - takenSum writes good + (e + 1)) :
    ∃ v, sendRound s (writes k) = .inr (.error v) := by
  cases hwrite : writes k with
  | count n =>
    rw [hwrite] at herr
    exact herr.elim
  | error errno =>
    rw [h.state]
    exact sendRound_overflow h.short hover errno

/-- A positive count before any error sends the next bytes. -/
theorem SendAt.count (h : SendAt writes len k 0 k s) (hlen : len ≤ intMax)
    (hpos : 0 < (writes k).taken) :
    (sendRound s (writes k) = .inr (.ok ((len : Int), positions len)) ∧
      len ≤ takenSum writes (k + 1)) ∨
      ∃ s', sendRound s (writes k) = .inl s' ∧ SendAt writes len (k + 1) 0 (k + 1) s' := by
  cases hwrite : writes k with
  | error errno =>
    rw [hwrite] at hpos
    exact absurd hpos (lt_irrefl 0)
  | count n =>
    have htaken : (writes k).taken = n := by rw [hwrite]; rfl
    rw [htaken] at hpos
    rw [h.state, sendRound_count hlen h.short hpos, takenSum_succ, htaken]
    split
    · next hall => exact Or.inl ⟨rfl, hall⟩
    · next hmore =>
      refine Or.inr ⟨_, rfl, rfl, ?_, ?_, ?_, ?_, ?_⟩
      · intro j hj
        rcases Nat.lt_succ_iff_lt_or_eq.1 hj with hlt | rfl
        · exact h.counts j hlt
        · rw [htaken]
          exact hpos
      · rw [takenSum_succ, htaken]
        exact Nat.lt_of_not_le hmore
      · omega
      · intro j hj hlt
        omega
      · rw [takenSum_succ, htaken]

/-- A loop goes wrong with an error that overflows, and with a count behind an error. -/
theorem SendAt.stepsBack_of (h : SendAt writes len good e k s)
    (hnext : (writes k).IsError ∧ intMax < len - takenSum writes good + (e + 1) ∨
      0 < e ∧ 0 < (writes k).taken) : StepsBack writes len := by
  have hcalls := h.calls
  have hfirst : (writes good).IsError := by
    rcases Nat.eq_zero_or_pos e with rfl | he
    · obtain rfl : good = k := hcalls
      exact (hnext.resolve_right fun hpos => absurd hpos.1 (lt_irrefl 0)).1
    · exact h.errors good (Nat.le_refl good) (by omega)
  refine ⟨good, h.counts, h.short, hfirst, ?_⟩
  intro m hm herrors hfits hcount
  rcases Nat.lt_trichotomy m k with hlt | rfl | hgt
  · have herr := h.errors m hm hlt
    rw [hcount] at herr
    exact herr
  · rw [hcount] at hnext
    rcases hnext with ⟨herr, -⟩ | ⟨-, hpos⟩
    · exact herr
    · exact absurd hpos (lt_irrefl 0)
  · rcases hnext with ⟨-, hover⟩ | ⟨-, hpos⟩
    · omega
    · exact WriteResult.not_isError hpos (herrors k (by omega) hgt)

/-- Without `StepsBack` a round ends the loop as it should, or goes on. -/
theorem SendAt.round (h : SendAt writes len good e k s) (hlen : len ≤ intMax)
    (hsafe : ¬ StepsBack writes len) :
    (∃ r, sendRound s (writes k) = .inr r ∧ Ordered len r) ∨
      ∃ good' e' s', sendRound s (writes k) = .inl s' ∧
        SendAt writes len good' e' (k + 1) s' := by
  rcases Nat.eq_zero_or_pos (writes k).taken with hzero | hpos
  · cases hwrite : writes k with
    | error errno =>
      have herr : (writes k).IsError := by rw [hwrite]; trivial
      have hfits : len - takenSum writes good + (e + 1) ≤ intMax := by
        by_contra hover
        exact hsafe (h.stepsBack_of (Or.inl ⟨herr, Nat.lt_of_not_le hover⟩))
      obtain ⟨s', hs', hnext⟩ := h.error hlen herr hfits
      rw [hwrite] at hs'
      exact Or.inr ⟨good, e + 1, s', hs', hnext⟩
    | count n =>
      rw [hwrite] at hzero
      obtain rfl : n = 0 := hzero
      refine Or.inl ⟨_, sendRound_zero s, ?_⟩
      rw [h.state]
      exact ordered_positions (Or.inl rfl) h.short.le
  · rcases Nat.eq_zero_or_pos e with rfl | he
    -- no error yet: the count goes on, or it is the last
    · obtain rfl : good = k := h.calls
      rcases h.count hlen hpos with ⟨hend, -⟩ | ⟨s', hs', hnext⟩
      · exact Or.inl ⟨_, hend, ordered_positions (Or.inr rfl) (Nat.le_refl len)⟩
      · exact Or.inr ⟨good + 1, 0, s', hs', hnext⟩
    · exact absurd (h.stepsBack_of (Or.inr ⟨he, hpos⟩)) hsafe

theorem sendAt_step (hlen : len ≤ intMax) (hsafe : ¬ StepsBack writes len) (k : Nat)
    (s s' : SendState) (hs : ∃ good e, SendAt writes len good e k s)
    (hstep : sendRound s (writes k) = .inl s') : ∃ good e, SendAt writes len good e (k + 1) s' := by
  obtain ⟨good, e, hs⟩ := hs
  rcases hs.round hlen hsafe with ⟨r, hr, -⟩ | ⟨good', e', s'', hs'', hnext⟩
  · rw [hr] at hstep
    cases hstep
  · rw [hs''] at hstep
    cases hstep
    exact ⟨good', e', hnext⟩

/-- The counts of `k` calls that all take something. -/
theorem le_takenSum (h : ∀ j, j < k → 0 < (writes j).taken) : k ≤ takenSum writes k := by
  induction k with
  | zero => exact Nat.zero_le _
  | succ k ih =>
    have hrest := ih fun j hj => h j (Nat.lt_succ_of_lt hj)
    have hlast := h k (Nat.lt_succ_self k)
    rw [takenSum_succ]
    omega

theorem takenSum_mono (writes : Nat → WriteResult) {j k : Nat} (h : j ≤ k) :
    takenSum writes j ≤ takenSum writes k := by
  induction h with
  | refl => exact Nat.le_refl _
  | step _ ih =>
    rw [takenSum_succ]
    omega

/-- Without `StepsBack` the loop ends as it should where it ends. -/
theorem ordered_of_endsAt (hlen : len ≤ intMax) (hsafe : ¬ StepsBack writes len) {r : SendEnd}
    (h : EndsAt sendRound writes (sendHead ⟨len, 0, []⟩) k r) : Ordered len r := by
  refine EndsAt.post (I := fun k s => ∃ good e, SendAt writes len good e k s)
    (Q := fun _ r => Ordered len r) ?_ ?_ (sendAt_step hlen hsafe) ?_ h
  · exact fun s hs => ⟨0, 0, sendAt_of_head hlen s hs⟩
  · intro r hr
    rw [sendHead] at hr
    split at hr
    · cases hr
    · next hzero =>
      cases hr
      have hnil : len = 0 := by simpa using hzero
      subst hnil
      exact ⟨0, [], rfl, Or.inr rfl, List.Pairwise.nil, fun i hi => absurd hi List.not_mem_nil⟩
  · rintro k s r ⟨good, e, hs⟩ hstep
    rcases hs.round hlen hsafe with ⟨r', hr', hordered⟩ | ⟨good', e', s'', hs'', -⟩
    · rw [hr'] at hstep
      cases hstep
      exact hordered
    · rw [hs''] at hstep
      cases hstep

/-- Without `StepsBack` the loop ends: `len` calls that all take something take `len` bytes, and an
error is followed by a zero. -/
theorem not_running (hlen : len ≤ intMax) (hsafe : ¬ StepsBack writes len) :
    ¬ ∀ k, ∃ s, after sendRound writes (sendHead ⟨len, 0, []⟩) k = .inl s := by
  intro hrun
  -- look at the loop behind `len` calls: one of them was an error, for otherwise all bytes are out
  obtain ⟨s, hs⟩ := hrun len
  obtain ⟨good, e, hat⟩ := invariant (I := fun k s => ∃ good e, SendAt writes len good e k s)
    (fun s hs => ⟨0, 0, sendAt_of_head hlen s hs⟩) (sendAt_step hlen hsafe) hs
  have hshort := hat.short
  have hsum := le_takenSum hat.counts
  have herr := hat.errors good (Nat.le_refl good) (by omega)
  refine hsafe ⟨good, hat.counts, hshort, herr, fun m _ _ _ hzero => ?_⟩
  -- a zero would have ended it
  obtain ⟨sm, hsm⟩ := hrun m
  obtain ⟨sm', hsm'⟩ := hrun (m + 1)
  rw [after_succ_of_inl hsm, hzero, sendRound_zero] at hsm'
  cases hsm'

/-- A byte was sent behind a step back. -/
def Behind (sent : List Int) : Prop :=
  ∃ m e : Nat, ∃ rest : List Int, 0 < e ∧ sent = positions m ++ ((m : Int) - e) :: rest

theorem Behind.append {sent : List Int} (h : Behind sent) (more : List Int) :
    Behind (sent ++ more) := by
  obtain ⟨m, e, rest, he, rfl⟩ := h
  exact ⟨m, e, rest ++ more, he, by rw [List.append_assoc, List.cons_append]⟩

/-- An end as it should not be: by an overflow, or with a byte that was sent behind a step back. -/
def Strays (r : SendEnd) : Prop :=
  ∀ ret sent, r = .ok (ret, sent) → Behind sent

theorem strays_error (v : IntOverflow) : Strays (.error v) := by
  intro ret sent h
  cases h

theorem strays_ok {ret : Int} {sent : List Int} (h : Behind sent) : Strays (.ok (ret, sent)) := by
  rintro ret' sent' hr
  cases hr
  exact h

/-- The two variables move, or one of them overflows. -/
theorem sendMove_cases (s : SendState) (d : Int) (sent : List Int) :
    (∃ s', sendMove s d sent = .inl s' ∧ s'.sent = sent) ∨
      (∃ ret, sendMove s d sent = .inr (.ok (ret, sent))) ∨
      ∃ v, sendMove s d sent = .inr (.error v) := by
  rw [sendMove]
  cases toInt (s.remain - d) with
  | error v => exact Or.inr (Or.inr ⟨v, rfl⟩)
  | ok remain =>
    cases toInt (s.writed + d) with
    | error v => exact Or.inr (Or.inr ⟨v, rfl⟩)
    | ok writed =>
      simp only [sendHead]
      split
      · exact Or.inl ⟨_, rfl, rfl⟩
      · exact Or.inr (Or.inl ⟨writed, rfl⟩)

/-- What was sent behind a step back stays sent. -/
theorem sendRound_behind_stays {s : SendState} (h : Behind s.sent) (w : WriteResult) :
    (∃ s', sendRound s w = .inl s' ∧ Behind s'.sent) ∨
      ∃ r, sendRound s w = .inr r ∧ Strays r := by
  have hmove : ∀ (d : Int) (more : List Int),
      (∃ s', sendMove s d (s.sent ++ more) = .inl s' ∧ Behind s'.sent) ∨
        ∃ r, sendMove s d (s.sent ++ more) = .inr r ∧ Strays r := by
    intro d more
    rcases sendMove_cases s d (s.sent ++ more) with ⟨s', hs', hsent⟩ | ⟨ret, hr⟩ | ⟨v, hv⟩
    · exact Or.inl ⟨s', hs', hsent ▸ h.append more⟩
    · exact Or.inr ⟨_, hr, strays_ok (h.append more)⟩
    · exact Or.inr ⟨_, hv, strays_error v⟩
  cases w with
  | error errno =>
    have hnone := hmove (-1) []
    rwa [List.append_nil] at hnone
  | count n =>
    rw [sendRound]
    split
    · exact Or.inr ⟨_, rfl, strays_ok h⟩
    · exact hmove _ _

/-- With `StepsBack` a round goes on, without an error before its time, or a byte is sent behind a
step back, or `remain` overflows. -/
theorem SendAt.round_of_stepsBack (h : SendAt writes len good e k s) (hlen : len ≤ intMax)
    (hback : StepsBack writes len) :
    (∃ good' e' s', sendRound s (writes k) = .inl s' ∧ SendAt writes len good' e' (k + 1) s') ∨
      (∃ s', sendRound s (writes k) = .inl s' ∧ Behind s'.sent) ∨
      ∃ r, sendRound s (writes k) = .inr r ∧ Strays r := by
  obtain ⟨first, hcounts, hshort, herr, hnozero⟩ := hback
  have hcalls := h.calls
  by_cases hk : (writes k).IsError
  · rcases Nat.lt_or_ge intMax (len - takenSum writes good + (e + 1)) with hover | hfits
    · obtain ⟨v, hv⟩ := h.overflow hk hover
      exact Or.inr (Or.inr ⟨_, hv, strays_error v⟩)
    · obtain ⟨s', hs', hnext⟩ := h.error hlen hk hfits
      exact Or.inl ⟨good, e + 1, s', hs', hnext⟩
  · have hfirst : ¬ first < good := by
      intro hlt
      exact WriteResult.not_isError (h.counts first hlt) herr
    rcases Nat.eq_zero_or_pos e with rfl | he
    · -- before the first error
      obtain rfl : good = k := hcalls
      have hlt : good < first := by
        rcases Nat.lt_or_ge good first with hlt | hge
        · exact hlt
        · obtain rfl : good = first := by omega
          exact absurd herr hk
      rcases h.count hlen (hcounts good hlt) with ⟨-, hall⟩ | ⟨s', hs', hnext⟩
      · have hmono := takenSum_mono writes (show good + 1 ≤ first from hlt)
        omega
      · exact Or.inl ⟨good + 1, 0, s', hs', hnext⟩
    -- behind the first error, with a result that is no error
    · have hgood : good = first := by
        rcases Nat.lt_or_ge good first with hlt | hge
        · have herr' := h.errors good (Nat.le_refl good) (by omega)
          exact absurd herr' (WriteResult.not_isError (hcounts good hlt))
        · omega
      subst hgood
      have hfits := h.fits
      cases hwrite : writes k with
      | error errno => exact absurd (by rw [hwrite]; trivial) hk
      | count n =>
        have hn : 0 < n := by
          rcases Nat.eq_zero_or_pos n with rfl | hn
          · exact absurd hwrite (hnozero k (by omega) h.errors (by omega))
          · exact hn
        rw [h.state]
        obtain ⟨rest, ⟨s', hs', hsent⟩ | ⟨ret, hr⟩⟩ := sendRound_behind hlen h.short he hfits hn
        · exact Or.inr (Or.inl ⟨s', hs', _, _, rest, he, hsent⟩)
        · exact Or.inr (Or.inr ⟨_, hr, strays_ok ⟨_, _, rest, he, rfl⟩⟩)

/-- With `StepsBack` a round goes on or ends astray, also behind a byte that was sent behind a step
back. -/
theorem straying_step (hlen : len ≤ intMax) (hback : StepsBack writes len)
    (h : (∃ good e, SendAt writes len good e k s) ∨ Behind s.sent) :
    (∃ s', sendRound s (writes k) = .inl s' ∧
      ((∃ good e, SendAt writes len good e (k + 1) s') ∨ Behind s'.sent)) ∨
    ∃ r, sendRound s (writes k) = .inr r ∧ Strays r := by
  rcases h with ⟨good, e, hs⟩ | hbehind
  · rcases hs.round_of_stepsBack hlen hback with
      ⟨good', e', s', hs', hnext⟩ | ⟨s', hs', hnext⟩ | hend
    · exact Or.inl ⟨s', hs', Or.inl ⟨good', e', hnext⟩⟩
    · exact Or.inl ⟨s', hs', Or.inr hnext⟩
    · exact Or.inr hend
  · rcases sendRound_behind_stays hbehind (writes k) with ⟨s', hs', hnext⟩ | hend
    · exact Or.inl ⟨s', hs', Or.inr hnext⟩
    · exact Or.inr hend

/-- With `StepsBack` the loop ends only by an overflow, or after a byte was sent behind a step
back. -/
theorem strays_of_endsAt (hlen : len ≤ intMax) (hback : StepsBack writes len) {r : SendEnd}
    (h : EndsAt sendRound writes (sendHead ⟨len, 0, []⟩) k r) : Strays r := by
  refine EndsAt.post (I := fun k s => (∃ good e, SendAt writes len good e k s) ∨ Behind s.sent)
    (Q := fun _ r => Strays r) ?_ ?_ ?_ ?_ h
  · exact fun s hs => Or.inl ⟨0, 0, sendAt_of_head hlen s hs⟩
  · intro r hr
    obtain ⟨first, -, hshort, -, -⟩ := hback
    rw [sendHead_of_pos (by simp only; omega)] at hr
    cases hr
  · intro k s s' hs hstep
    rcases straying_step hlen hback hs with ⟨s'', hs'', hnext⟩ | ⟨r, hr, -⟩
    · rw [hs''] at hstep
      cases hstep
      exact hnext
    · rw [hr] at hstep
      cases hstep
  · intro k s r hs hstep
    rcases straying_step hlen hback hs with ⟨s'', hs'', -⟩ | ⟨r', hr', hstrays⟩
    · rw [hs''] at hstep
      cases hstep
    · rw [hr'] at hstep
      cases hstep
      exact hstrays

/-- `uart_send` does what it should exactly without such a -1, or where it makes no call. -/
theorem uartSendOk_iff (hlen : len ≤ intMax) (writes : Nat → WriteResult) (fd : Int)
    (dataNull : Bool) :
    UartSendOk writes fd dataNull len ↔ fd = -1 ∨ dataNull ∨ ¬ StepsBack writes len := by
  by_cases hcall : fd = -1 ∨ dataNull = true
  · have hok : UartSendOk writes fd dataNull len :=
      ⟨0, -1, [], endsAt_zero (if_pos hcall), Or.inl rfl, List.Pairwise.nil,
        fun i hi => absurd hi List.not_mem_nil⟩
    refine ⟨fun _ => ?_, fun _ => hok⟩
    rcases hcall with hfd | hnull
    · exact Or.inl hfd
    · exact Or.inr (Or.inl hnull)
  · have hends : ∀ k r, UartSendEnds writes fd dataNull len k r ↔
        EndsAt sendRound writes (sendHead ⟨len, 0, []⟩) k r := by
      intro k r
      rw [UartSendEnds, if_neg hcall]
    constructor
    · rintro ⟨k, ret, sent, hend, -, hordered, hbounds⟩
      refine Or.inr (Or.inr fun hback => ?_)
      obtain ⟨m, e, rest, he, hsent⟩ :=
        strays_of_endsAt hlen hback ((hends k _).1 hend) ret sent rfl
      exact not_ordered_behind he hsent (fun i hi => (hbounds i hi).1) hordered
    · rintro (hfd | hnull | hsafe)
      · exact absurd (Or.inl hfd) hcall
      · exact absurd (Or.inr hnull) hcall
      · rcases endsAt_or_running sendRound writes (sendHead ⟨len, 0, []⟩) with ⟨k, r, hend⟩ | hrun
        · obtain ⟨ret, sent, rfl, hordered⟩ := ordered_of_endsAt hlen hsafe hend
          exact ⟨k, ret, sent, (hends k _).2 hend, hordered⟩
        · exact absurd hrun (not_running hlen hsafe)

/-- On a line that fails for good, `remain` grows until it overflows. -/
theorem errors_overflow (hpos : 0 < len) (hlen : len ≤ intMax)
    (herrors : ∀ j, (writes j).IsError) {fd : Int} (hfd : fd ≠ -1) :
    ∃ v, UartSendEnds writes fd false len (intMax - len + 1) (.error v) := by
  -- behind `k` errors `remain` is `len + k`
  have hgrown : ∀ k, len + k ≤ intMax → ∃ s,
      after sendRound writes (sendHead ⟨len, 0, []⟩) k = .inl s ∧ SendAt writes len 0 k k s := by
    intro k
    induction k with
    | zero =>
      intro _
      exact ⟨_, sendHead_of_pos (Int.natCast_pos.2 hpos), sendAt_start hlen hpos⟩
    | succ k ih =>
      intro hk
      obtain ⟨s, hs, hat⟩ := ih (by omega)
      obtain ⟨s', hs', hnext⟩ := hat.error hlen (herrors k) hk
      exact ⟨s', by rw [after_succ_of_inl hs, hs'], hnext⟩
  obtain ⟨s, hs, hat⟩ := hgrown (intMax - len) (by omega)
  obtain ⟨v, hv⟩ := hat.overflow (herrors _) (by rw [takenSum]; simp; omega)
  refine ⟨v, ?_⟩
  rw [UartSendEnds, if_neg (by simp [hfd])]
  exact endsAt_succ hs hv

end Send

/-! ## Both transfers -/

/-- The transfers end and stay in bounds exactly where the line does not stay at its end for the
one, and does not step back for the other. -/
theorem transfers_iff {n : Nat} (reads : Nat → ReadResult) (rBuf : Vector (BitVec 8) n)
    (readLen : Nat) (hfit : readLen ≤ n) (hint : FinitelyInterrupted reads)
    (writes : Nat → WriteResult) (fd : Int) (dataNull : Bool) (sendLen : Nat)
    (hsend : sendLen ≤ intMax) :
    (SafeReadOk reads rBuf readLen ↔ ¬ StallsAtEof reads readLen) ∧
      (UartSendOk writes fd dataNull sendLen ↔
        fd = -1 ∨ dataNull ∨ ¬ StepsBack writes sendLen) :=
  ⟨safeReadOk_iff hfit hint, uartSendOk_iff hsend writes fd dataNull⟩

/-- Two bytes a call are read, with an interruption and an empty read before them, and eight bytes
are sent in three calls. -/
theorem transfers_four :
    SafeReadOk (fun k => if k = 0 then .error eintr else if k = 1 then .count []
        else .count [0x46#8, 0x0a#8]) (Vector.replicate 48 0#8) 4 ∧
      UartSendOk (fun k => if k = 0 then .count 5 else if k = 1 then .count 1 else .count 8)
        3 false 8 := by
  have hboth := transfers_iff
    (fun k => if k = 0 then .error eintr else if k = 1 then .count []
      else .count [0x46#8, 0x0a#8]) (Vector.replicate 48 0#8) 4 (by decide)
    ⟨1, fun j hj h => by
      simp only [if_neg (show j ≠ 0 by omega)] at h
      split at h
      · cases h
      · cases h⟩
    (fun k => if k = 0 then .count 5 else if k = 1 then .count 1 else .count 8) 3 false 8
      (by decide)
  refine ⟨hboth.1.2 ?_, hboth.2.2 (Or.inr (Or.inr ?_))⟩
  · rintro ⟨k, -, -, heof⟩
    have hbytes := heof (k + 2) (by omega)
    simp only [if_neg (show k + 2 ≠ 0 by omega), if_neg (show k + 2 ≠ 1 by omega)] at hbytes
    cases hbytes
  · rintro ⟨k, -, -, herr, -⟩
    simp only at herr
    split at herr
    · exact herr
    · split at herr
      · exact herr
      · exact herr

/-- A line at its end keeps `safe_read`, a -1 in front of the only byte makes `uart_send` write
`data[-1]` before it, and a line that always fails makes it overflow. -/
theorem transfers_false :
    (∀ k r, ¬ SafeReadEnds (fun _ => .count []) (Vector.replicate 48 0#8) 4 k r) ∧
      UartSendEnds (fun k => if k = 0 then .error 5 else .count 2) 3 false 1 2 (.ok (1, [-1, 0])) ∧
      ¬ UartSendOk (fun k => if k = 0 then .error 5 else .count 2) 3 false 1 ∧
      ∃ v, UartSendEnds (fun _ => .error 5) 3 false 1 2147483647 (.error v) := by
  refine ⟨?_, ?_, ?_, ?_⟩
  · exact not_safeReadEnds_of_stalls (by decide) ⟨0, by decide,
      fun j hj => absurd hj (Nat.not_lt_zero j), fun _ _ => rfl⟩
  · refine ⟨rfl, fun j hj => ?_⟩
    interval_cases j
    · exact ⟨_, rfl⟩
    · exact ⟨_, rfl⟩
  · intro hok
    have hback : StepsBack (fun k => if k = 0 then .error 5 else .count 2) 1 := by
      refine ⟨0, fun j hj => absurd hj (Nat.not_lt_zero j), by decide, trivial, fun m _ _ _ => ?_⟩
      show (if m = 0 then WriteResult.error 5 else WriteResult.count 2) ≠ .count 0
      split
      · intro h
        cases h
      · intro h
        cases h
    rcases (uartSendOk_iff (by decide) _ 3 false).1 hok with h | h | h
    · exact absurd h (by decide)
    · exact absurd h (by decide)
    · exact h hback
  · have herrors : ∀ j : Nat, (WriteResult.error 5).IsError := fun _ => trivial
    exact errors_overflow Nat.one_pos (by decide) herrors (by decide)

end DraginoFwd.Uart
