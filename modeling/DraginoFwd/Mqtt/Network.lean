import DraginoFwd.Lib.Varint

/-!
# The socket of the MQTT client

Model of `linux_read` in `MQTTLinux.c` over what the calls of `recv` find. The bytes of a connection
come in pieces of any sizes, and a call that asks for less than a piece has leaves the rest of it.
`Stream` says that a socket gives some bytes before anything else, however they are cut.
`linux_read` gets as many as it asks for, and no other one (`linuxRead_stream`).
-/

set_option autoImplicit false

namespace DraginoFwd.Mqtt

open DraginoFwd.Lib

/-! ## The code -/

/-! `enum returnCode` -/

/-- `TIMEOUT` -/
abbrev timeout : Int := -3
/-- `FAILURE` -/
abbrev failure : Int := -1
/-- `SUCCESS` -/
abbrev success : Int := 0

/-- What `recv` finds: bytes, none of them if the peer has closed the connection; that the time is
over; or another error. -/
inductive Arrival where
  | bytes (l : List (BitVec 8))
  | again
  | error
  deriving DecidableEq, Repr

/-- `recv`, for `len` bytes at most -/
def recv (len : Nat) : List Arrival → Arrival × List Arrival
  | [] => (.again, [])
  | .bytes l :: rest =>
      if l.length ≤ len then (.bytes l, rest)
      else (.bytes (l.take len), .bytes (l.drop len) :: rest)
  | a :: rest => (a, rest)

/-- `linux_read`, with the bytes that it has, what it returns and what is left to receive -/
def linuxRead (len : Nat) (got : List (BitVec 8)) (sock : List Arrival) :
    Int × List (BitVec 8) × List Arrival :=
  if got.length < len then
    match recv (len - got.length) sock with
    | (.again, sock) => (timeout, got, sock)
    | (.error, sock) => (failure, got, sock)
    | (.bytes [], sock) => (0, got, sock)
    | (.bytes (c :: l), sock) => linuxRead len (got ++ c :: l) sock
  else ((got.length : Int), got, sock)
termination_by len - got.length
decreasing_by
  simp only [List.length_append, List.length_cons]
  omega

/-! ## Bytes in pieces -/

/-- The socket gives the bytes, in pieces, and then is what the last argument says. -/
inductive Stream : List Arrival → List (BitVec 8) → List Arrival → Prop where
  | done (sock : List Arrival) : Stream sock [] sock
  | piece {p l : List (BitVec 8)} {sock rest : List Arrival} :
      p ≠ [] → Stream sock l rest → Stream (.bytes p :: sock) (p ++ l) rest
  | part {p q : List (BitVec 8)} {sock : List Arrival} :
      p ≠ [] → q ≠ [] → Stream (.bytes (p ++ q) :: sock) p (.bytes q :: sock)

/-- Pieces of any sizes. -/
theorem stream_pieces {pieces : List (List (BitVec 8))} (h : ∀ p ∈ pieces, p ≠ [])
    (rest : List Arrival) : Stream (pieces.map .bytes ++ rest) pieces.flatten rest := by
  induction pieces with
  | nil => exact Stream.done rest
  | cons p pieces ih =>
    rw [List.forall_mem_cons] at h
    exact Stream.piece h.1 (ih h.2)

theorem Stream.eq_of_nil {sock rest : List Arrival} (h : Stream sock [] rest) : sock = rest := by
  generalize hl : ([] : List (BitVec 8)) = l at h
  cases h with
  | done => rfl
  | piece hp _ => exact absurd (List.append_eq_nil_iff.1 hl.symm).1 hp
  | part hp _ => exact absurd hl.symm hp

/-- What a socket gives first and what it gives then. -/
theorem Stream.split {sock rest : List Arrival} {l l' : List (BitVec 8)}
    (h : Stream sock (l ++ l') rest) : ∃ mid, Stream sock l mid ∧ Stream mid l' rest := by
  generalize hall : l ++ l' = all at h
  induction h generalizing l with
  | done sock =>
    obtain ⟨rfl, rfl⟩ := List.append_eq_nil_iff.1 hall
    exact ⟨sock, Stream.done sock, Stream.done sock⟩
  | @piece p k sock rest hp hrest ih =>
    rcases List.append_eq_append_iff.1 hall with ⟨a, rfl, rfl⟩ | ⟨a, rfl, hk⟩
    · -- the cut is inside the piece, or at its end
      by_cases hl : l = []
      · subst hl
        exact ⟨_, Stream.done _, Stream.piece hp hrest⟩
      · by_cases ha : a = []
        · subst ha
          refine ⟨sock, ?_, by simpa using hrest⟩
          have hdone : Stream (.bytes l :: sock) (l ++ []) sock :=
            Stream.piece hl (Stream.done sock)
          simpa using hdone
        · exact ⟨.bytes a :: sock, Stream.part hl ha, Stream.piece ha hrest⟩
    · obtain ⟨mid, hfirst, hsecond⟩ := ih hk.symm
      exact ⟨mid, Stream.piece hp hfirst, hsecond⟩
  | @part p q sock hp hq =>
    subst hall
    by_cases hl : l = []
    · subst hl
      exact ⟨_, Stream.done _, Stream.part hp hq⟩
    · by_cases hl' : l' = []
      · subst hl'
        rw [List.append_nil] at hp ⊢
        exact ⟨_, Stream.part hp hq, Stream.done _⟩
      · refine ⟨.bytes (l' ++ q) :: sock, ?_, Stream.part hl' hq⟩
        rw [List.append_assoc]
        exact Stream.part hl (by simp [hl'])

/-- **`linux_read` gets what it asks for**, however it is cut. -/
theorem linuxRead_stream {sock rest : List Arrival} {l : List (BitVec 8)}
    (h : Stream sock l rest) (got : List (BitVec 8)) :
    linuxRead (got.length + l.length) got sock =
      (((got.length + l.length : Nat) : Int), got ++ l, rest) := by
  induction h generalizing got with
  | done sock =>
    rw [linuxRead, if_neg (by simp)]
    simp
  | @piece p k sock rest hp hrest ih =>
    obtain ⟨c, p, rfl⟩ := List.exists_cons_of_ne_nil hp
    have hrecv : recv (got.length + (c :: p ++ k).length - got.length) (.bytes (c :: p) :: sock) =
        (.bytes (c :: p), sock) := by
      rw [recv, if_pos]
      rw [List.length_append]
      omega
    have hnext := ih (got ++ c :: p)
    rw [linuxRead, if_pos (by simp), hrecv]
    simp only [List.length_append, List.append_assoc] at hnext ⊢
    rw [Nat.add_assoc] at hnext
    exact hnext
  | @part p q sock hp hq =>
    obtain ⟨c, p, rfl⟩ := List.exists_cons_of_ne_nil hp
    have hq0 : 0 < q.length := List.length_pos_iff.2 hq
    have hrecv : recv (got.length + (c :: p).length - got.length) (.bytes (c :: p ++ q) :: sock) =
        (.bytes (c :: p), .bytes q :: sock) := by
      rw [recv, if_neg, Nat.add_sub_cancel_left, List.take_left' rfl, List.drop_left' rfl]
      rw [List.length_append]
      omega
    rw [linuxRead, if_pos (by simp), hrecv]
    simp only []
    rw [linuxRead, if_neg (by simp)]
    simp

theorem linuxRead_of_stream {sock rest : List Arrival} {l : List (BitVec 8)}
    (h : Stream sock l rest) : linuxRead l.length [] sock = ((l.length : Int), l, rest) := by
  have hread := linuxRead_stream h []
  rwa [List.length_nil, Nat.zero_add, List.nil_append] at hread

/-- Where a socket gives some of the bytes only, and then nothing in time, they are lost. -/
theorem linuxRead_cut {sock rest : List Arrival} {l : List (BitVec 8)} {len : Nat}
    (h : Stream sock l (.again :: rest)) (got : List (BitVec 8))
    (hlen : got.length + l.length < len) :
    linuxRead len got sock = (timeout, got ++ l, rest) := by
  generalize hend : Arrival.again :: rest = stop at h
  induction h generalizing got with
  | done sock =>
    subst hend
    rw [linuxRead, if_pos (by simpa using hlen), List.append_nil]
    rfl
  | @piece p k sock rest' hp hrest ih =>
    obtain ⟨c, p, rfl⟩ := List.exists_cons_of_ne_nil hp
    rw [List.length_append] at hlen
    have hrecv : recv (len - got.length) (.bytes (c :: p) :: sock) = (.bytes (c :: p), sock) := by
      rw [recv, if_pos]
      omega
    have hnext := ih (got ++ c :: p) (by rw [List.length_append]; omega) hend
    rw [linuxRead, if_pos (by omega), hrecv]
    rw [List.append_assoc] at hnext
    exact hnext
  | @part p q sock hp hq => cases hend

end DraginoFwd.Mqtt
