import Mathlib

/-!
# Frames in a stream of bytes

A recognizer looks at the front of a list and answers with the kind and the size of the frame that
starts there, if there is one. The frames of a stream are those found from each of its positions.

A receiver sees the stream in pieces. It keeps what it has not used in a buffer of `cap` bytes, and
after each piece it scans the buffer from its start, skips what does not start a frame one byte at a
time, removes everything up to the end of the last frame that was found, and drops `k` bytes when
there is no room for another piece. When frames lie apart from each other and none is longer than
`cap - 2 * k`, the receiver finds the frames of the stream, however the pieces are cut
(`run_frames`).

While a frame ends in the last `cap - k` bytes of what has come (`RoomAt`), no bytes are dropped,
and the buffer holds what stands behind the last frame (`Kept`).
-/

set_option autoImplicit false

namespace DraginoFwd.Lib.Framing

universe u v

variable {β : Type u} {μ : Type v}

/-! ## The frames of a stream -/

/-- A recognizer answers for what the bytes of the frame say, whatever follows them. -/
structure Local (frameAt : List β → Option (μ × Nat)) : Prop where
  pos : ∀ {l m n}, frameAt l = some (m, n) → 0 < n
  le : ∀ {l m n}, frameAt l = some (m, n) → n ≤ l.length
  agree : ∀ {l l' m n}, frameAt l = some (m, n) → n ≤ l'.length → l'.take n = l.take n →
    frameAt l' = some (m, n)

section Frames

variable (frameAt : List β → Option (μ × Nat))

/-- The frame that starts at a position, with its bytes. -/
def frameFrom (l : List β) (p : Nat) : Option (μ × List β) :=
  (frameAt (l.drop p)).map fun f => (f.1, (l.drop p).take f.2)

/-- The frames that start before a position, in order. -/
def framesBefore (l : List β) (q : Nat) : List (μ × List β) :=
  (List.range q).filterMap (frameFrom frameAt l)

/-- The frames of a stream, in order. -/
def frames (l : List β) : List (μ × List β) := framesBefore frameAt l l.length

/-- No frame starts before the end of another one. -/
def Apart (l : List β) : Prop :=
  ∀ q < l.length, ∀ p < q, ∀ f ∈ frameAt (l.drop p), ∀ g ∈ frameAt (l.drop q), p + f.2 ≤ q

/-- No frame has more bytes than `L`. -/
def Short (L : Nat) (l : List β) : Prop := ∀ p < l.length, ∀ f ∈ frameAt (l.drop p), f.2 ≤ L

/-- Every frame that starts before a position ends before it. -/
def NoStraddle (l : List β) (base : Nat) : Prop :=
  ∀ p < base, ∀ m n, frameAt (l.drop p) = some (m, n) → p + n ≤ base

/-- Of the frames that start at `a` or later and before `b`, none is complete in `r` bytes. -/
def Quiet (l : List β) (r a b : Nat) : Prop :=
  ∀ p, a ≤ p → p < b → ∀ m n, frameAt (l.drop p) = some (m, n) → r < p + n

/-- The stream starts here, or a frame ends here. -/
def EndsFrame (l : List β) (base : Nat) : Prop :=
  base = 0 ∨ ∃ p m n, frameAt (l.drop p) = some (m, n) ∧ p + n = base

/-- No more than `room` bytes have come, or a frame ends among the last `room` of them. -/
def RoomAt (room : Nat) (l : List β) : Prop :=
  l.length ≤ room ∨ ∃ p < l.length, ∃ f ∈ frameAt (l.drop p), l.length ≤ p + f.2 + room

instance (l : List β) : Decidable (Apart frameAt l) :=
  inferInstanceAs (Decidable (∀ q < l.length, ∀ p < q, ∀ f ∈ frameAt (l.drop p),
    ∀ g ∈ frameAt (l.drop q), p + f.2 ≤ q))

instance (L : Nat) (l : List β) : Decidable (Short frameAt L l) :=
  inferInstanceAs (Decidable (∀ p < l.length, ∀ f ∈ frameAt (l.drop p), f.2 ≤ L))

instance (room : Nat) (l : List β) : Decidable (RoomAt frameAt room l) :=
  inferInstanceAs (Decidable (l.length ≤ room ∨
    ∃ p < l.length, ∃ f ∈ frameAt (l.drop p), l.length ≤ p + f.2 + room))

end Frames

variable {frameAt : List β → Option (μ × Nat)}

theorem framesBefore_succ (l : List β) (q : Nat) :
    framesBefore frameAt l (q + 1) = framesBefore frameAt l q ++
      (frameFrom frameAt l q).toList := by
  unfold framesBefore
  rw [List.range_succ, List.filterMap_append]
  cases h : frameFrom frameAt l q <;> simp [h]

/-- Positions without a frame add nothing. -/
theorem framesBefore_eq_of_none {l : List β} {a b : Nat} (hab : a ≤ b)
    (hnone : ∀ p, a ≤ p → p < b → frameAt (l.drop p) = none) :
    framesBefore frameAt l b = framesBefore frameAt l a := by
  induction b, hab using Nat.le_induction with
  | base => rfl
  | succ b hab ih =>
      have hlast : frameFrom frameAt l b = none := by
        simp [frameFrom, hnone b hab (Nat.lt_succ_self b)]
      rw [framesBefore_succ, hlast, ih fun p hp hb => hnone p hp (Nat.lt_succ_of_lt hb)]
      simp

section Recognized

variable (hloc : Local frameAt)
include hloc

/-- A frame starts inside of the stream and ends there. -/
theorem Local.end_le {l : List β} {p n : Nat} {m : μ} (h : frameAt (l.drop p) = some (m, n)) :
    p + n ≤ l.length := by
  have hpos := hloc.pos h
  have hle := hloc.le h
  rw [List.length_drop] at hle
  omega

theorem Local.apart {l : List β} (hap : Apart frameAt l) {p q n n' : Nat} {m m' : μ} (hpq : p < q)
    (hp : frameAt (l.drop p) = some (m, n)) (hq : frameAt (l.drop q) = some (m', n')) :
    p + n ≤ q := by
  have hend := hloc.end_le hq
  have hpos := hloc.pos hq
  exact hap q (by omega) p hpq _ hp _ hq

theorem Local.short {l : List β} {L : Nat} (hsh : Short frameAt L l) {p n : Nat} {m : μ}
    (h : frameAt (l.drop p) = some (m, n)) : n ≤ L := by
  have hend := hloc.end_le h
  have hpos := hloc.pos h
  exact hsh p (by omega) _ h

/-- The frames of a beginning of the stream are those of the stream that end in it. -/
theorem Local.frameAt_take {l : List β} {p r n : Nat} {m : μ} :
    frameAt ((l.take r).drop p) = some (m, n) ↔
      frameAt (l.drop p) = some (m, n) ∧ p + n ≤ r := by
  rw [List.drop_take]
  constructor
  · intro h
    have hpos := hloc.pos h
    have hle := hloc.le h
    rw [List.length_take] at hle
    refine ⟨hloc.agree h (by omega) ?_, by omega⟩
    rw [List.take_take, Nat.min_eq_left (by omega)]
  · rintro ⟨h, hend⟩
    have hle := hloc.le h
    refine hloc.agree h ?_ ?_
    · rw [List.length_take]
      omega
    · rw [List.take_take, Nat.min_eq_left (by omega)]

/-- A frame that ends in `r` bytes is the only one from the last quiet position to its end. -/
theorem Local.quiet_none {l : List β} (hap : Apart frameAt l) {r a p n : Nat} {m : μ}
    (hq : Quiet frameAt l r a p) (h : frameAt (l.drop p) = some (m, n)) (hr : p + n ≤ r) :
    ∀ p', a ≤ p' → p' < p → frameAt (l.drop p') = none := by
  intro p' ha hp'
  cases h' : frameAt (l.drop p') with
  | none => rfl
  | some f =>
      have hend := hloc.apart hap hp' h' h
      have hlate := hq p' ha hp' _ _ h'
      omega

/-- Behind the end of a frame no other one is cut. -/
theorem Local.noStraddle_end {l : List β} (hap : Apart frameAt l) {p n : Nat} {m : μ}
    (h : frameAt (l.drop p) = some (m, n)) : NoStraddle frameAt l (p + n) := by
  intro p' hp' m' n' h'
  rcases Nat.lt_trichotomy p' p with hlt | rfl | hgt
  · have hend := hloc.apart hap hlt h' h
    omega
  · rw [h] at h'
    cases h'
    exact Nat.le_refl _
  · have hend := hloc.apart hap hgt h h'
    omega

/-- A frame is the only one between its start and its end. -/
theorem Local.framesBefore_end {l : List β} (hap : Apart frameAt l) {p n : Nat} {m : μ}
    (h : frameAt (l.drop p) = some (m, n)) :
    framesBefore frameAt l (p + n) = framesBefore frameAt l p ++ [(m, (l.drop p).take n)] := by
  have hpos := hloc.pos h
  have hinside : framesBefore frameAt l (p + n) = framesBefore frameAt l (p + 1) := by
    apply framesBefore_eq_of_none (by omega)
    intro p' hp hn
    cases h' : frameAt (l.drop p') with
    | none => rfl
    | some f =>
        have hend := hloc.apart hap (show p < p' by omega) h h'
        omega
  have hhere : frameFrom frameAt l p = some (m, (l.drop p).take n) := by
    simp [frameFrom, h]
  rw [hinside, framesBefore_succ, hhere, Option.toList_some]

end Recognized

/-! ## One scan of the buffer -/

section Receiver

variable (frameAt : List β → Option (μ × Nat)) (cap k : Nat)

/-- Goes on from `rd`, past a frame where one starts, and by one byte elsewhere. The result is the
end of the last frame that was found, with the frames. -/
def scan (buf : List β) (rd frameEnd : Nat) : Nat × List (μ × List β) :=
  if rd < buf.length then
    match frameAt (buf.drop rd) with
    | some (m, n + 1) =>
        let rest := scan buf (rd + (n + 1)) (rd + (n + 1))
        (rest.1, (m, (buf.drop rd).take (n + 1)) :: rest.2)
    | _ => scan buf (rd + 1) frameEnd
  else (frameEnd, [])
termination_by buf.length - rd

/-- Makes room for the next piece. -/
def makeRoom (buf : List β) : List β := if cap - buf.length < k then buf.drop k else buf

/-- One piece of the stream arrives: the buffer after it, and the frames found so far. -/
def feed (st : List β × List (μ × List β)) (piece : List β) : List β × List (μ × List β) :=
  let buf := st.1 ++ piece
  let found := scan frameAt buf 0 0
  (makeRoom cap k (buf.drop found.1), st.2 ++ found.2)

/-- The pieces arrive one after the other. -/
def run (st : List β × List (μ × List β)) (pieces : List (List β)) : List β × List (μ × List β) :=
  pieces.foldl (feed frameAt cap k) st

/-- The receiver has seen `r` bytes of the stream `l`, and its buffer starts at `base`. -/
structure Inv (l : List β) (r base : Nat) (st : List β × List (μ × List β)) : Prop where
  base_le : base ≤ r
  buf : st.1 = (l.take r).drop base
  whole : NoStraddle frameAt l base
  quiet : Quiet frameAt l r base r
  found : st.2 = framesBefore frameAt l base

/-- The same when no bytes have been dropped: the buffer starts behind a frame. -/
structure Kept (l : List β) (r base : Nat) (st : List β × List (μ × List β)) : Prop extends
    Inv frameAt l r base st where
  ends : EndsFrame frameAt l base

end Receiver

theorem Inv.length {l : List β} {r base : Nat} {st : List β × List (μ × List β)}
    (h : Inv frameAt l r base st) (hr : r ≤ l.length) : st.1.length = r - base := by
  rw [h.buf, List.length_drop, List.length_take, Nat.min_eq_left hr]

theorem scan_end {buf : List β} {rd : Nat} (h : ¬ rd < buf.length) (frameEnd : Nat) :
    scan frameAt buf rd frameEnd = (frameEnd, []) := by
  unfold scan
  rw [if_neg h]

theorem scan_skip {buf : List β} {rd : Nat} (h : rd < buf.length)
    (hf : frameAt (buf.drop rd) = none) (frameEnd : Nat) :
    scan frameAt buf rd frameEnd = scan frameAt buf (rd + 1) frameEnd := by
  rw [scan, if_pos h, hf]

theorem scan_frame {buf : List β} {rd n : Nat} {m : μ} (h : rd < buf.length)
    (hf : frameAt (buf.drop rd) = some (m, n)) (hn : 0 < n) (frameEnd : Nat) :
    scan frameAt buf rd frameEnd =
      ((scan frameAt buf (rd + n) (rd + n)).1,
        (m, (buf.drop rd).take n) :: (scan frameAt buf (rd + n) (rd + n)).2) := by
  obtain ⟨n, rfl⟩ : ∃ n', n = n' + 1 := ⟨n - 1, by omega⟩
  rw [scan, if_pos h, hf]

/-- A scan ends inside of the buffer. -/
theorem Local.scan_le (hloc : Local frameAt) (buf : List β) (rd frameEnd : Nat)
    (h : frameEnd ≤ buf.length) : (scan frameAt buf rd frameEnd).1 ≤ buf.length := by
  induction hn : buf.length - rd using Nat.strong_induction_on generalizing rd frameEnd with
  | _ d ih =>
    by_cases hlt : rd < buf.length
    · cases hf : frameAt (buf.drop rd) with
      | none =>
          rw [scan_skip hlt hf]
          exact ih _ (by omega) (rd + 1) frameEnd h rfl
      | some f =>
          have hpos := hloc.pos hf
          have hend := hloc.end_le hf
          rw [scan_frame hlt hf hpos]
          exact ih _ (by omega) (rd + f.2) (rd + f.2) hend rfl
    · rw [scan_end hlt]
      exact h

section Receiving

variable (hloc : Local frameAt) {l : List β} {r base : Nat}
include hloc

/-- A scan from `rd` of the buffer that starts at `base` finds the frames that end in `r` bytes. -/
theorem Local.scan_spec (hap : Apart frameAt l) (hbase : base ≤ r) (hr : r ≤ l.length)
    (rd frameEnd : Nat) (hend : frameEnd ≤ rd) (hrd : base + rd ≤ r)
    (hwhole : NoStraddle frameAt l (base + frameEnd))
    (hquiet : Quiet frameAt l r (base + frameEnd) (base + rd)) :
    let found := scan frameAt ((l.take r).drop base) rd frameEnd
    base + found.1 ≤ r ∧ NoStraddle frameAt l (base + found.1) ∧
      Quiet frameAt l r (base + found.1) r ∧
      framesBefore frameAt l (base + found.1) =
        framesBefore frameAt l (base + frameEnd) ++ found.2 ∧
      (EndsFrame frameAt l (base + frameEnd) → EndsFrame frameAt l (base + found.1)) := by
  have hlen : ((l.take r).drop base).length = r - base := by
    rw [List.length_drop, List.length_take, Nat.min_eq_left hr]
  induction h : r - base - rd using Nat.strong_induction_on generalizing rd frameEnd with
  | _ d ih =>
    by_cases hlt : rd < r - base
    · have hat : ((l.take r).drop base).drop rd = (l.take r).drop (base + rd) := List.drop_drop
      rw [← hlen] at hlt
      cases hf : frameAt ((l.take r).drop (base + rd)) with
      | none =>
          rw [scan_skip hlt (by rw [hat]; exact hf)]
          -- the position joins the quiet ones
          apply ih (r - base - (rd + 1)) (by omega) (rd + 1) frameEnd (by omega) (by omega) hwhole
            _ rfl
          intro p hp hp' m n hfr
          rcases Nat.lt_or_ge p (base + rd) with hlt' | hge
          · exact hquiet p hp hlt' m n hfr
          · obtain rfl : p = base + rd := by omega
            by_contra hle
            have hsome := hloc.frameAt_take.mpr ⟨hfr, Nat.le_of_not_lt hle⟩
            rw [hf] at hsome
            cases hsome
      | some f =>
          obtain ⟨m, n⟩ := f
          have hpos := hloc.pos hf
          obtain ⟨hfr, hle⟩ := hloc.frameAt_take.mp hf
          rw [scan_frame hlt (by rw [hat]; exact hf) hpos]
          -- the positions that were passed before the frame had none
          have hnone := hloc.quiet_none hap hquiet hfr hle
          have hbefore : framesBefore frameAt l (base + rd) =
              framesBefore frameAt l (base + frameEnd) :=
            framesBefore_eq_of_none (by omega) hnone
          have hbytes : (((l.take r).drop base).drop rd).take n = (l.drop (base + rd)).take n := by
            rw [hat, List.drop_take, List.take_take, Nat.min_eq_left (by omega)]
          have hcut := hloc.noStraddle_end hap hfr
          rw [Nat.add_assoc] at hcut
          obtain ⟨hin, hwhole', hquiet', hall, hends⟩ :=
            ih (r - base - (rd + n)) (by omega) (rd + n) (rd + n) (Nat.le_refl _) (by omega) hcut
              (fun p hp hp' => absurd hp' (by omega)) rfl
          refine ⟨hin, hwhole', hquiet', ?_, fun _ => hends (Or.inr ⟨_, m, n, hfr, ?_⟩)⟩
          · rw [hall, ← Nat.add_assoc, hloc.framesBefore_end hap hfr, hbefore, hbytes,
              List.append_assoc, List.singleton_append]
          · rw [Nat.add_assoc]
    · rw [scan_end (by rw [hlen]; exact hlt)]
      obtain rfl : base + rd = r := by omega
      refine ⟨Nat.add_le_add_left hend base, hwhole, hquiet, ?_, id⟩
      rw [List.append_nil]

variable {cap k L : Nat} {st : List β × List (μ × List β)}

/-- The bytes that are dropped for room start no frame, when the buffer is longer than any frame. -/
theorem Inv.drop (h : Inv frameAt l r base st) (hsh : Short frameAt L l)
    (hroom : base + k + L ≤ r) :
    Inv frameAt l r (base + k) (st.1.drop k, st.2) where
  base_le := by omega
  buf := by rw [h.buf, List.drop_drop]
  whole := by
    intro p hp m n hf
    have hn := hloc.short hsh hf
    rcases Nat.lt_or_ge p base with hlt | hge
    · exact Nat.le_trans (h.whole p hlt m n hf) (Nat.le_add_right base k)
    -- a frame that starts here ends behind the `r` bytes, and is too short for that
    · have hlate := h.quiet p hge (by omega) m n hf
      omega
  quiet := fun p hp => h.quiet p (by omega)
  found := by
    rw [h.found]
    symm
    apply framesBefore_eq_of_none (Nat.le_add_right base k)
    intro p hp hp'
    cases hf : frameAt (l.drop p) with
    | none => rfl
    | some f =>
        have hn := hloc.short hsh hf
        have hlate := h.quiet p hp (by omega) _ _ hf
        omega

/-- A piece of the stream arrives and is scanned, with what is left before the receiver makes
room. -/
theorem Inv.scanned (h : Inv frameAt l r base st) (hap : Apart frameAt l) {piece : List β}
    (hr : r + piece.length ≤ l.length)
    (hnext : l.take (r + piece.length) = l.take r ++ piece) :
    let found := scan frameAt (st.1 ++ piece) 0 0
    Inv frameAt l (r + piece.length) (base + found.1)
        ((st.1 ++ piece).drop found.1, st.2 ++ found.2) ∧
      (EndsFrame frameAt l base → EndsFrame frameAt l (base + found.1)) := by
  have hbase := h.base_le
  have hbuf : st.1 ++ piece = (l.take (r + piece.length)).drop base := by
    rw [h.buf, hnext, List.drop_append_of_le_length]
    rw [List.length_take]
    omega
  have hquiet : Quiet frameAt l (r + piece.length) (base + 0) (base + 0) :=
    fun p hp hp' => absurd hp' (Nat.not_lt.mpr hp)
  obtain ⟨hin, hwhole, hquiet', hfound, hends⟩ :=
    hloc.scan_spec hap (by omega) hr 0 0 (Nat.le_refl 0) (by omega) h.whole hquiet
  rw [hbuf]
  exact ⟨⟨hin, List.drop_drop, hwhole, hquiet', by rw [h.found, hfound, Nat.add_zero]⟩, hends⟩

/-- A piece of the stream arrives. -/
theorem Inv.feed (h : Inv frameAt l r base st) (hap : Apart frameAt l) (hsh : Short frameAt L l)
    (hL : L + 2 * k ≤ cap) {piece : List β} (hr : r + piece.length ≤ l.length)
    (hnext : l.take (r + piece.length) = l.take r ++ piece) :
    ∃ base', Inv frameAt l (r + piece.length) base' (feed frameAt cap k st piece) := by
  obtain ⟨hafter, -⟩ := h.scanned hloc hap hr hnext
  have hfeed : Framing.feed frameAt cap k st piece =
      (makeRoom cap k ((st.1 ++ piece).drop (scan frameAt (st.1 ++ piece) 0 0).1),
        st.2 ++ (scan frameAt (st.1 ++ piece) 0 0).2) := rfl
  have hlen := hafter.length hr
  rw [hfeed, makeRoom]
  split
  next hfull =>
    refine ⟨_, hafter.drop hloc hsh ?_⟩
    simp only at hlen
    omega
  next => exact ⟨_, hafter⟩

/-- A frame that is found in a piece ends in that piece. -/
theorem Inv.found_late (h : Inv frameAt l r base st) {p n : Nat} {m : μ}
    (hfr : frameAt (l.drop p) = some (m, n)) (hend : base < p + n) : base ≤ p ∧ r < p + n := by
  have hpos := hloc.pos hfr
  have hp : base ≤ p := by
    rcases Nat.lt_or_ge p base with hlt | hge
    · exact absurd (h.whole p hlt m n hfr) (Nat.not_le.mpr hend)
    · exact hge
  refine ⟨hp, ?_⟩
  rcases Nat.lt_or_ge p r with hlt | hge
  · exact h.quiet p hp hlt m n hfr
  · omega

/-- The buffer is short enough exactly when there is room. -/
theorem Kept.roomAt_iff (h : Kept frameAt l r base st) (hr : r ≤ l.length) {room : Nat} :
    RoomAt frameAt room (l.take r) ↔ st.1.length ≤ room := by
  have hlen : (l.take r).length = r := by rw [List.length_take, Nat.min_eq_left hr]
  have hbase := h.base_le
  rw [RoomAt, hlen, h.length hr]
  constructor
  · rintro (hfew | ⟨p, -, ⟨m, n⟩, hf, hlast⟩)
    · omega
    · obtain ⟨hfr, hle⟩ := hloc.frameAt_take.mp hf
      by_contra hlong
      have hlate := h.found_late hloc hfr (by simp only at hlast; omega)
      omega
  · intro hshort
    rcases h.ends with rfl | ⟨p, m, n, hfr, hend⟩
    · exact Or.inl hshort
    · have hpos := hloc.pos hfr
      exact Or.inr ⟨p, by omega, (m, n), hloc.frameAt_take.mpr ⟨hfr, by omega⟩, by
        simp only
        omega⟩

/-- A piece arrives and leaves room: nothing is dropped. -/
theorem Kept.feed (h : Kept frameAt l r base st) (hap : Apart frameAt l) {piece : List β}
    (hr : r + piece.length ≤ l.length) (hnext : l.take (r + piece.length) = l.take r ++ piece) :
    let found := scan frameAt (st.1 ++ piece) 0 0
    Kept frameAt l (r + piece.length) (base + found.1)
      ((st.1 ++ piece).drop found.1, st.2 ++ found.2) := by
  obtain ⟨hafter, hends⟩ := h.scanned hloc hap hr hnext
  exact ⟨hafter, hends h.ends⟩

/-- The rest of the stream arrives, piece by piece. -/
theorem Inv.run (hap : Apart frameAt l) (hsh : Short frameAt L l) (hL : L + 2 * k ≤ cap)
    (pieces : List (List β)) (h : Inv frameAt l r base st) (hr : r ≤ l.length)
    (hrest : l.drop r = pieces.flatten) :
    ∃ base', Inv frameAt l l.length base' (run frameAt cap k st pieces) := by
  induction pieces generalizing r base st with
  | nil =>
      have hall : r = l.length := by
        have hlen := congrArg List.length hrest
        simp at hlen
        omega
      exact ⟨base, hall ▸ h⟩
  | cons piece pieces ih =>
      rw [List.flatten_cons] at hrest
      -- the piece is the next part of the stream
      have hlen : r + piece.length ≤ l.length := by
        have hlen := congrArg List.length hrest
        simp only [List.length_drop, List.length_append] at hlen
        omega
      have hnext : l.take (r + piece.length) = l.take r ++ piece := by
        rw [List.take_add, hrest, List.take_left]
      obtain ⟨base', h'⟩ := h.feed hloc hap hsh hL hlen hnext
      apply ih h' hlen
      rw [← List.drop_drop, hrest, List.drop_left]

/-- **However the stream is cut, the receiver finds its frames, each once and in order.** -/
theorem run_frames (hL : L + 2 * k ≤ cap) (pieces : List (List β))
    (hap : Apart frameAt pieces.flatten) (hsh : Short frameAt L pieces.flatten) :
    (run frameAt cap k ([], []) pieces).2 = frames frameAt pieces.flatten := by
  have hstart : Inv frameAt pieces.flatten 0 0 ([], []) :=
    ⟨Nat.le_refl 0, rfl, fun p hp => absurd hp (Nat.not_lt_zero p),
      fun p hp hp' => absurd hp' (Nat.not_lt.mpr hp), rfl⟩
  obtain ⟨base, h⟩ := hstart.run hloc hap hsh hL pieces (Nat.zero_le _) rfl
  rw [h.found, frames]
  symm
  apply framesBefore_eq_of_none h.base_le
  intro p hp hp'
  cases hf : frameAt (pieces.flatten.drop p) with
  | none => rfl
  | some f =>
      -- the whole stream has been seen, so that no frame is incomplete
      have hend := hloc.end_le hf
      have hlate := h.quiet p hp hp' _ _ hf
      omega

end Receiving

end DraginoFwd.Lib.Framing
