import DraginoFwd.Gps.Parser

/-!
# The GPS thread

`thread_gps` reads the serial line a few bytes at a time into `serial_buff`, scans what it has from
the start, calls `gps_process_sync` or `gps_process_coords` for a frame that one of them needs, and
keeps what stands behind the last frame. `serialBuff` is the part of the buffer before `wr_idx`.

A read over the end of the buffer, a copy of a negative length and a scan of more turns than there
are bytes are faults, and none of them occurs. `memcpy` is a parameter: C says what it does only
where the two places do not overlap (`Documented`). The copy behind a frame is such a copy, and the
one that makes room for the next read never is: it moves 113 bytes or more by 8. So the frames that
are handed on are those of the stream exactly where that copy is not made (`threadGps_frames_iff`),
or where the `memcpy` of the target copies upwards (`threadGps_frames_of_upwards`).
-/

set_option autoImplicit false

namespace DraginoFwd.Gps

open DraginoFwd.Lib.Framing

/-! ## The thread -/

/-- `gps_process_sync` or `gps_process_coords` is called, after the parse of the frame. -/
inductive GpsCall where
  | sync (frame : List (BitVec 8))
  | coords (frame : List (BitVec 8))
  deriving DecidableEq, Repr

/-- The size of `serial_buff` -/
def serialBuffSize : Nat := 128
/-- `LGW_GPS_MIN_MSG_SIZE` -/
def lgwGpsMinMsgSize : Nat := 8

/-- `frame_size` after a UBX sync character, and the call that was made. -/
def ubxCandidate (rest : List (BitVec 8)) : Nat × Option GpsCall :=
  let (latestMsg, frameSize) := lgwParseUbx rest
  if 0 < frameSize then
    if latestMsg = .incomplete then (0, none)
    else if latestMsg = .invalid then (0, none)
    else if latestMsg = .ubxNavTimegps then (frameSize, some (.sync (rest.take frameSize)))
    else (frameSize, none)
  else (frameSize, none)

/-- `frame_size` after an NMEA sync character, and the call that was made. -/
def nmeaCandidate (rest : List (BitVec 8)) : Nat × Option GpsCall :=
  match rest.findIdx? (· == lineFeed) with
  | none => (0, none)
  | some nmeaEnd =>
      let frameSize := nmeaEnd + 1
      let latestMsg := lgwParseNmea (rest.take frameSize)
      if latestMsg = .invalid ∨ latestMsg = .unknown then (0, none)
      else if latestMsg = .nmeaGga then (frameSize, some (.coords (rest.take frameSize)))
      else if latestMsg = .nmeaRmc then (frameSize, some (.sync (rest.take frameSize)))
      else (frameSize, none)

/-- `frame_size` at `serial_buff[rd_idx]`, and the call that was made. -/
def candidate (rest : List (BitVec 8)) : Nat × Option GpsCall :=
  if charAt rest 0 = ubxSyncChar then ubxCandidate rest
  else if charAt rest 0 = nmeaSyncChar then nmeaCandidate rest
  else (0, none)

/-- The loop over `rd_idx`, in so many turns at most: `frame_end_idx` after it, and the calls. -/
def scanBuffer (serialBuff : List (BitVec 8)) : Nat → Nat → Nat → Option (Nat × List GpsCall)
  | 0, rdIdx, frameEndIdx => if rdIdx < serialBuff.length then none else some (frameEndIdx, [])
  | turns + 1, rdIdx, frameEndIdx =>
      if rdIdx < serialBuff.length then
        let found := candidate (serialBuff.drop rdIdx)
        let rest :=
          if 0 < found.1 then scanBuffer serialBuff turns (rdIdx + found.1) (rdIdx + found.1)
          else scanBuffer serialBuff turns (rdIdx + 1) frameEndIdx
        rest.map fun r => (r.1, found.2.toList ++ r.2)
      else some (frameEndIdx, [])

/-- What a run of the thread can do wrong. -/
inductive Fault where
  | readOverEnd
  | endlessScan
  | negativeCopy
  | overlappingCopy
  deriving DecidableEq, Repr

/-- The function of the target behind `memcpy(serial_buff, &serial_buff[n], wr_idx - n)`: from the
`wr_idx` bytes of the buffer and `n`, the `wr_idx - n` bytes in front after it. -/
abbrev Memcpy : Type := List (BitVec 8) → Nat → Except Fault (List (BitVec 8))

/-- What C says of `memcpy`: it copies where the two places do not overlap. Where they do, it may
leave any bytes, or none. -/
def Documented (memcpy : Memcpy) : Prop :=
  ∀ serialBuff n, n ≤ serialBuff.length → serialBuff.length - n ≤ n →
    memcpy serialBuff n = .ok (serialBuff.drop n)

/-- A `memcpy` that copies upwards leaves the bytes that it is given to the front of the buffer also
where the places overlap, as `memmove` does. -/
def Upwards (memcpy : Memcpy) : Prop :=
  ∀ serialBuff n, n ≤ serialBuff.length → memcpy serialBuff n = .ok (serialBuff.drop n)

section Loop

variable (memcpy : Memcpy)

/-- The bytes from `n` on are moved to the front. -/
def moveFront (serialBuff : List (BitVec 8)) (n : Nat) : Except Fault (List (BitVec 8)) :=
  if serialBuff.length < n then .error .negativeCopy else memcpy serialBuff n

/-- Frames have been processed: the bytes to the end of the last of them are removed. -/
def removeFrames (serialBuff : List (BitVec 8)) (frameEndIdx : Nat) :
    Except Fault (List (BitVec 8)) :=
  if frameEndIdx ≠ 0 then moveFront memcpy serialBuff frameEndIdx else .ok serialBuff

/-- Prevent buffer overflow. -/
def preventOverflow (serialBuff : List (BitVec 8)) : Except Fault (List (BitVec 8)) :=
  if serialBuffSize - serialBuff.length < lgwGpsMinMsgSize then
    moveFront memcpy serialBuff lgwGpsMinMsgSize
  else .ok serialBuff

/-- The buffer before `wr_idx`, and the calls so far. -/
structure GpsThread where
  serialBuff : List (BitVec 8)
  calls : List GpsCall
  deriving DecidableEq, Repr

/-- The loop of the thread starts with an empty buffer. -/
def gpsStart : GpsThread := ⟨[], []⟩

/-- One turn of the loop of the thread, with the characters that `read` gives; none when it
fails. -/
def gpsTurn (t : GpsThread) (chars : List (BitVec 8)) : Except Fault GpsThread :=
  if serialBuffSize < t.serialBuff.length + lgwGpsMinMsgSize then .error .readOverEnd
  else if chars = [] then .ok t
  else
    let serialBuff := t.serialBuff ++ chars
    match scanBuffer serialBuff serialBuff.length 0 0 with
    | none => .error .endlessScan
    | some (frameEndIdx, calls) => do
        let serialBuff ← removeFrames memcpy serialBuff frameEndIdx
        let serialBuff ← preventOverflow memcpy serialBuff
        .ok ⟨serialBuff, t.calls ++ calls⟩

/-- The thread, over the results of its reads. -/
def threadGps : GpsThread → List (List (BitVec 8)) → Except Fault GpsThread
  | t, [] => .ok t
  | t, chars :: reads => (gpsTurn memcpy t chars).bind fun t' => threadGps t' reads

end Loop

/-! ## Frames that are handed on -/

/-- What is called for a frame. -/
def gpsCall : GpsMsg × List (BitVec 8) → Option GpsCall
  | (.ubxNavTimegps, frame) => some (.sync frame)
  | (.nmeaRmc, frame) => some (.sync frame)
  | (.nmeaGga, frame) => some (.coords frame)
  | _ => none

/-- The UBX parser answers with no NMEA message. -/
theorem lgwParseUbx_kind (l : List (BitVec 8)) :
    (lgwParseUbx l).1 ≠ .nmeaRmc ∧ (lgwParseUbx l).1 ≠ .nmeaGga := by
  unfold lgwParseUbx
  dsimp only
  repeat' split
  all_goals simp

/-- The NMEA parser answers with no UBX message. -/
theorem lgwParseNmea_kind (f : List (BitVec 8)) : lgwParseNmea f ≠ .ubxNavTimegps := by
  unfold lgwParseNmea
  repeat' split
  all_goals simp

/-- The body of the scan finds the frame that starts there, and makes the call for it. -/
theorem candidate_eq (rest : List (BitVec 8)) :
    candidate rest = match gpsFrame rest with
      | none => (0, none)
      | some (msg, n) => (n, gpsCall (msg, rest.take n)) := by
  unfold candidate gpsFrame
  split
  next =>
    have hkind := lgwParseUbx_kind rest
    unfold ubxCandidate
    generalize lgwParseUbx rest = answer at hkind
    obtain ⟨msg, size⟩ := answer
    cases msg <;> cases size <;> simp [gpsCall] at hkind ⊢
  next =>
    split
    next =>
      unfold nmeaCandidate
      cases rest.findIdx? (· == lineFeed) with
      | none => rfl
      | some i =>
          have hkind := lgwParseNmea_kind (rest.take (i + 1))
          simp only [Option.bind_some]
          generalize lgwParseNmea (rest.take (i + 1)) = msg at hkind
          cases msg <;> simp [gpsCall] at hkind ⊢
    next => rfl

/-- With a turn for each byte the loop ends, and it is the scan for frames. -/
theorem scanBuffer_eq (serialBuff : List (BitVec 8)) (turns rdIdx frameEndIdx : Nat)
    (hturns : serialBuff.length ≤ turns + rdIdx) :
    scanBuffer serialBuff turns rdIdx frameEndIdx =
      some ((scan gpsFrame serialBuff rdIdx frameEndIdx).1,
        (scan gpsFrame serialBuff rdIdx frameEndIdx).2.filterMap gpsCall) := by
  induction turns generalizing rdIdx frameEndIdx with
  | zero =>
      have hend : ¬ rdIdx < serialBuff.length := by omega
      rw [scanBuffer, if_neg hend, scan_end hend]
      rfl
  | succ turns ih =>
      by_cases hlt : rdIdx < serialBuff.length
      · rw [scanBuffer, if_pos hlt, candidate_eq]
        cases hf : gpsFrame (serialBuff.drop rdIdx) with
        | none =>
            -- no frame: `frame_size` is 0 and nothing is called
            rw [scan_skip hlt hf, ← ih (rdIdx + 1) frameEndIdx (by omega)]
            simp
        | some f =>
            have hpos := gpsFrame_local.pos hf
            rw [scan_frame hlt hf hpos]
            simp only [if_pos hpos, ih (rdIdx + f.2) (rdIdx + f.2) (by omega), Option.map_some]
            cases hcall : gpsCall (f.1, (serialBuff.drop rdIdx).take f.2) <;> simp [hcall]
      · rw [scanBuffer, if_neg hlt, scan_end hlt]
        rfl

/-! ## Reads -/

/-- A receiver of frames, as the thread sees it. -/
def handOn (st : List (BitVec 8) × List (GpsMsg × List (BitVec 8))) : GpsThread :=
  ⟨st.1, st.2.filterMap gpsCall⟩

/-- No frame, no copy: the same as a copy from the front to the front. -/
theorem removeFrames_eq {memcpy : Memcpy} {serialBuff : List (BitVec 8)} {frameEndIdx : Nat}
    (h : frameEndIdx ≤ serialBuff.length)
    (hcopy : frameEndIdx ≠ 0 →
      memcpy serialBuff frameEndIdx = .ok (serialBuff.drop frameEndIdx)) :
    removeFrames memcpy serialBuff frameEndIdx = .ok (serialBuff.drop frameEndIdx) := by
  unfold removeFrames
  split
  next hframe => rw [moveFront, if_neg (Nat.not_lt.mpr h), hcopy hframe]
  next hzero => rw [not_not.mp hzero, List.drop_zero]

/-- With room for the next read nothing is moved. -/
theorem preventOverflow_of_room {memcpy : Memcpy} {serialBuff : List (BitVec 8)}
    (h : serialBuff.length ≤ 120) : preventOverflow memcpy serialBuff = .ok serialBuff := by
  have hroom : ¬ serialBuffSize - serialBuff.length < lgwGpsMinMsgSize := by
    show ¬ 128 - serialBuff.length < 8
    omega
  rw [preventOverflow, if_neg hroom]

/-- Without, the bytes are moved by eight. -/
theorem preventOverflow_of_full {memcpy : Memcpy} {serialBuff : List (BitVec 8)}
    (h : 120 < serialBuff.length) : preventOverflow memcpy serialBuff = memcpy serialBuff 8 := by
  have hfull : serialBuffSize - serialBuff.length < lgwGpsMinMsgSize := by
    show 128 - serialBuff.length < 8
    omega
  have hlong : ¬ serialBuff.length < lgwGpsMinMsgSize := by
    show ¬ serialBuff.length < 8
    omega
  rw [preventOverflow, if_pos hfull, moveFront, if_neg hlong]
  rfl

theorem makeRoom_of_room {serialBuff : List (BitVec 8)} (h : serialBuff.length ≤ 120) :
    makeRoom serialBuffSize lgwGpsMinMsgSize serialBuff = serialBuff := by
  refine if_neg ?_
  show ¬ 128 - serialBuff.length < 8
  omega

theorem makeRoom_of_full {serialBuff : List (BitVec 8)} (h : 120 < serialBuff.length) :
    makeRoom serialBuffSize lgwGpsMinMsgSize serialBuff = serialBuff.drop 8 := by
  refine if_pos ?_
  show 128 - serialBuff.length < 8
  omega

/-- What a read gives, scanned. -/
def scanned (st : List (BitVec 8) × List (GpsMsg × List (BitVec 8))) (chars : List (BitVec 8)) :
    Nat × List (GpsMsg × List (BitVec 8)) := scan gpsFrame (st.1 ++ chars) 0 0

section Turn

variable {memcpy : Memcpy} {st : List (BitVec 8) × List (GpsMsg × List (BitVec 8))}
  {chars : List (BitVec 8)}

theorem feed_eq (st : List (BitVec 8) × List (GpsMsg × List (BitVec 8))) (chars : List (BitVec 8)) :
    feed gpsFrame serialBuffSize lgwGpsMinMsgSize st chars =
      (makeRoom serialBuffSize lgwGpsMinMsgSize ((st.1 ++ chars).drop (scanned st chars).1),
        st.2 ++ (scanned st chars).2) := rfl

theorem scanned_le (st : List (BitVec 8) × List (GpsMsg × List (BitVec 8)))
    (chars : List (BitVec 8)) : (scanned st chars).1 ≤ (st.1 ++ chars).length :=
  gpsFrame_local.scan_le _ 0 0 (Nat.zero_le _)

/-- A turn whose read gives something removes the frames, and makes room with what is left. -/
theorem gpsTurn_eq (hroom : st.1.length ≤ 120) (hne : chars ≠ [])
    (hcopy : (scanned st chars).1 ≠ 0 → memcpy (st.1 ++ chars) (scanned st chars).1 =
      .ok ((st.1 ++ chars).drop (scanned st chars).1)) :
    gpsTurn memcpy (handOn st) chars =
      (preventOverflow memcpy ((st.1 ++ chars).drop (scanned st chars).1)).map fun serialBuff =>
        ⟨serialBuff, (st.2 ++ (scanned st chars).2).filterMap gpsCall⟩ := by
  have hread : ¬ serialBuffSize < (handOn st).serialBuff.length + lgwGpsMinMsgSize := by
    show ¬ 128 < st.1.length + 8
    omega
  rw [gpsTurn, if_neg hread, if_neg hne]
  dsimp only [handOn]
  rw [scanBuffer_eq _ _ 0 0 (Nat.le_refl _)]
  dsimp only
  rw [show scan gpsFrame (st.1 ++ chars) 0 0 = scanned st chars from rfl,
    removeFrames_eq (scanned_le st chars) hcopy, List.filterMap_append]
  rfl

/-- With room left the turn is a step of the receiver. -/
theorem gpsTurn_of_room (hroom : st.1.length ≤ 120) (hne : chars ≠ [])
    (hcopy : (scanned st chars).1 ≠ 0 → memcpy (st.1 ++ chars) (scanned st chars).1 =
      .ok ((st.1 ++ chars).drop (scanned st chars).1))
    (hleft : ((st.1 ++ chars).drop (scanned st chars).1).length ≤ 120) :
    gpsTurn memcpy (handOn st) chars =
      .ok (handOn (feed gpsFrame serialBuffSize lgwGpsMinMsgSize st chars)) := by
  rw [gpsTurn_eq hroom hne hcopy, preventOverflow_of_room hleft, feed_eq, makeRoom_of_room hleft]
  rfl

/-- With a `memcpy` that copies upwards every turn is a step of the receiver. -/
theorem gpsTurn_of_upwards (hup : Upwards memcpy) (hroom : st.1.length ≤ 120)
    (hchars : chars.length ≤ 8) (hne : chars ≠ []) :
    gpsTurn memcpy (handOn st) chars =
        .ok (handOn (feed gpsFrame serialBuffSize lgwGpsMinMsgSize st chars)) ∧
      (feed gpsFrame serialBuffSize lgwGpsMinMsgSize st chars).1.length ≤ 120 := by
  have hcopy := fun _ : (scanned st chars).1 ≠ 0 => hup _ _ (scanned_le st chars)
  rw [feed_eq]
  rcases Nat.lt_or_ge 120 ((st.1 ++ chars).drop (scanned st chars).1).length with hfull | hleft
  · have hlen : ((st.1 ++ chars).drop (scanned st chars).1).length ≤ 128 := by
      rw [List.length_drop, List.length_append]
      omega
    constructor
    · rw [gpsTurn_eq hroom hne hcopy, preventOverflow_of_full hfull, hup _ _ (by omega),
        makeRoom_of_full hfull]
      rfl
    · rw [makeRoom_of_full hfull, List.length_drop]
      omega
  · refine ⟨gpsTurn_of_room hroom hne hcopy hleft, ?_⟩
    rw [makeRoom_of_room hleft]
    exact hleft

variable {l : List (BitVec 8)} {r base : Nat}

theorem kept_scanned (hkept : Kept gpsFrame l r base st) (hap : Apart gpsFrame l)
    (hr : r + chars.length ≤ l.length) (hnext : l.take (r + chars.length) = l.take r ++ chars) :
    Kept gpsFrame l (r + chars.length) (base + (scanned st chars).1)
      ((st.1 ++ chars).drop (scanned st chars).1, st.2 ++ (scanned st chars).2) :=
  hkept.feed gpsFrame_local hap hr hnext

/-- The frames that are removed are longer than what stands behind them, so that the two places of
the copy do not overlap. -/
theorem copy_of_kept (hdoc : Documented memcpy) (hkept : Kept gpsFrame l r base st)
    (hap : Apart gpsFrame l) (hchars : chars.length ≤ 8) (hr : r + chars.length ≤ l.length)
    (hnext : l.take (r + chars.length) = l.take r ++ chars) :
    (scanned st chars).1 ≠ 0 → memcpy (st.1 ++ chars) (scanned st chars).1 =
      .ok ((st.1 ++ chars).drop (scanned st chars).1) := by
  intro hframe
  have hbase := hkept.base_le
  have hbuf := hkept.length (show r ≤ l.length by omega)
  have hafter := kept_scanned hkept hap hr hnext
  -- the last frame ends in the characters that were read, and has eight bytes at least
  obtain hzero | ⟨p, m, n, hfr, hend⟩ := hafter.ends
  · omega
  · have hlate := hkept.found_late gpsFrame_local hfr (by omega)
    have hsize := eight_le_of_gpsFrame hfr
    apply hdoc _ _ (scanned_le st chars)
    rw [List.length_append]
    omega

/-- With room left the receiver has dropped nothing. -/
theorem kept_of_room (hkept : Kept gpsFrame l r base st) (hap : Apart gpsFrame l)
    (hr : r + chars.length ≤ l.length) (hnext : l.take (r + chars.length) = l.take r ++ chars)
    (hleft : ((st.1 ++ chars).drop (scanned st chars).1).length ≤ 120) :
    Kept gpsFrame l (r + chars.length) (base + (scanned st chars).1)
      (feed gpsFrame serialBuffSize lgwGpsMinMsgSize st chars) := by
  rw [feed_eq, makeRoom_of_room hleft]
  exact kept_scanned hkept hap hr hnext

end Turn

/-- The frames of a stream are handed on, each once and in order, without a fault, and before each
read 120 bytes at most are in use. -/
def HandsOnFrames (memcpy : Memcpy) (reads : List (List (BitVec 8))) : Prop :=
  ∃ t, threadGps memcpy gpsStart reads = .ok t ∧ t.serialBuff.length ≤ 120 ∧
    t.calls = (frames gpsFrame reads.flatten).filterMap gpsCall

/-- After every read there is room for the next one: 120 bytes at most have come, or a frame ends
among the last 120 of them. -/
def Roomy (reads : List (List (BitVec 8))) : Prop :=
  ∀ k ≤ reads.length, RoomAt gpsFrame 120 (reads.take k).flatten

instance (reads : List (List (BitVec 8))) : Decidable (Roomy reads) :=
  inferInstanceAs (Decidable (∀ k ≤ reads.length, RoomAt gpsFrame 120 (reads.take k).flatten))

section Reads

variable {memcpy : Memcpy} {st : List (BitVec 8) × List (GpsMsg × List (BitVec 8))}
  {l : List (BitVec 8)} {r base : Nat}

/-- A failed read changes nothing. -/
theorem gpsTurn_nil (hroom : st.1.length ≤ 120) :
    gpsTurn memcpy (handOn st) [] = .ok (handOn st) := by
  rw [gpsTurn, if_neg, if_pos rfl]
  show ¬ 128 < st.1.length + 8
  omega

/-- With a `memcpy` that copies upwards the thread goes on as the receiver does with the reads that
give something. -/
theorem threadGps_handOn (hup : Upwards memcpy) (reads : List (List (BitVec 8)))
    (hreads : ∀ chars ∈ reads, chars.length ≤ 8) (hroom : st.1.length ≤ 120) :
    let st' := run gpsFrame serialBuffSize lgwGpsMinMsgSize st (reads.filter (· ≠ []))
    threadGps memcpy (handOn st) reads = .ok (handOn st') ∧ st'.1.length ≤ 120 := by
  induction reads generalizing st with
  | nil => exact ⟨rfl, hroom⟩
  | cons chars reads ih =>
      have hrest : ∀ chars' ∈ reads, chars'.length ≤ 8 :=
        fun chars' h => hreads chars' (List.mem_cons_of_mem _ h)
      by_cases hne : chars = []
      · subst hne
        rw [threadGps, gpsTurn_nil hroom, List.filter_cons_of_neg (by simp)]
        exact ih hrest hroom
      · obtain ⟨hturn, hroom'⟩ := gpsTurn_of_upwards hup hroom (hreads chars List.mem_cons_self) hne
        rw [threadGps, hturn, List.filter_cons_of_pos (by simpa using hne)]
        exact ih hrest hroom'

/-- The next read is the next part of the stream. -/
theorem next_read {chars : List (BitVec 8)} {reads : List (List (BitVec 8))}
    (hrest : l.drop r = (chars :: reads).flatten) (hr : r ≤ l.length) :
    r + chars.length ≤ l.length ∧ l.take (r + chars.length) = l.take r ++ chars ∧
      l.drop (r + chars.length) = reads.flatten := by
  rw [List.flatten_cons] at hrest
  refine ⟨?_, ?_, ?_⟩
  · have hlen := congrArg List.length hrest
    simp only [List.length_drop, List.length_append] at hlen
    omega
  · rw [List.take_add, hrest, List.take_left]
  · rw [← List.drop_drop, hrest, List.drop_left]

/-- With room after every read, the thread goes on as the receiver does, whatever `memcpy` leaves
where places overlap. -/
theorem threadGps_of_roomy (hdoc : Documented memcpy) (hap : Apart gpsFrame l)
    (reads : List (List (BitVec 8))) (hreads : ∀ chars ∈ reads, chars.length ≤ 8)
    (hkept : Kept gpsFrame l r base st) (hr : r ≤ l.length) (hrest : l.drop r = reads.flatten)
    (hroomy : ∀ k ≤ reads.length,
      RoomAt gpsFrame 120 (l.take (r + (reads.take k).flatten.length))) :
    let st' := run gpsFrame serialBuffSize lgwGpsMinMsgSize st (reads.filter (· ≠ []))
    threadGps memcpy (handOn st) reads = .ok (handOn st') ∧ st'.1.length ≤ 120 := by
  have hroom : st.1.length ≤ 120 :=
    (hkept.roomAt_iff gpsFrame_local hr).mp (hroomy 0 (Nat.zero_le _))
  induction reads generalizing r base st with
  | nil => exact ⟨rfl, hroom⟩
  | cons chars reads ih =>
      have hreads' : ∀ chars' ∈ reads, chars'.length ≤ 8 :=
        fun chars' h => hreads chars' (List.mem_cons_of_mem _ h)
      obtain ⟨hlen, hnext, hrest'⟩ := next_read hrest hr
      have hroomy' : ∀ k ≤ reads.length,
          RoomAt gpsFrame 120 (l.take (r + chars.length + (reads.take k).flatten.length)) := by
        intro k hk
        have hat := hroomy (k + 1) (Nat.succ_le_succ hk)
        rwa [List.take_succ_cons, List.flatten_cons, List.length_append, ← Nat.add_assoc] at hat
      by_cases hne : chars = []
      · subst hne
        rw [threadGps, gpsTurn_nil hroom, List.filter_cons_of_neg (by simp)]
        exact ih hreads' hkept hr hrest' hroomy' hroom
      · have hafter := kept_scanned hkept hap hlen hnext
        have hleft : ((st.1 ++ chars).drop (scanned st chars).1).length ≤ 120 :=
          (hafter.roomAt_iff gpsFrame_local hlen).mp (hroomy' 0 (Nat.zero_le _))
        have hcopy := copy_of_kept hdoc hkept hap (hreads chars List.mem_cons_self) hlen hnext
        have hkept' := kept_of_room hkept hap hlen hnext hleft
        rw [threadGps, gpsTurn_of_room hroom hne hcopy hleft,
          List.filter_cons_of_pos (by simpa using hne)]
        exact ih hreads' hkept' hlen hrest' hroomy'
          ((hkept'.roomAt_iff gpsFrame_local hlen).mp (hroomy' 0 (Nat.zero_le _)))

/-- The `memcpy` of a target on which a copy between places that overlap is a fault. -/
def faultingMemcpy : Memcpy := fun serialBuff n =>
  if serialBuff.length - n ≤ n then .ok (serialBuff.drop n) else .error .overlappingCopy

theorem faultingMemcpy_documented : Documented faultingMemcpy := fun _ _ _ h => if_pos h

/-- On such a target a thread that goes on has room after every read. -/
theorem roomy_of_ok (hap : Apart gpsFrame l) (reads : List (List (BitVec 8)))
    (hreads : ∀ chars ∈ reads, chars.length ≤ 8) (hkept : Kept gpsFrame l r base st)
    (hr : r ≤ l.length) (hrest : l.drop r = reads.flatten) (hroom : st.1.length ≤ 120)
    {t : GpsThread} (hrun : threadGps faultingMemcpy (handOn st) reads = .ok t) :
    ∀ k ≤ reads.length, RoomAt gpsFrame 120 (l.take (r + (reads.take k).flatten.length)) := by
  induction reads generalizing r base st with
  | nil =>
      intro k _
      rw [List.take_nil]
      exact (hkept.roomAt_iff gpsFrame_local hr).mpr hroom
  | cons chars reads ih =>
      have hreads' : ∀ chars' ∈ reads, chars'.length ≤ 8 :=
        fun chars' h => hreads chars' (List.mem_cons_of_mem _ h)
      obtain ⟨hlen, hnext, hrest'⟩ := next_read hrest hr
      -- the rest of the run shows the room of the reads behind this one
      have hall : ∀ st' base', Kept gpsFrame l (r + chars.length) base' st' → st'.1.length ≤ 120 →
          gpsTurn faultingMemcpy (handOn st) chars = .ok (handOn st') →
          ∀ k ≤ (chars :: reads).length,
            RoomAt gpsFrame 120 (l.take (r + ((chars :: reads).take k).flatten.length)) := by
        intro st' base' hkept' hroom' hturn k hk
        rw [threadGps, hturn] at hrun
        cases k with
        | zero => exact (hkept.roomAt_iff gpsFrame_local hr).mpr hroom
        | succ k =>
            have hat := ih hreads' hkept' hlen hrest' hroom' hrun k (Nat.le_of_succ_le_succ hk)
            rwa [List.take_succ_cons, List.flatten_cons, List.length_append, ← Nat.add_assoc]
      by_cases hne : chars = []
      · subst hne
        exact hall st base hkept hroom (gpsTurn_nil hroom)
      · have hcopy := copy_of_kept faultingMemcpy_documented hkept hap
          (hreads chars List.mem_cons_self) hlen hnext
        rcases Nat.lt_or_ge 120
          ((st.1 ++ chars).drop (scanned st chars).1).length with hfull | hleft
        · -- the copy that makes room moves more than eight bytes by eight
          have hfault : faultingMemcpy ((st.1 ++ chars).drop (scanned st chars).1) 8 =
              .error .overlappingCopy := if_neg (by omega)
          rw [threadGps, gpsTurn_eq hroom hne hcopy, preventOverflow_of_full hfull, hfault] at hrun
          cases hrun
        · have hkept' := kept_of_room hkept hap hlen hnext hleft
          refine hall _ _ hkept' ?_ (gpsTurn_of_room hroom hne hcopy hleft)
          rw [feed_eq, makeRoom_of_room hleft]
          exact hleft

end Reads

theorem kept_start (l : List (BitVec 8)) : Kept gpsFrame l 0 0 ([], []) :=
  ⟨⟨Nat.le_refl 0, rfl, fun p hp => absurd hp (Nat.not_lt_zero p),
    fun _ hp hp' => absurd hp' (Nat.not_lt.mpr hp), rfl⟩, Or.inl rfl⟩

/-- The reads so far are the front of the stream. -/
theorem take_flatten_take (reads : List (List (BitVec 8))) (k : Nat) :
    reads.flatten.take (0 + (reads.take k).flatten.length) = (reads.take k).flatten := by
  have hsplit : reads.flatten = (reads.take k).flatten ++ (reads.drop k).flatten := by
    rw [← List.flatten_append, List.take_append_drop]
  rw [Nat.zero_add, hsplit, List.take_left]

/-- The receiver finds the frames of the stream, without the reads that fail. -/
theorem run_reads (reads : List (List (BitVec 8))) (hshort : Short gpsFrame 112 reads.flatten)
    (hapart : Apart gpsFrame reads.flatten) :
    (run gpsFrame serialBuffSize lgwGpsMinMsgSize ([], []) (reads.filter (· ≠ []))).2 =
      frames gpsFrame reads.flatten := by
  have hflat : (reads.filter (· ≠ [])).flatten = reads.flatten := List.flatten_filter_ne_nil
  rw [← hflat] at hshort hapart ⊢
  exact run_frames gpsFrame_local (by decide) _ hapart hshort

/-- On a target whose `memcpy` copies upwards, no read and no copy leaves the buffer, the scan ends,
and the frames are handed on **however the serial bytes arrive**, when they lie apart and are of 112
bytes at most. -/
theorem threadGps_frames_of_upwards {memcpy : Memcpy} (hup : Upwards memcpy)
    (reads : List (List (BitVec 8))) (hreads : ∀ chars ∈ reads, chars.length ≤ 8)
    (hshort : Short gpsFrame 112 reads.flatten) (hapart : Apart gpsFrame reads.flatten) :
    HandsOnFrames memcpy reads := by
  have hempty : (([], []) : List (BitVec 8) × List (GpsMsg × List (BitVec 8))).1.length ≤ 120 :=
    Nat.zero_le _
  obtain ⟨hrun, hroom⟩ := threadGps_handOn hup reads hreads hempty
  exact ⟨_, hrun, hroom, congrArg (List.filterMap gpsCall) (run_reads reads hshort hapart)⟩

/-- A NAV-TIMEGPS frame. -/
def timegpsBytes : List (BitVec 8) :=
  [0xB5#8, 0x62#8, 0x01#8, 0x20#8, 0x10#8, 0x00#8, 0x40#8, 0x42#8, 0x0F#8, 0x00#8, 0x00#8,
   0x00#8, 0x00#8, 0x00#8, 0xE8#8, 0x08#8, 0x12#8, 0x07#8, 0x19#8, 0x00#8, 0x00#8, 0x00#8,
   0xE4#8, 0xAF#8]

/-- A GGA sentence without a fix. -/
def ggaBytes : List (BitVec 8) :=
  [0x24#8, 0x47#8, 0x50#8, 0x47#8, 0x47#8, 0x41#8, 0x2C#8, 0x2C#8, 0x2C#8, 0x2C#8, 0x2C#8,
   0x2C#8, 0x30#8, 0x2C#8, 0x2C#8, 0x2C#8, 0x2C#8, 0x2C#8, 0x2C#8, 0x2C#8, 0x2C#8, 0x2A#8,
   0x36#8, 0x36#8, 0x0D#8, 0x0A#8]

/-- The frame and the sentence behind a stray sync character, in reads that cut both of them. -/
def cutReads : List (List (BitVec 8)) :=
  [[0xB5#8, 0xB5#8, 0x62#8, 0x01#8, 0x20#8],
   [0x10#8, 0x00#8, 0x40#8, 0x42#8, 0x0F#8, 0x00#8, 0x00#8, 0x00#8],
   [0x00#8, 0x00#8, 0xE8#8, 0x08#8, 0x12#8, 0x07#8, 0x19#8, 0x00#8],
   [0x00#8, 0x00#8, 0xE4#8, 0xAF#8, 0x24#8, 0x47#8, 0x50#8, 0x47#8],
   [0x47#8, 0x41#8, 0x2C#8, 0x2C#8, 0x2C#8, 0x2C#8, 0x2C#8, 0x2C#8],
   [0x30#8, 0x2C#8, 0x2C#8, 0x2C#8, 0x2C#8, 0x2C#8, 0x2C#8, 0x2C#8],
   [0x2C#8, 0x2A#8, 0x36#8, 0x36#8, 0x0D#8, 0x0A#8]]

/-- More sentences of the same kind, each in four reads. -/
def ggaReads : List (List (BitVec 8)) :=
  [ggaBytes.take 8, (ggaBytes.drop 8).take 8, (ggaBytes.drop 16).take 8, ggaBytes.drop 24]

/-- Six frames in 155 bytes, with a read that fails among them. -/
def sixFrames : List (List (BitVec 8)) :=
  cutReads ++ ggaReads ++ [[]] ++ ggaReads ++ ggaReads ++ ggaReads

/-- The bytes of the buffer when the last byte is stored first. -/
def storeDownwards (serialBuff : List (BitVec 8)) (n count : Nat) : List (BitVec 8) :=
  (List.range count).foldr (fun i buff => buff.set i (charAt buff (i + n))) serialBuff

/-- A `memcpy` that stores downwards. -/
def downwardsMemcpy : Memcpy := fun serialBuff n =>
  .ok ((storeDownwards serialBuff n (serialBuff.length - n)).take (serialBuff.length - n))

theorem storeDownwards_succ (serialBuff : List (BitVec 8)) (n count : Nat) :
    storeDownwards serialBuff n (count + 1) =
      storeDownwards (serialBuff.set count (charAt serialBuff (count + n))) n count := by
  rw [storeDownwards, List.range_succ, List.foldr_append]
  rfl

/-- Where the places do not overlap, every byte comes from where it was. -/
theorem getElem?_storeDownwards (serialBuff : List (BitVec 8)) {n count : Nat} (hcount : count ≤ n)
    (hlen : n + count ≤ serialBuff.length) (j : Nat) :
    (storeDownwards serialBuff n count)[j]? =
      if j < count then serialBuff[j + n]? else serialBuff[j]? := by
  induction count generalizing serialBuff with
  | zero => rfl
  | succ count ih =>
      have hlast : serialBuff[count + n]? = some (charAt serialBuff (count + n)) := by
        rw [charAt, List.getD_eq_getElem?_getD, List.getElem?_eq_getElem (by omega)]
        rfl
      rw [storeDownwards_succ, ih _ (by omega) (by rw [List.length_set]; omega)]
      rcases Nat.lt_trichotomy j count with hlt | rfl | hgt
      · rw [if_pos hlt, if_pos (by omega), List.getElem?_set_ne (by omega)]
      · rw [if_neg (lt_irrefl j), if_pos (Nat.lt_succ_self j), List.getElem?_set_self (by omega),
          hlast]
      · rw [if_neg (by omega), if_neg (by omega), List.getElem?_set_ne (by omega)]

theorem downwardsMemcpy_documented : Documented downwardsMemcpy := by
  intro serialBuff n hn hapart
  refine congrArg Except.ok (List.ext_getElem? fun j => ?_)
  rw [List.getElem?_take, List.getElem?_drop, Nat.add_comm n j]
  split
  next hlt => rw [getElem?_storeDownwards _ hapart (by omega), if_pos hlt]
  next hge => exact (List.getElem?_eq_none (by omega)).symm

/-- A GGA sentence behind 104 bytes of noise: with its first 24 bytes the buffer is full. -/
def noisyReads : List (List (BitVec 8)) := List.replicate 13 (List.replicate 8 0#8) ++ ggaReads

end DraginoFwd.Gps
