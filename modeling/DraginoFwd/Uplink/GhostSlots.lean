import DraginoFwd.Uplink.Ghost

/-!
# The slots of the ghost ring

A datagram passes through three arrays of different sizes: `thread_ghost` compares its length with
the receive buffer, copies it into a slot of the ring with the terminator behind it, and `readRX`
copies as many bytes into `payload` as the `size` field of the record says. `SlotSafe` says of a
state that what is about to be stored stays in its slot, and that what is about to be decoded lies
in the datagram and fits the packet.

`slotSafe_iff` is about all runs with datagrams of any set: they are safe exactly when each of the
datagrams is harmless, that is when it does not pass the tests, or has a size field that is true and
at most 255, and leaves a byte of the slot for the terminator.
-/

set_option autoImplicit false

namespace DraginoFwd.Uplink

open DraginoFwd.Hal
open DraginoFwd.Lib.Memory
open DraginoFwd.Lib.RingBuffer
open DraginoFwd.Lib.Transition

/-- All datagrams of a run are of the set `D`. -/
def Receives (D : Set (List (BitVec 8))) (_ : GhostState) (e : GhostEvent) : Prop :=
  ∀ buffDown, e = .recv buffDown → buffDown ∈ D

/-- `readRX` of the slot at `b` is right for the record: the slot holds it, the bytes that are read
(the fixed fields and as many more as the `size` field in the slot says) are bytes of it, the packet
has room for them, and its size is at most 255. -/
structure DecodesWithin (buffRx : BuffRx) (b : Nat) (record : List (BitVec 8)) : Prop where
  held : (buffRx.toList.drop b).take record.length = record
  source : ghstMinPacketsize + sizeField (buffRx.toList.drop b) ≤ record.length
  target : ∀ old, ∃ p, readRX old buffRx b = .ok p ∧ p.size.toNat ≤ 255

/-- What is about to be stored stays in the free slot, and what is about to be decoded comes from
the oldest datagram that has not been decoded yet. -/
structure SlotSafe (s : GhostState) : Prop where
  stores : ∀ record next, s.producer = .tested record next →
    (record ++ [0#8]).length ≤ ghstRxBuffsize ∧
      ∃ buffRx, copy s.buffRx (s.ghstBgn.toNat * ghstRxBuffsize) (record ++ [0#8]) = .ok buffRx
  decodes : ∀ maxPkt getPkt got, s.reader = .reading maxPkt getPkt got → got.length < getPkt →
    ∃ record, s.accepted[s.returned.length + got.length]? = some record ∧
      DecodesWithin s.buffRx ((s.ghstEnd.toNat + got.length) % ghstNmRcv * ghstRxBuffsize) record

/-- A record with a true size of at most 255, and with room for the terminator in its slot. -/
structure SmallRecord (record : List (BitVec 8)) : Prop where
  terminated : record.length < ghstRxBuffsize
  size : sizeField record ≤ 255
  complete : ghstMinPacketsize + sizeField record ≤ record.length

/-- A datagram that does not pass the tests, or has such a record. -/
def Harmless (buffDown : List (BitVec 8)) : Prop :=
  isGhostData buffDown = true → SmallRecord (buffDown.drop 4)

/-! ## The invariant -/

theorem SmallRecord.recordOk {record : List (BitVec 8)} (h : SmallRecord record) :
    RecordOk record ∧ sizeField record ≤ 256 :=
  ⟨⟨h.complete, Nat.le_of_lt h.terminated⟩, Nat.le_trans h.size (by decide)⟩

/-- The record that the producer has in hand. -/
def GhostProducer.Holds : GhostProducer → List (BitVec 8) → Prop
  | .idle, _ => False
  | .tested record _, r => r = record
  | .copied record _, r => r = record

/-- The ring stands for the accepted records that have not been returned, and all of them are
small. -/
structure SlotInv (s : GhostState) : Prop where
  ring : GhostInv s (s.accepted.drop s.returned.length)
  small : ∀ record ∈ s.accepted, SmallRecord record
  pending : ∀ record, s.producer.Holds record → SmallRecord record

theorem slotInv_ghostStart : SlotInv ghostStart where
  ring := ghostInv_ghostStart
  small := by simp [ghostStart]
  pending := by simp [ghostStart, GhostProducer.Holds]

theorem SlotInv.returned_le {s : GhostState} (h : SlotInv s) :
    s.returned.length ≤ s.accepted.length := by
  have hlen := congrArg List.length h.ring.lossless
  rw [List.length_append, List.length_map, List.length_map, List.length_map] at hlen
  omega

/-- A small record passes the two conditions under which the ring is a queue. -/
theorem SlotInv.recv {s : GhostState} (h : SlotInv s) {buffDown record : List (BitVec 8)}
    (haccepts : s.accepts buffDown = some record) (hharmless : Harmless buffDown) :
    SlotInv { s with producer := .tested record (nextBgn s.ghstBgn) } := by
  have hrecord : isGhostData buffDown = true ∧ record = buffDown.drop 4 := by
    rw [GhostState.accepts] at haccepts
    split at haccepts
    · next htest =>
      cases haccepts
      exact ⟨(Bool.and_eq_true _ _ ▸ htest).1, rfl⟩
    · cases haccepts
  have hsmall : SmallRecord record := hrecord.2 ▸ hharmless hrecord.1
  refine ⟨?_, h.small, ?_⟩
  · apply h.ring.recv haccepts
    · rintro _ ⟨⟩ hdata
      exact (hharmless hdata).complete
    · rintro _ ⟨⟩ record' hrecord'
      rw [haccepts] at hrecord'
      cases hrecord'
      refine ⟨hsmall.recordOk.2, ?_⟩
      intro hfull
      exact absurd hfull (Nat.ne_of_lt hsmall.terminated)
  · rintro _ rfl
    exact hsmall

theorem SlotInv.publish {s : GhostState} (h : SlotInv s) {record : List (BitVec 8)} {next : Nat}
    (hproducer : s.producer = .copied record next) :
    SlotInv { s with
      ghstBgn := BitVec.ofNat 8 next
      producer := .idle
      accepted := s.accepted ++ [record] } := by
  have hring := h.ring.publish hproducer
  rw [← List.drop_append_of_le_length h.returned_le] at hring
  refine ⟨hring, ?_, ?_⟩
  · intro r hr
    rcases List.mem_append.1 hr with hold | hnew
    · exact h.small r hold
    · rw [List.mem_singleton.1 hnew]
      exact h.pending record (by rw [hproducer]; rfl)
  · exact fun _ hfalse => hfalse.elim

theorem SlotInv.finish {s : GhostState} (h : SlotInv s) {maxPkt getPkt : Nat}
    {got : List LgwPktRx} (hreader : s.reader = .reading maxPkt getPkt got)
    (hdone : ¬ got.length < getPkt) :
    SlotInv { s with
      ghstEnd := BitVec.ofNat 8 ((s.ghstEnd.toNat + getPkt) % ghstNmRcv)
      reader := .idle
      returned := s.returned ++ got } := by
  have hr := h.ring.reader
  rw [hreader] at hr
  have hall : got.length = getPkt := Nat.le_antisymm hr.2.2.1 (Nat.not_lt.1 hdone)
  have hring := h.ring.finish hreader hdone
  rw [List.drop_drop] at hring
  refine ⟨?_, h.small, h.pending⟩
  show GhostInv _ (s.accepted.drop (s.returned ++ got).length)
  rw [List.length_append, hall]
  exact hring

/-- One step of either side. -/
theorem SlotInv.next {s t : GhostState} (h : SlotInv s) {e : GhostEvent}
    (hnext : ghostNext s e = some t) (hreceives : Receives {d | Harmless d} s e) : SlotInv t := by
  rw [ghostNext, Option.bind_eq_some_iff] at hnext
  obtain ⟨r, hstep, hr⟩ := hnext
  cases e with
  | recv buffDown =>
      rw [ghostStep] at hstep
      split at hstep
      · split at hstep
        · next record haccepts =>
          cases hstep
          cases hr
          exact h.recv haccepts (hreceives buffDown rfl)
        · cases hstep
          cases hr
          exact h
      · cases hstep
  | copy =>
      rw [ghostStep] at hstep
      split at hstep
      · next record next hproducer =>
        obtain ⟨buffRx, hcopy, hring⟩ := h.ring.copy hproducer
        rw [hcopy] at hstep
        cases hstep
        cases hr
        refine ⟨hring, h.small, ?_⟩
        rintro _ rfl
        exact h.pending _ (by rw [hproducer]; rfl)
      · cases hstep
  | publish =>
      rw [ghostStep] at hstep
      split at hstep
      · next record next hproducer =>
        cases hstep
        cases hr
        exact h.publish hproducer
      · cases hstep
  | count maxPkt =>
      rw [ghostStep] at hstep
      split at hstep
      · cases hstep
        cases hr
        exact ⟨h.ring.count maxPkt, h.small, h.pending⟩
      · cases hstep
  | decode old =>
      rw [ghostStep] at hstep
      split at hstep
      · next maxPkt getPkt got hreader =>
        split at hstep
        · next hlt =>
          obtain ⟨p, hread, hring⟩ := h.ring.decode hreader hlt old
          dsimp only at hstep
          rw [hread] at hstep
          cases hstep
          cases hr
          exact ⟨hring, h.small, h.pending⟩
        · cases hstep
      · cases hstep
  | finish =>
      rw [ghostStep] at hstep
      split at hstep
      · next maxPkt getPkt got hreader =>
        split at hstep
        · cases hstep
        · next hdone =>
          cases hstep
          cases hr
          exact h.finish hreader hdone
      · cases hstep

/-! ## What the invariant gives -/

/-- The reader finds the record that it is about to decode. -/
theorem SlotInv.decodesWithin {s : GhostState} (h : SlotInv s) {maxPkt getPkt : Nat}
    {got : List LgwPktRx} (hreader : s.reader = .reading maxPkt getPkt got)
    (hlt : got.length < getPkt) :
    ∃ record, s.accepted[s.returned.length + got.length]? = some record ∧
      DecodesWithin s.buffRx ((s.ghstEnd.toNat + got.length) % ghstNmRcv * ghstRxBuffsize)
        record := by
  have hr := h.ring.reader
  rw [hreader] at hr
  have hidx : got.length < (s.accepted.drop s.returned.length).length :=
    Nat.lt_of_lt_of_le hlt hr.2.1
  have hat := List.getElem?_eq_getElem hidx
  rw [List.getElem?_drop] at hat
  refine ⟨_, hat, ?_⟩
  have hsmall := h.small _ (List.mem_of_getElem? hat)
  have hslot := h.ring.ring.slots got.length _ (List.getElem?_eq_getElem hidx)
  generalize (s.accepted.drop s.returned.length)[got.length] = record at hsmall hslot
  have hind : (s.ghstEnd.toNat + got.length) % ghstNmRcv < ghstNmRcv := Nat.mod_lt _ (by decide)
  -- the size field in the slot is the one of the record
  have hmin : ghstMinPacketsize = 38 := rfl
  have hcomplete := hsmall.complete
  have hfield : sizeField (s.buffRx.toList.drop
      ((s.ghstEnd.toNat + got.length) % ghstNmRcv * ghstRxBuffsize)) = sizeField record := by
    conv_rhs => rw [← hslot]
    rw [sizeField, sizeField, u16_take (by omega)]
  refine ⟨hslot, hfield ▸ hcomplete, ?_⟩
  intro old
  obtain ⟨hok, hsize⟩ := hsmall.recordOk
  obtain ⟨p, hread, hpacket⟩ := readRX_ok hind hslot hok hsize old
  refine ⟨p, hread, ?_⟩
  have hpsize : p.size = u16 record 36 := congrArg GhostPacket.size hpacket
  rw [hpsize]
  exact hsmall.size

theorem SlotInv.slotSafe {s : GhostState} (h : SlotInv s) : SlotSafe s where
  stores := by
    intro record next hproducer
    have hsmall := h.pending record (by rw [hproducer]; rfl)
    obtain ⟨buffRx, hcopy, -⟩ := h.ring.copy hproducer
    refine ⟨?_, buffRx, hcopy⟩
    rw [List.length_append, List.length_singleton]
    exact hsmall.terminated
  decodes := by
    intro maxPkt getPkt got hreader hlt
    exact h.decodesWithin hreader hlt

/-- Every state of a run with harmless datagrams. -/
theorem reachable_slotInv {s : GhostState}
    (h : Reachable (fun s => s = ghostStart)
      (Guarded (Receives {d | Harmless d}) (Steps ghostNext)) s) : SlotInv s := by
  refine Reachable.invariant ?_ ?_ h
  · rintro s rfl
    exact slotInv_ghostStart
  · rintro s e t hs ⟨hreceives, hnext⟩
    exact hs.next hnext hreceives

/-! ## What a datagram can do -/

theorem receives_of_ne_recv (D : Set (List (BitVec 8))) (s : GhostState) (e : GhostEvent)
    (h : ∀ buffDown, e ≠ .recv buffDown) : Receives D s e :=
  fun buffDown heq => absurd heq (h buffDown)

/-- A datagram that respects the protocol is the first one of some run, in which it is stored and
then decoded. -/
theorem reachable_stored_decoded {D : Set (List (BitVec 8))} {buffDown : List (BitVec 8)}
    (hd : buffDown ∈ D) (hdata : isGhostData buffDown = true) :
    Reachable (fun s => s = ghostStart) (Guarded (Receives D) (Steps ghostNext))
        (ghostTested (buffDown.drop 4)) ∧
      ∃ buffRx, SlotHolds buffRx 0 (buffDown.drop 4) ∧
        Reachable (fun s => s = ghostStart) (Guarded (Receives D) (Steps ghostNext))
          (ghostCounted buffRx (buffDown.drop 4)) := by
  have hrecv : Receives D ghostStart (.recv buffDown) := by
    rintro _ ⟨⟩
    exact hd
  constructor
  · apply Reachable.next (e := .recv buffDown) _ ⟨hrecv, ghostNext_first hdata⟩
    exact Reachable.start rfl
  · obtain ⟨buffRx, hslot, hreach⟩ :=
      reachable_first_data (Receives D) hdata hrecv (receives_of_ne_recv D)
    refine ⟨buffRx, hslot, ?_⟩
    apply hreach.next (e := .count 1)
    exact ⟨receives_of_ne_recv D _ _ (by simp), ghostNext_count buffRx _⟩

/-- The size of a packet is the size field of its slot. -/
theorem size_of_readRX {old p : LgwPktRx} {buffRx : BuffRx} {b : Nat}
    (h : readRX old buffRx b = .ok p) : p.size.toNat = sizeField (buffRx.toList.drop b) := by
  obtain ⟨head, hhead, hrest⟩ := bind_eq_ok.1 h
  obtain ⟨bytes, -, hcopy⟩ := bind_eq_ok.1 hrest
  have hp : p.size = u16 head 36 := by
    cases hpay : copy old.payload 0 bytes with
    | error e =>
        rw [hpay] at hcopy
        cases hcopy
    | ok payload =>
        rw [hpay] at hcopy
        have hset : setRX old head payload = p := Except.ok.inj hcopy
        rw [← hset, setRX]
  rw [slice] at hhead
  split at hhead
  · rw [hp, ← Except.ok.inj hhead, u16_take (by decide)]
    rfl
  · cases hhead

/-- A record that is decoded safely has a true size of at most 255. -/
theorem size_of_slotSafe {buffRx : BuffRx} {record : List (BitVec 8)}
    (hslot : SlotHolds buffRx 0 record) (hmin : ghstMinPacketsize ≤ record.length)
    (hsafe : SlotSafe (ghostCounted buffRx record)) :
    ghstMinPacketsize + sizeField record ≤ record.length ∧ sizeField record ≤ 255 := by
  obtain ⟨r, hr, hwithin⟩ := hsafe.decodes 1 1 [] rfl (by decide)
  cases hr
  have hfield : sizeField (buffRx.toList.drop (0 * ghstRxBuffsize)) = sizeField record := by
    conv_rhs => rw [← show _ = record from hslot]
    rw [sizeField, sizeField, u16_take (Nat.lt_of_lt_of_le (by decide) hmin)]
  have hfirst : DecodesWithin buffRx (0 * ghstRxBuffsize) record := hwithin
  have hsource := hfirst.source
  rw [hfield] at hsource
  refine ⟨hsource, ?_⟩
  obtain ⟨p, hread, hsize⟩ := hfirst.target (.ofBytes [])
  rw [← hfield, ← size_of_readRX hread]
  exact hsize

/-- For every set of datagrams: all runs with datagrams of the set are safe exactly when each of
them is harmless. -/
theorem slotSafe_iff (D : Set (List (BitVec 8))) :
    (∀ s, Reachable (fun s => s = ghostStart) (Guarded (Receives D) (Steps ghostNext)) s →
      SlotSafe s) ↔ ∀ buffDown ∈ D, Harmless buffDown := by
  constructor
  · intro hsafe buffDown hd hdata
    obtain ⟨htested, buffRx, hslot, hcounted⟩ := reachable_stored_decoded hd hdata
    obtain ⟨hstored, -⟩ := (hsafe _ htested).stores (buffDown.drop 4) 1 rfl
    rw [List.length_append, List.length_singleton] at hstored
    obtain ⟨hcomplete, hsize⟩ :=
      size_of_slotSafe hslot (length_of_isGhostData hdata).1 (hsafe _ hcounted)
    exact ⟨hstored, hsize, hcomplete⟩
  · intro hharmless s hreach
    have hrun : Reachable (fun s => s = ghostStart)
        (Guarded (Receives {d | Harmless d}) (Steps ghostNext)) s := by
      induction hreach with
      | start h0 => exact Reachable.start h0
      | next _ hst ih =>
          apply ih.next
          exact ⟨fun buffDown heq => hharmless buffDown (hst.1 buffDown heq), hst.2⟩
    exact (reachable_slotInv hrun).slotSafe

/-- A record of the fixed fields alone that claims 65535 payload bytes. -/
def claimingRecord : List (BitVec 8) := List.replicate 36 0#8 ++ [255#8, 255#8]

/-- The decoding of a short datagram that claims a long payload reads what is behind its slot. -/
theorem claiming_datagram_unsafe :
    ¬ ∀ s, Reachable (fun s => s = ghostStart) (Guarded (Receives Set.univ) (Steps ghostNext)) s →
      SlotSafe s := by
  intro hall
  have hdata : isGhostData (ghostDatagram claimingRecord) = true := by decide
  obtain ⟨-, buffRx, hslot, hcounted⟩ := reachable_stored_decoded (Set.mem_univ _) hdata
  have hsize := (size_of_slotSafe hslot (by decide) (hall _ hcounted)).2
  exact absurd hsize (by decide)

end DraginoFwd.Uplink
