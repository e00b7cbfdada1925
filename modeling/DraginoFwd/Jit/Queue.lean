import DraginoFwd.Hal
import DraginoFwd.Lib.GapSort

/-!
# The just-in-time transmit queue

Model of `jitqueue.c`. The queue is an array of `jitQueueMax` nodes of which the first `numPkt`
are in use; each of the three operations tests fullness or emptiness in one critical section and
does its work in a second one, which is a function of its own here (`jitEnqueueSection`,
`jitPeekSection`, `jitDequeueSection`). A write or read outside the array is an `OutOfBounds`.

All times are the 32-bit microsecond counter of the concentrator and all comparisons of times are
comparisons of wrapping differences, as in the source.
-/

set_option autoImplicit false

namespace DraginoFwd.Jit

open DraginoFwd.Hal
open DraginoFwd.Lib.Memory
open DraginoFwd.Lib.GapSort

/-- `JIT_QUEUE_MAX` -/
abbrev jitQueueMax : Nat := 32
/-- `JIT_NUM_BEACON_IN_QUEUE` -/
def jitNumBeaconInQueue : Nat := 3

/-- `TX_START_DELAY`, in microseconds like all delays below. -/
def txStartDelay : BitVec 32 := 1500#32
/-- `TX_MARGIN_DELAY` -/
def txMarginDelay : BitVec 32 := 1000#32
/-- `TX_JIT_DELAY` -/
def txJitDelay : BitVec 32 := 30000#32
/-- `TX_MAX_ADVANCE_DELAY`: `(JIT_NUM_BEACON_IN_QUEUE + 1) * 128 * 1E6` -/
def txMaxAdvanceDelay : BitVec 32 := 512000000#32
/-- `BEACON_GUARD` -/
def beaconGuard : BitVec 32 := 3000000#32
/-- `BEACON_RESERVED` -/
def beaconReserved : BitVec 32 := 2120000#32

/-- `enum jit_pkt_type_e` -/
inductive JitPktType where
  | downlinkClassA
  | downlinkClassB
  | downlinkClassC
  | beacon
  deriving DecidableEq, Repr

/-- `enum jit_error_e` -/
inductive JitError where
  | ok
  | tooLate
  | tooEarly
  | full
  | empty
  | collisionPacket
  | collisionBeacon
  | txFreq
  | txPower
  | gpsUnlocked
  | invalid
  deriving DecidableEq, Repr

/-- `struct jit_node_s` -/
structure JitNode where
  pkt : LgwPktTx
  pktType : JitPktType
  preDelay : BitVec 32
  postDelay : BitVec 32
  deriving DecidableEq

/-- A node cleared by `memset`. -/
def JitNode.zero : JitNode := ⟨.zero, .downlinkClassA, 0#32, 0#32⟩

/-- `struct jit_queue_s` -/
structure JitQueue where
  numPkt : BitVec 8
  numBeacon : BitVec 8
  nodes : Vector JitNode jitQueueMax
  deriving DecidableEq

/-- `nodes[i]` -/
abbrev JitQueue.node (q : JitQueue) (i : Fin jitQueueMax) : JitNode := q.nodes[i]

/-- The nodes in use, `nodes[0..num_pkt-1]`. -/
def JitQueue.entries (q : JitQueue) : List JitNode := q.nodes.toList.take q.numPkt.toNat

/-- `jit_queue_init` -/
def jitQueueInit : JitQueue := ⟨0#8, 0#8, Vector.replicate jitQueueMax .zero⟩

/-- `jit_queue_is_full` -/
def jitQueueIsFull (q : JitQueue) : Bool := q.numPkt.toNat == jitQueueMax

/-- `jit_queue_is_empty` -/
def jitQueueIsEmpty (q : JitQueue) : Bool := q.numPkt == 0#8

/-- `compare`: the difference of the two counters as `int`s. -/
def compare (p q : JitNode) : Int := intDifference p.pkt.countUs q.pkt.countUs

/-- `jit_sort_queue`, with the `qsort_r` of `loragw_hal.c`. -/
def jitSortQueue (q : JitQueue) : JitQueue :=
  if q.numPkt = 0#8 then q else { q with nodes := gapSort compare q.numPkt.toNat q.nodes }

/-- `jit_collision_test` -/
def jitCollisionTest
    (p1CountUs p1PreDelay p1PostDelay p2CountUs p2PreDelay p2PostDelay : BitVec 32) :
    Bool :=
  p1CountUs - p2CountUs ≤ p1PreDelay + p2PostDelay + txMarginDelay ||
    p2CountUs - p1CountUs ≤ p2PreDelay + p1PostDelay + txMarginDelay

/-! ## Enqueue -/

/-- `packet_pre_delay` of `jit_enqueue`. -/
def packetPreDelay : JitPktType → BitVec 32
  | .beacon => txStartDelay + beaconGuard + txJitDelay
  | _ => txStartDelay + txJitDelay

/-- `packet_post_delay` of `jit_enqueue`: the time on air in microseconds, cut to 32 bits, or the
slot reserved for a beacon. -/
def packetPostDelay (tgt : Target) (packet : LgwPktTx) : JitPktType → BitVec 32
  | .beacon => beaconReserved
  | _ => tgt.lgwTimeOnAir packet * 1000#32

/-- The collision test of a packet that is not queued yet with the node `n`. -/
def collidesWith (countUs preDelay postDelay : BitVec 32) (n : JitNode) : Bool :=
  jitCollisionTest countUs preDelay postDelay n.pkt.countUs n.preDelay n.postDelay

/-- The slot behind node `n` for an immediate downlink. -/
def slotBehind (preDelay : BitVec 32) (n : JitNode) : BitVec 32 :=
  n.pkt.countUs + n.postDelay + preDelay + txJitDelay + txMarginDelay

/-- The search for the best slot: behind the first node whose successor leaves room, else behind
the last one. -/
def bestSlot (preDelay postDelay : BitVec 32) : List JitNode → BitVec 32 → BitVec 32
  | [], asapCountUs => asapCountUs
  | [n], _ => slotBehind preDelay n
  | n :: m :: rest, _ =>
      let asapCountUs := slotBehind preDelay n
      if collidesWith asapCountUs preDelay postDelay m then
        bestSlot preDelay postDelay (m :: rest) asapCountUs
      else asapCountUs

/-- `time_us + 1E6`, a sum of type `double`. -/
def asapMargin (tgt : Target) (timeUs : BitVec 32) : BitVec 32 :=
  tgt.doubleToU32 (timeUs.toNat + 1000000)

/-- The time given to an immediate downlink. -/
def asapCountUs (tgt : Target) (q : JitQueue) (timeUs preDelay postDelay : BitVec 32) : BitVec 32 :=
  let asap := asapMargin tgt timeUs
  if q.entries.any (collidesWith asap preDelay postDelay) then
    bestSlot preDelay postDelay q.entries asap
  else asap

/-- `target_pre_delay`: class A and C downlinks ignore the guard of a beacon. -/
def targetPreDelay (pktType : JitPktType) (n : JitNode) : BitVec 32 :=
  if (pktType = .downlinkClassA ∨ pktType = .downlinkClassC) ∧ n.pktType = .beacon then txStartDelay
  else n.preDelay

/-- The overlap test of criterion 3. -/
def overlaps (node n : JitNode) : Bool :=
  jitCollisionTest node.pkt.countUs node.preDelay node.postDelay n.pkt.countUs
    (targetPreDelay node.pktType n) n.postDelay

/-- The error reported for an overlap with `n`. -/
def errCollision (n : JitNode) : JitError :=
  match n.pktType with
  | .beacon => .collisionBeacon
  | _ => .collisionPacket

/-- The last lines of `jit_enqueue`: write the node behind the nodes in use and sort. -/
def jitInsert (q : JitQueue) (node : JitNode) : Except OutOfBounds JitQueue :=
  if h : q.numPkt.toNat < jitQueueMax then
    .ok (jitSortQueue
      { numPkt := q.numPkt + 1#8
        numBeacon := if node.pktType = .beacon then q.numBeacon + 1#8 else q.numBeacon
        nodes := q.nodes.set q.numPkt.toNat node h })
  else .error ⟨q.numPkt.toNat, jitQueueMax⟩

/-- The packet as `jit_enqueue` queues it: an immediate downlink gets a time stamp. -/
def stampPacket (tgt : Target) (q : JitQueue) (timeUs : BitVec 32) (packet : LgwPktTx)
    (pktType : JitPktType) : LgwPktTx :=
  match pktType with
  | .downlinkClassC =>
      { packet with
        txMode := timestamped
        countUs := asapCountUs tgt q timeUs (packetPreDelay pktType)
          (packetPostDelay tgt packet pktType) }
  | _ => packet

/-- The node `jit_enqueue` builds for a packet. -/
def jitNode (tgt : Target) (q : JitQueue) (timeUs : BitVec 32) (packet : LgwPktTx)
    (pktType : JitPktType) : JitNode where
  pkt := stampPacket tgt q timeUs packet pktType
  pktType := pktType
  preDelay := packetPreDelay pktType
  postDelay := packetPostDelay tgt packet pktType

/-- The second critical section of `jit_enqueue`. The caller's packet is returned as the call
leaves it. -/
def jitEnqueueSection (tgt : Target) (q : JitQueue) (timeUs : BitVec 32) (packet : LgwPktTx)
    (pktType : JitPktType) : Except OutOfBounds (JitError × LgwPktTx × JitQueue) :=
  let node := jitNode tgt q timeUs packet pktType
  -- criterion 1: too late
  if node.pkt.countUs - timeUs ≤ txStartDelay + txMarginDelay + txJitDelay then
    .ok (.tooLate, node.pkt, q)
  -- criterion 2: too much in advance, for class A and B only
  else if (pktType = .downlinkClassA ∨ pktType = .downlinkClassB) ∧
      node.pkt.countUs - timeUs > txMaxAdvanceDelay then
    .ok (.tooEarly, node.pkt, q)
  else
    -- criterion 3: overlap with a queued packet
    match q.entries.find? (overlaps node) with
    | some n => .ok (errCollision n, node.pkt, q)
    | none => (jitInsert q node).map fun q' => (.ok, node.pkt, q')

/-- `jit_enqueue` -/
def jitEnqueue (tgt : Target) (q : JitQueue) (timeUs : BitVec 32) (packet : LgwPktTx)
    (pktType : JitPktType) : Except OutOfBounds (JitError × LgwPktTx × JitQueue) :=
  if jitQueueIsFull q then .ok (.full, packet, q)
  else jitEnqueueSection tgt q timeUs packet pktType

/-! ## Removal -/

/-- Replace node `i` by the last node in use, clear the latter and sort. -/
def jitRemoveAt (q : JitQueue) (i last : Fin jitQueueMax) : JitQueue :=
  jitSortQueue
    { numPkt := q.numPkt - 1#8
      numBeacon := if (q.node i).pktType = .beacon then q.numBeacon - 1#8 else q.numBeacon
      nodes := (q.nodes.set i (q.node last)).set last .zero }

@[simp] theorem jitSortQueue_numPkt (q : JitQueue) : (jitSortQueue q).numPkt = q.numPkt := by
  unfold jitSortQueue
  split <;> rfl

@[simp] theorem jitSortQueue_numBeacon (q : JitQueue) :
    (jitSortQueue q).numBeacon = q.numBeacon := by
  unfold jitSortQueue
  split <;> rfl

@[simp] theorem jitRemoveAt_numPkt (q : JitQueue) (i last : Fin jitQueueMax) :
    (jitRemoveAt q i last).numPkt = q.numPkt - 1#8 := by
  simp [jitRemoveAt]

/-- The second critical section of `jit_dequeue`. -/
def jitDequeueSection (q : JitQueue) (index : Fin jitQueueMax) :
    Except OutOfBounds (LgwPktTx × JitPktType × JitQueue) :=
  let last := (q.numPkt - 1#8).toNat
  if h : last < jitQueueMax then
    .ok ((q.node index).pkt, (q.node index).pktType, jitRemoveAt q index ⟨last, h⟩)
  else .error ⟨last, jitQueueMax⟩

/-- An index that passes the first test of `jit_dequeue`. -/
def queueIndex (index : Int) (h : ¬ (index < 0 ∨ (jitQueueMax : Int) ≤ index)) :
    Fin jitQueueMax := ⟨index.toNat, by omega⟩

/-- `jit_dequeue`: the code, the packet with its type, and the queue. -/
def jitDequeue (q : JitQueue) (index : Int) :
    Except OutOfBounds (JitError × Option (LgwPktTx × JitPktType) × JitQueue) :=
  if h : index < 0 ∨ (jitQueueMax : Int) ≤ index then .ok (.invalid, none, q)
  else if jitQueueIsEmpty q then .ok (.empty, none, q)
  else
    (jitDequeueSection q (queueIndex index h)).map fun (pkt, pktType, q') =>
      (.ok, some (pkt, pktType), q')

/-! ## Peek -/

/-- The index of the packet with the highest priority, after a look at node `n`. -/
def priorityIdx (timeUs : BitVec 32) (q : JitQueue) (n : Fin jitQueueMax) :
    Option (Fin jitQueueMax) → Option (Fin jitQueueMax)
  | none => some n
  | some k =>
      if (q.node n).pkt.countUs - timeUs < (q.node k).pkt.countUs - timeUs then some n else some k

/-- The loop of `jit_peek` from index `i` on. The index of the packet with the highest priority so
far is `none` where the code has `-1`. After a purge `i = 0; continue` goes on with index 1, and
the priority index keeps its value. -/
def jitPeekScan (timeUs : BitVec 32) (q : JitQueue) (i : Nat) (idx : Option (Fin jitQueueMax)) :
    JitQueue × Option (Fin jitQueueMax) :=
  if h : i < q.numPkt.toNat ∧ q.numPkt.toNat ≤ jitQueueMax then
    let n : Fin jitQueueMax := ⟨i, by omega⟩
    if (q.node n).pkt.countUs - timeUs ≥ txMaxAdvanceDelay then
      jitPeekScan timeUs (jitRemoveAt q n ⟨q.numPkt.toNat - 1, by omega⟩) 1 idx
    else jitPeekScan timeUs q (i + 1) (priorityIdx timeUs q n idx)
  else (q, idx)
termination_by q.numPkt.toNat * 33 + (33 - i)
decreasing_by
  · have hlast : (q.numPkt - 1#8).toNat = q.numPkt.toNat - 1 := by
      rw [BitVec.toNat_sub_of_le] <;> bv_omega
    have hmax : jitQueueMax = 32 := rfl
    simp only [jitRemoveAt_numPkt, hlast]
    omega
  · have hmax : jitQueueMax = 32 := rfl
    omega

/-- The second critical section of `jit_peek`. With no packet found the code compares `nodes[-1]`
and then stores `-1` in either case. -/
def jitPeekSection (q : JitQueue) (timeUs : BitVec 32) : Option (Fin jitQueueMax) × JitQueue :=
  let (q', idx) := jitPeekScan timeUs q 0 none
  (idx.filter fun k => (q'.node k).pkt.countUs - timeUs < txJitDelay, q')

/-- `jit_peek`: the code, the index (`none` for `-1`), and the queue. -/
def jitPeek (q : JitQueue) (timeUs : BitVec 32) :
    JitError × Option (Fin jitQueueMax) × JitQueue :=
  if jitQueueIsEmpty q then (.empty, none, q)
  else (.ok, jitPeekSection q timeUs)

end DraginoFwd.Jit
