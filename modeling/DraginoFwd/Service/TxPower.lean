import DraginoFwd.Service.Downlink

/-!
# The power of a downlink

A server asks for a power in `txpk.powe`. `semtech_pull_down` deducts the antenna gain, looks for
the closest lower power of the table with `get_tx_gain_lut_index`, and queues the packet with it.

A packet is never to be queued with more power than was asked for (`PowerKept`). The search is right
for every table (`getTxGainLutIndex_closest`), but the caller takes the first entry when the search
fails. `powerKept_iff` says when that matters: a packet that joins its queue keeps to the request
just when an entry in use is not above the request.
-/

set_option autoImplicit false

namespace DraginoFwd.Service

open DraginoFwd.Hal
open DraginoFwd.Jit
open DraginoFwd.Lib.Memory

/-! ## The request -/

/-- `txpkt.rf_power` after `txpk.powe` has been parsed, on a packet that `memset` has cleared. The
number is in whole dBm, and the byte keeps its low eight bits. -/
def rfPowerOf (antennaGain : BitVec 8) (powe : Option Int) : BitVec 8 :=
  match powe with
  | none => 0#8
  | some number => BitVec.ofInt 8 number - antennaGain

/-- The power that has been asked for, with the antenna gain deducted. The gain is configured as an
`int8_t`. -/
def requestedPower (antennaGain : BitVec 8) (powe : Option Int) : Int :=
  match powe with
  | none => 0
  | some number => number - antennaGain.toInt

/-- The downlink with that power. -/
def withPowe (antennaGain : BitVec 8) (powe : Option Int) (d : PullResp) : PullResp :=
  { d with txpkt := { d.txpkt with rfPower := rfPowerOf antennaGain powe } }

/-- `semtech_pull_down` from `txpk.powe` on, for a datagram that has no errors. -/
def handlePowe (tgt : Target) (cfg : TxConfig) (antennaGain : BitVec 8) (timeUs : BitVec 32)
    (powe : Option Int) (d : PullResp) (s : DownState) : Except OutOfBounds Handled :=
  handleDown tgt cfg timeUs (withPowe antennaGain powe d) s

/-! ## The condition and the property -/

/-- The entry is one of the table. -/
def TxGainLut.Uses (lut : TxGainLut) (i : Fin txGainLutSizeMax) : Prop := i.val < lut.size

/-- The power of an entry in dBm. -/
def TxGainLut.power (lut : TxGainLut) (i : Fin txGainLutSizeMax) : Int := (lut.rfPower.get i).toInt

/-- The entry has the greatest power of those that are not above the request. -/
structure TxGainLut.Closest (lut : TxGainLut) (request : Int) (i : Fin txGainLutSizeMax) :
    Prop where
  uses : lut.Uses i
  le : lut.power i ≤ request
  greatest : ∀ j, lut.Uses j → lut.power j ≤ request → lut.power j ≤ lut.power i

/-- The table has a power that is not above the request. -/
def TxGainLut.Supports (lut : TxGainLut) (request : Int) : Prop :=
  ∃ i, lut.Uses i ∧ lut.power i ≤ request

/-- The packet carries a power of the table that is not above the request. -/
def TxGainLut.Keeps (lut : TxGainLut) (request : Int) (packet : LgwPktTx) : Prop :=
  ∃ i, lut.Uses i ∧ packet.rfPower = lut.rfPower.get i ∧ lut.power i ≤ request

section Property

variable (tgt : Target) (cfg : TxConfig) (antennaGain : BitVec 8) (timeUs : BitVec 32)
  (powe : Option Int) (d : PullResp) (s : DownState)

/-- The search finds the closest power of the tables whenever there is one, and a packet that joins
a queue carries a power of the table that is not above the request. -/
def PowerKept : Prop :=
  (∀ c rfPower, (cfg.txlut c).Supports rfPower.toInt →
    ∃ i, getTxGainLutIndex (cfg.txlut c) rfPower = some i ∧
      (cfg.txlut c).Closest rfPower.toInt i) ∧
  ∀ r, handlePowe tgt cfg antennaGain timeUs powe d s = .ok r →
    ∀ c node, Inserted (s.queues c) node (r.state.queues c) →
      (cfg.txlut c).Keeps (requestedPower antennaGain powe) node.pkt

/-- The packet is for chain `c`, at a frequency that is accepted, and `jit_enqueue` takes it. -/
structure Joins (c : Fin lgwRfChainNb) : Prop where
  chain : d.txpkt.rfChain.toNat = c.val
  freq : checkFreq cfg c d.txpkt = .ok
  room : (s.queues c).numPkt.toNat < jitQueueMax
  admitted : Admitted tgt cfg timeUs (withPowe antennaGain powe d) s c

end Property

/-! ## The search -/

theorem TxGainLut.power_le (lut : TxGainLut) (i : Fin txGainLutSizeMax) : lut.power i ≤ 127 :=
  BitVec.toInt_le

theorem TxGainLut.le_power (lut : TxGainLut) (i : Fin txGainLutSizeMax) : -128 ≤ lut.power i :=
  BitVec.le_toInt _

/-- What the loop of `get_tx_gain_lut_index` has found among the entries `l`. -/
def BestOf (lut : TxGainLut) (request : Int) (l : List (Fin txGainLutSizeMax)) :
    Option (Fin txGainLutSizeMax × Int) → Prop
  | none => ∀ j ∈ l, request < lut.power j
  | some (i, diff) => i ∈ l ∧ diff = request - lut.power i ∧ 0 ≤ diff ∧
      ∀ j ∈ l, lut.power j ≤ request → lut.power j ≤ lut.power i

/-- One more entry. -/
theorem bestOf_lutStep (lut : TxGainLut) (rfPower : BitVec 8) {l : List (Fin txGainLutSizeMax)}
    {best : Option (Fin txGainLutSizeMax × Int)} (h : BestOf lut rfPower.toInt l best)
    (i : Fin txGainLutSizeMax) :
    BestOf lut rfPower.toInt (l ++ [i]) (lutStep lut rfPower best i) := by
  have hpower : (lut.rfPower.get i).toInt = lut.power i := rfl
  simp only [lutStep, hpower]
  split
  · -- skipped: above the request
    next habove =>
    cases best with
    | none =>
      intro j hj
      rcases List.mem_append.1 hj with hj | hj
      · exact h j hj
      · rw [List.mem_singleton.1 hj]
        omega
    | some found =>
      obtain ⟨hmem, hdiff, hnonneg, hgreatest⟩ := h
      refine ⟨List.mem_append_left _ hmem, hdiff, hnonneg, ?_⟩
      intro j hj hle
      rcases List.mem_append.1 hj with hj | hj
      · exact hgreatest j hj hle
      · rw [List.mem_singleton.1 hj] at hle
        omega
  · next hbelow =>
    cases best with
    | none =>
      -- the first entry that is not above the request
      refine ⟨by simp, rfl, by omega, ?_⟩
      intro j hj hle
      rcases List.mem_append.1 hj with hj | hj
      · have habove := h j hj
        omega
      · rw [List.mem_singleton.1 hj]
    | some found =>
      obtain ⟨hmem, hdiff, hnonneg, hgreatest⟩ := h
      show BestOf lut _ _ (if _ then _ else _)
      split
      · -- closer than the best so far
        refine ⟨by simp, rfl, by omega, ?_⟩
        intro j hj hle
        rcases List.mem_append.1 hj with hj | hj
        · have hbest := hgreatest j hj hle
          omega
        · rw [List.mem_singleton.1 hj]
      · refine ⟨List.mem_append_left _ hmem, hdiff, hnonneg, ?_⟩
        intro j hj hle
        rcases List.mem_append.1 hj with hj | hj
        · exact hgreatest j hj hle
        · rw [List.mem_singleton.1 hj]
          omega

/-- The whole loop, by induction on the entries that are left. -/
theorem bestOf_foldl (lut : TxGainLut) (rfPower : BitVec 8) {l : List (Fin txGainLutSizeMax)}
    {best : Option (Fin txGainLutSizeMax × Int)} (h : BestOf lut rfPower.toInt l best)
    (rest : List (Fin txGainLutSizeMax)) :
    BestOf lut rfPower.toInt (l ++ rest) (rest.foldl (lutStep lut rfPower) best) := by
  induction rest generalizing l best with
  | nil => simpa using h
  | cons i rest ih =>
      rw [List.append_cons, List.foldl_cons]
      exact ih (bestOf_lutStep lut rfPower h i)

/-- The loop runs over the entries in use. -/
theorem mem_take_finRange (lut : TxGainLut) (i : Fin txGainLutSizeMax) :
    i ∈ (List.finRange txGainLutSizeMax).take lut.size ↔ lut.Uses i := by
  constructor
  · intro hmem
    obtain ⟨n, hn, hget⟩ := List.mem_take_iff_getElem.1 hmem
    rw [List.getElem_finRange] at hget
    have hval : n = i.val := congrArg Fin.val hget
    rw [TxGainLut.Uses, ← hval]
    omega
  · intro huses
    refine List.mem_take_iff_getElem.2 ⟨i.val, ?_, ?_⟩
    · rw [List.length_finRange]
      exact lt_min huses i.isLt
    · rw [List.getElem_finRange]
      rfl

/-- `get_tx_gain_lut_index` fails just when every power of the table is above the request, and finds
the closest one otherwise. -/
theorem getTxGainLutIndex_spec (lut : TxGainLut) (rfPower : BitVec 8) :
    match getTxGainLutIndex lut rfPower with
    | none => ∀ j, lut.Uses j → rfPower.toInt < lut.power j
    | some i => lut.Closest rfPower.toInt i := by
  have hstart : BestOf lut rfPower.toInt [] none := by
    intro j hj
    cases hj
  have hloop := bestOf_foldl lut rfPower hstart ((List.finRange txGainLutSizeMax).take lut.size)
  rw [List.nil_append] at hloop
  rw [getTxGainLutIndex]
  cases hbest : ((List.finRange txGainLutSizeMax).take lut.size).foldl
    (lutStep lut rfPower) none with
  | none =>
      rw [hbest] at hloop
      exact fun j hj => hloop j ((mem_take_finRange lut j).2 hj)
  | some found =>
      rw [hbest] at hloop
      obtain ⟨hmem, hdiff, hnonneg, hgreatest⟩ := hloop
      refine ⟨(mem_take_finRange lut _).1 hmem, by omega, ?_⟩
      exact fun j hj => hgreatest j ((mem_take_finRange lut j).2 hj)

/-- The closest power is found whenever there is one. -/
theorem getTxGainLutIndex_closest (lut : TxGainLut) (rfPower : BitVec 8)
    (h : lut.Supports rfPower.toInt) :
    ∃ i, getTxGainLutIndex lut rfPower = some i ∧ lut.Closest rfPower.toInt i := by
  have hspec := getTxGainLutIndex_spec lut rfPower
  cases hindex : getTxGainLutIndex lut rfPower with
  | none =>
      rw [hindex] at hspec
      obtain ⟨i, huses, hle⟩ := h
      have habove := hspec i huses
      omega
  | some i =>
      rw [hindex] at hspec
      exact ⟨i, rfl, hspec⟩

/-! ## The packet -/

/-- The byte is the request, reduced to eight bits. -/
theorem toInt_rfPowerOf (antennaGain : BitVec 8) (powe : Option Int) :
    (rfPowerOf antennaGain powe).toInt = (requestedPower antennaGain powe).bmod 256 := by
  cases powe with
  | none => rfl
  | some number =>
      show (BitVec.ofInt 8 number - antennaGain).toInt = (number - antennaGain.toInt).bmod 256
      rw [BitVec.toInt_sub, BitVec.toInt_ofInt]
      exact Int.bmod_sub_bmod

/-- The packet leaves the check with the power of the entry that the search has stored. -/
theorem rfPower_checkPower (lut : TxGainLut) (packet : LgwPktTx) :
    (checkPower lut packet).2.2.rfPower =
      lut.rfPower.get ((getTxGainLutIndex lut packet.rfPower).getD 0) := by
  rw [checkPower]
  split
  · rfl
  · next hsame =>
    exact (not_not.1 fun hne => hsame (Or.inr hne)).symm

/-- The packet keeps to the request if any power of the table does. -/
theorem keeps_checkPower_iff (lut : TxGainLut) {packet : LgwPktTx} {request : Int}
    (h : packet.rfPower.toInt = request.bmod 256) :
    lut.Keeps request (checkPower lut packet).2.2 ↔ lut.Supports request := by
  constructor
  · rintro ⟨i, huses, -, hle⟩
    exact ⟨i, huses, hle⟩
  · rintro ⟨i, huses, hle⟩
    have hlow := lut.le_power i
    have hspec := getTxGainLutIndex_spec lut packet.rfPower
    rw [TxGainLut.Keeps, rfPower_checkPower]
    cases hindex : getTxGainLutIndex lut packet.rfPower with
    | none =>
        -- the request wraps, and no entry reaches it
        rw [hindex] at hspec
        have habove := hspec i huses
        have hbig : 127 < request := by
          by_contra hsmall
          rw [h, Int.bmod_eq_of_le (by omega) (by omega)] at habove
          omega
        have hfirst := lut.power_le 0
        exact ⟨0, Nat.lt_of_le_of_lt (Nat.zero_le _) huses, rfl, by omega⟩
    | some j =>
        rw [hindex] at hspec
        refine ⟨j, hspec.uses, rfl, ?_⟩
        have hfound := hspec.le
        have hhigh := lut.power_le j
        by_cases hbig : 127 < request
        · omega
        · rw [h, Int.bmod_eq_of_le (by omega) (by omega)] at hfound
          exact hfound

section Downlink

variable {tgt : Target} {cfg : TxConfig} {antennaGain : BitVec 8} {timeUs : BitVec 32}
  {powe : Option Int} {d : PullResp} {s : DownState} {c : Fin lgwRfChainNb}

/-- The time stamp of a packet changes in `jit_enqueue`, its power does not. -/
theorem rfPower_downNode (d : PullResp) :
    (downNode tgt cfg timeUs d s c).pkt.rfPower = (cfg.adjusted c d.txpkt).rfPower := by
  show (stampPacket tgt _ _ _ _).rfPower = _
  cases d.downlinkType <;> rfl

/-- A queue that a node has joined tells which one it was. -/
theorem inserted_unique {q q' : JitQueue} {node node' : JitNode} (h : Inserted q node q')
    (h' : Inserted q node' q') : node = node' := by
  have hperm : (node :: q.entries).Perm (node' :: q.entries) := h.perm.symm.trans h'.perm
  have hcoe : (node ::ₘ (q.entries : Multiset JitNode)) =
      node' ::ₘ (q.entries : Multiset JitNode) :=
    Multiset.coe_eq_coe.2 hperm
  exact (Multiset.cons_inj_left _).1 hcoe

/-- A packet that `jit_enqueue` takes joins its queue. -/
theorem Joins.inserted (h : Joins tgt cfg antennaGain timeUs powe d s c) :
    ∃ r, handlePowe tgt cfg antennaGain timeUs powe d s = .ok r ∧
      Inserted (s.queues c) (downNode tgt cfg timeUs (withPowe antennaGain powe d) s c)
        (r.state.queues c) := by
  have hhandle : handlePowe tgt cfg antennaGain timeUs powe d s = _ :=
    handleDown_enqueue h.chain h.freq
  rcases jitEnqueue_verdict tgt (s.queues c) timeUs
      (cfg.adjusted c (withPowe antennaGain powe d).txpkt) d.downlinkType with
    ⟨-, hfull | hnot⟩ | ⟨-, -, pkt', q', heq, hins⟩ | ⟨hover, -⟩
  · exact absurd hfull (Nat.ne_of_lt h.room)
  · exact absurd h.admitted hnot
  · refine ⟨_, hhandle.trans (congrArg _ heq), ?_⟩
    show Inserted _ _ (Function.update s.queues c q' c)
    rw [Function.update_self]
    exact hins
  · exact absurd h.room (Nat.not_lt.2 (Nat.le_of_lt hover))

/-- The queues behind a downlink: as they were, or with the packet in the queue of its chain. -/
theorem handlePowe_queues {r : Handled}
    (h : handlePowe tgt cfg antennaGain timeUs powe d s = .ok r) :
    r.state.queues = s.queues ∨
      ∃ c q', Joins tgt cfg antennaGain timeUs powe d s c ∧
        r.state.queues = Function.update s.queues c q' ∧
        Inserted (s.queues c) (downNode tgt cfg timeUs (withPowe antennaGain powe d) s c) q' := by
  by_cases hchain : d.txpkt.rfChain.toNat < lgwRfChainNb
  · obtain ⟨c, hc⟩ : ∃ c : Fin lgwRfChainNb, d.txpkt.rfChain.toNat = c.val := ⟨⟨_, hchain⟩, rfl⟩
    by_cases hfreq : checkFreq cfg c (withPowe antennaGain powe d).txpkt = .ok
    · have hhandle : handlePowe tgt cfg antennaGain timeUs powe d s = _ :=
        handleDown_enqueue hc hfreq
      rcases jitEnqueue_verdict tgt (s.queues c) timeUs
          (cfg.adjusted c (withPowe antennaGain powe d).txpkt) d.downlinkType with
        ⟨⟨e, pkt', -, -, heq⟩, -⟩ | ⟨hroom, hadm, pkt', q', heq, hnode⟩ | ⟨-, -, fault, heq⟩
      · -- rejected
        cases h.symm.trans (hhandle.trans (congrArg _ heq))
        exact Or.inl (Function.update_eq_self c s.queues)
      · cases h.symm.trans (hhandle.trans (congrArg _ heq))
        exact Or.inr ⟨c, q', ⟨hc, hfreq, hroom, hadm⟩, rfl, hnode⟩
      · cases h.symm.trans (hhandle.trans (congrArg _ heq))
    · have hreject : handlePowe tgt cfg antennaGain timeUs powe d s = _ := handleDown_freq hc hfreq
      cases h.symm.trans hreject
      exact Or.inl rfl
  · have hnone : handlePowe tgt cfg antennaGain timeUs powe d s = _ := handleDown_noChain hchain
    cases h.symm.trans hnone
    exact Or.inl rfl

/-- No other packet joins a queue. -/
theorem joins_of_inserted {r : Handled} (h : handlePowe tgt cfg antennaGain timeUs powe d s = .ok r)
    {node : JitNode} (hins : Inserted (s.queues c) node (r.state.queues c)) :
    Joins tgt cfg antennaGain timeUs powe d s c ∧
      node = downNode tgt cfg timeUs (withPowe antennaGain powe d) s c := by
  rcases handlePowe_queues h with hsame | ⟨c', q', hjoins, hqueues, hnode⟩
  · rw [hsame] at hins
    exact absurd hins (not_inserted_self _ _)
  · rw [hqueues] at hins
    by_cases hc : c = c'
    · subst hc
      rw [Function.update_self] at hins
      exact ⟨hjoins, inserted_unique hins hnode⟩
    · rw [Function.update_of_ne hc] at hins
      exact absurd hins (not_inserted_self _ _)

/-- The packet in the queue keeps to the request if any power of the table does. -/
theorem keeps_downNode_iff :
    (cfg.txlut c).Keeps (requestedPower antennaGain powe)
        (downNode tgt cfg timeUs (withPowe antennaGain powe d) s c).pkt ↔
      (cfg.txlut c).Supports (requestedPower antennaGain powe) := by
  have hbyte : (withPowe antennaGain powe d).txpkt.rfPower.toInt =
      (requestedPower antennaGain powe).bmod 256 := toInt_rfPowerOf antennaGain powe
  rw [← keeps_checkPower_iff (cfg.txlut c) hbyte, TxGainLut.Keeps, rfPower_downNode]
  rfl

end Downlink

/-- The power is kept just when the packet joins no queue, or a power of the table is not above the
request. -/
theorem powerKept_iff (tgt : Target) (cfg : TxConfig) (antennaGain : BitVec 8) (timeUs : BitVec 32)
    (powe : Option Int) (d : PullResp) (s : DownState) :
    PowerKept tgt cfg antennaGain timeUs powe d s ↔
      ∀ c, Joins tgt cfg antennaGain timeUs powe d s c →
        (cfg.txlut c).Supports (requestedPower antennaGain powe) := by
  constructor
  · rintro ⟨-, hkept⟩ c hjoins
    obtain ⟨r, hr, hins⟩ := hjoins.inserted
    exact keeps_downNode_iff.1 (hkept r hr c _ hins)
  · intro hsupports
    refine ⟨fun c rfPower => getTxGainLutIndex_closest (cfg.txlut c) rfPower, ?_⟩
    intro r hr c node hins
    obtain ⟨hjoins, rfl⟩ := joins_of_inserted hr hins
    exact keeps_downNode_iff.2 (hsupports c hjoins)

/-! ## A request below the table -/

/-- A downlink for the time 100000. -/
def earlyPullResp : PullResp :=
  ⟨1#8, 2#8, fskPacket 50000#32 5#16 20#16 100000#32, .downlinkClassA⟩

/-- 10 dBm are asked for, and the only power of the table is 14 dBm. -/
theorem low_request_raised :
    ¬ ∀ tgt cfg antennaGain timeUs powe d s, PowerKept tgt cfg antennaGain timeUs powe d s := by
  intro hall
  obtain ⟨-, hkept⟩ := hall fskTarget scanConfig 0#8 1000#32 (some 10) earlyPullResp downStart
  have hjoins : Joins fskTarget scanConfig 0#8 1000#32 (some 10) earlyPullResp downStart 0 := by
    refine ⟨rfl, by decide +kernel, by decide +kernel, ⟨by decide +kernel, ?_, ?_⟩⟩
    · exact fun _ => by decide +kernel
    · have hempty : (downStart.queues 0).entries = [] := rfl
      rw [hempty]
      intro n hn
      cases hn
  obtain ⟨r, hr, hins⟩ := hjoins.inserted
  obtain ⟨i, huses, -, hle⟩ := hkept r hr 0 _ hins
  have hfourteen : ∀ i, (scanConfig.txlut 0).power i = 14 := by decide +kernel
  rw [hfourteen] at hle
  exact absurd hle (by decide)

end DraginoFwd.Service
