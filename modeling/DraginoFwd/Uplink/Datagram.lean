import DraginoFwd.Uplink.Width

/-!
# When a datagram is faithful

A datagram is meant to be one JSON object: the array `rxpk` with an object for each packet that was
counted as forwarded, and the member `stat` if the report was taken (`Faithful`). The index into the
buffer and the number of packets in the datagram are two records of what has been written, and they
come apart when a packet is skipped behind its counting. `Shape` says what the text is in each case:
an array with some objects, or a text that nothing in the rest of a datagram makes readable
(`Broken`).

An iteration sends nothing or a faithful datagram exactly when all packets that it counts can be
serialized with finite values, the report did not become ready between the end of the array and the
report, the report is a readable member, and the datagram fits its buffer
(`pushUp_faithful_iff`).
-/

set_option autoImplicit false

namespace DraginoFwd.Uplink

open DraginoFwd.Hal
open DraginoFwd.Lib.JsonReader
open DraginoFwd.Lib.Memory

/-! ## The specification -/

/-- The member `rxpk`: an object for each counted packet, in order. Without packets it may be
missing. -/
def RxpkMember (counted : List LgwPktRx) (members : List (List Char × Json)) : Prop :=
  members = [] ∧ counted = [] ∨
    ∃ objs, members = [("rxpk".toList, .arr objs)] ∧ List.Forall₂ PacketObject counted objs

/-- The member `stat`, if the report was taken. -/
def StatMember (reported : Bool) (members : List (List Char × Json)) : Prop :=
  members = [] ∧ reported = false ∨
    ∃ m, members = [("stat".toList, .obj m)] ∧ reported = true

/-- The text of a datagram is one object with the two members. -/
def FaithfulText (counted : List LgwPktRx) (reported : Bool) (text : List Char) : Prop :=
  ∃ rxpk stat, parse text = some (.obj (rxpk ++ stat)) ∧ RxpkMember counted rxpk ∧
    StatMember reported stat

/-- An iteration stays in its buffer and sends nothing or a faithful datagram. -/
def Faithful : Except OutOfBounds Pushed → Prop
  | .error _ => False
  | .ok pushed => ∀ text, pushed.sent = some text →
      FaithfulText pushed.counted pushed.reported text

/-- The packets that pass the filters, from index `i` on, with their times. -/
def forwardedFrom (cfg : PushConfig) (env : PushEnv) :
    Nat → List LgwPktRx → List (PktTime × LgwPktRx)
  | _, [] => []
  | i, p :: ps =>
      if forwards cfg (env.keyExist i) p then
        (env.time i, p) :: forwardedFrom cfg env (i + 1) ps
      else forwardedFrom cfg env (i + 1) ps

/-- The packets of a batch that pass the filters, with their times. -/
def forwarded (cfg : PushConfig) (env : PushEnv) (fetched : Fetched) : List (PktTime × LgwPktRx) :=
  forwardedFrom cfg env 0 fetched.packets

/-- There is something to send: a packet that can be serialized, or a report when the array ends. -/
def Sends (cfg : PushConfig) (env : PushEnv) (fetched : Fetched) : Prop :=
  (fetched.packets ≠ [] ∨ env.reads.atFetch = true) ∧
    ((∃ f ∈ forwarded cfg env fetched, Serializable f.2) ∨ env.reads.atArrayEnd = true)

/-- The report is the member `stat`, and its value is an object. -/
def ReportReadable (status : StatusReport) : Prop :=
  ∃ m, parse ('{' :: (status.text ++ ['}'])) = some (.obj [("stat".toList, .obj m)])

/-- The objects of packets, with `n` before them. -/
def arrayText : Nat → List (PktTime × LgwPktRx) → List Char
  | _, [] => []
  | n, f :: fs =>
      separator n ++ objectText jverField (packetFields f.1 f.2) ++ arrayText (n + 1) fs

/-- The report and the last brace. -/
def endText (env : PushEnv) : List Char :=
  (if env.reads.atReport then env.status.text else []) ++ ['}']

/-- The end of the array, and the comma in front of the report. -/
def closeText (env : PushEnv) : List Char :=
  ']' :: if env.reads.atArrayEnd then [','] else []

/-- The text that an iteration writes if nothing is skipped. -/
def datagramText (cfg : PushConfig) (env : PushEnv) (fetched : Fetched) : List Char :=
  match forwarded cfg env fetched with
  | [] => '{' :: endText env
  | f :: fs => rxpkOpen ++ arrayText 0 (f :: fs) ++ closeText env ++ endText env

/-- The conditions for a datagram. -/
structure Serializes (cfg : PushConfig) (env : PushEnv) (fetched : Fetched) : Prop where
  packets : ∀ f ∈ forwarded cfg env fetched, Serializable f.2 ∧ FloatsFinite f.2
  reads : env.reads.atReport = true → env.reads.atArrayEnd = true
  report : env.reads.atReport = true → ReportReadable env.status
  fits : headerSize + (datagramText cfg env fetched).length < txBuffSize

/-! ## Texts that stay unreadable -/

/-- The machine before a text. -/
abbrev start : State := ⟨.value, []⟩

/-- No continuation that the rest of an iteration can write, after `n` packets, makes the text
readable. -/
structure Broken (text : List Char) (n : Nat) : Prop where
  next : ∀ rest, run start (text ++ '{' :: '"' :: 'j' :: rest) = none
  more : ∀ rest, run start (text ++ ',' :: '{' :: '"' :: 'j' :: rest) = none
  close : ∀ v, run start (text ++ [']', '}']) ≠ some ⟨.after v, []⟩
  stat : ∀ rest, run start (text ++ ']' :: '"' :: 's' :: rest) = none
  commaStat : ∀ rest, run start (text ++ ']' :: ',' :: '"' :: 's' :: rest) = none
  chopped : n = 0 → ∀ rest,
    run start (text.take (text.length - 8) ++ ("\"stat\":".toList ++ rest)) = none

theorem Broken.of_dead {text : List Char} {n : Nat} (h : run start text = none)
    (hchop : n = 0 → run start (text.take (text.length - 8)) = none) : Broken text n where
  next _ := run_append_none h _
  more _ := run_append_none h _
  close v hrun := by
    rw [run_append_none h] at hrun
    cases hrun
  stat _ := run_append_none h _
  commaStat _ := run_append_none h _
  chopped hn _ := run_append_none (hchop hn) _

theorem take_append_sub {xs ys : List Char} (h : 8 ≤ ys.length) :
    (xs ++ ys).take ((xs ++ ys).length - 8) = xs ++ ys.take (ys.length - 8) := by
  have hlen : (xs ++ ys).length - 8 = xs.length + (ys.length - 8) := by
    rw [List.length_append]
    omega
  rw [hlen, List.take_length_add_append]

theorem Cut.length {cut : List Char} (h : Cut cut) : 8 ≤ cut.length := by
  obtain ⟨rest, hrest⟩ := h.comma
  have hlen := congrArg List.length hrest
  rw [List.length_take, List.length_cons] at hlen
  omega

theorem Cut.head {cut : List Char} (h : Cut cut) : ∃ rest, cut = ',' :: rest := by
  obtain ⟨rest, hrest⟩ := h.comma
  refine ⟨rest ++ cut.drop (cut.length - 8), ?_⟩
  rw [← List.cons_append, ← hrest, List.take_append_drop]

/-- An object that is cut off breaks the text. -/
theorem Broken.of_cut {text cut : List Char} {n : Nat} (hcut : Cut cut)
    {members : List (List Char × Json)} {last : List Char × Json} {k : List Frame}
    (hrun : ∀ rest, run start (text ++ ',' :: rest) = run (inObject members last k) (',' :: rest)) :
    Broken (text ++ cut) n := by
  obtain ⟨tail, htail⟩ := hcut.head
  have hread : ∀ rest, run start (text ++ cut ++ rest) =
      run (inObject members last k) (cut ++ rest) := by
    intro rest
    rw [htail, List.append_assoc, List.cons_append]
    exact hrun (tail ++ rest)
  constructor
  case next => exact fun rest => (hread _).trans (hcut.next members last k rest)
  case more => exact fun rest => (hread _).trans (hcut.more members last k rest)
  case close => exact fun v h => hcut.close members last k v ((hread _).symm.trans h)
  case stat => exact fun rest => (hread _).trans (hcut.stat members last k rest)
  case commaStat => exact fun rest => (hread _).trans (hcut.commaStat members last k rest)
  case chopped =>
    intro _ rest
    obtain ⟨front, hfront⟩ := hcut.comma
    have hchopped := hcut.chopped members last k rest
    rw [take_append_sub hcut.length, hfront, List.append_assoc, List.cons_append, hrun]
    rwa [hfront, List.cons_append] at hchopped

/-! ## Texts of arrays -/

/-- What a text is behind `n` packets: the array with these objects, still open, or broken. -/
inductive Shape : List Char → Nat → Option (List Json) → Prop where
  | opened (n : Nat) : Shape rxpkOpen n (some [])
  | items {text : List Char} {n : Nat} (init : List Json) (v : Json)
      (hrun : run start text = some ⟨.after v, [.arr init, .obj [] "rxpk".toList]⟩)
      (hn : 0 < n) : Shape text n (some (init ++ [v]))
  | broken {text : List Char} {n : Nat} (h : Broken text n) : Shape text n none

/-- The number of packets and the objects agree on whether there is one. -/
def InStep (n : Nat) (objs : List Json) : Prop := n = 0 ↔ objs = []

/-- A next object can be read if the number of packets and the objects agree. -/
theorem Shape.enter {text : List Char} {n : Nat} {objs : List Json}
    (h : Shape text n (some objs)) (hstep : InStep n objs) (rest : List Char) :
    run start (text ++ (separator n ++ '{' :: rest)) =
      run ⟨.value, [.arr objs, .obj [] "rxpk".toList]⟩ ('{' :: rest) := by
  cases h with
  | opened n =>
    rw [separator, if_pos (hstep.2 rfl)]
    rfl
  | items init v hrun hn =>
    rw [separator, if_neg (Nat.pos_iff_ne_zero.1 hn), run_append_some hrun]
    rfl

/-- Otherwise nothing can be read any more. -/
theorem Shape.enter_none {text : List Char} {n : Nat} {objs : Option (List Json)}
    (h : Shape text n objs) (hstep : ∀ l, objs = some l → ¬ InStep n l) (rest : List Char) :
    run start (text ++ (separator n ++ '{' :: '"' :: 'j' :: rest)) = none := by
  cases h with
  | opened n =>
    have hn : n ≠ 0 := fun hn => hstep [] rfl ⟨fun _ => rfl, fun _ => hn⟩
    rw [separator, if_neg hn]
    rfl
  | items init v hrun hn =>
    refine absurd ⟨fun h0 => absurd h0 (Nat.pos_iff_ne_zero.1 hn), fun hnil => ?_⟩ (hstep _ rfl)
    exact absurd hnil (List.append_ne_nil_of_right_ne_nil _ (List.cons_ne_nil _ _))
  | broken h =>
    by_cases hn : n = 0
    · rw [separator, if_pos hn]
      exact h.next rest
    · rw [separator, if_neg hn]
      exact h.more rest

/-! ## Writes -/

theorem store_ok {w : Write} {text t : List Char} (h : w.store text = .ok t) :
    t = text ++ w.text ∧ headerSize + text.length + w.extent ≤ txBuffSize := by
  rw [Write.store] at h
  split at h
  · next hfit =>
    cases h
    exact ⟨rfl, hfit⟩
  · cases h

theorem storeAll_ok {ws : List Write} {text t : List Char} (h : storeAll ws text = .ok t) :
    t = text ++ texts ws := by
  induction ws generalizing text with
  | nil =>
    cases h
    rw [texts_nil, List.append_nil]
  | cons w ws ih =>
    obtain ⟨text', hw, hws⟩ := bind_eq_ok.1 h
    obtain ⟨rfl, -⟩ := store_ok hw
    rw [ih hws, texts_cons, List.append_assoc]

/-- With room for a terminator at the end, there is room on the way. -/
theorem storeAll_fits {ws : List Write} {text : List Char}
    (h : headerSize + (text ++ texts ws).length < txBuffSize) :
    storeAll ws text = .ok (text ++ texts ws) := by
  induction ws generalizing text with
  | nil => rw [texts_nil, List.append_nil, storeAll]
  | cons w ws ih =>
    have hextent : w.extent ≤ w.text.length + 1 := by
      cases w with
      | copy text => exact Nat.le_succ _
      | print text => exact Nat.le_refl _
    rw [texts_cons, ← List.append_assoc] at h ⊢
    have hw : w.store text = .ok (text ++ w.text) := by
      rw [List.length_append, List.length_append] at h
      rw [Write.store, if_pos (by omega)]
    rw [storeAll, hw, ok_bind, ih h]

/-! ## One packet -/

/-- The state behind a packet with this layout. -/
def PushState.behind (s : PushState) (l : Layout) (p : LgwPktRx) : PushState :=
  match l.pktEnd with
  | .done => ⟨s.text ++ texts l.writes, s.pktInDgram + 1, s.counted ++ [p]⟩
  | .left => ⟨s.text ++ texts l.writes, s.pktInDgram, s.counted ++ [p]⟩
  | .dropped => ⟨(s.text ++ texts l.writes).take 9, s.pktInDgram, s.counted ++ [p]⟩

section Packet

variable {cfg : PushConfig} {env : PushEnv} {i : Nat} {p : LgwPktRx} {s s' : PushState}

theorem pushPacket_skip (h : forwards cfg (env.keyExist i) p = false) :
    pushPacket cfg env i p s = .ok s := by
  rw [pushPacket, h]
  rfl

theorem pushPacket_ok (h : forwards cfg (env.keyExist i) p = true)
    (hok : pushPacket cfg env i p s = .ok s') :
    s' = s.behind (pktLayout s.pktInDgram (env.time i) p) p := by
  rw [pushPacket, if_pos h] at hok
  obtain ⟨text, hstore, hok⟩ := bind_eq_ok.1 hok
  rw [storeAll_ok hstore] at hok
  rw [PushState.behind]
  cases hend : (pktLayout s.pktInDgram (env.time i) p).pktEnd <;> rw [hend] at hok <;> cases hok <;>
    rfl

theorem pushPacket_fits (h : forwards cfg (env.keyExist i) p = true)
    (hfit : headerSize + (s.text ++ texts (pktLayout s.pktInDgram (env.time i) p).writes).length <
      txBuffSize) :
    pushPacket cfg env i p s = .ok (s.behind (pktLayout s.pktInDgram (env.time i) p) p) := by
  rw [pushPacket, if_pos h]
  simp only [storeAll_fits hfit, ok_bind]
  rw [PushState.behind]
  cases (pktLayout s.pktInDgram (env.time i) p).pktEnd <;> rfl

theorem statText_of_forwards {keyExist : List Char → Bool}
    (h : forwards cfg keyExist p = true) : (statText p).isSome :=
  statText_of_passes (Bool.and_eq_true_iff.1 h).1

end Packet

/-- The packet is written as an object that can be read. -/
def Readable (p : LgwPktRx) : Prop := Serializable p ∧ FloatsFinite p

/-- A complete object is added to the array if it is readable and the state is in step; otherwise
the text is dead. -/
theorem Shape.object {text : List Char} {n : Nat} {objs : Option (List Json)}
    (h : Shape text n objs) (time : PktTime) {p : LgwPktRx} (hstat : (statText p).isSome) :
    (FloatsFinite p ∧ ∃ l, objs = some l ∧ InStep n l ∧
      Shape (text ++ (separator n ++ objectText jverField (packetFields time p))) (n + 1)
        (some (l ++ [packetValue time p]))) ∨
    ((FloatsFinite p → ∀ l, objs = some l → ¬ InStep n l) ∧
      Shape (text ++ (separator n ++ objectText jverField (packetFields time p))) (n + 1)
        none) := by
  have hdead : run start (text ++ (separator n ++ objectText jverField (packetFields time p))) =
      none → Shape (text ++ (separator n ++ objectText jverField (packetFields time p))) (n + 1)
        none := fun hrun =>
    Shape.broken (Broken.of_dead hrun fun hzero => absurd hzero (Nat.succ_ne_zero n))
  by_cases hstep : ∃ l, objs = some l ∧ InStep n l
  · obtain ⟨l, rfl, hl⟩ := hstep
    have henter : run start (text ++ (separator n ++ objectText jverField (packetFields time p))) =
        run ⟨.value, [.arr l, .obj [] "rxpk".toList]⟩
          (objectText jverField (packetFields time p)) :=
      h.enter hl _
    by_cases hfinite : FloatsFinite p
    · have hobject := run_object jverField_ok (@packetFields_ok time p hstat hfinite)
        [.arr l, .obj [] "rxpk".toList] []
      rw [List.append_nil] at hobject
      exact Or.inl ⟨hfinite, l, rfl, hl,
        Shape.items l _ (henter.trans hobject) (Nat.succ_pos n)⟩
    · obtain ⟨hall, hbad⟩ := @packetFields_bad time p hstat hfinite
      have hnone := run_bad_field jverField_ok hall hbad [.arr l, .obj [] "rxpk".toList] ['}']
      rw [← List.append_assoc] at hnone
      exact Or.inr ⟨fun hf => absurd hf hfinite, hdead (henter.trans hnone)⟩
  · have hnot : ∀ l, objs = some l → ¬ InStep n l := fun l hl hin => hstep ⟨l, hl, hin⟩
    exact Or.inr ⟨fun _ => hnot, hdead (h.enter_none hnot _)⟩

/-- An object that is cut off breaks the text, whatever was there before. -/
theorem Shape.cut {text : List Char} {n : Nat} {objs : Option (List Json)} (h : Shape text n objs)
    {fs : List Field} (hfs : ∀ f ∈ fs, f.Ok) {cut : List Char} (hcut : Cut cut) :
    Shape (text ++ (separator n ++
      ('{' :: memberText jverField.name jverField.text ++ (moreText fs ++ cut)))) n none := by
  refine Shape.broken ?_
  by_cases hstep : ∃ l, objs = some l ∧ InStep n l
  · obtain ⟨l, rfl, hl⟩ := hstep
    obtain ⟨members, last, -, hopen⟩ :=
      run_open_object jverField_ok hfs [.arr l, .obj [] "rxpk".toList]
    have hread : ∀ rest, run start (text ++ (separator n ++
        ('{' :: memberText jverField.name jverField.text ++ moreText fs)) ++ ',' :: rest) =
        run (inObject members last [.arr l, .obj [] "rxpk".toList]) (',' :: rest) := by
      intro rest
      rw [← hopen (',' :: rest) (Closes.comma rest)]
      simp only [List.append_assoc, List.cons_append]
      exact h.enter hl _
    simpa only [List.append_assoc, List.cons_append] using Broken.of_cut hcut hread
  · have hnone := h.enter_none fun l hl hin => hstep ⟨l, hl, hin⟩
    have hlong : 8 ≤ (moreText fs ++ cut).length := by
      rw [List.length_append]
      exact hcut.length.trans (Nat.le_add_left _ _)
    have hchop := @take_append_sub (text ++ (separator n ++
      '{' :: memberText jverField.name jverField.text)) _ hlong
    have hsame : text ++ (separator n ++
        ('{' :: memberText jverField.name jverField.text ++ (moreText fs ++ cut))) =
        text ++ (separator n ++ '{' :: memberText jverField.name jverField.text) ++
          (moreText fs ++ cut) := by
      simp only [List.append_assoc, List.cons_append]
    refine Broken.of_dead (hnone _) fun _ => ?_
    rw [hsame, hchop]
    exact run_append_none (hnone _) _

/-- A packet adds its object when it is readable and the state is in step; otherwise no object is
added, and those before may be lost. -/
theorem Shape.behind {s : PushState} {objs : Option (List Json)}
    (h : Shape s.text s.pktInDgram objs) (hopened : rxpkOpen <+: s.text) (time : PktTime)
    {p : LgwPktRx} (hstat : (statText p).isSome) :
    let s' := s.behind (pktLayout s.pktInDgram time p) p
    ∃ objs', Shape s'.text s'.pktInDgram objs' ∧
      (Readable p → ∀ l, objs = some l → InStep s.pktInDgram l →
        objs' = some (l ++ [packetValue time p])) ∧
      (∀ l', objs' = some l' →
        l' = [] ∨ Readable p ∧ ∃ l, objs = some l ∧ l'.length = l.length + 1) := by
  intro s'
  by_cases hser : Serializable p
  · obtain ⟨hend, htext⟩ := pktLayout_done s.pktInDgram time hstat hser
    have hs' : s' = ⟨s.text ++ (separator s.pktInDgram ++
        objectText jverField (packetFields time p)), s.pktInDgram + 1, s.counted ++ [p]⟩ := by
      show s.behind _ p = _
      rw [PushState.behind, hend, htext]
    rw [hs']
    rcases h.object time hstat with ⟨hfinite, l, rfl, -, hshape⟩ | ⟨hnot, hshape⟩
    · refine ⟨_, hshape, fun _ l' hl' _ => ?_, fun l' hl' => Or.inr ⟨⟨hser, hfinite⟩, l, rfl, ?_⟩⟩
      · cases hl'
        rfl
      · cases hl'
        exact List.length_append
    · refine ⟨none, hshape, fun hread l hl hin => absurd hin (hnot hread.2 l hl), fun l' hl' => ?_⟩
      cases hl'
  · have hnot : ¬ Readable p := fun hread => hser hread.1
    rcases pktLayout_not_done s.pktInDgram time hstat hser with
      hend | ⟨hend, fs, cut, hfs, hcut, htext⟩
    · have hs' : s' = ⟨rxpkOpen, s.pktInDgram, s.counted ++ [p]⟩ := by
        show s.behind _ p = _
        obtain ⟨rest, hrest⟩ := hopened
        rw [PushState.behind, hend, ← hrest]
        rfl
      rw [hs']
      refine ⟨some [], Shape.opened _, fun hread => absurd hread hnot, fun l' hl' => Or.inl ?_⟩
      cases hl'
      rfl
    · have hs' : s' = ⟨s.text ++ (separator s.pktInDgram ++
          ('{' :: memberText jverField.name jverField.text ++ (moreText fs ++ cut))),
          s.pktInDgram, s.counted ++ [p]⟩ := by
        show s.behind _ p = _
        rw [PushState.behind, hend, htext]
      rw [hs']
      refine ⟨none, h.cut hfs hcut, fun hread => absurd hread hnot, fun l' hl' => ?_⟩
      cases hl'

/-! ## The loop -/

theorem arrayText_append (n : Nat) (fs gs : List (PktTime × LgwPktRx)) :
    arrayText n (fs ++ gs) = arrayText n fs ++ arrayText (n + fs.length) gs := by
  induction fs generalizing n with
  | nil => rfl
  | cons f fs ih =>
    rw [List.cons_append, arrayText, ih, arrayText, List.length_cons, Nat.add_assoc,
      Nat.add_comm 1]
    simp only [List.append_assoc]

/-- What the loop keeps, for the packets that were forwarded so far: while all of them are readable
the text is the array of their objects, and from the first one on that is not, there are fewer
objects than packets. -/
structure LoopInv (fwd : List (PktTime × LgwPktRx)) (s : PushState) (objs : Option (List Json)) :
    Prop where
  counted : s.counted = fwd.map Prod.snd
  opened : rxpkOpen <+: s.text
  number : s.pktInDgram = fwd.countP fun f => Serializable f.2
  shape : Shape s.text s.pktInDgram objs
  readable : (∀ f ∈ fwd, Readable f.2) →
    objs = some (fwd.map fun f => packetValue f.1 f.2) ∧ s.text = rxpkOpen ++ arrayText 0 fwd
  spoiled : (∃ f ∈ fwd, ¬ Readable f.2) → ∀ l, objs = some l → l.length < fwd.length

theorem loopInv_start : LoopInv [] ⟨rxpkOpen, 0, []⟩ (some []) where
  counted := rfl
  opened := List.prefix_refl _
  number := rfl
  shape := Shape.opened 0
  readable _ := ⟨rfl, rfl⟩
  spoiled hbad := by
    obtain ⟨f, hf, -⟩ := hbad
    cases hf

/-- While all packets are readable, each of them is in the datagram. -/
theorem LoopInv.number_of_readable {fwd : List (PktTime × LgwPktRx)} {s : PushState}
    {objs : Option (List Json)} (h : LoopInv fwd s objs) (hread : ∀ f ∈ fwd, Readable f.2) :
    s.pktInDgram = fwd.length := by
  rw [h.number, List.countP_eq_length]
  exact fun f hf => decide_eq_true (hread f hf).1

theorem behind_counted (s : PushState) (l : Layout) (p : LgwPktRx) :
    (s.behind l p).counted = s.counted ++ [p] := by
  rw [PushState.behind]
  split <;> rfl

/-- Behind a packet the text still opens the array, also when the index was set back. -/
theorem behind_opened {s : PushState} (h : rxpkOpen <+: s.text) (l : Layout) (p : LgwPktRx) :
    rxpkOpen <+: (s.behind l p).text := by
  have happend := h.trans (List.prefix_append s.text (texts l.writes))
  rw [PushState.behind]
  split
  · exact happend
  · exact happend
  · exact List.prefix_take_iff.2 ⟨happend, Nat.le_refl 9⟩

/-- `pkt_in_dgram` counts the packets that can be serialized. -/
theorem behind_pktInDgram (s : PushState) (time : PktTime) {p : LgwPktRx}
    (hstat : (statText p).isSome) :
    (s.behind (pktLayout s.pktInDgram time p) p).pktInDgram =
      s.pktInDgram + if Serializable p then 1 else 0 := by
  by_cases hser : Serializable p
  · rw [PushState.behind, (pktLayout_done s.pktInDgram time hstat hser).1, if_pos hser]
  · rw [if_neg hser, PushState.behind]
    rcases pktLayout_not_done s.pktInDgram time hstat hser with hend | ⟨hend, -⟩
    · rw [hend]
      rfl
    · rw [hend]
      rfl

/-- A packet that was forwarded keeps the invariant. -/
theorem LoopInv.behind {fwd : List (PktTime × LgwPktRx)} {s : PushState}
    {objs : Option (List Json)} (h : LoopInv fwd s objs) (time : PktTime) {p : LgwPktRx}
    (hstat : (statText p).isSome) :
    ∃ objs', LoopInv (fwd ++ [(time, p)]) (s.behind (pktLayout s.pktInDgram time p) p) objs' := by
  obtain ⟨objs', hshape, hadds, hkeeps⟩ := h.shape.behind h.opened time hstat
  refine ⟨objs', ?_, behind_opened h.opened _ p, ?_, hshape, fun hall => ?_, fun hbad l' hl' => ?_⟩
  · rw [behind_counted, h.counted, List.map_append]
    rfl
  · rw [behind_pktInDgram s time hstat, h.number, List.countP_append, List.countP_singleton]
    simp only [decide_eq_true_eq]
  · rw [List.forall_mem_append] at hall
    have hp : Readable p := hall.2 _ (List.mem_singleton.2 rfl)
    obtain ⟨hobjs, htext⟩ := h.readable hall.1
    have hlen := h.number_of_readable hall.1
    have hin : InStep s.pktInDgram (fwd.map fun f => packetValue f.1 f.2) := by
      rw [InStep, hlen, List.map_eq_nil_iff]
      exact List.length_eq_zero_iff
    refine ⟨?_, ?_⟩
    · rw [hadds hp _ hobjs hin, List.map_append]
      rfl
    · obtain ⟨hend, htexts⟩ := pktLayout_done s.pktInDgram time hstat hp.1
      rw [PushState.behind, hend]
      show s.text ++ texts _ = _
      rw [htexts, htext, arrayText_append, Nat.zero_add, ← hlen, arrayText, arrayText,
        List.append_nil, List.append_assoc]
  · rw [List.length_append]
    rcases hkeeps l' hl' with rfl | ⟨hp, l, hl, hlen⟩
    · exact Nat.succ_pos _
    · have hbad' : ∃ f ∈ fwd, ¬ Readable f.2 := by
        obtain ⟨f, hf, hnot⟩ := hbad
        rcases List.mem_append.1 hf with hf | hf
        · exact ⟨f, hf, hnot⟩
        · rw [List.mem_singleton.1 hf] at hnot
          exact absurd hp hnot
      rw [hlen]
      exact Nat.succ_lt_succ (h.spoiled hbad' l hl)

section Loop

variable {cfg : PushConfig} {env : PushEnv}

theorem pushLoop_inv {i : Nat} {ps : List LgwPktRx} {s s' : PushState}
    {fwd : List (PktTime × LgwPktRx)} {objs : Option (List Json)} (h : LoopInv fwd s objs)
    (hok : pushLoop cfg env i ps s = .ok s') :
    ∃ objs', LoopInv (fwd ++ forwardedFrom cfg env i ps) s' objs' := by
  induction ps generalizing i s fwd objs with
  | nil =>
    cases hok
    rw [forwardedFrom, List.append_nil]
    exact ⟨objs, h⟩
  | cons p ps ih =>
    obtain ⟨s1, hp, hps⟩ := bind_eq_ok.1 hok
    rw [forwardedFrom]
    cases hf : forwards cfg (env.keyExist i) p with
    | false =>
      rw [pushPacket_skip hf] at hp
      cases hp
      exact ih h hps
    | true =>
      obtain ⟨objs1, h1⟩ := h.behind (env.time i) (statText_of_forwards hf)
      rw [← pushPacket_ok hf hp] at h1
      obtain ⟨objs', h'⟩ := ih h1 hps
      refine ⟨objs', ?_⟩
      rwa [List.append_assoc] at h'

/-- Packets that cannot be serialized never fill the buffer. -/
theorem pushLoop_of_not_serializable {i : Nat} {ps : List LgwPktRx} {s : PushState}
    (hlen : s.text.length ≤ 9 + 540 * i) (hfits : i + ps.length ≤ nbPktMax)
    (hnot : ∀ f ∈ forwardedFrom cfg env i ps, ¬ Serializable f.2) :
    ∃ s', pushLoop cfg env i ps s = .ok s' := by
  induction ps generalizing i s with
  | nil => exact ⟨s, rfl⟩
  | cons p ps ih =>
    rw [List.length_cons] at hfits
    rw [forwardedFrom] at hnot
    rw [pushLoop]
    cases hf : forwards cfg (env.keyExist i) p with
    | false =>
      rw [hf] at hnot
      rw [pushPacket_skip hf]
      exact ih (by omega) (by omega) hnot
    | true =>
      rw [hf, if_pos rfl, List.forall_mem_cons] at hnot
      have hstat := statText_of_forwards hf
      have hshort := length_pktLayout_lt s.pktInDgram (env.time i) hstat hnot.1
      have hstore : headerSize + (s.text ++
          texts (pktLayout s.pktInDgram (env.time i) p).writes).length < txBuffSize := by
        rw [List.length_append]
        show 12 + _ < 540 * 255 + 30 + 300
        have hmax : i + (ps.length + 1) ≤ 255 := hfits
        omega
      rw [pushPacket_fits hf hstore]
      refine ih ?_ (by omega) hnot.2
      rw [PushState.behind]
      rcases pktLayout_not_done s.pktInDgram (env.time i) hstat hnot.1 with hend | ⟨hend, -⟩
      · rw [hend]
        show (List.take 9 _).length ≤ _
        rw [List.length_take]
        omega
      · rw [hend]
        show (s.text ++ _).length ≤ _
        rw [List.length_append]
        omega

/-- Packets that can be serialized are written if they fit. -/
theorem pushLoop_of_serializable {i : Nat} {ps : List LgwPktRx} {s : PushState}
    (hser : ∀ f ∈ forwardedFrom cfg env i ps, Serializable f.2)
    (hfits : headerSize + (s.text ++
      arrayText s.pktInDgram (forwardedFrom cfg env i ps)).length < txBuffSize) :
    ∃ s', pushLoop cfg env i ps s = .ok s' := by
  induction ps generalizing i s with
  | nil => exact ⟨s, rfl⟩
  | cons p ps ih =>
    rw [forwardedFrom] at hser hfits
    rw [pushLoop]
    cases hf : forwards cfg (env.keyExist i) p with
    | false =>
      rw [hf] at hser hfits
      rw [pushPacket_skip hf]
      exact ih hser hfits
    | true =>
      rw [hf, if_pos rfl] at hser hfits
      rw [List.forall_mem_cons] at hser
      obtain ⟨hend, htext⟩ :=
        pktLayout_done s.pktInDgram (env.time i) (statText_of_forwards hf) hser.1
      rw [arrayText, ← List.append_assoc, ← htext] at hfits
      have hstore : headerSize + (s.text ++
          texts (pktLayout s.pktInDgram (env.time i) p).writes).length < txBuffSize := by
        rw [List.length_append] at hfits
        omega
      rw [pushPacket_fits hf hstore, PushState.behind, hend]
      exact ih hser.2 hfits

end Loop

/-! ## The end of the datagram -/

/-- The first characters of the report. -/
theorem status_text (status : StatusReport) :
    ∃ rest, status.text = "\"stat\":".toList ++ rest ∧ ∃ tail, status.text = '"' :: 's' :: tail :=
  ⟨_, rfl, _, rfl⟩

/-- The text behind the array, as the machine reads it. -/
theorem Shape.close {text : List Char} {n : Nat} {objs : List Json} (h : Shape text n (some objs))
    (rest : List Char) :
    run start (text ++ ']' :: rest) =
      run ⟨.after (.arr objs), [.obj [] "rxpk".toList]⟩ rest := by
  cases h with
  | opened n => rfl
  | items init v hrun hn =>
    rw [run_append_some hrun]
    rfl

/-- The report is read behind other members as it is alone. -/
theorem run_report (status : StatusReport) (name : List Char) (v : Json)
    (members : List (List Char × Json)) :
    run ⟨.after v, [.obj [] name]⟩ (',' :: (status.text ++ ['}'])) =
        some ⟨.after (.obj members), []⟩ ↔
      ∃ own, members = [(name, v)] ++ own ∧
        parse ('{' :: (status.text ++ ['}'])) = some (.obj own) := by
  obtain ⟨-, -, tail, htail⟩ := status_text status
  have hunder : Under [(name, v)] ⟨.string true [] .plain, [.obj [] []]⟩
      ⟨.string true [] .plain, [.obj [(name, v)] []]⟩ :=
    Under.inside _ [] [] []
  have hclosed := hunder.run_closed ('s' :: tail ++ ['}']) members
  rw [htail]
  refine hclosed.trans ?_
  simp only [parse_eq_obj_iff]
  exact Iff.rfl

/-- Only one object has these members. -/
theorem rxpk_stat_split {counted : List LgwPktRx} {objs : List Json}
    {own rxpk stat : List (List Char × Json)} {reported : Bool}
    (heq : [("rxpk".toList, Json.arr objs)] ++ own = rxpk ++ stat)
    (hrxpk : RxpkMember counted rxpk) (hstat : StatMember reported stat) :
    rxpk = [("rxpk".toList, .arr objs)] ∧ stat = own ∧ List.Forall₂ PacketObject counted objs := by
  rcases hrxpk with ⟨rfl, -⟩ | ⟨objs', rfl, hforall⟩
  · rcases hstat with ⟨rfl, -⟩ | ⟨m, rfl, -⟩
    · cases heq
    · rw [List.nil_append] at heq
      injection heq with hhead
      injection hhead with hname
      exact absurd hname (by decide)
  · injection heq with hhead htail
    injection hhead with _ hobjs
    injection hobjs with hobjs
    rw [hobjs]
    exact ⟨rfl, htail.symm, hforall⟩

/-- Without a report, a datagram is faithful when its array is. -/
theorem Shape.faithful_quiet {text : List Char} {n : Nat} {objs : Option (List Json)}
    (h : Shape text n objs) (counted : List LgwPktRx) :
    FaithfulText counted false (text ++ [']', '}']) ↔
      ∃ l, objs = some l ∧ List.Forall₂ PacketObject counted l := by
  constructor
  · rintro ⟨rxpk, stat, hparse, hrxpk, hstat⟩
    rw [parse_eq_obj_iff] at hparse
    cases objs with
    | none =>
      cases h with
      | broken h => exact absurd hparse (h.close _)
    | some l =>
      rw [h.close] at hparse
      have heq : [("rxpk".toList, Json.arr l)] ++ [] = rxpk ++ stat := by
        injection hparse with hrun
        injection hrun with hmode
        injection hmode with hobj
        injection hobj
      exact ⟨l, rfl, (rxpk_stat_split heq hrxpk hstat).2.2⟩
  · rintro ⟨l, rfl, hforall⟩
    refine ⟨[("rxpk".toList, .arr l)], [], ?_, Or.inr ⟨l, rfl, hforall⟩, Or.inl ⟨rfl, rfl⟩⟩
    rw [parse_eq_obj_iff, List.append_nil, h.close]
    rfl

/-- A report right behind the bracket of the array makes every text unreadable. -/
theorem Shape.not_faithful_late {text : List Char} {n : Nat} {objs : Option (List Json)}
    (h : Shape text n objs) (status : StatusReport) (counted : List LgwPktRx) (reported : Bool) :
    ¬ FaithfulText counted reported (text ++ ']' :: (status.text ++ ['}'])) := by
  obtain ⟨-, -, tail, htail⟩ := status_text status
  rintro ⟨rxpk, stat, hparse, -, -⟩
  rw [parse_eq_obj_iff, htail] at hparse
  cases objs with
  | none =>
    cases h with
    | broken h =>
      rw [List.cons_append, List.cons_append, h.stat] at hparse
      cases hparse
  | some l =>
    rw [h.close] at hparse
    cases hparse

/-- Behind a comma, the report has to be readable. -/
theorem Shape.faithful_report {text : List Char} {n : Nat} {objs : Option (List Json)}
    (h : Shape text n objs) (status : StatusReport) (counted : List LgwPktRx) :
    FaithfulText counted true (text ++ ']' :: ',' :: (status.text ++ ['}'])) ↔
      (∃ l, objs = some l ∧ List.Forall₂ PacketObject counted l) ∧ ReportReadable status := by
  constructor
  · rintro ⟨rxpk, stat, hparse, hrxpk, hstat⟩
    rw [parse_eq_obj_iff] at hparse
    cases objs with
    | none =>
      obtain ⟨-, -, tail, htail⟩ := status_text status
      cases h with
      | broken h =>
        rw [htail, List.cons_append, List.cons_append, h.commaStat] at hparse
        cases hparse
    | some l =>
      rw [h.close, run_report] at hparse
      obtain ⟨own, heq, hown⟩ := hparse
      obtain ⟨-, rfl, hforall⟩ := rxpk_stat_split heq.symm hrxpk hstat
      rcases hstat with ⟨-, hfalse⟩ | ⟨m, rfl, -⟩
      · cases hfalse
      · exact ⟨⟨l, rfl, hforall⟩, m, hown⟩
  · rintro ⟨⟨l, rfl, hforall⟩, m, hm⟩
    refine ⟨[("rxpk".toList, .arr l)], [("stat".toList, .obj m)], ?_,
      Or.inr ⟨l, rfl, hforall⟩, Or.inr ⟨m, rfl, rfl⟩⟩
    rw [parse_eq_obj_iff, h.close, run_report]
    exact ⟨_, rfl, hm⟩

/-- Behind at least one packet, a datagram is faithful when the array is, the report did not become
ready late, and it is readable. -/
theorem faithfulText_close {env : PushEnv} {text : List Char} {n : Nat}
    {objs : Option (List Json)} (h : Shape text n objs) (counted : List LgwPktRx) :
    FaithfulText counted env.reads.atReport (text ++ closeText env ++ endText env) ↔
      (∃ l, objs = some l ∧ List.Forall₂ PacketObject counted l) ∧
        (env.reads.atReport = true → env.reads.atArrayEnd = true) ∧
        (env.reads.atReport = true → ReportReadable env.status) := by
  rw [closeText, endText, List.append_assoc, List.cons_append]
  cases hreport : env.reads.atReport with
  | false =>
    -- the flag is never taken back, so it was not set at the end of the array either
    have hend : env.reads.atArrayEnd = false := by
      rw [← Bool.not_eq_true]
      intro htrue
      have hset := env.reads.arrayEnd_le htrue
      rw [hreport] at hset
      cases hset
    rw [hend]
    simp only [Bool.false_eq_true, if_false, false_imp_iff, and_true, List.nil_append]
    exact h.faithful_quiet counted
  | true =>
    simp only [if_true, true_imp_iff]
    cases hend : env.reads.atArrayEnd with
    | false =>
      simp only [Bool.false_eq_true, if_false, false_and, and_false, iff_false, List.nil_append]
      exact h.not_faithful_late env.status counted true
    | true =>
      simp only [if_true, true_and, List.cons_append, List.nil_append]
      exact h.faithful_report env.status counted

/-- Without a packet, a datagram is faithful when no packet was counted and the report is
readable. -/
theorem faithfulText_chopped {env : PushEnv} {text : List Char} {objs : Option (List Json)}
    (h : Shape text 0 objs) (counted : List LgwPktRx) (hreport : env.reads.atReport = true) :
    FaithfulText counted env.reads.atReport (text.take (text.length - 8) ++ endText env) ↔
      counted = [] ∧ text = rxpkOpen ∧ ReportReadable env.status := by
  obtain ⟨rest, hrest, -⟩ := status_text env.status
  rw [endText, hreport, if_pos rfl]
  cases h with
  | broken h =>
    constructor
    · rintro ⟨rxpk, stat, hparse, -, -⟩
      rw [parse_eq_obj_iff, hrest, List.append_assoc, h.chopped rfl] at hparse
      cases hparse
    · rintro ⟨-, rfl, -⟩
      have hnone := h.close (.obj [("rxpk".toList, .arr [])])
      exact absurd rfl hnone
  | items init v hrun hn => exact absurd hn (Nat.lt_irrefl 0)
  | opened n =>
    have hchop : rxpkOpen.take (rxpkOpen.length - 8) = ['{'] := rfl
    rw [hchop]
    constructor
    · rintro ⟨rxpk, stat, hparse, hrxpk, hstat⟩
      -- the first member of the object is the report
      have hfirst : rxpk = [] := by
        rcases hrxpk with ⟨rfl, -⟩ | ⟨objs, rfl, -⟩
        · rfl
        · rw [parse_eq_obj_iff, hrest] at hparse
          obtain ⟨v, members, hmode⟩ := FirstMember.of_closed
            (firstMember_run (@FirstMember.value "stat".toList .value trivial) hparse)
          injection hmode with hobj
          injection hobj with hmembers
          injection hmembers with hhead
          injection hhead with hname
          exact absurd hname (by decide)
      subst hfirst
      rcases hrxpk with ⟨-, hnil⟩ | ⟨objs, habsurd, -⟩
      · rcases hstat with ⟨-, hfalse⟩ | ⟨m, rfl, -⟩
        · cases hfalse
        · exact ⟨hnil, rfl, m, hparse⟩
      · cases habsurd
    · rintro ⟨rfl, -, m, hm⟩
      exact ⟨[], [("stat".toList, .obj m)], hm, Or.inl ⟨rfl, rfl⟩, Or.inr ⟨m, rfl, rfl⟩⟩

/-! ## One iteration -/

theorem pushEnd_ok {env : PushEnv} {counted : List LgwPktRx} {text : List Char} {pushed : Pushed}
    (h : pushEnd env counted text = .ok pushed) :
    pushed = ⟨some (text ++ endText env), counted, env.reads.atReport⟩ ∧
      headerSize + (text ++ endText env).length < txBuffSize := by
  obtain ⟨text1, hreport, h⟩ := bind_eq_ok.1 h
  obtain ⟨text2, hclose, h⟩ := bind_eq_ok.1 h
  cases h
  have htext1 : text1 = text ++ if env.reads.atReport then env.status.text else [] := by
    rw [storeAll_ok hreport]
    split
    · rw [texts_cons, texts_nil, List.append_nil, Write.text]
    · rw [texts_nil]
  obtain ⟨text3, hbrace, hnul⟩ := bind_eq_ok.1 hclose
  obtain ⟨text4, hnul, hdone⟩ := bind_eq_ok.1 hnul
  cases hdone
  obtain ⟨rfl, -⟩ := store_ok hbrace
  obtain ⟨rfl, hfit⟩ := store_ok hnul
  rw [htext1, endText, ← List.append_assoc]
  refine ⟨?_, ?_⟩
  · simp only [Write.text, List.append_nil]
  · simp only [Write.text, Write.extent, List.length_nil] at hfit
    rw [htext1] at hfit
    omega

theorem pushEnd_fits {env : PushEnv} {text : List Char} (counted : List LgwPktRx)
    (h : headerSize + (text ++ endText env).length < txBuffSize) :
    pushEnd env counted text = .ok ⟨some (text ++ endText env), counted, env.reads.atReport⟩ := by
  have htexts : texts (if env.reads.atReport then [.print env.status.text] else []) =
      if env.reads.atReport then env.status.text else [] := by
    split
    · rw [texts_cons, texts_nil, List.append_nil, Write.text]
    · rfl
  rw [endText, ← List.append_assoc] at h ⊢
  have hreport := @storeAll_fits (if env.reads.atReport then [.print env.status.text] else []) text
    (by
      rw [htexts]
      rw [List.length_append] at h
      omega)
  rw [htexts] at hreport
  have hclose := @storeAll_fits [.copy ['}'], .print []]
    (text ++ if env.reads.atReport then env.status.text else []) h
  rw [pushEnd, hreport, ok_bind, hclose]
  rfl

/-- The last part is faithful if it fits and its text is. -/
theorem faithful_pushEnd (env : PushEnv) (counted : List LgwPktRx) (text : List Char) :
    Faithful (pushEnd env counted text) ↔
      headerSize + (text ++ endText env).length < txBuffSize ∧
        FaithfulText counted env.reads.atReport (text ++ endText env) := by
  constructor
  · intro h
    cases hend : pushEnd env counted text with
    | error e =>
      rw [hend] at h
      exact h.elim
    | ok pushed =>
      rw [hend] at h
      obtain ⟨rfl, hfit⟩ := pushEnd_ok hend
      exact ⟨hfit, h _ rfl⟩
  · rintro ⟨hfit, htext⟩
    rw [pushEnd_fits counted hfit]
    intro sent hsent
    cases hsent
    exact htext

/-- The objects of the packets, in order. -/
theorem forall₂_packetValue (fwd : List (PktTime × LgwPktRx)) :
    List.Forall₂ PacketObject (fwd.map Prod.snd) (fwd.map fun f => packetValue f.1 f.2) := by
  induction fwd with
  | nil => exact List.Forall₂.nil
  | cons f fwd ih => exact List.Forall₂.cons (packetObject_fields f.1 f.2) ih

theorem texts_closeText (env : PushEnv) :
    texts (.copy [']'] :: if env.reads.atArrayEnd then [.copy [',']] else []) = closeText env := by
  rw [texts_cons, closeText]
  split <;> rfl

theorem faithful_pushRest_close (env : PushEnv) {s : PushState} (hn : s.pktInDgram ≠ 0) :
    Faithful (pushRest env s) ↔
      headerSize + (s.text ++ closeText env ++ endText env).length < txBuffSize ∧
        FaithfulText s.counted env.reads.atReport (s.text ++ closeText env ++ endText env) := by
  rw [pushRest, if_neg hn, ← faithful_pushEnd]
  cases hstore : storeAll (.copy [']'] :: if env.reads.atArrayEnd then [.copy [',']] else [])
      s.text with
  | ok text =>
    rw [storeAll_ok hstore, texts_closeText, ok_bind]
  | error e =>
    rw [error_bind, faithful_pushEnd]
    refine ⟨fun h => h.elim, fun h => ?_⟩
    have hfits := @storeAll_fits
      (.copy [']'] :: if env.reads.atArrayEnd then [.copy [',']] else []) s.text (by
        have hfit := h.1
        rw [List.length_append] at hfit
        rw [texts_closeText]
        omega)
    rw [hfits] at hstore
    cases hstore

section Iteration

variable {cfg : PushConfig} {env : PushEnv} {fetched : Fetched} {s : PushState}
  {objs : Option (List Json)}

theorem LoopInv.pktInDgram_pos_iff {fwd : List (PktTime × LgwPktRx)} (h : LoopInv fwd s objs) :
    0 < s.pktInDgram ↔ ∃ f ∈ fwd, Serializable f.2 := by
  rw [h.number, List.countP_pos_iff]
  simp only [decide_eq_true_eq]

/-- A report without packets. -/
theorem faithful_pushRest_chopped (h : LoopInv (forwarded cfg env fetched) s objs)
    (hn : s.pktInDgram = 0) (hreads : env.reads.atArrayEnd = true) :
    Faithful (pushRest env s) ↔ Serializes cfg env fetched := by
  have hreport := env.reads.arrayEnd_le hreads
  have hshape : Shape s.text 0 objs := hn ▸ h.shape
  have htext : rxpkOpen.take (rxpkOpen.length - 8) ++ endText env = '{' :: endText env := rfl
  rw [pushRest, if_pos hn, if_pos hreads, faithful_pushEnd, faithfulText_chopped hshape _ hreport]
  constructor
  · rintro ⟨hfit, hcounted, hopen, hreadable⟩
    have hnil : forwarded cfg env fetched = [] := by
      rw [h.counted, List.map_eq_nil_iff] at hcounted
      exact hcounted
    refine ⟨fun f hf => ?_, fun _ => hreads, fun _ => hreadable, ?_⟩
    · rw [hnil] at hf
      cases hf
    · rw [hopen, htext] at hfit
      rw [datagramText, hnil]
      exact hfit
  · intro hser
    have hlen := h.number_of_readable hser.packets
    have hnil : forwarded cfg env fetched = [] := List.length_eq_zero_iff.1 (hlen.symm.trans hn)
    have hfit := hser.fits
    have hopen : s.text = rxpkOpen := by
      have hread := (h.readable hser.packets).2
      rwa [hnil, arrayText, List.append_nil] at hread
    rw [datagramText, hnil] at hfit
    refine ⟨?_, ?_, hopen, hser.report hreport⟩
    · rw [hopen, htext]
      exact hfit
    · rw [h.counted, hnil]
      rfl

/-- With a packet in the datagram. -/
theorem faithful_pushRest_array (h : LoopInv (forwarded cfg env fetched) s objs)
    (hn : s.pktInDgram ≠ 0) : Faithful (pushRest env s) ↔ Serializes cfg env fetched := by
  have hdatagram : s.text = rxpkOpen ++ arrayText 0 (forwarded cfg env fetched) →
      datagramText cfg env fetched = s.text ++ closeText env ++ endText env := by
    intro htext
    rw [htext, datagramText]
    cases hfwd : forwarded cfg env fetched with
    | nil =>
      have hnumber := h.number
      rw [hfwd] at hnumber
      exact absurd hnumber hn
    | cons f fs => rfl
  rw [faithful_pushRest_close env hn, faithfulText_close h.shape]
  constructor
  · rintro ⟨hfit, ⟨l, hl, hforall⟩, hreads, hreport⟩
    have hpackets : ∀ f ∈ forwarded cfg env fetched, Readable f.2 := by
      by_contra hnot
      simp only [not_forall] at hnot
      obtain ⟨f, hf, hbad⟩ := hnot
      have hlt := h.spoiled ⟨f, hf, hbad⟩ l hl
      have heq := hforall.length_eq
      rw [h.counted, List.length_map] at heq
      omega
    refine ⟨hpackets, hreads, hreport, ?_⟩
    rw [hdatagram (h.readable hpackets).2]
    exact hfit
  · intro hser
    obtain ⟨hobjs, htext⟩ := h.readable hser.packets
    refine ⟨?_, ⟨_, hobjs, ?_⟩, hser.reads, hser.report⟩
    · rw [← hdatagram htext]
      exact hser.fits
    · rw [h.counted]
      exact forall₂_packetValue _

/-- An iteration that is not idle is its loop and the rest. -/
theorem pushUp_busy (h : ¬ (fetched.packets = [] ∧ env.reads.atFetch = false)) :
    pushUp cfg env fetched =
      pushLoop cfg env 0 fetched.packets ⟨rxpkOpen, 0, []⟩ >>= pushRest env := by
  have hopen : storeAll [.copy rxpkOpen] [] = .ok rxpkOpen := by decide
  rw [pushUp, if_neg h, hopen]
  rfl

/-- The array of all objects fits when the datagram does. -/
theorem Serializes.fits_array (h : Serializes cfg env fetched) :
    headerSize + (rxpkOpen ++ arrayText 0 (forwarded cfg env fetched)).length < txBuffSize := by
  have hfit := h.fits
  rw [datagramText] at hfit
  split at hfit
  · next hnil =>
    rw [hnil]
    decide
  · next f fs hfwd =>
    rw [hfwd]
    rw [List.length_append, List.length_append] at hfit
    omega

/-- Where there is something to send, the rest of the iteration is faithful exactly under the
conditions. -/
theorem faithful_pushRest_iff (hsends : Sends cfg env fetched)
    (hloop : pushLoop cfg env 0 fetched.packets ⟨rxpkOpen, 0, []⟩ = .ok s) :
    Faithful (pushRest env s) ↔ Serializes cfg env fetched := by
  obtain ⟨objs, hinv⟩ := pushLoop_inv loopInv_start hloop
  rw [List.nil_append] at hinv
  by_cases hn : s.pktInDgram = 0
  · refine faithful_pushRest_chopped hinv hn (hsends.2.resolve_left fun hex => ?_)
    exact absurd hn (Nat.pos_iff_ne_zero.1 (hinv.pktInDgram_pos_iff.2 hex))
  · exact faithful_pushRest_array hinv hn

/-- Without anything to send, nothing is sent. -/
theorem faithful_of_not_sends (h : ¬ Sends cfg env fetched) :
    Faithful (pushUp cfg env fetched) := by
  by_cases hidle : fetched.packets = [] ∧ env.reads.atFetch = false
  · rw [pushUp, if_pos hidle]
    rintro text ⟨⟩
  · have hbusy : fetched.packets ≠ [] ∨ env.reads.atFetch = true := by
      by_contra hnot
      rw [not_or, not_not, Bool.not_eq_true] at hnot
      exact hidle hnot
    have hnot := not_or.1 fun hsome => h ⟨hbusy, hsome⟩
    -- no packet can be serialized, so none of them is in the datagram at the end
    have hnone : ∀ f ∈ forwarded cfg env fetched, ¬ Serializable f.2 :=
      fun f hf hs => hnot.1 ⟨f, hf, hs⟩
    obtain ⟨s, hloop⟩ := @pushLoop_of_not_serializable cfg env 0 fetched.packets
      ⟨rxpkOpen, 0, []⟩ (by decide) (by
        rw [Nat.zero_add]
        exact fetched.fits) hnone
    obtain ⟨objs, hinv⟩ := pushLoop_inv loopInv_start hloop
    have hn : s.pktInDgram = 0 := by
      by_contra hpos
      exact hnot.1 (hinv.pktInDgram_pos_iff.1 (Nat.pos_of_ne_zero hpos))
    rw [pushUp_busy hidle, hloop, ok_bind, pushRest, if_pos hn, if_neg hnot.2]
    rintro text ⟨⟩

end Iteration

/-- An iteration stays in its buffer and sends nothing or a faithful datagram, exactly when what it
has to send can be serialized. -/
theorem pushUp_faithful_iff (cfg : PushConfig) (env : PushEnv) (fetched : Fetched) :
    Faithful (pushUp cfg env fetched) ↔ (Sends cfg env fetched → Serializes cfg env fetched) := by
  by_cases hsends : Sends cfg env fetched
  · have hbusy : ¬ (fetched.packets = [] ∧ env.reads.atFetch = false) := by
      rintro ⟨hnil, hfetch⟩
      rcases hsends.1 with hne | htrue
      · exact hne hnil
      · rw [hfetch] at htrue
        cases htrue
    rw [pushUp_busy hbusy]
    constructor
    · intro hfaithful _
      cases hloop : pushLoop cfg env 0 fetched.packets ⟨rxpkOpen, 0, []⟩ with
      | error e =>
        rw [hloop] at hfaithful
        exact hfaithful.elim
      | ok s =>
        rw [hloop, ok_bind] at hfaithful
        exact (faithful_pushRest_iff hsends hloop).1 hfaithful
    · intro hser
      obtain ⟨s, hloop⟩ := @pushLoop_of_serializable cfg env 0 fetched.packets
        ⟨rxpkOpen, 0, []⟩ (fun f hf => ((hser hsends).packets f hf).1) (hser hsends).fits_array
      rw [hloop, ok_bind]
      exact (faithful_pushRest_iff hsends hloop).2 (hser hsends)
  · exact ⟨fun _ h => absurd h hsends, fun _ => faithful_of_not_sends hsends⟩

/-! ## A packet that erases another one -/

/-- A service that forwards every packet. -/
def openConfig : PushConfig := ⟨"server".toList, ⟨true, true, true⟩, .noFilter, .noFilter⟩

/-- No keys, the first second of 2025, and no report. -/
def quietEnv : PushEnv where
  keyExist _ _ := false
  time _ := .clock ⟨125#32, 0#32, 1#32, 0#32, 0#32, 0#32, 0#64⟩
  reads := ⟨false, false, false, id, id⟩
  status := ⟨[], by decide⟩

/-- A LoRa packet of two bytes, with SF7, 125 kHz and 4/5. -/
def sf7Packet : LgwPktRx :=
  { LgwPktRx.ofBytes [0x40#8, 0x01#8] with
    bandwidth := 4#8
    datarate := 7#32
    coderate := 1#8 }

/-- The packet, and behind it one whose modulation is not known. -/
def packetAndUnknown : Fetched := ⟨[sf7Packet, { sf7Packet with modulation := 0#8 }], by decide⟩

/-- An empty array does not do for packets that were counted. -/
theorem not_faithful_empty {r : Except OutOfBounds Pushed} {n : Nat}
    (h : r.toOption.map (fun pushed => (pushed.sent, pushed.counted.length)) =
      some (some "\x7b\"rxpk\":[]\x7d".toList, n + 1)) : ¬ Faithful r := by
  intro hfaithful
  cases r with
  | error e => exact hfaithful
  | ok pushed =>
    rw [Except.toOption, Option.map_some, Option.some_inj, Prod.mk.injEq] at h
    obtain ⟨hsent, hcounted⟩ := h
    obtain ⟨rxpk, stat, hparse, hrxpk, hstat⟩ := hfaithful _ hsent
    have hvalue : parse "\x7b\"rxpk\":[]\x7d".toList =
        some (.obj [("rxpk".toList, .arr [])]) := rfl
    have hmembers : [("rxpk".toList, Json.arr [])] ++ [] = rxpk ++ stat :=
      Json.obj.inj (Option.some.inj (hvalue.symm.trans hparse))
    have hlen := (rxpk_stat_split hmembers hrxpk hstat).2.2.length_eq
    rw [hcounted] at hlen
    cases hlen

/-- The second packet sets `buff_index` back to 21, but `pkt_in_dgram` stays 1: an empty array is
sent, and two packets are counted. -/
theorem unknown_modulation_erases :
    ¬ Faithful (pushUp openConfig quietEnv packetAndUnknown) :=
  @not_faithful_empty _ 1 (by decide +kernel)

/-- The first packet alone is sent as it should be. -/
example : Serializes openConfig quietEnv ⟨[sf7Packet], by decide⟩ where
  packets f hf := by
    have hmem : f ∈ [(quietEnv.time 0, sf7Packet)] := hf
    rw [List.mem_singleton.1 hmem]
    decide
  reads h := by cases h
  report h := by cases h
  fits := by decide +kernel

end DraginoFwd.Uplink
