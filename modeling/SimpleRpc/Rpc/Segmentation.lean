import SimpleRpc.Rpc.ServerConnection
import Mathlib.Data.List.DropRight

/-!
# How a Stream is Cut into Batches

A peer sends a stream of frames, and the poll thread reads it in batches, one for each call of
`handle_read`. The frames that were cut off, the outcomes of their requests and the rest in `in_`
are functions of the bytes that had arrived at the last batch that was looked at.

## Layers

- **Code**: the rounds of `ServerTcpConnection.step`
- **System**: `Delivers`, any run of these, with the batches that were read
- **Invariant**: `Follows`, the packets are the first ones of the stream

## Main results

- `run_outcomes`: outcomes and rest, from the stream and the batches
- `segmentation_invisible_iff`: two ways of delivering a stream agree if and only if the same
  frames were complete at the last batch that `handle_read` looked at

## Model

`handle_read` looks at a batch unless its length, cut to an `int`, is zero.
-/

namespace SimpleRpc.Rpc

open SimpleRpc.Lib SimpleRpc.Base

/-! ## Streams -/

/-- A stream of `packets`, each with its `xid` in at most seven bytes, and an incomplete frame. -/
structure Framed (stream : List UInt8) (packets : List (List UInt8)) (rest : List UInt8) :
    Prop where
  stream_eq : stream = packets.flatMap frame ++ rest
  wellFormed : ∀ p ∈ packets, WellFormed p
  short_xid : ∀ p ∈ packets, SparseInt.bufSize (p.getD 0 0) ≤ 7
  incomplete : ∃ p t, p.length < 2 ^ 31 ∧ t ≠ [] ∧ frame p = rest ++ t

/-- How many of the packets are complete in the first `n` bytes of their stream. -/
def arrived : List (List UInt8) → Nat → Nat
  | [], _ => 0
  | p :: packets, n =>
    if (frame p).length ≤ n then arrived packets (n - (frame p).length) + 1 else 0

/-- The bytes that had been read when `handle_read` last looked at a batch. -/
def lookedAt (batches : List (List UInt8)) : Nat :=
  (batches.rdropWhile fun batch => batch.length % 2 ^ 32 = 0).flatten.length

theorem lookedAt_skip {batch : List UInt8} (batches : List (List UInt8))
    (hzero : batch.length % 2 ^ 32 = 0) : lookedAt (batches ++ [batch]) = lookedAt batches := by
  unfold lookedAt
  rw [List.rdropWhile_concat_pos _ _ _ (by simpa using hzero)]

theorem lookedAt_look {batch : List UInt8} (batches : List (List UInt8))
    (hne : batch.length % 2 ^ 32 ≠ 0) :
    lookedAt (batches ++ [batch]) = (batches ++ [batch]).flatten.length := by
  unfold lookedAt
  rw [List.rdropWhile_concat_neg _ _ _ (by simpa using hne)]

/-- Whole packets in front count in full. -/
theorem arrived_append (old new : List (List UInt8)) (n : Nat) :
    arrived (old ++ new) ((old.flatMap frame).length + n) = old.length + arrived new n := by
  induction old with
  | nil => simp
  | cons p old ih =>
    rw [List.cons_append, arrived, if_pos (by simp [Nat.add_assoc]), List.flatMap_cons,
      List.length_append, Nat.add_assoc, Nat.add_sub_cancel_left, ih, List.length_cons]
    omega

section Stream

variable {stream rest c t : List UInt8} {packets old new : List (List UInt8)}

/-- The rest of a stream, from some packet on, is a stream. -/
theorem Framed.drop (h : Framed stream packets rest) (hp : packets = old ++ new)
    (hs : stream = old.flatMap frame ++ c) : Framed c new rest := by
  subst hp
  constructor
  · have hstream := h.stream_eq
    rw [hs, List.flatMap_append, List.append_assoc] at hstream
    exact List.append_cancel_left hstream
  · exact fun p hp => h.wellFormed p (List.mem_append_right _ hp)
  · exact fun p hp => h.short_xid p (List.mem_append_right _ hp)
  · exact h.incomplete

/-- What passes for complete at the front of a stream is its first packet. -/
theorem Framed.ready (h : Framed (c ++ t) packets rest) (hr : FrameReady c) :
    ∃ p packets' c', packets = p :: packets' ∧ c = frame p ++ c' := by
  obtain ⟨last, t', hlt, hne, hlast⟩ := h.incomplete
  -- with the missing bytes it is a stream of whole frames
  have hwhole : c ++ (t ++ t') = (packets ++ [last]).flatMap frame := by
    rw [← List.append_assoc, h.stream_eq, List.flatMap_append, List.flatMap_singleton, hlast,
      List.append_assoc]
  have hsmall : ∀ p ∈ packets ++ [last], p.length < 2 ^ 31 := by
    intro p hp
    obtain hp | hp := List.mem_append.mp hp
    · exact (h.wellFormed p hp).lt
    · rwa [List.mem_singleton.mp hp]
  obtain ⟨p, more, c', hcons, hc, -⟩ := ready_of_frames hsmall hwhole hr
  cases packets with
  | nil =>
    -- the incomplete frame is too short
    obtain rfl : last = p := by simpa using (List.cons.inj hcons).1
    have hlen := congrArg List.length h.stream_eq
    have hlen' := congrArg List.length hlast
    have hlen'' := congrArg List.length hc
    have hpos := List.length_pos_iff.mpr hne
    simp only [List.flatMap_nil, List.nil_append, List.length_append] at hlen hlen' hlen''
    omega
  | cons q packets' =>
    obtain rfl : q = p := (List.cons.inj hcons).1
    exact ⟨q, packets', c', rfl, hc⟩

/-- Where nothing passes for complete, no packet has arrived. -/
theorem Framed.arrived_eq_zero (h : Framed (c ++ t) packets rest) (hr : ¬ FrameReady c) :
    arrived packets c.length = 0 := by
  cases packets with
  | nil => rfl
  | cons p packets' =>
    rw [arrived, if_neg]
    intro hle
    apply hr
    -- else the first frame would be at the front of `c`
    have hpre : frame p <+: c := by
      apply List.prefix_of_prefix_length_le _ (List.prefix_append c t) hle
      rw [h.stream_eq, List.flatMap_cons, List.append_assoc]
      exact List.prefix_append ..
    obtain ⟨c', rfl⟩ := hpre
    exact frameReady_frame (h.wellFormed p (by simp)).lt c'

end Stream

theorem prefix_of_flatten {stream : List UInt8} {batches more : List (List UInt8)}
    (h : (batches ++ more).flatten <+: stream) : batches.flatten <+: stream := by
  rw [List.flatten_append] at h
  exact (List.prefix_append ..).trans h

namespace ServerTcpConnection

variable {κ η : Type}

/-- In at most seven bytes the `xid` does not depend on what the local array held. -/
theorem xidOf_eq {p : List UInt8} (hwf : WellFormed p)
    (h7 : SparseInt.bufSize (p.getD 0 0) ≤ 7) (buf : List UInt8) : xidOf buf p = xidOf [] p := by
  have hfst : (p.take (SparseInt.bufSize (p.getD 0 0))).getD 0 0 = p.getD 0 0 := by
    rw [List.getD_eq_getElem?_getD, List.getElem?_take_of_lt (SparseInt.bufSize_pos _),
      ← List.getD_eq_getElem?_getD]
  have hlen : (p.take (SparseInt.bufSize (p.getD 0 0))).length = SparseInt.bufSize (p.getD 0 0) := by
    rw [List.length_take, Nat.min_eq_left hwf.xid]
  have hload : ∀ buf, xidOf buf p = SparseInt.loadI64 (p.take (SparseInt.bufSize (p.getD 0 0))) := by
    intro buf
    apply SparseInt.loadI64_storeAt
    · rwa [hfst]
    · rw [hfst, hlen]
  rw [hload, hload]

/-! ## Runs and their batches -/

/-- What `read_from_fd` gets, if the step is one. -/
def batchOf (s : ServerTcpConnection κ η) : Op κ → List (List UInt8)
  | .readFd avail resps =>
    match s.world.readFromFd .in_ avail resps with
    | .ok (_, _, got) => [got]
    | .error _ => []
  | .parse _ | .dispatch _ _ | .send _ => []

/-- A step, labelled with its batch. -/
def Delivers (handlers : Int32 → Option η) (s : ServerTcpConnection κ η)
    (event : Op κ × List (List UInt8)) (s' : ServerTcpConnection κ η) : Prop :=
  s.Allowed handlers event.1 ∧ event.2 = s.batchOf event.1 ∧ s.step handlers event.1 = .ok s'

/-- The batches of a run. -/
def batchesOf (events : List (Op κ × List (List UInt8))) : List (List UInt8) :=
  events.flatMap Prod.snd

/-- The packets cut off are the first ones of the stream, as many as had arrived when
    `handle_read` last looked. -/
structure Follows (handlers : Int32 → Option η) (packets batches : List (List UInt8))
    (s : ServerTcpConnection κ η) : Prop where
  inv : s.Inv handlers
  received : s.received = batches.flatten
  first : ∃ new, packets = s.packets.map Prod.snd ++ new
  xids : ∀ pk ∈ s.packets, pk.1 = xidOf [] pk.2
  looked : (∀ reqs, s.io ≠ .parsing reqs) → s.packets.length = arrived packets (lookedAt batches)
  looking : ∀ reqs, s.io = .parsing reqs → lookedAt batches = batches.flatten.length

theorem Follows.init (handlers : Int32 → Option η) (packets : List (List UInt8)) (h : Heap) :
    Follows handlers packets [] (init h : ServerTcpConnection κ η) := by
  constructor
  · exact inv_init handlers h
  · rfl
  · exact ⟨packets, rfl⟩
  · simp [ServerTcpConnection.init]
  · intro _
    cases packets with
    | nil => rfl
    | cons p packets =>
      rw [arrived, if_neg]
      · rfl
      · simp [lookedAt]
  · simp [ServerTcpConnection.init]

section Steps

variable {handlers : Int32 → Option η} {s s' : ServerTcpConnection κ η}
  {stream rest : List UInt8} {packets batches : List (List UInt8)}

/-- What `in_` holds is at the front of a stream of the packets to come. -/
theorem Follows.framed (h : Follows handlers packets batches s)
    (hstream : Framed stream packets rest) (hpre : batches.flatten <+: stream) :
    ∃ new t, packets = s.packets.map Prod.snd ++ new ∧
      Framed (s.world.content .in_ ++ t) new rest := by
  obtain ⟨new, hnew⟩ := h.first
  obtain ⟨t, ht⟩ := hpre
  refine ⟨new, t, hnew, hstream.drop hnew ?_⟩
  rw [← ht, ← h.received, h.inv.stream, List.append_assoc]

/-- No packet of the stream is malformed. -/
theorem Follows.not_malformed (h : Follows handlers packets batches s)
    (hstream : Framed stream packets rest) (hpre : batches.flatten <+: stream) :
    ¬ Malformed (s.world.content .in_) := by
  intro hm
  obtain ⟨new, t, hnew, hframed⟩ := h.framed hstream hpre
  obtain ⟨p, new', c', rfl, hc⟩ := hframed.ready hm.1
  rw [hc] at hm
  exact not_malformed_frame (hframed.wellFormed p (by simp)) c' hm

/-- `read_from_fd` -/
theorem Follows.read (h : Follows handlers packets batches s) (hinv : s'.Inv handlers)
    (hidle : s.io = .idle) {W : World ConnName} {got : List UInt8} (heq : s' = s.fill W got) :
    Follows handlers packets (batches ++ [got]) s' := by
  subst heq
  constructor
  · exact hinv
  · change s.received ++ got = _
    rw [h.received, List.flatten_append, List.flatten_singleton]
  · exact h.first
  · exact h.xids
  · intro hnot
    by_cases hzero : got.length % 2 ^ 32 = 0
    · rw [lookedAt_skip batches hzero]
      exact h.looked (by simp [hidle])
    · exact absurd (if_neg hzero) (hnot [])
  · intro reqs hio
    by_cases hzero : got.length % 2 ^ 32 = 0
    · have hio' : Io.idle = .parsing reqs := (if_pos hzero).symm.trans hio
      cases hio'
    · exact lookedAt_look batches hzero

/-- A packet is cut off. -/
theorem Follows.cut (h : Follows handlers packets batches s) (hstream : Framed stream packets rest)
    (hpre : batches.flatten <+: stream) (hinv : s'.Inv handlers) {buf packet c' : List UInt8}
    {reqs : List Request} {W : World ConnName} (hio : s.io = .parsing reqs)
    (hcontent : s.world.content .in_ = frame packet ++ c') (hwf : WellFormed packet)
    (heq : s' = s.cutOff reqs W (xidOf buf packet) packet) :
    Follows handlers packets batches s' := by
  obtain ⟨new, t, hnew, hframed⟩ := h.framed hstream hpre
  rw [hcontent] at hframed
  -- it is the next packet of the stream
  obtain ⟨p, new', c'', rfl, hc⟩ := hframed.ready (frameReady_frame hwf.lt c')
  have hp : WellFormed p := hframed.wellFormed p (by simp)
  obtain ⟨rfl, rfl⟩ := frame_append_inj hwf.lt hp.lt hc
  subst heq
  constructor
  · exact hinv
  · -- no byte has come
    exact h.received
  · -- one packet less is ahead
    refine ⟨new', ?_⟩
    change packets = (s.packets ++ [(xidOf buf packet, packet)]).map Prod.snd ++ new'
    simp [hnew]
  · -- its xid is the one that the stream has there
    intro pk hpk
    obtain hpk | hpk := List.mem_append.mp hpk
    · exact h.xids pk hpk
    · rw [List.mem_singleton.mp hpk]
      exact xidOf_eq hp (hframed.short_xid packet (by simp)) buf
  · -- the first loop goes on
    intro hnot
    exact absurd rfl (hnot _)
  · intro _ _
    exact h.looking reqs hio

/-- The frame loop ends. -/
theorem Follows.scanned (h : Follows handlers packets batches s)
    (hstream : Framed stream packets rest) (hpre : batches.flatten <+: stream)
    (hinv : s'.Inv handlers) {reqs : List Request} (hio : s.io = .parsing reqs)
    (hr : ¬ FrameReady (s.world.content .in_)) (heq : s' = { s with io := .dispatching reqs }) :
    Follows handlers packets batches s' := by
  obtain ⟨new, t, hnew, hframed⟩ := h.framed hstream hpre
  subst heq
  refine ⟨hinv, h.received, h.first, h.xids, fun _ => ?_, by simp⟩
  -- all that has arrived is cut off
  rw [h.looking reqs hio, ← h.received, h.inv.stream, List.length_append]
  conv_rhs => rw [hnew]
  rw [arrived_append, hframed.arrived_eq_zero hr, List.length_map, Nat.add_zero]

/-- A step that leaves the packets and `in_` alone. -/
theorem Follows.same (h : Follows handlers packets batches s) (hinv : s'.Inv handlers)
    (hreceived : s'.received = s.received) (hpackets : s'.packets = s.packets)
    (hio : ∀ reqs, s'.io = .parsing reqs → s.io = .parsing reqs)
    (hio' : ∀ reqs, s.io = .parsing reqs → s'.io = .parsing reqs) :
    Follows handlers packets batches s' := by
  refine ⟨hinv, hreceived.trans h.received, hpackets ▸ h.first, hpackets ▸ h.xids, ?_, ?_⟩
  · intro hnot
    rw [hpackets]
    exact h.looked fun reqs hparsing => hnot reqs (hio' reqs hparsing)
  · intro reqs hparsing
    exact h.looking reqs (hio reqs hparsing)

/-- **One step** of a run in which only bytes of the stream arrive. -/
theorem Follows.step (h : Follows handlers packets batches s) (hstream : Framed stream packets rest)
    {op : Op κ} (hop : s.Allowed handlers op)
    (hpre : (batches ++ s.batchOf op).flatten <+: stream) :
    ∃ s', s.step handlers op = .ok s' ∧ Follows handlers packets (batches ++ s.batchOf op) s' ∧
      (op.isRound = true → s'.remaining < s.remaining) ∧
      ((∀ send, op ≠ .send send) → s'.sender.holder = s.sender.holder) := by
  have hpre' := prefix_of_flatten hpre
  obtain ⟨s', heq, hinv, hp, hlt⟩ :=
    h.inv.progress_step hop fun _ _ => h.not_malformed hstream hpre'
  refine ⟨s', heq, ?_, hlt, ?_⟩
  · cases hp with
    | read hread hfill hin =>
      -- a batch of bytes came
      simp only [batchOf, hread]
      exact h.read hinv hop hfill
    | cut hio hcontent hwf hcut hin =>
      -- a packet was cut off
      rw [batchOf, List.append_nil]
      exact h.cut hstream hpre' hinv hio hcontent hwf hcut
    | scanned hio hr hscanned =>
      rw [batchOf, List.append_nil]
      exact h.scanned hstream hpre' hinv hio hr hscanned
    | dispatched hio hio' hreceived hpackets hin hholder =>
      -- the second loop takes nothing from the stream
      rw [batchOf, List.append_nil]
      exact h.same hinv hreceived hpackets (fun reqs hparsing => absurd hparsing (hio' reqs))
        (fun reqs hparsing => absurd hparsing (hio reqs))
    | sent hio hreceived hpackets hin =>
      rw [batchOf, List.append_nil]
      apply h.same hinv hreceived hpackets <;> simp [hio]
  · -- only handlers and `handle_write` touch the lock
    intro hsend
    cases hp with
    | read hread hfill hin => rw [hfill]; rfl
    | cut hio hcontent hwf hcut hin => rw [hcut]; rfl
    | scanned hio hr hscanned => rw [hscanned]
    | dispatched hio hio' hreceived hpackets hin hholder => exact hholder
    | sent hio hreceived hpackets hin => exact absurd rfl (hsend _)

/-- **A whole run** in which only bytes of the stream arrive. -/
theorem follows_of_run {h : Heap} {events : List (Op κ × List (List UInt8))}
    (hstream : Framed stream packets rest) (hrun : Steps (Delivers handlers) (init h) events s)
    (hpre : (batchesOf events).flatten <+: stream) :
    Follows handlers packets (batchesOf events) s := by
  have hfollows : (batchesOf ([] ++ events)).flatten <+: stream →
      Follows handlers packets (batchesOf ([] ++ events)) s := by
    -- as long as the batches are part of the stream
    refine hrun.history (P := fun events s =>
      (batchesOf events).flatten <+: stream → Follows handlers packets (batchesOf events) s) ?_ ?_
    · intro events s event s' hs hnext hpre
      obtain ⟨hop, hbatch, hstep⟩ := hnext
      have hcat : batchesOf (events ++ [event]) = batchesOf events ++ s.batchOf event.1 := by
        rw [batchesOf, List.flatMap_append, List.flatMap_singleton, hbatch]
        rfl
      rw [hcat] at hpre ⊢
      obtain ⟨s'', heq, hfollows, -⟩ := (hs (prefix_of_flatten hpre)).step hstream hop hpre
      obtain rfl : s'' = s' := by simpa using heq.symm.trans hstep
      exact hfollows
    · intro _
      exact Follows.init handlers packets h
  exact hfollows hpre

/-- After a run the outcomes and the rest in `in_` follow from the stream and from how much of it
    had arrived when `handle_read` last looked. -/
theorem run_outcomes {h : Heap} {events : List (Op κ × List (List UInt8))}
    (hstream : Framed stream packets rest) (hrun : Steps (Delivers handlers) (init h) events s)
    (hall : (batchesOf events).flatten = stream) (hidle : s.io = .idle) :
    ∃ old new, packets = old ++ new ∧ old.length = arrived packets (lookedAt (batchesOf events)) ∧
      s.outcomes = old.map (fun p => outcomeOf handlers (xidOf [] p) p) ∧
      stream = old.flatMap frame ++ s.world.content .in_ := by
  have hf := follows_of_run hstream hrun (hall ▸ List.prefix_rfl)
  obtain ⟨new, hnew⟩ := hf.first
  refine ⟨s.packets.map Prod.snd, new, hnew, ?_, ?_, ?_⟩
  · rw [List.length_map]
    exact hf.looked (by simp [hidle])
  · -- no request is waiting, so every packet has its outcome
    obtain ⟨done, waiting, hpackets, hout, hwaiting⟩ := hf.inv.progress
    rw [hidle] at hwaiting
    have hnil : waiting = [] := by simpa [Io.waiting] using hwaiting.symm
    rw [hnil, List.append_nil] at hpackets
    rw [hout, ← hpackets, List.map_map]
    apply List.map_congr_left
    intro pk hpk
    rw [hf.xids pk hpk]
    rfl
  · rw [← hall, ← hf.received]
    exact hf.inv.stream

/-! ## Every way of delivering a stream -/

variable (handlers) in
/-- While `handle_read` is running it can take its next round, if nobody holds the lock. -/
theorem exists_round (hio : s.io ≠ .idle) (hfree : s.sender.holder = none) :
    ∃ op : Op κ, op.isRound = true ∧ s.Allowed handlers op := by
  cases h : s.io with
  | idle => exact absurd h hio
  | parsing reqs => exact ⟨.parse [], rfl, reqs, h⟩
  | dispatching reqs => exact ⟨.dispatch [] [], rfl, reqs, h, fun _ _ _ => hfree⟩

/-- `handle_read` comes to its end. -/
theorem Follows.finish (h : Follows handlers packets batches s)
    (hstream : Framed stream packets rest) (hpre : batches.flatten <+: stream)
    (hfree : s.sender.holder = none) :
    ∃ events s', Steps (Delivers handlers) s events s' ∧ batchesOf events = [] ∧ s'.io = .idle ∧
      Follows handlers packets batches s' ∧ s'.sender.holder = none := by
  induction hn : s.remaining using Nat.strong_induction_on generalizing s with
  | _ n ih =>
    by_cases hio : s.io = .idle
    · exact ⟨[], s, .nil s, rfl, hio, h, hfree⟩
    · obtain ⟨op, hround, hop⟩ := exists_round handlers hio hfree
      have hbatch : s.batchOf op = [] := by
        cases op <;> simp [Op.isRound, batchOf] at hround ⊢
      obtain ⟨s₁, heq, h₁, hlt, hholder⟩ := h.step hstream hop (by simpa [hbatch] using hpre)
      rw [hbatch, List.append_nil] at h₁
      have hfree₁ : s₁.sender.holder = none := by
        rw [hholder (by rintro send rfl; simp [Op.isRound] at hround), hfree]
      obtain ⟨events, s', hrun, hnone, hend⟩ := ih _ (hn ▸ hlt hround) h₁ hfree₁ rfl
      refine ⟨(op, []) :: events, s', .cons ⟨hop, hbatch.symm, heq⟩ hrun, ?_, hend⟩
      simpa [batchesOf] using hnone

/-- Every way of delivering the stream happens. -/
theorem Follows.deliver (h : Follows handlers packets batches s)
    (hstream : Framed stream packets rest) (hidle : s.io = .idle) (hfree : s.sender.holder = none)
    (more : List (List UInt8)) (hpre : (batches ++ more).flatten <+: stream) :
    ∃ events s', Steps (Delivers handlers) s events s' ∧ batchesOf events = more ∧
      s'.io = .idle := by
  induction more generalizing batches s with
  | nil => exact ⟨[], s, .nil s, rfl, hidle⟩
  | cons batch more ih =>
    rw [← List.singleton_append, ← List.append_assoc] at hpre
    -- the kernel hands out one byte at a time
    have hop : s.Allowed handlers (.readFd batch (List.replicate batch.length 1)) := hidle
    have hbatch : s.batchOf (.readFd batch (List.replicate batch.length 1)) = [batch] := by
      obtain ⟨W, hread⟩ := World.readFromFd_all h.inv.sender.world.ok.ok .in_ batch
        (show ∀ resp ∈ List.replicate batch.length 1, 0 < resp by simp) (by simp)
      simp only [batchOf, world, hread]
    obtain ⟨s₁, heq, h₁, -, hholder⟩ := h.step hstream hop
      (by rw [hbatch]; exact prefix_of_flatten hpre)
    rw [hbatch] at h₁
    obtain ⟨rounds, s₂, hrounds, hnone, hidle₂, h₂, hfree₂⟩ :=
      h₁.finish hstream (prefix_of_flatten hpre) ((hholder (by simp)).trans hfree)
    obtain ⟨events, s', hrun, hmore, hend⟩ := ih h₂ hidle₂ hfree₂ hpre
    refine ⟨(.readFd batch (List.replicate batch.length 1), [batch]) :: (rounds ++ events), s',
      .cons ⟨hop, hbatch.symm, heq⟩ (hrounds.append hrun), ?_, hend⟩
    rw [batchesOf, List.flatMap_cons, List.flatMap_append]
    change [batch] ++ (batchesOf rounds ++ batchesOf events) = batch :: more
    rw [hnone, hmore]
    rfl

/-- The batches were read, one after the other, and `handle_read` has returned from the last. -/
def Delivered (handlers : Int32 → Option η) (h : Heap) (batches : List (List UInt8))
    (s : ServerTcpConnection κ η) : Prop :=
  ∃ events, Steps (Delivers handlers) (init h) events s ∧ batchesOf events = batches ∧ s.io = .idle

variable (κ handlers) in
theorem exists_delivered (hstream : Framed stream packets rest) (h : Heap)
    (hall : batches.flatten = stream) :
    ∃ s : ServerTcpConnection κ η, Delivered handlers h batches s := by
  obtain ⟨events, s, hrun, hbatches, hidle⟩ := (Follows.init handlers packets h).deliver
    (κ := κ) hstream rfl rfl batches (by rw [List.nil_append, hall])
  exact ⟨s, events, hrun, hbatches, hidle⟩

/-- Two ways of delivering a stream agree if and only if they have the same frames looked at. -/
theorem Delivered.agree_iff (hstream : Framed stream packets rest) {h h' : Heap}
    {batches' : List (List UInt8)} (hs : Delivered handlers h batches s)
    (hs' : Delivered handlers h' batches' s') (hall : batches.flatten = stream)
    (hall' : batches'.flatten = stream) :
    (s.outcomes = s'.outcomes ∧ s.world.content .in_ = s'.world.content .in_) ↔
      arrived packets (lookedAt batches) = arrived packets (lookedAt batches') := by
  obtain ⟨events, hrun, rfl, hidle⟩ := hs
  obtain ⟨events', hrun', rfl, hidle'⟩ := hs'
  obtain ⟨old, new, hp, hlen, hout, hrest⟩ := run_outcomes hstream hrun hall hidle
  obtain ⟨old', new', hp', hlen', hout', hrest'⟩ := run_outcomes hstream hrun' hall' hidle'
  rw [← hlen, ← hlen']
  constructor
  · intro hagree
    -- there is an outcome for each frame
    have hcount := congrArg List.length hagree.1
    rwa [hout, hout', List.length_map, List.length_map] at hcount
  · intro hcount
    obtain ⟨rfl, -⟩ := List.append_inj (hp.symm.trans hp') hcount
    refine ⟨hout.trans hout'.symm, ?_⟩
    exact List.append_cancel_left (hrest.symm.trans hrest')

end Steps

/-- **Segmentation**: however a stream of frames is delivered, nothing aborts and every loop ends;
    and the outcomes and the rest in `in_` are those of the stream in one batch if and only if the
    same frames were complete when `handle_read` last looked, at a batch whose length is not a
    multiple of 2^32. -/
theorem segmentation_invisible_iff (handlers : Int32 → Option η) (h h' : Heap)
    {stream rest : List UInt8} {packets batches : List (List UInt8)}
    (hstream : Framed stream packets rest) (hall : batches.flatten = stream) :
    (∀ events (s : ServerTcpConnection κ η), Steps (Delivers handlers) (init h) events s →
      ∀ op, s.Allowed handlers op → (batchesOf events ++ s.batchOf op).flatten <+: stream →
        ∃ s', s.step handlers op = .ok s' ∧ (op.isRound = true → s'.remaining < s.remaining)) ∧
    (∃ s : ServerTcpConnection κ η, Delivered handlers h batches s) ∧
    (∃ s : ServerTcpConnection κ η, Delivered handlers h' [stream] s) ∧
    ((∀ s s' : ServerTcpConnection κ η, Delivered handlers h batches s →
        Delivered handlers h' [stream] s' →
        s.outcomes = s'.outcomes ∧ s.world.content .in_ = s'.world.content .in_) ↔
      arrived packets (lookedAt batches) = arrived packets (lookedAt [stream])) := by
  have hone : [stream].flatten = stream := List.flatten_singleton
  obtain ⟨s, hs⟩ := exists_delivered κ handlers hstream h hall
  obtain ⟨s', hs'⟩ := exists_delivered κ handlers hstream h' hone
  refine ⟨?_, ⟨s, hs⟩, ⟨s', hs'⟩, ?_, ?_⟩
  · intro events s hrun op hop hpre
    obtain ⟨s', heq, -, hlt, -⟩ :=
      (follows_of_run hstream hrun (prefix_of_flatten hpre)).step hstream hop hpre
    exact ⟨s', heq, hlt⟩
  · intro hagree
    exact (hs.agree_iff hstream hs' hall hone).mp (hagree s s' hs hs')
  · intro hcount s s' hs hs'
    exact (hs.agree_iff hstream hs' hall hone).mpr hcount

/-- A request that is cut inside its size. -/
theorem segmentation_invisible_request :
    ∃ s s' : ServerTcpConnection Unit Unit,
      Delivered (fun _ => none) .empty [[5, 0, 0], [0, 1, 7, 0, 0, 0]] s ∧
      Delivered (fun _ => none) .empty [[5, 0, 0, 0, 1, 7, 0, 0, 0]] s' ∧
      s.outcomes = s'.outcomes ∧ s.world.content .in_ = s'.world.content .in_ := by
  have hstream : Framed [5, 0, 0, 0, 1, 7, 0, 0, 0] [[1, 7, 0, 0, 0]] [] := by
    refine ⟨by decide, ?_, by decide, [], frame [], by decide, by decide, rfl⟩
    intro p hp
    obtain rfl := List.mem_singleton.mp hp
    exact ⟨by decide, by decide, by decide⟩
  obtain ⟨-, ⟨s, hs⟩, ⟨s', hs'⟩, hiff⟩ := segmentation_invisible_iff (κ := Unit) (η := Unit)
    (fun _ => none) .empty .empty hstream
    (show [[5, 0, 0], [0, 1, 7, 0, 0, 0]].flatten = _ by decide)
  exact ⟨s, s', hs, hs', hiff.mpr (by decide) s s' hs hs'⟩

/-- Two frames of 2^31 bytes each: in two batches both are dispatched, and in one batch, of 2^32
    bytes, none. -/
theorem segmentation_visible :
    ¬ ∀ (stream rest : List UInt8) (packets batches : List (List UInt8)),
      Framed stream packets rest → batches.flatten = stream →
      ∀ s s' : ServerTcpConnection Unit Unit, Delivered (fun _ => none) .empty batches s →
        Delivered (fun _ => none) .empty [stream] s' →
        s.outcomes = s'.outcomes ∧ s.world.content .in_ = s'.world.content .in_ := by
  intro hclaim
  obtain ⟨p, hlen, hfst⟩ : ∃ p : List UInt8, p.length = 2 ^ 31 - 4 ∧ p.getD 0 0 = 1 := by
    refine ⟨List.replicate (2 ^ 31 - 4) 1, List.length_replicate, ?_⟩
    rw [List.getD_eq_getElem?_getD, List.getElem?_replicate, if_pos (by decide)]
    rfl
  have hframe : (frame p).length = 2 ^ 31 := by
    rw [frame_length, hlen]
    decide
  have hstream : Framed (frame p ++ frame p) [p, p] [] := by
    refine ⟨by simp, ?_, ?_, [], frame [], by decide, by decide, rfl⟩
    · intro q hq
      obtain rfl : q = p := by simpa using hq
      refine ⟨by omega, by omega, ?_⟩
      rw [hfst, hlen]
      decide
    · intro q hq
      obtain rfl : q = p := by simpa using hq
      rw [hfst]
      decide
  have htwo : [frame p, frame p].flatten = frame p ++ frame p := by simp
  have hone : [frame p ++ frame p].flatten = frame p ++ frame p := List.flatten_singleton
  obtain ⟨s, hs⟩ := exists_delivered Unit (fun _ => (none : Option Unit)) hstream .empty htwo
  obtain ⟨s', hs'⟩ := exists_delivered Unit (fun _ => (none : Option Unit)) hstream .empty hone
  have hcount := (hs.agree_iff hstream hs' htwo hone).mp (hclaim _ _ _ _ hstream htwo s s' hs hs')
  -- the last of two batches is looked at, and all of it has arrived
  have hlooked : lookedAt [frame p, frame p] = 2 ^ 32 := by
    rw [← List.singleton_append, lookedAt_look [frame p] (by rw [hframe]; decide)]
    simp [hframe]
  -- the only batch is not
  have hskipped : lookedAt [frame p ++ frame p] = 0 := by
    rw [← List.nil_append [_], lookedAt_skip [] (by rw [List.length_append, hframe]; decide)]
    rfl
  rw [hlooked, hskipped] at hcount
  simp [arrived, hframe] at hcount

end ServerTcpConnection

end SimpleRpc.Rpc
