import SimpleRpc.Rpc.Sender

/-!
# UDP Requests of a Client

A UDP request is one datagram `<size> <rpc_id> <arg1> ... <argN>`. `begin_udp_request` takes
`udp_l_` and reserves the size field in `udp_`, the arguments follow, and `end_udp_request` fills
the size field and hands what `udp_` holds to `sendto`. `get_buf` refuses what a datagram cannot
hold, and leaves it in `udp_`.

## Layers

- **Code**: `UdpClient.beginUdpRequest`, `put`, `writeMarshal`, `getBuf` and `endUdpRequest`; all
  but the last two are as for a TCP connection
- **System**: `UdpClient.step`, any interleaving of these by any threads, and of operations on the
  other Marshals of the process
- **Abstract**: `outcomes`, what each request of a sequence leads to, as a function of the payloads

## Main results

- `UdpClient.Tracks.step`: whatever the interleaving, the requests lead to `outcomes`
- `outcomes_of_full`: a request that is too large is the last one that sends anything
- `requests_independent_iff`: no request disturbs another one if and only if none is too large

## Model

The values of a request and the other Marshals are those of `SimpleRpc.Rpc.Sender`. What `sendto`
returns is ignored by the code.
-/

namespace SimpleRpc.Rpc

open SimpleRpc.Lib SimpleRpc.Base

/-- `UdpBuffer::max_udp_packet_size_s` -/
def maxUdpPacketSize : Nat := 65507

/-- `E2BIG` -/
def e2big : Int32 := 7

/-- What one UDP request led to. -/
structure UdpOutcome where
  /-- ghost: `<rpc_id> <arg1> ... <argN>` -/
  payload : List UInt8
  /-- what was handed to `sendto` -/
  datagrams : List (List UInt8)
  /-- what `end_udp_request` returned -/
  ret : Int32
  /-- the size of what it left in `udp_` -/
  left : Nat

/-- `udp_`, `udp_l_` and `udp_bmark_` of a Client. -/
structure UdpClient (ι τ : Type) where
  base : Sender ι τ
  /-- ghost: the requests so far -/
  log : List UdpOutcome

/-- A step of a thread, or of the rest of the process. -/
inductive UdpOp (ι τ : Type) where
  | begin (t : τ) (rpcId : Int32)
  | put (t : τ) (v : Value)
  | writeMarshal (t : τ) (j : ι)
  | endRequest (t : τ)
  | own (op : OwnOp ι)

namespace UdpClient

variable {ι τ : Type}

/-- No request was made yet. -/
def init (h : Heap) (writers : Set ι) : UdpClient ι τ := ⟨.init h writers, []⟩

variable [DecidableEq ι]

/-! ## The code -/

/-- `begin_udp_request(rpc_id)` -/
def beginUdpRequest (udp : ι) (s : UdpClient ι τ) (t : τ) (rpcId : Int32) :
    Except Fault (UdpClient ι τ) := do
  let base ← s.base.beginMessage udp t (Value.i32 rpcId)
  pure { s with base := base }

/-- `udp_request() << v` -/
def put (udp : ι) (s : UdpClient ι τ) (v : Value) : Except Fault (UdpClient ι τ) := do
  let base ← s.base.put udp v
  pure { s with base := base }

/-- `udp_request() << m_j` -/
def writeMarshal (udp j : ι) (s : UdpClient ι τ) : Except Fault (UdpClient ι τ) := do
  let base ← s.base.writeMarshal udp j
  pure { s with base := base }

/-- `get_buf(&size, &overflow)`: the first `size` bytes of the buffer, and `overflow`. -/
def getBuf (udp : ι) (W : World ι) : Except Fault (World ι × List UInt8 × Bool) :=
  if W.contentSize udp ≠ 0 then
    if maxUdpPacketSize < W.contentSize udp then pure (W, [], true)
    else do
      let (W, buf) ← W.read udp (W.contentSize udp)
      pure (W, buf, false)
  else pure (W, [], false)

/-- The first lines of `end_udp_request()` -/
def fillSize (udp : ι) (W : World ι) (bmark : Option Bookmark) : World ι :=
  let (W, payloadSize) := W.getAndResetWriteCnt udp
  match bmark with
  | some bm => W.writeBookmark bm (leBytes 4 payloadSize.toUInt32.toNat)
  | none => W

/-- `end_udp_request()` -/
def endUdpRequest (udp : ι) (s : UdpClient ι τ) (t : τ) : Except Fault (UdpClient ι τ) := do
  let W := fillSize udp s.base.world s.base.bmark
  let (W, buf, overflow) ← getBuf udp W
  let (datagrams, ret) := if overflow then ([], e2big) else ([buf], 0)
  let base := { s.base with
    world := W, holder := none, bmark := none, sent := s.base.sent ++ buf
    done := s.base.done ++ [(t, s.base.current)], current := [] }
  pure ⟨base, s.log ++ [⟨s.base.current, datagrams, ret, W.contentSize udp⟩]⟩

/-- One step. -/
def step (udp : ι) (s : UdpClient ι τ) : UdpOp ι τ → Except Fault (UdpClient ι τ)
  | .begin t rpcId => s.beginUdpRequest udp t rpcId
  | .put _ v => s.put udp v
  | .writeMarshal _ j => s.writeMarshal udp j
  | .endRequest t => s.endUdpRequest udp t
  | .own op => do
    let (W, ws) ← op.step s.base.world s.base.writers
    pure { s with base := { s.base with world := W, writers := ws } }

omit [DecidableEq ι] in
/-- Whoever writes to `udp_` holds the lock. -/
def Allowed (udp : ι) (s : UdpClient ι τ) : UdpOp ι τ → Prop
  | .begin _ _ => s.base.holder = none
  | .put t _ | .endRequest t => s.base.holder = some t
  | .writeMarshal t j => s.base.holder = some t ∧ j ∈ s.base.writers ∧ j ≠ udp
  | .own op => op.Allowed s.base.world s.base.writers ∧ udp ∉ op.names

/-- An allowed step. -/
def Next (udp : ι) (s : UdpClient ι τ) (op : UdpOp ι τ) (s' : UdpClient ι τ) : Prop :=
  s.Allowed udp op ∧ s.step udp op = .ok s'

end UdpClient

/-! ## The specification -/

/-- What a request should lead to: its own datagram, or nothing at all. -/
def UdpOutcome.Own (o : UdpOutcome) : Prop :=
  ((frame o.payload).length ≤ maxUdpPacketSize → o.datagrams = [frame o.payload] ∧ o.ret = 0) ∧
    (maxUdpPacketSize < (frame o.payload).length →
      o.datagrams = [] ∧ o.ret = e2big ∧ o.left = 0)

namespace UdpClient

/-! ## Sequences of requests -/

/-- What a request leads to when `udp_` holds `left` before. -/
def outcome (left payload : List UInt8) : UdpOutcome :=
  if maxUdpPacketSize < (left ++ frame payload).length then
    ⟨payload, [], e2big, (left ++ frame payload).length⟩
  else ⟨payload, [left ++ frame payload], 0, 0⟩

/-- What is in `udp_` afterwards. -/
def remainder (left payload : List UInt8) : List UInt8 :=
  if maxUdpPacketSize < (left ++ frame payload).length then left ++ frame payload else []

/-- What a sequence of requests leads to. -/
def outcomes : List UInt8 → List (List UInt8) → List UdpOutcome
  | _, [] => []
  | left, payload :: payloads =>
    outcome left payload :: outcomes (remainder left payload) payloads

@[simp] theorem outcome_payload (left payload : List UInt8) :
    (outcome left payload).payload = payload := by
  rw [outcome]
  split
  · rfl
  · rfl

theorem outcomes_payloads (left : List UInt8) (payloads : List (List UInt8)) :
    (outcomes left payloads).map UdpOutcome.payload = payloads := by
  induction payloads generalizing left with
  | nil => rfl
  | cons first payloads ih => simp [outcomes, ih]

theorem outcomes_concat (left : List UInt8) (payloads : List (List UInt8)) (payload : List UInt8) :
    outcomes left (payloads ++ [payload]) =
      outcomes left payloads ++ [outcome (payloads.foldl remainder left) payload] := by
  induction payloads generalizing left with
  | nil => rfl
  | cons first payloads ih => simp [outcomes, ih]

theorem mem_outcomes (left : List UInt8) {payloads : List (List UInt8)} {payload : List UInt8}
    (h : payload ∈ payloads) : ∃ left', outcome left' payload ∈ outcomes left payloads := by
  induction payloads generalizing left with
  | nil => cases h
  | cons first payloads ih =>
    cases h with
    | head => exact ⟨left, .head _⟩
    | tail _ h =>
      obtain ⟨left', hmem⟩ := ih (remainder left first) h
      exact ⟨left', .tail _ hmem⟩

/-- **A full buffer** stays full: nothing is sent any more. -/
theorem outcomes_of_full {left : List UInt8} (hfull : maxUdpPacketSize < left.length)
    (payloads : List (List UInt8)) :
    ∀ o ∈ outcomes left payloads, o.datagrams = [] ∧ o.ret = e2big := by
  induction payloads generalizing left with
  | nil => simp [outcomes]
  | cons payload payloads ih =>
    have hstill : maxUdpPacketSize < (left ++ frame payload).length := by
      rw [List.length_append]
      omega
    intro o ho
    rw [outcomes, outcome, remainder, if_pos hstill, if_pos hstill] at ho
    cases ho with
    | head => exact ⟨rfl, rfl⟩
    | tail _ ho => exact ih hstill o ho

/-- Requests that fit find an empty buffer and leave an empty buffer. -/
theorem own_of_fits {payloads : List (List UInt8)}
    (hfits : ∀ payload ∈ payloads, (frame payload).length ≤ maxUdpPacketSize) :
    ∀ o ∈ outcomes [] payloads, o.Own := by
  induction payloads with
  | nil => simp [outcomes]
  | cons payload payloads ih =>
    have hfit : (frame payload).length ≤ maxUdpPacketSize := hfits payload (.head _)
    intro o ho
    rw [outcomes, outcome, remainder, List.nil_append, if_neg (Nat.not_lt.mpr hfit),
      if_neg (Nat.not_lt.mpr hfit)] at ho
    cases ho with
    | head => exact ⟨fun _ => ⟨rfl, rfl⟩, fun h => absurd h (Nat.not_lt.mpr hfit)⟩
    | tail _ ho => exact ih (fun p hp => hfits p (.tail _ hp)) o ho

/-- A request that is too large stays in the buffer. -/
theorem not_own_of_large {payload : List UInt8} (hlarge : maxUdpPacketSize < (frame payload).length)
    (left : List UInt8) : ¬ (outcome left payload).Own := by
  intro hown
  have hover : maxUdpPacketSize < (left ++ frame payload).length := by
    rw [List.length_append]
    omega
  -- it should have left nothing behind
  have hempty := (hown.2 (by rwa [outcome_payload])).2.2
  rw [outcome, if_pos hover] at hempty
  simp only at hempty
  omega

theorem own_iff (payloads : List (List UInt8)) :
    (∀ o ∈ outcomes [] payloads, o.Own) ↔
      ∀ payload ∈ payloads, (frame payload).length ≤ maxUdpPacketSize := by
  constructor
  · intro hown payload hmem
    by_contra hlarge
    obtain ⟨left, hlogged⟩ := mem_outcomes [] hmem
    exact not_own_of_large (Nat.not_le.mp hlarge) left (hown _ hlogged)
  · exact own_of_fits

/-! ## The system -/

variable {ι τ : Type} [DecidableEq ι]

section Buffer

variable {udp : ι} {W : World ι} {ws : Set ι} (hI : W.Inv ws)

include hI

theorem getBuf_overflow (hlarge : maxUdpPacketSize < (W.content udp).length) :
    getBuf udp W = .ok (W, [], true) := by
  have hsize := World.contentSize_eq hI.ok.ok udp
  have hne : W.contentSize udp ≠ 0 := by
    rw [hsize]
    omega
  rw [getBuf, if_pos hne, hsize, if_pos hlarge]
  rfl

theorem getBuf_fits (hne : W.content udp ≠ [])
    (hfits : (W.content udp).length ≤ maxUdpPacketSize) :
    ∃ W', getBuf udp W = .ok (W', W.content udp, false) ∧
      World.Updates W W' ws udp [] (W.writeCnt udp) := by
  have hsize := World.contentSize_eq hI.ok.ok udp
  obtain ⟨W', heq, hu⟩ := hI.read udp (W.content udp).length
  rw [List.take_length] at heq
  rw [List.drop_length] at hu
  refine ⟨W', ?_, hu⟩
  have hpos : (W.content udp).length ≠ 0 := by simpa using hne
  simp only [getBuf, hsize, if_pos hpos, if_neg (Nat.not_lt.mpr hfits), heq, ok_bind]
  rfl

end Buffer

/-- The requests so far. -/
def payloads (s : UdpClient ι τ) : List (List UInt8) := s.base.done.map Prod.snd

/-- The requests led to what they should by the payloads alone. -/
structure Tracks (udp : ι) (s : UdpClient ι τ) : Prop where
  base : s.base.Inv udp
  log : s.log = outcomes [] s.payloads
  left : s.base.sent ++ s.payloads.foldl remainder [] = Sender.wire s.base.done

omit [DecidableEq ι] in
theorem tracks_init {udp : ι} (h : Heap) {writers : Set ι} (hudp : udp ∈ writers) :
    (init h writers : UdpClient ι τ).Tracks udp :=
  ⟨Sender.inv_init h hudp, rfl, rfl⟩

omit [DecidableEq ι] in
/-- A step that ends no request. -/
theorem Tracks.same {udp : ι} {s : UdpClient ι τ} (ht : s.Tracks udp) {base : Sender ι τ}
    (hinv : base.Inv udp) (hdone : base.done = s.base.done) (hsent : base.sent = s.base.sent) :
    Tracks udp { s with base := base } := by
  refine ⟨hinv, ?_, ?_⟩
  · rw [ht.log, payloads, payloads, hdone]
  · rw [payloads, hdone, hsent]
    exact ht.left

section Steps

variable {udp : ι} {s : UdpClient ι τ} (ht : s.Tracks udp)

include ht

/-- With the size field filled, `udp_` holds what was left before and the frame of the request. -/
theorem Tracks.fillSize {t : τ} (hheld : s.base.holder = some t) :
    fillSize udp s.base.world s.base.bmark = (s.base.endMessage udp t).world ∧
      (s.base.endMessage udp t).world.content udp =
        s.payloads.foldl remainder [] ++ frame s.base.current := by
  obtain ⟨bm, -, -, hbm, -⟩ := ht.base.held t hheld
  constructor
  · simp only [UdpClient.fillSize, Sender.endMessage, hbm]
  · obtain ⟨-, -, hbytes⟩ := (ht.base.endMessage hheld).1.free rfl
    -- what was sent before is the same on both sides
    change s.base.sent ++ _ = Sender.wire (s.base.done ++ [(t, s.base.current)]) at hbytes
    have hwire : Sender.wire (s.base.done ++ [(t, s.base.current)]) =
        s.base.sent ++ (s.payloads.foldl remainder [] ++ frame s.base.current) := by
      rw [← List.append_assoc, ht.left]
      simp [Sender.wire]
    exact List.append_cancel_left (hbytes.trans hwire)

/-- What `end_udp_request` does with what `get_buf` returns. -/
theorem Tracks.endUdpRequest_eq {t : τ} (hheld : s.base.holder = some t) {W' : World ι}
    {buf : List UInt8} {overflow : Bool}
    (hbuf : getBuf udp (s.base.endMessage udp t).world = .ok (W', buf, overflow)) :
    s.endUdpRequest udp t = .ok
      ⟨{ s.base.endMessage udp t with world := W', sent := s.base.sent ++ buf },
        s.log ++ [⟨s.base.current, if overflow then [] else [buf], if overflow then e2big else 0,
          W'.contentSize udp⟩]⟩ := by
  rw [← (ht.fillSize hheld).1] at hbuf
  simp only [endUdpRequest, hbuf, ok_bind]
  cases overflow
  · rfl
  · rfl

/-- The two exits of `get_buf` have this in common. -/
theorem Tracks.logged {t : τ} (hheld : s.base.holder = some t) {W' : World ι} {buf : List UInt8}
    {overflow : Bool} (hbuf : getBuf udp (s.base.endMessage udp t).world = .ok (W', buf, overflow))
    (hinv : Sender.Inv udp
      { s.base.endMessage udp t with world := W', sent := s.base.sent ++ buf })
    (hentry : outcome (s.payloads.foldl remainder []) s.base.current =
      ⟨s.base.current, if overflow then [] else [buf], if overflow then e2big else 0,
        W'.contentSize udp⟩)
    (hleft : s.base.sent ++ buf ++ remainder (s.payloads.foldl remainder []) s.base.current =
      Sender.wire (s.base.endMessage udp t).done) :
    ∃ s', s.endUdpRequest udp t = .ok s' ∧ s'.Tracks udp ∧
      s'.log = s.log ++ [outcome (s.payloads.foldl remainder []) s.base.current] := by
  have hpayloads : (s.base.endMessage udp t).done.map Prod.snd = s.payloads ++ [s.base.current] := by
    simp [Sender.endMessage, payloads]
  refine ⟨_, ht.endUdpRequest_eq hheld hbuf, ⟨hinv, ?_, ?_⟩, ?_⟩
  · rw [payloads, hpayloads, outcomes_concat, hentry, ht.log]
  · rw [payloads, hpayloads, List.foldl_append]
    exact hleft
  · rw [hentry]

/-- **End of a request**: it leads to what its payload and what was left make of it. -/
theorem Tracks.endRequest {t : τ} (hheld : s.base.holder = some t) :
    ∃ s', s.endUdpRequest udp t = .ok s' ∧ s'.Tracks udp ∧
      s'.log = s.log ++ [outcome (s.payloads.foldl remainder []) s.base.current] := by
  obtain ⟨-, hcontent⟩ := ht.fillSize hheld
  obtain ⟨hinv, -⟩ := ht.base.endMessage hheld
  obtain ⟨-, -, hbytes⟩ := hinv.free rfl
  by_cases hlarge : maxUdpPacketSize < (s.payloads.foldl remainder [] ++ frame s.base.current).length
  · -- nothing is read from `udp_`
    have hbuf := getBuf_overflow hinv.world (hcontent ▸ hlarge)
    apply ht.logged hheld hbuf
    · -- the lock is free again
      rw [List.append_nil]
      exact hinv
    · -- the outcome is a refusal
      rw [outcome, if_pos hlarge, World.contentSize_eq hinv.world.ok.ok, hcontent]
      rfl
    · -- everything stays in `udp_`
      rw [remainder, if_pos hlarge, ← hcontent, List.append_nil]
      exact hbytes
  · -- all of it goes into the datagram
    have hne : (s.base.endMessage udp t).world.content udp ≠ [] := by
      apply List.ne_nil_of_length_pos
      rw [hcontent, List.length_append, frame_length]
      omega
    obtain ⟨W', hbuf, hu⟩ := getBuf_fits hinv.world hne (hcontent ▸ Nat.not_lt.mp hlarge)
    apply ht.logged hheld hbuf
    · -- `udp_` is empty again
      rw [← List.drop_length (l := (s.base.endMessage udp t).world.content udp)] at hu
      have htaken := hinv.taken rfl hu
      rwa [List.take_length] at htaken
    · -- the outcome is the datagram
      rw [outcome, if_neg hlarge, World.contentSize_eq hu.inv.ok.ok, hu.content_same, hcontent]
      rfl
    · -- nothing is left for the next request
      rw [remainder, if_neg hlarge, List.append_nil]
      exact hbytes

/-- **One step** returns, and the requests stay what their payloads make of them. -/
theorem Tracks.step {op : UdpOp ι τ} (hop : s.Allowed udp op) :
    ∃ s', s.step udp op = .ok s' ∧ s'.Tracks udp := by
  cases op with
  | begin t rpcId =>
    obtain ⟨W', bm, heq, hinv, -⟩ := ht.base.beginMessage hop t (Value.i32 rpcId)
    exact ⟨_, by rw [UdpClient.step, beginUdpRequest, heq]; rfl, ht.same hinv rfl rfl⟩
  | put t v =>
    obtain ⟨W', heq, hinv, -⟩ := ht.base.put hop v
    exact ⟨_, by rw [UdpClient.step, UdpClient.put, heq]; rfl, ht.same hinv rfl rfl⟩
  | writeMarshal t j =>
    obtain ⟨hheld, hj, hjo⟩ := hop
    obtain ⟨W', heq, hinv, -⟩ := ht.base.writeMarshal hheld hj hjo
    exact ⟨_, by rw [UdpClient.step, UdpClient.writeMarshal, heq]; rfl, ht.same hinv rfl rfl⟩
  | endRequest t =>
    obtain ⟨s', heq, htracks, -⟩ := ht.endRequest hop
    exact ⟨s', heq, htracks⟩
  | own op =>
    obtain ⟨W', ws', heq, hs⟩ := OwnOp.step_spares ht.base.world hop.1
    have hinv := ht.base.untouched hs.inv (hs.writers udp hop.2 ht.base.out_mem)
      (hs.untouched udp hop.2)
    exact ⟨_, by rw [UdpClient.step, heq]; rfl, ht.same hinv rfl rfl⟩

/-- **A whole request** with one argument -/
theorem Tracks.request (hfree : s.base.holder = none) (t : τ) (rpcId : Int32) (v : Value) :
    ∃ s', Steps (Next udp) s [.begin t rpcId, .put t v, .endRequest t] s' ∧ s'.Tracks udp ∧
      s'.base.holder = none ∧ s'.payloads = s.payloads ++ [(Value.i32 rpcId).bytes ++ v.bytes] := by
  obtain ⟨W₁, bm, heq₁, hinv₁, -⟩ := ht.base.beginMessage hfree t (Value.i32 rpcId)
  have ht₁ := ht.same hinv₁ rfl rfl
  obtain ⟨W₂, heq₂, hinv₂, -⟩ := hinv₁.put rfl v
  have ht₂ := ht₁.same hinv₂ rfl rfl
  obtain ⟨s', heq₃, ht₃, -⟩ := ht₂.endRequest rfl
  refine ⟨s', ?_, ht₃, ?_⟩
  · apply Steps.cons ⟨hfree, by rw [UdpClient.step, beginUdpRequest, heq₁]; rfl⟩
    apply Steps.cons ⟨rfl, by rw [UdpClient.step, UdpClient.put, heq₂]; rfl⟩
    exact .cons ⟨rfl, heq₃⟩ (.nil s')
  · obtain ⟨⟨W, buf, overflow⟩, -, hret⟩ := bind_eq_ok.mp heq₃
    obtain rfl := Except.ok.inj hret
    exact ⟨rfl, by simp [payloads, Sender.started]⟩

end Steps

theorem tracks_of_run {udp : ι} {h : Heap} {writers : Set ι} (hudp : udp ∈ writers)
    {ops : List (UdpOp ι τ)} {s : UdpClient ι τ} (hrun : Steps (Next udp) (init h writers) ops s) :
    s.Tracks udp := by
  refine Steps.invariant (P := fun s => s.Tracks udp) ?_ hrun (tracks_init h hudp)
  intro s op s' ht hnext
  obtain ⟨hop, hstep⟩ := hnext
  obtain ⟨s'', heq, htracks⟩ := ht.step hop
  obtain rfl : s'' = s' := Except.ok.inj (heq.symm.trans hstep)
  exact htracks

/-- **Independent requests**: in every run, no step faults, and each request sends its own frame as
    one datagram, or nothing and leaves nothing behind, if and only if no request is too large for a
    datagram. -/
theorem requests_independent_iff (udp : ι) (h : Heap) (others : Set ι)
    (ops : List (UdpOp ι τ)) (s : UdpClient ι τ)
    (hrun : Steps (Next udp) (init h (insert udp others)) ops s) :
    (∀ op, s.Allowed udp op → ∃ s', s.step udp op = .ok s') ∧
      s.log.map UdpOutcome.payload = s.payloads ∧
      ((∀ o ∈ s.log, o.Own) ↔
        ∀ payload ∈ s.payloads, (frame payload).length ≤ maxUdpPacketSize) := by
  have ht := tracks_of_run (Set.mem_insert udp others) hrun
  refine ⟨fun op hop => ?_, ?_, ?_⟩
  · obtain ⟨s', heq, -⟩ := ht.step hop
    exact ⟨s', heq⟩
  · rw [ht.log, outcomes_payloads]
  · rw [ht.log]
    exact own_iff s.payloads

/-- The frame of a request whose arguments have this representation. -/
theorem frame_raw_length (rpcId : Int32) (p : List UInt8) :
    (frame ((Value.i32 rpcId).bytes ++ (Value.raw p).bytes)).length = 8 + p.length := by
  have hid : (Value.i32 rpcId).bytes.length = 4 := leBytes_length ..
  rw [frame_length, List.length_append, hid]
  simp only [Value.raw]
  omega

/-- Two requests of two threads, with three bytes of arguments and with one: each is a datagram of its
    own. -/
theorem requests_independent_two :
    ∃ s : UdpClient Bool Bool,
      Steps (Next true) (init .empty (insert true {false}))
        ([.begin false 7, .put false (.raw [1, 2, 3]), .endRequest false] ++
          [.begin true 8, .put true (.raw [4]), .endRequest true]) s ∧
      s.log.flatMap UdpOutcome.datagrams =
        [frame ((Value.i32 7).bytes ++ [1, 2, 3]), frame ((Value.i32 8).bytes ++ [4])] ∧
      ∀ o ∈ s.log, o.Own := by
  have ht₀ : (init .empty (insert true {false}) : UdpClient Bool Bool).Tracks true :=
    tracks_init _ (Set.mem_insert ..)
  obtain ⟨s₁, hrun₁, ht₁, hfree, hpayloads₁⟩ := ht₀.request rfl false 7 (.raw [1, 2, 3])
  obtain ⟨s, hrun₂, ht, -, hpayloads⟩ := ht₁.request hfree true 8 (.raw [4])
  have hrun := hrun₁.append hrun₂
  have hboth : s.payloads =
      [(Value.i32 7).bytes ++ (Value.raw [1, 2, 3]).bytes,
        (Value.i32 8).bytes ++ (Value.raw [4]).bytes] := by
    rw [hpayloads, hpayloads₁]
    rfl
  refine ⟨s, hrun, ?_, (requests_independent_iff _ _ _ _ _ hrun).2.2.mpr ?_⟩
  · -- nothing was left by the first request
    rw [ht.log, hboth]
    decide
  · intro payload hmem
    rw [hboth] at hmem
    -- both are far below the limit
    rcases List.mem_pair.mp hmem with rfl | rfl
    · rw [frame_raw_length]
      decide
    · rw [frame_raw_length]
      decide

/-- **A request that is too large blocks UDP**: the next one is small and is refused. -/
theorem small_request_refused :
    ∃ s : UdpClient Bool Unit,
      Steps (Next true) (init .empty (insert true {false}))
        ([.begin () 7, .put () (.raw (List.replicate 65500 0)), .endRequest ()] ++
          [.begin () 7, .put () (.raw [1, 2, 3]), .endRequest ()]) s ∧
      (∃ o ∈ s.log, (frame o.payload).length = 11 ∧ o.datagrams = [] ∧ o.ret = e2big) ∧
      ¬ ∀ o ∈ s.log, o.Own := by
  have ht₀ : (init .empty (insert true {false}) : UdpClient Bool Unit).Tracks true :=
    tracks_init _ (Set.mem_insert ..)
  let large := (Value.i32 7).bytes ++ (Value.raw (List.replicate 65500 0)).bytes
  let small := (Value.i32 7).bytes ++ (Value.raw [1, 2, 3]).bytes
  have hlarge : maxUdpPacketSize < (frame large).length := by
    rw [frame_raw_length, List.length_replicate]
    decide
  have hsmall : (frame small).length = 11 := frame_raw_length 7 [1, 2, 3]
  obtain ⟨s₁, hrun₁, ht₁, hfree, hpayloads₁⟩ :=
    ht₀.request rfl () 7 (.raw (List.replicate 65500 0))
  obtain ⟨s, hrun, ht, -, hpayloads⟩ := ht₁.request hfree () 7 (.raw [1, 2, 3])
  -- the second request finds the frame of the first one in `udp_`
  have hlog : s.log = [outcome [] large, outcome (frame large) small] := by
    rw [ht.log, hpayloads, hpayloads₁]
    change [outcome [] large, outcome (remainder [] large) small] = _
    rw [remainder, List.nil_append, if_pos hlarge]
  have hrefused := outcomes_of_full hlarge [small] (outcome (frame large) small) (.head _)
  refine ⟨s, hrun₁.append hrun, ⟨outcome (frame large) small, ?_, ?_, hrefused⟩, fun hown => ?_⟩
  · simp [hlog]
  · -- the small one alone would fit
    rw [outcome_payload, hsmall]
  · exact not_own_of_large hlarge [] (hown _ (by simp [hlog]))

end UdpClient

end SimpleRpc.Rpc
