import SimpleRpc.Rpc.EndToEnd

/-!
# Every Call Is Completed

`replies_reach_their_callers` says that a Future which is completed was completed with the right
reply. This file says that it is completed: the two ends of a connection cannot come to a stop
while a request or a reply is anywhere between them.

## Layers

- **System**: `System.step`, any interleaving of the two ends
- **Busy steps**: `Busy`, the steps that do some of the work that is there: a message that was begun
  is ended, bytes are moved, a round of `handle_read`, a handler begins its reply
- **Measure**: `work`, a bound on the busy steps that are left, in terms of what is queued

## Main results

- `Inv.busy_lt`: a busy step leaves less work
- `Inv.quiet_of_stuck`: if no busy step can be taken, nothing is queued anywhere
- `calls_complete`: busy steps, in whatever order, come to an end, and then every call was completed
  exactly once

## Model

A batch of a positive multiple of 2^32 bytes is not looked at by `handle_read`, so that its packets
wait for more bytes to arrive; `Looks` leaves such batches out.
-/

namespace SimpleRpc.Rpc

open SimpleRpc.Lib SimpleRpc.Base
open ServerTcpConnection (handleSeven)

/-! ## One byte at a time -/

/-- `read_from_fd` gets no more than the kernel hands out. -/
theorem Marshal.readFromFdLoop_length_le (resps : List Nat) {h h' : Heap} {q q' : LinkedQueue Chunk}
    {avail rest got got' : List UInt8}
    (heq : Marshal.readFromFdLoop resps h q avail got = .ok (h', q', rest, got')) :
    got'.length ≤ got.length + resps.sum := by
  induction resps generalizing h q avail got with
  | nil =>
    -- no system call
    rw [Marshal.readFromFdLoop] at heq
    obtain ⟨⟨h₁, q₁⟩, -, hret⟩ := bind_eq_ok.mp heq
    cases hret
    exact Nat.le_add_right ..
  | cons resp resps ih =>
    -- one system call, and then the rest
    rw [Marshal.readFromFdLoop] at heq
    obtain ⟨⟨h₁, q₁⟩, -, heq⟩ := bind_eq_ok.mp heq
    obtain ⟨t, -, heq⟩ := bind_eq_ok.mp heq
    obtain ⟨q₂, -, heq⟩ := bind_eq_ok.mp heq
    rw [List.sum_cons]
    split at heq
    · -- it stops at a short read
      cases heq
      exact Nat.le_add_right ..
    · -- each system call gets no more than it says
      have hrest := ih heq
      have hbytes : (t.readFromFd h₁ avail resp).2.2.length ≤ resp := by
        simp only [Chunk.readFromFd, List.length_take]
        omega
      simp only [Chunk.readFromFd] at hbytes
      rw [List.length_append] at hrest
      omega

theorem World.readFromFd_length_le {ι : Type} [DecidableEq ι] {W W' : World ι} {i : ι}
    {avail rest got : List UInt8} {resps : List Nat}
    (heq : W.readFromFd i avail resps = .ok (W', rest, got)) : got.length ≤ resps.sum := by
  obtain ⟨⟨h', m', rest', got'⟩, hread, hret⟩ := bind_eq_ok.mp heq
  obtain ⟨-, -, rfl⟩ : _ = W' ∧ rest' = rest ∧ got' = got := by simpa using hret
  obtain ⟨⟨h₁, q₁, rest₁, got₁⟩, hloop, hret'⟩ := bind_eq_ok.mp hread
  obtain ⟨-, -, -, rfl⟩ : _ = h' ∧ _ = m' ∧ rest₁ = rest' ∧ got₁ = got' := by simpa using hret'
  simpa using Marshal.readFromFdLoop_length_le resps hloop

/-! ## What a sender has to send -/

namespace Sender

variable {ι τ : Type} (s : Sender ι τ)

/-- The bytes of messages that were begun, as far as they were not sent. -/
def unsent : Nat :=
  (wire s.done).length + (if s.holder.isSome then 4 + s.current.length else 0) - s.sent.length

/-- One, if a thread holds `out_l_`. -/
def opened : Nat := if s.holder.isSome then 1 else 0

variable {s}

theorem wire_append (done more : List (τ × List UInt8)) : wire (done ++ more) = wire done ++ wire more :=
  List.flatMap_append

theorem wire_singleton (msg : τ × List UInt8) : wire [msg] = frame msg.2 := by simp [wire]

variable [DecidableEq ι] {out : ι}

omit [DecidableEq ι] in
theorem Inv.sent_le (hI : s.Inv out) : s.sent.length ≤ (wire s.done).length :=
  hI.sent_prefix.length_le

/-- Ending a message adds nothing to what was written. -/
theorem endMessage_unsent (out : ι) {t : τ} (hheld : s.holder = some t) :
    (s.endMessage out t).unsent = s.unsent ∧ (s.endMessage out t).opened + 1 = s.opened := by
  refine ⟨?_, by simp [opened, endMessage, hheld]⟩
  simp only [unsent, hheld, Option.isSome_some, if_true, endMessage, Option.isSome_none,
    Bool.false_eq_true, if_false, wire_append, wire_singleton, List.length_append, frame_length]
  omega

omit [DecidableEq ι] in
/-- Bytes that go to the socket are not queued any more. -/
theorem unsent_of_sent (W : World ι) {bytes : List UInt8}
    (hI' : Inv out { s with world := W, sent := s.sent ++ bytes }) :
    unsent { s with world := W, sent := s.sent ++ bytes } + bytes.length = s.unsent := by
  have hle := hI'.sent_le
  simp only [List.length_append] at hle
  simp only [unsent, List.length_append]
  omega

omit [DecidableEq ι] in
/-- A message that is begun adds its size field and its header. -/
theorem started_unsent {t : τ} (hfree : s.holder = none) (hI : s.Inv out) (W : World ι)
    (bm : Bookmark) (header : List UInt8) :
    (s.started t W bm header).unsent = s.unsent + (4 + header.length) ∧
      (s.started t W bm header).opened = s.opened + 1 := by
  have hle := hI.sent_le
  simp only [unsent, opened, started, hfree, Option.isSome_some, if_true, Option.isSome_none,
    Bool.false_eq_true, if_false]
  exact ⟨by omega, trivial⟩

/-- A socket that takes a byte gets one, if there is one. -/
theorem Inv.sends (hI : s.Inv out) (hne : s.world.content out ≠ []) {s' : Sender ι τ}
    (heq : s.handleWrite out [1] = .ok s') : s.sent ≠ s'.sent := by
  obtain ⟨⟨W, bytes⟩, hwrite, hret⟩ := bind_eq_ok.mp heq
  have hbytes := World.writeToFd_ne_nil hI.world.ok.ok hne Nat.one_pos hwrite
  rw [← Except.ok.inj hret]
  simpa using hbytes

omit [DecidableEq ι] in
/-- Everything was sent. -/
theorem Inv.unsent_eq_zero (hI : s.Inv out) (hfree : s.holder = none)
    (hcontent : s.world.content out = []) : s.sent = wire s.done := by
  obtain ⟨-, -, hbytes⟩ := hI.free hfree
  rwa [hcontent, List.append_nil] at hbytes

end Sender

namespace System

variable {κ κ' η : Type}

/-! ## The two ends -/

/-- What a step is for the client. -/
def clientOp (s : System κ κ' η) : SystemOp κ κ' → Option (Client.Op κ)
  | .beginRequest t buf rpcId => some (.beginRequest t buf rpcId)
  | .putArg t v => some (.send (.put t v))
  | .putArgMarshal t j => some (.send (.writeMarshal t j))
  | .endRequest t => some (.send (.endMessage t))
  | .clientWrite resps => some (.send (.handleWrite resps))
  | .clientRead resps => some (.readFd s.toClient resps)
  | .clientParse buf buf' => some (.parse buf buf')
  | .clientOwn op => some (.send (.own op))
  | _ => none

/-- What a step is for the server. -/
def serverOp (s : System κ κ' η) : SystemOp κ κ' → Option (ServerTcpConnection.Op κ')
  | .serverRead resps => some (.readFd s.toServer resps)
  | .serverParse buf => some (.parse buf)
  | .serverDispatch buf buf' => some (.dispatch buf buf')
  | .beginReply t req errorCode buf buf' =>
    some (.send (.begin (some t) (.reply buf buf' req.xid errorCode)))
  | .putRet t v => some (.send (.put (some t) v))
  | .putRetMarshal t j => some (.send (.writeMarshal (some t) j))
  | .endReply t => some (.send (.endMessage (some t)))
  | .serverWrite resps => some (.send (.handleWrite resps))
  | .serverOwn op => some (.send (.own op))
  | _ => none

variable {handlers : Int32 → Option η} {s s' : System κ κ' η} {op : SystemOp κ κ'}

theorem dispatched_ends (s : System κ κ' η) (server : ServerTcpConnection κ' η) :
    (s.dispatched server).client = s.client ∧ (s.dispatched server).server = server ∧
      (s.dispatched server).calls = s.calls ∧ (s.dispatched server).calling = s.calling := by
  rw [dispatched]
  split
  · rename_i outcome _ _
    cases outcome <;> exact ⟨rfl, rfl, rfl, rfl⟩
  · exact ⟨rfl, rfl, rfl, rfl⟩

/-- A step of the system is a step of the client, or leaves the client alone. -/
theorem Next.client (hnext : s.Next handlers op s') :
    Stutter (fun c op c' => Client.Allowed c op ∧ c.step op = .ok c') s.client (s.clientOp op)
      s'.client := by
  obtain ⟨hop, hstep⟩ := hnext
  cases op with
  | beginRequest _ _ _ | putArg _ _ | putArgMarshal _ _ =>
    -- a step of the client in the system
    obtain ⟨client, heq, hret⟩ := bind_eq_ok.mp hstep
    cases hret
    exact ⟨hop.1, heq⟩
  | endRequest _ | clientWrite _ | clientRead _ | clientParse _ _ | clientOwn _ =>
    obtain ⟨client, heq, hret⟩ := bind_eq_ok.mp hstep
    cases hret
    exact ⟨hop, heq⟩
  | serverDispatch _ _ =>
    obtain ⟨server, -, hret⟩ := bind_eq_ok.mp hstep
    cases hret
    exact (dispatched_ends s server).1
  | _ =>
    -- the server steps
    obtain ⟨server, -, hret⟩ := bind_eq_ok.mp hstep
    cases hret
    rfl

/-- A step of the system is a step of the server, or leaves the server alone. -/
theorem Next.server (hnext : s.Next handlers op s') :
    Stutter (fun c op c' => ServerTcpConnection.Allowed handlers c op ∧ c.step handlers op = .ok c')
      s.server (s.serverOp op) s'.server := by
  obtain ⟨hop, hstep⟩ := hnext
  cases op with
  | putRet _ _ | putRetMarshal _ _ =>
    obtain ⟨server, heq, hret⟩ := bind_eq_ok.mp hstep
    cases hret
    exact ⟨hop.1, heq⟩
  | beginReply _ _ _ _ _ =>
    obtain ⟨server, heq, hret⟩ := bind_eq_ok.mp hstep
    cases hret
    exact ⟨hop.2, heq⟩
  | serverDispatch _ _ =>
    obtain ⟨server, heq, hret⟩ := bind_eq_ok.mp hstep
    cases hret
    exact ⟨hop, heq.trans (congrArg Except.ok (dispatched_ends s server).2.1.symm)⟩
  | serverRead _ | serverParse _ | endReply _ | serverWrite _ | serverOwn _ =>
    obtain ⟨server, heq, hret⟩ := bind_eq_ok.mp hstep
    cases hret
    exact ⟨hop, heq⟩
  | _ =>
    -- the client steps
    obtain ⟨client, -, hret⟩ := bind_eq_ok.mp hstep
    cases hret
    rfl

/-! ## Busy steps -/

/-- `handle_read` looks at what a step has read: it is no positive multiple of 2^32 bytes. -/
structure Looks (s s' : System κ κ' η) : Prop where
  server : (s'.server.received.length - s.server.received.length) % 2 ^ 32 = 0 →
    s'.server.received.length ≤ s.server.received.length
  client : (s'.client.received.length - s.client.received.length) % 2 ^ 32 = 0 →
    s'.client.received.length ≤ s.client.received.length

/-- A step after which `handle_read` looks at what was read. -/
def NextLooked (handlers : Int32 → Option η) (s : System κ κ' η) (op : SystemOp κ κ')
    (s' : System κ κ' η) : Prop :=
  s.Next handlers op s' ∧ s.Looks s'

/-- Steps that do some of the work that is there. -/
def DoesWork (s s' : System κ κ' η) : SystemOp κ κ' → Prop
  | .endRequest _ | .clientParse _ _ | .serverParse _ | .serverDispatch _ _
  | .beginReply _ _ _ _ _ | .endReply _ => True
  | .clientWrite _ => s.client.sender.sent ≠ s'.client.sender.sent
  | .clientRead _ => s.client.received ≠ s'.client.received
  | .serverRead _ => s.server.received ≠ s'.server.received
  | .serverWrite _ => s.server.sender.sent ≠ s'.server.sender.sent
  | _ => False

/-- A step that does some of the work. -/
def Busy (handlers : Int32 → Option η) (s : System κ κ' η) (op : SystemOp κ κ')
    (s' : System κ κ' η) : Prop :=
  s.NextLooked handlers op s' ∧ s.DoesWork s' op

/-! ### Nothing complete is left in `in_` -/

/-- Outside of the frame loops neither end has a complete packet. -/
structure Attentive (s : System κ κ' η) : Prop where
  server : s.server.Scanned
  client : s.client.Scanned

theorem attentive_init (h h' : Heap) : (init h h' : System κ κ' η).Attentive :=
  ⟨fun _ => not_frameReady_nil, fun _ => not_frameReady_nil⟩

section Attentive

variable (hI : s.Inv handlers)

include hI

/-- The packets of a client are not malformed. -/
theorem Inv.not_malformed : ¬ Malformed (s.server.world.content .in_) := by
  intro hmal
  obtain ⟨call, rest, -, hcontent, hlt⟩ := hI.serving.next_packet hI.replies.inv
    hI.requests.sent_prefix hI.requests.lt hmal.1
  rw [hcontent] at hmal
  exact not_malformed_frame (call.wellFormed _ hlt) rest hmal

/-- The Future of the next reply is pending. -/
theorem Inv.pending_next {r : Reply} (hget : s.answers[s.client.log.length]? = some r) :
    ∃ n < 2 ^ 48, r.xid = Int64.ofNat n ∧ s.client.pendingFu r.xid = some ⟨n, r.xid⟩ := by
  obtain ⟨n, hn, hxid⟩ := hI.serving.answer_xid (List.mem_of_getElem? hget)
  have hcalls := hI.serving.packets_le
  have hfutures := hI.requests.futures
  have hle := hI.requests.le
  have hnot : Int64.ofNat n ∉ (s.answers.take s.client.log.length).map Reply.xid :=
    hxid ▸ hI.serving.not_answered (by omega) hget
  refine ⟨n, by omega, hxid, ?_⟩
  rw [hxid]
  exact hI.completing.pending n (by omega) hnot

theorem Inv.fit_parse (buf buf' : List UInt8) : s.client.Fit s.answers (.parse buf buf') := by
  intro r hget _
  obtain ⟨n, hn, hxid, hfu⟩ := hI.pending_next hget
  exact ⟨hxid ▸ valSize_ofNat hn, .inr (by rw [hfu]; exact Option.some_ne_none _)⟩

/-- The server keeps looking. -/
theorem Inv.server_scanned (hscan : s.server.Scanned) (hnext : s.NextLooked handlers op s') :
    s'.server.Scanned := by
  obtain ⟨hnext, hlooks⟩ := hnext
  have hstutter := hnext.server
  cases hop : s.serverOp op with
  | none =>
    rw [hop] at hstutter
    rwa [show s'.server = s.server from hstutter]
  | some sop =>
    -- the server steps
    rw [hop] at hstutter
    obtain ⟨hallowed, heq⟩ := hstutter
    obtain ⟨server', heq', -, hp, -⟩ :=
      hI.replies.inv.progress_step hallowed fun _ _ => hI.not_malformed
    cases heq'.symm.trans heq
    refine hscan.step hallowed ?_ (fun _ _ => id) hp
    -- a batch that reads as 0 bytes is empty
    intro avail resps hsop W rest got hread hzero
    subst hsop
    cases hp with
    | read hread' hfill _ =>
      cases hread'.symm.trans hread
      have hlen : s'.server.received.length = s.server.received.length + got.length := by
        rw [hfill, ServerTcpConnection.fill, List.length_append]
      have hle := hlooks.server (by rw [hlen, Nat.add_sub_cancel_left]; exact hzero)
      exact List.length_eq_zero_iff.mp (by omega)

/-- The client keeps looking. -/
theorem Inv.client_scanned (hscan : s.client.Scanned) (hnext : s.NextLooked handlers op s') :
    s'.client.Scanned := by
  obtain ⟨hnext, hlooks⟩ := hnext
  have hstutter := hnext.client
  cases hop : s.clientOp op with
  | none =>
    rw [hop] at hstutter
    rwa [show s'.client = s.client from hstutter]
  | some cop =>
    -- the client steps
    rw [hop] at hstutter
    obtain ⟨hallowed, heq⟩ := hstutter
    have hfit : s.client.Fit s.answers cop := by
      cases cop with
      | readFd avail resps =>
        -- a batch that reads as 0 bytes is empty
        intro W rest got hread hzero
        have hfill : s'.client = s.client.fill W got := by
          simp only [Client.step, Client.readFd, hread, ok_bind, pure_eq_ok] at heq
          exact (Except.ok.inj heq).symm
        have hlen : s'.client.received.length = s.client.received.length + got.length := by
          rw [hfill, Client.fill, List.length_append]
        have hle := hlooks.client (by rw [hlen, Nat.add_sub_cancel_left]; exact hzero)
        exact List.length_eq_zero_iff.mp (by omega)
      | parse buf buf' => exact hI.fit_parse buf buf'
      | beginRequest _ _ _ | send _ => trivial
    obtain ⟨client', heq', -, hscan', -⟩ :=
      hI.requests.inv.step hI.replies.lt hscan hI.completing.following hallowed hfit
    cases heq'.symm.trans heq
    exact hscan'

end Attentive

end System

/-- The rounds of `handle_read` without those that its packets need. -/
def Io.rounds : Io → Nat
  | .idle => 0
  | .dispatching _ => 1
  | .parsing _ => 2

namespace System

variable {κ κ' η : Type}

/-- What is queued on the way of a call, from the client to the server and back. -/
structure Load where
  /-- a client thread is in the middle of a request -/
  calling : Nat
  /-- bytes that the client has to send -/
  requests : Nat
  toServer : Nat
  /-- bytes in the server's `in_` -/
  serverIn : Nat
  rounds : Nat
  waiting : Nat
  owed : Nat
  /-- a handler is in the middle of a reply -/
  answering : Nat
  /-- bytes that the server has to send -/
  replies : Nat
  toClient : Nat
  /-- bytes in the client's `in_` -/
  clientIn : Nat
  parsing : Nat

/-- A byte counts for all that becomes of it, and a request for the header of its reply as well. -/
def Load.weight (l : Load) : Nat :=
  l.calling + 23 * l.requests + 22 * l.toServer + 19 * l.serverIn + l.rounds + 91 * l.waiting +
    90 * l.owed + l.answering + 4 * l.replies + 3 * l.toClient + l.clientIn + l.parsing

def load (s : System κ κ' η) : Load where
  calling := s.client.sender.opened
  requests := s.client.sender.unsent
  toServer := s.toServer.length
  serverIn := (s.server.world.content .in_).length
  rounds := s.server.io.rounds
  waiting := s.server.io.waiting.length
  owed := s.owed.length
  answering := s.server.sender.opened
  replies := s.server.sender.unsent
  toClient := s.toClient.length
  clientIn := (s.client.world.content .in_).length
  parsing := s.client.parsing.toNat

/-- A bound on the busy steps that are left. -/
def work (s : System κ κ' η) : Nat := s.load.weight

section Work

variable {handlers : Int32 → Option η} {s s' : System κ κ' η} (hI : s.Inv handlers)

include hI

theorem Inv.endRequest_lt {t : κ} (hnext : s.Next handlers (.endRequest t) s') :
    s'.work < s.work := by
  obtain ⟨hop, hstep⟩ := hnext
  obtain ⟨sender', heq, -, -, hin⟩ := hI.requests.inv.send hop
  obtain rfl : s.client.sender.endMessage .out_ t = sender' := Except.ok.inj heq
  obtain ⟨hrequests, hcalling⟩ := Sender.endMessage_unsent .out_ hop.1
  simp only [System.step, Client.step, heq, ok_bind, pure_eq_ok] at hstep
  cases hstep
  change Load.weight { s.load with
    calling := (s.client.sender.endMessage .out_ t).opened
    requests := (s.client.sender.endMessage .out_ t).unsent
    clientIn := ((s.client.sender.endMessage .out_ t).world.content .in_).length } < s.load.weight
  rw [hrequests, hin]
  simp only [Load.weight, load, Client.world]
  omega

theorem Inv.clientWrite_lt {resps : List Nat} (hnext : s.Next handlers (.clientWrite resps) s')
    (hne : s.client.sender.sent ≠ s'.client.sender.sent) : s'.work < s.work := by
  obtain ⟨hop, hstep⟩ := hnext
  obtain ⟨W', k, heq, hinv, hu⟩ := hI.requests.inv.sender.handleWrite hop.1 resps
  replace heq : s.client.sender.step .out_ (.handleWrite resps) = .ok _ := heq
  simp only [System.step, Client.step, heq, ok_bind, pure_eq_ok] at hstep
  cases hstep
  generalize (s.client.sender.world.content .out_).take k = bytes at hinv hne ⊢
  -- some bytes have left
  have hpos : 0 < bytes.length :=
    List.length_pos_iff.mpr fun hnil => hne (by simp only [hnil, List.append_nil])
  have hunsent := Sender.unsent_of_sent W' hinv
  have hle := hI.serving.toServer.length_le
  -- they are on their way now, which weighs less
  change Load.weight { s.load with
    requests := Sender.unsent { s.client.sender with world := W'
                                                     sent := s.client.sender.sent ++ bytes }
    toServer := ((s.client.sender.sent ++ bytes).drop s.server.received.length).length
    clientIn := (W'.content .in_).length } < s.load.weight
  rw [(hu .in_ (by simp)).content_eq]
  simp only [Load.weight, load, toServer, Client.world, List.length_drop, List.length_append]
  omega

theorem Inv.serverWrite_lt {resps : List Nat} (hnext : s.Next handlers (.serverWrite resps) s')
    (hne : s.server.sender.sent ≠ s'.server.sender.sent) : s'.work < s.work := by
  obtain ⟨hop, hstep⟩ := hnext
  obtain ⟨W', k, heq, hinv, hu⟩ := hI.replies.inv.sender.handleWrite hop.1 resps
  replace heq : s.server.sender.step .out_ (.handleWrite resps) = .ok _ := heq
  simp only [System.step, ServerTcpConnection.step, heq, ok_bind, pure_eq_ok] at hstep
  cases hstep
  generalize (s.server.sender.world.content .out_).take k = bytes at hinv hne ⊢
  -- some bytes have left
  have hpos : 0 < bytes.length :=
    List.length_pos_iff.mpr fun hnil => hne (by simp only [hnil, List.append_nil])
  have hunsent := Sender.unsent_of_sent W' hinv
  have hle := hI.completing.toClient.length_le
  -- they are on their way now, which weighs less
  change Load.weight { s.load with
    replies := Sender.unsent { s.server.sender with world := W'
                                                    sent := s.server.sender.sent ++ bytes }
    toClient := ((s.server.sender.sent ++ bytes).drop s.client.received.length).length
    serverIn := (W'.content .in_).length } < s.load.weight
  rw [(hu .in_ (by simp)).content_eq]
  simp only [Load.weight, load, toClient, ServerTcpConnection.world, List.length_drop,
    List.length_append]
  omega

theorem Inv.clientRead_lt {resps : List Nat} (hnext : s.Next handlers (.clientRead resps) s')
    (hne : s.client.received ≠ s'.client.received) : s'.work < s.work := by
  obtain ⟨hop, hstep⟩ := hnext
  obtain ⟨W', k, heq, -, -, hin⟩ := hI.requests.inv.readFd s.toClient resps
  simp only [System.step, Client.step, heq, ok_bind, pure_eq_ok] at hstep
  cases hstep
  have hle : (s.toClient.take k).length ≤ s.toClient.length := (List.take_sublist ..).length_le
  generalize s.toClient.take k = got at hne hin hle ⊢
  -- some bytes have arrived
  have hpos : 0 < got.length :=
    List.length_pos_iff.mpr fun hnil => hne (by simp only [Client.fill, hnil, List.append_nil])
  have hparsing : s.client.parsing = false := hop
  have hflag := Bool.toNat_le (s.client.fill W' got).parsing
  -- they are in `in_` now, and the loop is entered at most once
  change Load.weight { s.load with
    toClient := (s.server.sender.sent.drop (s.client.received ++ got).length).length
    clientIn := (W'.content .in_).length
    parsing := (s.client.fill W' got).parsing.toNat } < s.load.weight
  simp only [toClient, List.length_drop] at hle
  simp only [Load.weight, load, toClient, hin, hparsing, List.length_drop, List.length_append]
  omega

theorem Inv.serverRead_lt {resps : List Nat} (hnext : s.Next handlers (.serverRead resps) s')
    (hne : s.server.received ≠ s'.server.received) : s'.work < s.work := by
  obtain ⟨hop, hstep⟩ := hnext
  have hidle : s.server.io = .idle := hop
  obtain ⟨W', k, heq, -, -, hin⟩ := hI.replies.inv.readFd hop s.toServer resps
  simp only [System.step, ServerTcpConnection.step, heq, ok_bind, pure_eq_ok] at hstep
  cases hstep
  have hle : (s.toServer.take k).length ≤ s.toServer.length := (List.take_sublist ..).length_le
  generalize s.toServer.take k = got at hne hin hle ⊢
  -- some bytes have arrived
  have hpos : 0 < got.length :=
    List.length_pos_iff.mpr fun hnil =>
      hne (by simp only [ServerTcpConnection.fill, hnil, List.append_nil])
  -- the loops have not begun
  have hrounds : s.server.io.rounds = 0 := by rw [hidle]; rfl
  have hwaiting : s.server.io.waiting = [] := by rw [hidle]; rfl
  have hrounds' : (s.server.fill W' got).io.rounds ≤ 2 := by
    simp only [ServerTcpConnection.fill]
    split <;> simp [Io.rounds]
  have hwaiting' : (s.server.fill W' got).io.waiting = [] := by
    simp only [ServerTcpConnection.fill]
    split <;> rfl
  -- in `in_` the bytes weigh less than on their way
  change Load.weight { s.load with
    toServer := (s.client.sender.sent.drop (s.server.received ++ got).length).length
    serverIn := (W'.content .in_).length
    rounds := (s.server.fill W' got).io.rounds
    waiting := (s.server.fill W' got).io.waiting.length } < s.load.weight
  simp only [toServer, List.length_drop] at hle
  simp only [Load.weight, load, toServer, hin, hrounds, hwaiting, hwaiting', List.length_drop,
    List.length_append, List.length_nil]
  omega

theorem Inv.clientParse_lt {buf buf' : List UInt8} (hnext : s.Next handlers (.clientParse buf buf') s') :
    s'.work < s.work := by
  obtain ⟨hop, hstep⟩ := hnext
  have hparsing : s.client.parsing = true := hop
  by_cases hr : FrameReady (s.client.world.content .in_)
  · -- a reply is consumed
    obtain ⟨r, rest, hget, -, hcontent⟩ := hI.completing.following.next hI.replies.lt hr
    obtain ⟨n, hn, hxid, hfu⟩ := hI.pending_next hget
    obtain ⟨W', heq, hinv, hin, -⟩ := hI.requests.inv.parse_found hcontent
      (hI.replies.lt r (List.mem_of_getElem? hget)) (hxid ▸ valSize_ofNat hn) hfu buf buf'
    simp only [System.step, Client.step, heq, ok_bind, pure_eq_ok] at hstep
    cases hstep
    change Load.weight { s.load with clientIn := (W'.content .in_).length } < s.load.weight
    simp only [Load.weight, load, hin, hcontent, List.length_append, frame_length]
    omega
  · -- the loop ends
    obtain ⟨heq, -⟩ := hI.requests.inv.parse_not_ready hr buf buf'
    simp only [System.step, Client.step, heq, ok_bind, pure_eq_ok] at hstep
    cases hstep
    change Load.weight { s.load with parsing := false.toNat } < s.load.weight
    simp only [Load.weight, load, hparsing, Bool.toNat_true, Bool.toNat_false]
    omega

theorem Inv.serverParse_lt {buf : List UInt8} (hnext : s.Next handlers (.serverParse buf) s') :
    s'.work < s.work := by
  obtain ⟨⟨reqs, hio⟩, hstep⟩ := hnext
  by_cases hr : FrameReady (s.server.world.content .in_)
  · obtain ⟨call, rest, -, hcontent, hlt⟩ := hI.serving.next_packet hI.replies.inv
      hI.requests.sent_prefix hI.requests.lt hr
    have hwf := call.wellFormed _ hlt
    obtain ⟨W', heq, hcut⟩ := hI.replies.inv.parse_ready hio hcontent hwf hr buf
    generalize ServerTcpConnection.xidOf buf _ = xid at heq
    simp only [System.step, ServerTcpConnection.step, heq, ok_bind, pure_eq_ok] at hstep
    cases hstep
    -- the request weighs less than its frame
    have hpos := hwf.pos
    have hin := congrArg List.length hcontent
    rw [List.length_append, frame_length] at hin
    have hin' := congrArg List.length hcut.in_eq
    simp only [work, Load.weight, load, toServer, toClient, ServerTcpConnection.cutOff,
      ServerTcpConnection.withWorld, ServerTcpConnection.world, Sender.opened, Sender.unsent, hio,
      Io.rounds, Io.waiting, List.length_append, List.length_singleton] at hin ⊢
    omega
  · -- the loop ends, and the second one begins
    obtain ⟨heq, -⟩ := hI.replies.inv.parse_not_ready hio hr buf
    simp only [System.step, ServerTcpConnection.step, heq, ok_bind, pure_eq_ok] at hstep
    cases hstep
    change Load.weight { s.load with rounds := 1, waiting := reqs.length } < s.load.weight
    simp only [Load.weight, load, hio, Io.rounds, Io.waiting]
    omega

omit hI in
/-- A header is short. -/
theorem length_header_le (xid : Int64) (errorCode : Int32) :
    (SparseInt.encode64 xid ++ SparseInt.encode32 errorCode).length ≤ 18 := by
  have h64 := SparseInt.bufSize_le_nine ((SparseInt.encode64 xid ++ []).getD 0 0)
  have h32 := SparseInt.bufSize_le_nine ((SparseInt.encode32 errorCode ++ []).getD 0 0)
  rw [SparseInt.bufSize_encode64] at h64
  rw [SparseInt.bufSize_encode32] at h32
  rw [List.length_append, SparseInt.encode64_length, SparseInt.encode32_length]
  omega

/-- A round of the second loop, by what becomes of the request. -/
theorem Inv.served_lt {req : Request} {reqs : List Request}
    (hio : s.server.io = .dispatching (req :: reqs)) {outcome : Outcome η}
    {sender' : Sender ConnName (Option κ')}
    (hs : ServerTcpConnection.Serves s.server req sender' (ServerTcpConnection.ownReplies outcome))
    (hclient : s'.client = s.client)
    (hserver : s'.server = { s.server with sender := sender' }.served reqs outcome)
    (howed : 90 * s'.owed.length +
      4 * (Sender.wire (ServerTcpConnection.ownReplies outcome :
        List (Option κ' × List UInt8))).length ≤ 90 * s.owed.length + 90) :
    s'.work < s.work := by
  -- nothing but `out_` and the list of requests has changed
  have hle := hI.replies.inv.sender.sent_le
  have hin : (s'.server.world.content .in_).length = (s.server.world.content .in_).length := by
    rw [hserver]
    exact congrArg List.length (hs.untouched .in_ (by simp) (by simp)).content_eq
  have hopened : s'.server.sender.opened = s.server.sender.opened := by
    rw [hserver]
    exact congrArg (fun holder : Option _ => if holder.isSome then 1 else 0) hs.holder_eq
  have hunsent : s'.server.sender.unsent = s.server.sender.unsent +
      (Sender.wire (ServerTcpConnection.ownReplies outcome :
        List (Option κ' × List UInt8))).length := by
    rw [hserver]
    change sender'.unsent = _
    simp only [Sender.unsent, hs.done_eq, hs.holder_eq, hs.sent_eq, Sender.wire_append,
      List.length_append]
    -- a reply of `handle_read` goes behind those of before
    cases hheld : s.server.sender.holder with
    | none =>
      simp only [Option.isSome_none, Bool.false_eq_true, if_false]
      omega
    | some t =>
      simp only [hs.current_eq t hheld, Option.isSome_some, if_true]
      omega
  have htoServer : s'.toServer = s.toServer := by rw [toServer, hclient, hserver]; rfl
  have htoClient : s'.toClient = s.toClient := by
    rw [toClient, hclient, hserver]
    exact congrArg (List.drop _) hs.sent_eq
  have hrounds : s.server.io.rounds = 1 := by rw [hio]; rfl
  have hwaiting : s.server.io.waiting = req :: reqs := by rw [hio]; rfl
  have hrounds' : s'.server.io.rounds = 1 := by rw [hserver]; rfl
  have hwaiting' : s'.server.io.waiting = reqs := by rw [hserver]; rfl
  simp only [work, Load.weight, load, hclient, hin, hopened, hunsent, htoServer, htoClient, hrounds,
    hrounds', hwaiting, hwaiting', List.length_cons]
  omega

theorem Inv.serverDispatch_lt {buf buf' : List UInt8}
    (hnext : s.Next handlers (.serverDispatch buf buf') s') : s'.work < s.work := by
  obtain ⟨⟨reqs, hio, hlock⟩, hstep⟩ := hnext
  cases reqs with
  | nil =>
    -- the loop ends
    have heq : s.server.dispatch handlers buf buf' = .ok { s.server with io := .idle } := by
      simp only [ServerTcpConnection.dispatch, hio, pure_eq_ok]
    simp only [System.step, ServerTcpConnection.step, heq, ok_bind, pure_eq_ok, dispatched, hio]
      at hstep
    cases hstep
    change Load.weight { s.load with rounds := 0, waiting := 0 } < s.load.weight
    simp only [Load.weight, load, hio, Io.rounds, Io.waiting, List.length_nil]
    omega
  | cons req reqs =>
    obtain ⟨old, packet, new, -, -, hargs, -⟩ := hI.replies.inv.first_packet hio
    obtain ⟨sender', heq, hs⟩ := ServerTcpConnection.dispatch_serves hI.replies.inv.sender hio
      (hlock req rfl) hargs buf buf'
    simp only [System.step, ServerTcpConnection.step, heq, ok_bind, pure_eq_ok] at hstep
    rw [dispatched_settle hio (List.getLast?_concat ..)] at hstep
    generalize ServerTcpConnection.outcomeOf handlers req.xid packet = outcome at hs hstep
    -- either the request is owed a reply from now on, or `handle_read` replies
    cases outcome with
    | handed handler xid rpcId args =>
      cases hstep
      refine hI.served_lt hio hs rfl rfl ?_
      simp only [ServerTcpConnection.ownReplies, Outcome.errorReply, Option.toList_none,
        List.map_nil, Sender.wire, List.flatMap_nil, List.length_nil, settle, List.length_append,
        List.length_singleton]
      omega
    | einval xid =>
      cases hstep
      refine hI.served_lt hio hs rfl rfl ?_
      have := length_header_le xid EINVAL
      simp only [ServerTcpConnection.ownReplies, Outcome.errorReply, Option.toList_some,
        List.map_cons, List.map_nil, Sender.wire_singleton, frame_length]
      change 90 * s.owed.length + _ ≤ _
      omega
    | enoent xid =>
      cases hstep
      refine hI.served_lt hio hs rfl rfl ?_
      have := length_header_le xid ENOENT
      simp only [ServerTcpConnection.ownReplies, Outcome.errorReply, Option.toList_some,
        List.map_cons, List.map_nil, Sender.wire_singleton, frame_length]
      change 90 * s.owed.length + _ ≤ _
      omega

theorem Inv.beginReply_lt {t : κ'} {req : Request} {errorCode : Int32} {buf buf' : List UInt8}
    (hnext : s.Next handlers (.beginReply t req errorCode buf buf') s') : s'.work < s.work := by
  obtain ⟨⟨howed, hsend⟩, hstep⟩ := hnext
  have hfree : s.server.sender.holder = none := hsend.1
  obtain ⟨W', bm, heq, -, hu⟩ := hI.replies.inv.sender.beginMessage hfree (some t)
    (replyHeader buf buf' req.xid errorCode)
  replace heq : s.server.sender.step .out_ (.begin (some t) (.reply buf buf' req.xid errorCode)) =
    .ok _ := heq
  simp only [System.step, ServerTcpConnection.step, heq, ok_bind, pure_eq_ok] at hstep
  cases hstep
  -- the header weighs less than the request that was owed
  have hheader : (replyHeader buf buf' req.xid errorCode).bytes.length ≤ 18 :=
    length_header_le req.xid errorCode
  generalize (replyHeader buf buf' req.xid errorCode).bytes = header at hheader ⊢
  obtain ⟨hunsent, hopened⟩ :=
    Sender.started_unsent (t := some t) hfree hI.replies.inv.sender W' bm header
  have herase := List.length_erase_of_mem howed
  have hpos := List.length_pos_of_mem howed
  -- the request is not owed any more, and its reply is open
  change Load.weight { s.load with
    serverIn := (W'.content .in_).length
    owed := (s.owed.erase req).length
    answering := (s.server.sender.started (some t) W' bm header).opened
    replies := (s.server.sender.started (some t) W' bm header).unsent } < s.load.weight
  rw [(hu .in_ (by simp)).content_eq, hunsent, hopened, herase]
  simp only [Load.weight, load, ServerTcpConnection.world]
  omega

theorem Inv.endReply_lt {t : κ'} (hnext : s.Next handlers (.endReply t) s') :
    s'.work < s.work := by
  obtain ⟨hop, hstep⟩ := hnext
  obtain ⟨sender', heq, -, -, hin⟩ := hI.replies.inv.send hop
  obtain rfl : s.server.sender.endMessage .out_ (some t) = sender' := Except.ok.inj heq
  obtain ⟨hreplies, hanswering⟩ := Sender.endMessage_unsent .out_ hop.1
  simp only [System.step, ServerTcpConnection.step, heq, ok_bind, pure_eq_ok] at hstep
  cases hstep
  change Load.weight { s.load with
    serverIn := ((s.server.sender.endMessage .out_ (some t)).world.content .in_).length
    answering := (s.server.sender.endMessage .out_ (some t)).opened
    replies := (s.server.sender.endMessage .out_ (some t)).unsent } < s.load.weight
  rw [hreplies, hin]
  simp only [Load.weight, load, ServerTcpConnection.world]
  omega

/-- **One busy step** leaves less work. -/
theorem Inv.busy_lt {op : SystemOp κ κ'} (hbusy : s.Busy handlers op s') : s'.work < s.work := by
  obtain ⟨⟨hnext, -⟩, hwork⟩ := hbusy
  cases op with
  | endRequest t => exact hI.endRequest_lt hnext
  | clientWrite resps => exact hI.clientWrite_lt hnext hwork
  | clientRead resps => exact hI.clientRead_lt hnext hwork
  | clientParse buf buf' => exact hI.clientParse_lt hnext
  | serverRead resps => exact hI.serverRead_lt hnext hwork
  | serverParse buf => exact hI.serverParse_lt hnext
  | serverDispatch buf buf' => exact hI.serverDispatch_lt hnext
  | beginReply t req errorCode buf buf' => exact hI.beginReply_lt hnext
  | endReply t => exact hI.endReply_lt hnext
  | serverWrite resps => exact hI.serverWrite_lt hnext hwork
  | beginRequest _ _ _ | putArg _ _ | putArgMarshal _ _ | clientOwn _ | putRet _ _
  | putRetMarshal _ _ | serverOwn _ => exact hwork.elim

end Work

/-! ### Runs of busy steps -/

section Runs

variable {handlers : Int32 → Option η} {s s' : System κ κ' η}

theorem Inv.next (hI : s.Inv handlers) {op : SystemOp κ κ'} (hnext : s.Next handlers op s') :
    s'.Inv handlers := by
  obtain ⟨hop, hstep⟩ := hnext
  obtain ⟨s'', heq, hinv⟩ := hI.step hop
  cases heq.symm.trans hstep
  exact hinv

/-- A state of a connection whose ends have looked at everything they read. -/
structure Sound (handlers : Int32 → Option η) (s : System κ κ' η) : Prop where
  inv : s.Inv handlers
  attentive : s.Attentive

theorem sound_init (handlers : Int32 → Option η) (h h' : Heap) :
    (init h h' : System κ κ' η).Sound handlers :=
  ⟨inv_init handlers h h', attentive_init h h'⟩

theorem Sound.next (hS : s.Sound handlers) {op : SystemOp κ κ'}
    (hnext : s.NextLooked handlers op s') : s'.Sound handlers where
  inv := hS.inv.next hnext.1
  attentive := ⟨hS.inv.server_scanned hS.attentive.server hnext,
    hS.inv.client_scanned hS.attentive.client hnext⟩

theorem Sound.busy (hS : s.Sound handlers) {op : SystemOp κ κ'} (hbusy : s.Busy handlers op s') :
    s'.Sound handlers ∧ s'.work < s.work :=
  ⟨hS.next hbusy.1, hS.inv.busy_lt hbusy⟩

/-- Busy steps begin no request. -/
theorem Busy.calls (hbusy : s.Busy handlers op s') :
    s'.calls ++ s'.calling.toList = s.calls ++ s.calling.toList := by
  obtain ⟨⟨⟨-, hstep⟩, -⟩, hwork⟩ := hbusy
  cases op with
  | endRequest _ | clientWrite _ | clientRead _ | clientParse _ _ =>
    -- the client sends or receives what was begun
    obtain ⟨client, -, hret⟩ := bind_eq_ok.mp hstep
    cases hret
    simp
  | serverDispatch _ _ =>
    -- the server hands a request over
    obtain ⟨server, -, hret⟩ := bind_eq_ok.mp hstep
    cases hret
    obtain ⟨-, -, hcalls, hcalling⟩ := dispatched_ends s server
    rw [hcalls, hcalling]
  | serverRead _ | serverParse _ | beginReply _ _ _ _ _ | endReply _ | serverWrite _ =>
    obtain ⟨server, -, hret⟩ := bind_eq_ok.mp hstep
    cases hret
    rfl
  | beginRequest _ _ _ | putArg _ _ | putArgMarshal _ _ | clientOwn _ | putRet _ _
  | putRetMarshal _ _ | serverOwn _ => exact hwork.elim

end Runs

/-! ## Where no busy step is left -/

/-- No busy step can be taken. -/
def Stuck (handlers : Int32 → Option η) (s : System κ κ' η) : Prop :=
  ∀ op s', ¬ s.Busy handlers op s'

section Stuck

variable {handlers : Int32 → Option η} {s s' : System κ κ' η} (hI : s.Inv handlers)

include hI

/-- Only `clientRead` makes the client receive something. -/
theorem Inv.client_received {op : SystemOp κ κ'} (hnext : s.Next handlers op s')
    (hop : ∀ resps, op ≠ .clientRead resps) : s'.client.received = s.client.received := by
  have hstutter := hnext.client
  cases hcop : s.clientOp op with
  | none =>
    -- the server steps
    rw [hcop] at hstutter
    rw [show s'.client = s.client from hstutter]
  | some cop =>
    rw [hcop] at hstutter
    obtain ⟨hallowed, heq⟩ := hstutter
    cases cop with
    | beginRequest t buf rpcId =>
      -- nothing is read
      obtain ⟨sender, -, hret⟩ := bind_eq_ok.mp heq
      rw [← Except.ok.inj hret]
      rfl
    | send op' =>
      obtain ⟨sender, -, hret⟩ := bind_eq_ok.mp heq
      rw [← Except.ok.inj hret]
    | readFd avail resps => 
      -- `readFd` is `clientRead`
      cases op <;> simp only [clientOp, Option.some.injEq, reduceCtorEq, Client.Op.readFd.injEq] at hcop
      exact absurd rfl (hop _)
    | parse buf buf' =>
      by_cases hr : FrameReady (s.client.world.content .in_)
      · -- a round of the frame loop reads nothing
        obtain ⟨r, rest, c, -, -, heq', -, -, -, hreceived, -⟩ := hI.requests.inv.round hI.replies.lt
          hI.completing.following hr (hI.fit_parse buf buf')
        cases heq'.symm.trans heq
        exact hreceived
      · rw [← Except.ok.inj ((hI.requests.inv.parse_not_ready hr buf buf').1.symm.trans heq)]

/-- Only `serverRead` makes the server receive something. -/
theorem Inv.server_received {op : SystemOp κ κ'} (hnext : s.Next handlers op s')
    (hop : ∀ resps, op ≠ .serverRead resps) : s'.server.received = s.server.received := by
  have hstutter := hnext.server
  cases hsop : s.serverOp op with
  | none =>
    -- the client steps
    rw [hsop] at hstutter
    rw [show s'.server = s.server from hstutter]
  | some sop =>
    rw [hsop] at hstutter
    obtain ⟨hallowed, heq⟩ := hstutter
    obtain ⟨server', heq', -, hp, -⟩ :=
      hI.replies.inv.progress_step hallowed fun _ _ => hI.not_malformed
    cases heq'.symm.trans heq
    cases hp with
    | read hread heq'' _ =>
      -- `readFd` is `serverRead`
      cases op <;> simp only [serverOp, Option.some.injEq, reduceCtorEq, ServerTcpConnection.Op.readFd.injEq] at hsop
      exact absurd rfl (hop _)
    | cut _ _ _ heq'' _ => rw [heq'']; rfl
    | scanned _ _ heq'' => rw [heq'']
    | dispatched _ _ hreceived _ _ _ => exact hreceived
    | sent _ hreceived _ _ => exact hreceived

/-- Steps that read nothing. -/
theorem Inv.nextLooked {op : SystemOp κ κ'} (hop : s.Allowed handlers op)
    (hclient : ∀ resps, op ≠ .clientRead resps) (hserver : ∀ resps, op ≠ .serverRead resps) :
    ∃ s', s.NextLooked handlers op s' ∧ s.step handlers op = .ok s' := by
  obtain ⟨s', hstep, -⟩ := hI.step hop
  have hnext : s.Next handlers op s' := ⟨hop, hstep⟩
  refine ⟨s', ⟨hnext, fun _ => ?_, fun _ => ?_⟩, hstep⟩
  · rw [hI.server_received hnext hserver]
  · rw [hI.client_received hnext hclient]

/-- The server can read a byte that is on its way. -/
theorem Inv.busy_serverRead (hidle : s.server.io = .idle) (hne : s.toServer ≠ []) :
    ∃ s', s.Busy handlers (.serverRead [1]) s' := by
  have hop : s.Allowed handlers (.serverRead [1]) := hidle
  obtain ⟨s', hstep, -⟩ := hI.step hop
  have hnext : s.Next handlers _ s' := ⟨hop, hstep⟩
  -- the kernel hands out at least one byte
  obtain ⟨W', k, heq, hread, -⟩ := hI.replies.inv.readFd hidle s.toServer [1]
  have hgot := World.readFromFd_ne_nil hI.replies.inv.sender.world.ok.ok hne Nat.one_pos hread
  have hle := World.readFromFd_length_le hread
  have hpos := List.length_pos_iff.mpr hgot
  have hreceived : s'.server.received = s.server.received ++ s.toServer.take k := by
    simp only [System.step, ServerTcpConnection.step, heq, ok_bind, pure_eq_ok] at hstep
    rw [← Except.ok.inj hstep]
    rfl
  refine ⟨s', ⟨hnext, fun hzero => ?_, fun _ => ?_⟩, ?_⟩
  · -- one byte is no batch of 2^32
    rw [hreceived, List.length_append, Nat.add_sub_cancel_left] at hzero
    simp only [List.sum_cons, List.sum_nil] at hle
    omega
  · rw [hI.client_received hnext (by simp)]
  · -- and it is received
    change s.server.received ≠ s'.server.received
    rw [hreceived]
    simpa using hgot

/-- So can the client. -/
theorem Inv.busy_clientRead (hidle : s.client.parsing = false) (hne : s.toClient ≠ []) :
    ∃ s', s.Busy handlers (.clientRead [1]) s' := by
  have hop : s.Allowed handlers (.clientRead [1]) := hidle
  obtain ⟨s', hstep, -⟩ := hI.step hop
  have hnext : s.Next handlers _ s' := ⟨hop, hstep⟩
  -- as above
  obtain ⟨W', k, heq, hread, -⟩ := hI.requests.inv.readFd s.toClient [1]
  have hgot := World.readFromFd_ne_nil hI.requests.inv.sender.world.ok.ok hne Nat.one_pos hread
  have hle := World.readFromFd_length_le hread
  have hpos := List.length_pos_iff.mpr hgot
  have hreceived : s'.client.received = s.client.received ++ s.toClient.take k := by
    simp only [System.step, Client.step, heq, ok_bind, pure_eq_ok] at hstep
    rw [← Except.ok.inj hstep]
    rfl
  refine ⟨s', ⟨hnext, fun _ => ?_, fun hzero => ?_⟩, ?_⟩
  · rw [hI.server_received hnext (by simp)]
  · rw [hreceived, List.length_append, Nat.add_sub_cancel_left] at hzero
    simp only [List.sum_cons, List.sum_nil] at hle
    omega
  · change s.client.received ≠ s'.client.received
    rw [hreceived]
    simpa using hgot

/-- Bytes in the client's `out_` can be sent. -/
theorem Inv.busy_clientWrite (hfree : s.client.sender.holder = none)
    (hne : s.client.world.content .out_ ≠ []) : ∃ s', s.Busy handlers (.clientWrite [1]) s' := by
  have hop : s.Allowed handlers (.clientWrite [1]) := ⟨hfree, by simp [SendOp.names]⟩
  obtain ⟨s', hlooked, hstep⟩ := hI.nextLooked hop (by simp) (by simp)
  refine ⟨s', hlooked, ?_⟩
  obtain ⟨client, hclient, hret⟩ := bind_eq_ok.mp hstep
  obtain ⟨sender, hsender, hret'⟩ := bind_eq_ok.mp hclient
  obtain rfl := Except.ok.inj hret'
  rw [← Except.ok.inj hret]
  exact hI.requests.inv.sender.sends hne hsender

/-- So can bytes in the server's. -/
theorem Inv.busy_serverWrite (hfree : s.server.sender.holder = none)
    (hne : s.server.world.content .out_ ≠ []) : ∃ s', s.Busy handlers (.serverWrite [1]) s' := by
  have hop : s.Allowed handlers (.serverWrite [1]) :=
    ⟨hfree, by simp [SendOp.names], by simp [SendOp.holder]⟩
  obtain ⟨s', hlooked, hstep⟩ := hI.nextLooked hop (by simp) (by simp)
  refine ⟨s', hlooked, ?_⟩
  obtain ⟨server, hserver, hret⟩ := bind_eq_ok.mp hstep
  obtain ⟨sender, hsender, hret'⟩ := bind_eq_ok.mp hserver
  obtain rfl := Except.ok.inj hret'
  rw [← Except.ok.inj hret]
  exact hI.replies.inv.sender.sends hne hsender

/-- Nothing is queued, from the client to the server and back. -/
structure Quiet (s : System κ κ' η) : Prop where
  calling : s.client.sender.holder = none
  requests : s.client.world.content .out_ = []
  toServer : s.toServer = []
  idle : s.server.io = .idle
  owed : s.owed = []
  answering : s.server.sender.holder = none
  replies : s.server.world.content .out_ = []
  toClient : s.toClient = []
  parsing : s.client.parsing = false

/-- **Whoever is stuck has nothing left to do.** -/
theorem Inv.quiet_of_stuck [Nonempty κ'] (hstuck : s.Stuck handlers) : s.Quiet := by
  -- an allowed step that reads nothing and always does some work
  have hidle : ∀ op, s.Allowed handlers op → (∀ resps, op ≠ .clientRead resps) →
      (∀ resps, op ≠ .serverRead resps) → ¬ ∀ s', s.DoesWork s' op := by
    intro op hop hclient hserver hwork
    obtain ⟨s', hlooked, -⟩ := hI.nextLooked hop hclient hserver
    exact hstuck op s' ⟨hlooked, hwork s'⟩
  -- nobody is writing a request
  have hcalling : s.client.sender.holder = none := by
    cases hheld : s.client.sender.holder with
    | none => rfl
    | some t =>
      exact absurd (fun _ => trivial)
        (hidle (.endRequest t) ⟨hheld, by simp [SendOp.names]⟩ (by simp) (by simp))
  -- nor a reply
  have hanswering : s.server.sender.holder = none := by
    cases hheld : s.server.sender.holder with
    | none => rfl
    | some t =>
      cases t with
      | none => exact absurd hheld hI.replies.inv.not_io
      | some t =>
        exact absurd (fun _ => trivial) (hidle (.endReply t)
          ⟨hheld, by simp [SendOp.names], by simp [SendOp.holder]⟩ (by simp) (by simp))
  -- both loops of the server have ended
  have hio : s.server.io = .idle := by
    cases hio : s.server.io with
    | idle => rfl
    | parsing reqs =>
      exact absurd (fun _ => trivial) (hidle (.serverParse []) ⟨reqs, hio⟩ (by simp) (by simp))
    | dispatching reqs =>
      exact absurd (fun _ => trivial)
        (hidle (.serverDispatch [] []) ⟨reqs, hio, fun _ _ _ => hanswering⟩ (by simp) (by simp))
  -- as has the one of the client
  have hparsing : s.client.parsing = false := by
    by_contra hparsing
    rw [Bool.not_eq_false] at hparsing
    exact hidle (.clientParse [] []) hparsing (by simp) (by simp) fun _ => trivial
  -- no request is owed a reply
  have howed : s.owed = [] := by
    obtain ⟨t⟩ := ‹Nonempty κ'›
    rw [List.eq_nil_iff_forall_not_mem]
    intro req hreq
    exact hidle (.beginReply t req 0 [] []) ⟨hreq, hanswering, by simp [SendOp.names],
      by simp [SendOp.holder]⟩ (by simp) (by simp) fun _ => trivial
  refine ⟨hcalling, ?_, ?_, hio, howed, hanswering, ?_, ?_, hparsing⟩
  · -- all requests were sent
    by_contra hne
    obtain ⟨s', hbusy⟩ := hI.busy_clientWrite hcalling hne
    exact hstuck _ _ hbusy
  · -- and received
    by_contra hne
    obtain ⟨s', hbusy⟩ := hI.busy_serverRead hio hne
    exact hstuck _ _ hbusy
  · -- all replies were sent
    by_contra hne
    obtain ⟨s', hbusy⟩ := hI.busy_serverWrite hanswering hne
    exact hstuck _ _ hbusy
  · -- and received
    by_contra hne
    obtain ⟨s', hbusy⟩ := hI.busy_clientRead hparsing hne
    exact hstuck _ _ hbusy

end Stuck

/-! ## Every call is completed -/

/-- Where no frame is complete there is none. -/
theorem eq_nil_of_not_ready {packets : List (List UInt8)} (hlt : ∀ p ∈ packets, p.length < 2 ^ 31)
    (hr : ¬ FrameReady (packets.flatMap frame)) : packets = [] := by
  cases packets with
  | nil => rfl
  | cons p packets =>
    rw [List.flatMap_cons] at hr
    exact absurd (frameReady_frame (hlt p (List.mem_cons_self ..)) _) hr

/-- What becomes of calls: each of their Futures is completed once, with what the server wrote for
    its request. -/
structure Completes (handlers : Int32 → Option η) (calls : List Call) (s : System κ κ' η) :
    Prop where
  calls_eq : s.calls = calls
  completed : (s.completions.map Completion.fu).Perm
    ((List.range calls.length).map fun n => ⟨n, Int64.ofNat n⟩)
  matched : ∀ c ∈ s.completions, ∃ call, s.Matches handlers c call

section Quiet

variable {handlers : Int32 → Option η} {s : System κ κ' η} (hS : s.Sound handlers) (hQ : s.Quiet)

include hS hQ

/-- Every request has arrived. -/
theorem Quiet.packets_eq : s.server.packets = numbered s.calls := by
  have hI := hS.inv
  obtain ⟨more, hmore⟩ := hI.serving.packets
  -- everything was sent and received
  have hsent : s.client.sender.sent = ((numbered s.calls).map Prod.snd).flatMap frame := by
    rw [hI.requests.inv.sender.unsent_eq_zero hQ.calling hQ.requests, ← hI.requests.done,
      List.flatMap_map]
    rfl
  have hreceived : s.server.received = s.client.sender.sent :=
    hI.serving.toServer.eq_of_length_le (List.drop_eq_nil_iff.mp hQ.toServer)
  -- what is left in `in_` are whole packets
  have hcontent : s.server.world.content .in_ = (more.map Prod.snd).flatMap frame := by
    have hstream := hI.replies.inv.stream
    rw [hreceived, hsent, ← hmore, List.map_append, List.flatMap_append] at hstream
    exact (List.append_cancel_left hstream).symm
  -- and there are none, or the loop would have taken one
  have hnil : more.map Prod.snd = [] := by
    refine eq_nil_of_not_ready (fun p hp => ?_) ?_
    · obtain ⟨pk, hpk, rfl⟩ := List.mem_map.mp hp
      exact hI.requests.lt pk (hmore ▸ List.mem_append_right _ hpk)
    · rw [← hcontent]
      exact hS.attentive.server fun reqs hio => by simp [hQ.idle] at hio
  rw [← hmore, List.map_eq_nil_iff.mp hnil, List.append_nil]

/-- Every request was answered. -/
theorem Quiet.answers_perm :
    (s.answers.map Reply.xid).Perm ((List.range s.calls.length).map Int64.ofNat) := by
  have htickets := hS.inv.serving.tickets
  rw [hQ.packets_eq hS, numbered_length] at htickets
  simpa [tickets, hQ.idle, Io.waiting, hQ.owed, hS.inv.replies.free hQ.answering] using htickets

/-- Every reply was looked at. -/
theorem Quiet.log_length : s.client.log.length = s.answers.length := by
  have hI := hS.inv
  -- everything was sent and received
  have hsent : s.server.sender.sent = (s.answers.map Reply.bytes).flatMap frame := by
    rw [hI.replies.inv.sender.unsent_eq_zero hQ.answering hQ.replies, ← hI.replies.done,
      List.flatMap_map]
    rfl
  have hreceived : s.client.received = s.server.sender.sent :=
    hI.completing.toClient.eq_of_length_le (List.drop_eq_nil_iff.mp hQ.toClient)
  -- what is left in `in_` are whole replies
  have hcontent : s.client.world.content .in_ =
      ((s.answers.drop s.client.log.length).map Reply.bytes).flatMap frame := by
    have hstream := hI.completing.following.stream
    rw [hreceived, hsent] at hstream
    conv at hstream => lhs; rw [← List.take_append_drop s.client.log.length s.answers]
    rw [List.map_append, List.flatMap_append] at hstream
    exact (List.append_cancel_left hstream).symm
  -- and there are none
  have hnil : (s.answers.drop s.client.log.length).map Reply.bytes = [] := by
    refine eq_nil_of_not_ready (fun p hp => ?_) ?_
    · obtain ⟨r, hr, rfl⟩ := List.mem_map.mp hp
      exact hI.replies.lt r (List.mem_of_mem_drop hr)
    · rw [← hcontent]
      exact hS.attentive.client hQ.parsing
  have hle := hI.completing.following.count
  have hge := List.drop_eq_nil_iff.mp (List.map_eq_nil_iff.mp hnil)
  omega

theorem Quiet.completes : s.Completes handlers s.calls := by
  have hI := hS.inv
  refine ⟨rfl, ?_, fun c hc => hI.matched hc⟩
  have hperm := (hQ.answers_perm hS).map fun xid : Int64 => (⟨xid.toInt.toNat, xid⟩ : Future)
  rw [hI.completions_eq, hQ.log_length hS, List.take_length, List.map_map]
  rw [List.map_map, List.map_map] at hperm
  refine hperm.trans (.of_eq (List.map_congr_left fun n hn => ?_))
  have hle := hI.calls_le
  have hlt := List.mem_range.mp hn
  simp only [Function.comp, toInt_ofNat_int64 (show n < 2 ^ 48 by omega), Int.toNat_natCast]

end Quiet

/-- **Every call is completed**: from every state that a client and a server can reach, busy steps
    in whatever order come to an end, and where they do, every call has been completed exactly
    once, with what the server wrote for it. -/
theorem calls_complete [Nonempty κ'] (handlers : Int32 → Option η) (h h' : Heap)
    (ops : List (SystemOp κ κ')) (s : System κ κ' η)
    (hrun : Steps (NextLooked handlers) (init h h') ops s) :
    (∀ busy s', Steps (Busy handlers) s busy s' → busy.length + s'.work ≤ s.work) ∧
    (∃ busy s', Steps (Busy handlers) s busy s' ∧ s'.Stuck handlers) ∧
    ∀ busy s', Steps (Busy handlers) s busy s' → s'.Stuck handlers →
      s'.Completes handlers (s.calls ++ s.calling.toList) := by
  have hS : s.Sound handlers :=
    hrun.invariant (fun _ _ _ hS hnext => hS.next hnext) (sound_init handlers h h')
  refine ⟨fun busy s' hbusy => ?_, ?_, fun busy s' hbusy hstuck => ?_⟩
  · -- the measure bounds the steps
    exact hbusy.length_add_le (fun _ _ _ hS hnext => hS.busy hnext) hS
  · -- so that they end
    exact Steps.exists_stuck (fun _ _ _ hS hnext => hS.busy hnext) hS
  · -- where they end all is quiet, and no call has begun meanwhile
    obtain ⟨hS', hcalls⟩ : s'.Sound handlers ∧
        s'.calls ++ s'.calling.toList = s.calls ++ s.calling.toList := by
      refine hbusy.invariant (P := fun s' : System κ κ' η => s'.Sound handlers ∧
        s'.calls ++ s'.calling.toList = s.calls ++ s.calling.toList) ?_ ⟨hS, rfl⟩
      rintro s₁ op s₂ ⟨hS₁, hcalls⟩ hnext
      exact ⟨(hS₁.busy hnext).1, hnext.calls.trans hcalls⟩
    have hQ := hS'.inv.quiet_of_stuck hstuck
    rw [hS'.inv.requests.free hQ.calling, Option.toList_none, List.append_nil] at hcalls
    exact hcalls ▸ hQ.completes hS'

/-- A client that has begun a request: it is ended, sent, dispatched and refused. -/
theorem calls_complete_one : ∃ (s : System Unit Unit Unit) (busy : List (SystemOp Unit Unit))
    (s' : System Unit Unit Unit),
    Steps (NextLooked handleSeven) (init .empty .empty) [.beginRequest () [] 8] s ∧
      Steps (Busy handleSeven) s busy s' ∧ s'.Stuck handleSeven ∧
      s'.Completes handleSeven [⟨8, []⟩] := by
  have hI : (init .empty .empty : System Unit Unit Unit).Inv handleSeven := inv_init _ _ _
  have hop : (init .empty .empty : System Unit Unit Unit).Allowed handleSeven
      (.beginRequest () [] 8) := ⟨rfl, by decide⟩
  obtain ⟨s, hlooked, hstep⟩ := hI.nextLooked hop (by simp) (by simp)
  have hrun := Steps.cons hlooked (.nil s)
  have hcalls : s.calls ++ s.calling.toList = [⟨8, []⟩] := by
    obtain ⟨client, -, hret⟩ := bind_eq_ok.mp hstep
    cases hret
    rfl
  obtain ⟨-, ⟨busy, s', hbusy, hstuck⟩, hall⟩ := calls_complete _ _ _ _ _ hrun
  exact ⟨s, busy, s', hrun, hbusy, hstuck, hcalls ▸ hall busy s' hbusy hstuck⟩

end System

end SimpleRpc.Rpc
