import SimpleRpc.Rpc.UdpRequests

/-!
# The Size Header (`rpc/marshal.h`, `rpc/client.cc`, `rpc/server.cc`)

`write_cnt_` is an `i32` to which `write`, `read_from_fd` and `read_from_marshal` add a `size_t`.
`end_request`, `end_reply` and `end_udp_request` copy it in front of the message, and the
receivers read an `i32` there.

## Main results

- `sizeField_eq_iff`: the field holds the size of a message exactly below 2^31 bytes
- `size_header_iff`: so it does in every run of a connection, and always in a datagram that
  `end_udp_request` sends

## Model

The runs are those of `SimpleRpc.Rpc.Sender` and of `SimpleRpc.Rpc.UdpRequests`: any number of
writes and of transfers of whole Marshals between the begin and the end of a message.
-/

namespace SimpleRpc.Rpc

open SimpleRpc.Lib SimpleRpc.Base

/-- What a receiver reads in front of a message: `i32 packet_size; in_.peek(&packet_size, 4)` -/
def sizeField (message : List UInt8) : Int := (i32OfBytes (message.take 4)).toInt

/-- An `i32` holds the size of a message, or another number below 2^31. -/
theorem sizeField_eq_iff (payload : List UInt8) :
    sizeField (frame payload) = payload.length ↔ payload.length < 2 ^ 31 := by
  rw [sizeField, frame, List.take_left' (leBytes_length ..)]
  constructor
  · intro heq
    have hlt := (i32OfBytes (leBytes 4 payload.length)).toInt_lt
    omega
  · exact i32OfBytes_leBytes

section Runs

variable {ι τ : Type} [DecidableEq ι] {out : ι} {h : Heap} {writers : Set ι}

/-- Between two messages the connection has its complete messages on the wire or in `out_`, each
    with the field that `write_bookmark` has filled. -/
theorem messages_of_run (hout : out ∈ writers) {ops : List (SendOp ι τ)} {s : Sender ι τ}
    (hrun : Steps (Sender.Next out) (Sender.init h writers) ops s) (hfree : s.holder = none) :
    s.sent ++ s.world.content out = s.done.flatMap fun msg => frame msg.2 :=
  ((Sender.inv_of_run hout hrun).free hfree).2.2

/-- A request for which `end_udp_request` returned `0` went out alone, in a datagram. -/
theorem accepted_of_outcomes {payloads : List (List UInt8)} {o : UdpOutcome}
    (ho : o ∈ UdpClient.outcomes [] payloads) (hret : o.ret = 0) :
    o.datagrams = [frame o.payload] ∧ (frame o.payload).length ≤ maxUdpPacketSize := by
  induction payloads with
  | nil => cases ho
  | cons payload payloads ih =>
    rw [UdpClient.outcomes, UdpClient.outcome, UdpClient.remainder, List.nil_append] at ho
    by_cases hlarge : maxUdpPacketSize < (frame payload).length
    · -- it is refused, and so are all that follow
      rw [if_pos hlarge, if_pos hlarge] at ho
      cases ho with
      | head => exact absurd hret (show e2big ≠ 0 by decide)
      | tail _ ho =>
        have hfull := (UdpClient.outcomes_of_full hlarge payloads o ho).2
        rw [hfull] at hret
        exact absurd hret (by decide)
    · rw [if_neg hlarge, if_neg hlarge] at ho
      cases ho with
      | head => exact ⟨rfl, Nat.not_lt.mp hlarge⟩
      | tail _ ho => exact ih ho

/-- A datagram is far below 2^31 bytes. -/
theorem sizeField_datagram {payload : List UInt8}
    (hfits : (frame payload).length ≤ maxUdpPacketSize) :
    sizeField (frame payload) = payload.length := by
  rw [frame_length, maxUdpPacketSize] at hfits
  exact (sizeField_eq_iff payload).mpr (by omega)

end Runs

/-- **The size header**: in every run of a connection, the field in front of a complete message
    reads as its length if and only if the message is shorter than 2^31 bytes; in every run of
    UDP requests, each request that is not refused is sent with its length in front. -/
theorem size_header_iff {ι τ : Type} [DecidableEq ι] (out : ι) (h : Heap) (others : Set ι) :
    (∀ (ops : List (SendOp ι τ)) (s : Sender ι τ),
      Steps (Sender.Next out) (Sender.init h (insert out others)) ops s →
        (s.holder = none →
          s.sent ++ s.world.content out = s.done.flatMap fun msg => frame msg.2) ∧
        ∀ msg ∈ s.done, sizeField (frame msg.2) = msg.2.length ↔ msg.2.length < 2 ^ 31) ∧
    ∀ (ops : List (UdpOp ι τ)) (s : UdpClient ι τ),
      Steps (UdpClient.Next out) (UdpClient.init h (insert out others)) ops s →
        ∀ o ∈ s.log, o.ret = 0 → o.datagrams = [frame o.payload] ∧
          sizeField (frame o.payload) = o.payload.length := by
  constructor
  · intro ops s hrun
    exact ⟨messages_of_run (Set.mem_insert out others) hrun, fun msg _ => sizeField_eq_iff msg.2⟩
  · intro ops s hrun o ho hret
    rw [(UdpClient.tracks_of_run (Set.mem_insert out others) hrun).log] at ho
    obtain ⟨hsent, hfits⟩ := accepted_of_outcomes ho hret
    exact ⟨hsent, sizeField_datagram hfits⟩

/-- **One request** with these arguments, from begin to end. -/
theorem one_request (p : List UInt8) :
    ∃ s : Sender Bool Unit,
      Steps (Sender.Next true) (Sender.init .empty (insert true {false}))
        [.begin () (.request [] 0 7), .put () (.raw p), .endMessage ()] s ∧
      s.done = [((), (requestHeader [] 0 7).bytes ++ p)] := by
  have hI₀ : (Sender.init .empty (insert true {false}) :
      Sender Bool Unit).Inv true := Sender.inv_init _ (Set.mem_insert ..)
  obtain ⟨W₁, bm, heq₁, hI₁, -⟩ := hI₀.beginMessage rfl () (Header.request [] 0 7).value
  obtain ⟨W₂, heq₂, -, -⟩ := hI₁.put rfl (.raw p)
  exact ⟨_, .cons ⟨rfl, heq₁⟩ (.cons ⟨rfl, heq₂⟩ (.cons ⟨rfl, rfl⟩ (.nil _))), rfl⟩

/-- A request with three bytes of arguments carries the size eight. -/
theorem size_header_small :
    ∃ s : Sender Bool Unit,
      Steps (Sender.Next true) (Sender.init .empty (insert true {false}))
        [.begin () (.request [] 0 7), .put () (.raw [1, 2, 3]), .endMessage ()] s ∧
      ∃ msg ∈ s.done, sizeField (frame msg.2) = 8 := by
  obtain ⟨s, hrun, hdone⟩ := one_request [1, 2, 3]
  have hmem : ((), (requestHeader [] 0 7).bytes ++ [1, 2, 3]) ∈ s.done := by simp [hdone]
  refine ⟨s, hrun, _, hmem, ?_⟩
  exact (((size_header_iff true .empty {false}).1 _ s hrun).2 _ hmem).mpr (by decide)

/-- **A request of more than 2^31 bytes** is sent with another number in front. -/
theorem size_header_wraps :
    ∃ s : Sender Bool Unit,
      Steps (Sender.Next true) (Sender.init .empty (insert true {false}))
        [.begin () (.request [] 0 7), .put () (.raw (List.replicate (2 ^ 31) 0)), .endMessage ()]
        s ∧
      ∃ msg ∈ s.done, sizeField (frame msg.2) ≠ msg.2.length := by
  obtain ⟨s, hrun, hdone⟩ := one_request (List.replicate (2 ^ 31) 0)
  refine ⟨s, hrun, ((), (requestHeader [] 0 7).bytes ++ List.replicate (2 ^ 31) 0),
    by simp only [hdone, List.mem_singleton], ?_⟩
  rw [ne_eq, sizeField_eq_iff, List.length_append, List.length_replicate]
  omega

end SimpleRpc.Rpc
