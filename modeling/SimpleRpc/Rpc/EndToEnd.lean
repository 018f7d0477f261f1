import SimpleRpc.Rpc.System

/-!
# Replies Reach Their Callers

The invariant of `System` and what follows from it. Each of its five parts speaks about a few
components only, so that a step has to be looked at only where it does something.

## Parts of the invariant

- `Requests`: what the client sends are the calls, numbered by their `xid`
- `Replies`: what the server sends are the answers
- `Serving`: the packets the server cut off are the first calls, and each is at one place
- `Written`: an answer that no handler wrote is a refusal
- `Completing`: the replies the client parsed are the first answers, and each completed the
  Future of its `xid`
-/

namespace SimpleRpc.Rpc

open SimpleRpc.Lib SimpleRpc.Base
open ServerTcpConnection (handleSeven)

/-! ## Numbered calls -/

/-- The calls with the `xid` they get. -/
def numbered (calls : List Call) : List (Int64 × List UInt8) :=
  calls.mapIdx fun n call => (Int64.ofNat n, call.bytes (Int64.ofNat n))

@[simp] theorem numbered_length (calls : List Call) : (numbered calls).length = calls.length := by
  simp [numbered]

theorem numbered_concat (calls : List Call) (call : Call) :
    numbered (calls ++ [call]) = numbered calls ++
      [(Int64.ofNat calls.length, call.bytes (Int64.ofNat calls.length))] := by
  simp [numbered, List.mapIdx_concat]

theorem numbered_getElem? (calls : List Call) (n : Nat) :
    (numbered calls)[n]? =
      calls[n]?.map fun call => (Int64.ofNat n, call.bytes (Int64.ofNat n)) := by
  simp [numbered]

theorem toInt_ofNat_int64 {n : Nat} (hn : n < 2 ^ 48) : (Int64.ofNat n).toInt = n :=
  Int64.toInt_ofNat_of_lt (by omega)

theorem ofNat_inj_int64 {n m : Nat} (hn : n < 2 ^ 48) (hm : m < 2 ^ 48)
    (h : Int64.ofNat n = Int64.ofNat m) : n = m := by
  have := congrArg Int64.toInt h
  rw [toInt_ofNat_int64 hn, toInt_ofNat_int64 hm] at this
  omega

theorem valSize_ofNat {n : Nat} (hn : n < 2 ^ 48) : SparseInt.valSize (Int64.ofNat n) ≠ 8 := by
  have := toInt_ofNat_int64 hn
  exact SparseInt.valSize_ne_eight (by omega) (by omega)

/-- What was received and a piece of what was not. -/
theorem prefix_take_missing {received sent : List UInt8} (h : received <+: sent) (k : Nat) :
    received ++ (sent.drop received.length).take k <+: sent := by
  obtain ⟨t, rfl⟩ := h
  rw [List.drop_left]
  exact (List.prefix_append_right_inj _).mpr (List.take_prefix k t)

namespace Call

variable (call : Call) (xid : Int64)

theorem bytes_eq :
    call.bytes xid =
      SparseInt.encode64 xid ++ (leBytes 4 call.rpcId.toUInt32.toNat ++ call.args) := by
  simp [Call.bytes]

theorem bufSize_bytes :
    SparseInt.bufSize ((call.bytes xid).getD 0 0) = (SparseInt.encode64 xid).length := by
  rw [bytes_eq, SparseInt.bufSize_encode64, SparseInt.encode64_length]

theorem wellFormed (hlt : (call.bytes xid).length < 2 ^ 31) : WellFormed (call.bytes xid) := by
  have hpos := SparseInt.valSize_pos xid
  refine ⟨?_, hlt, ?_⟩
  · rw [bytes_eq, List.length_append, SparseInt.encode64_length]
    omega
  · rw [bufSize_bytes, bytes_eq, List.length_append]
    omega

theorem xidOf_bytes (h8 : SparseInt.valSize xid ≠ 8) (buf : List UInt8) :
    ServerTcpConnection.xidOf buf (call.bytes xid) = xid := by
  rw [ServerTcpConnection.xidOf, bufSize_bytes, bytes_eq, List.take_left,
    SparseInt.loadI64_encode64 xid h8]

theorem argsOf_bytes :
    ServerTcpConnection.argsOf (call.bytes xid) =
      leBytes 4 call.rpcId.toUInt32.toNat ++ call.args := by
  rw [ServerTcpConnection.argsOf, bufSize_bytes, bytes_eq, List.drop_left]

/-- What becomes of a call: it is handed over as it was written, if it has a handler. -/
def outcome {η : Type} (handlers : Int32 → Option η) : Outcome η :=
  match handlers call.rpcId with
  | some handler => .handed handler xid call.rpcId call.args
  | none => .enoent xid

theorem outcomeOf_bytes {η : Type} (handlers : Int32 → Option η) :
    ServerTcpConnection.outcomeOf handlers xid (call.bytes xid) = call.outcome xid handlers := by
  have hid : i32OfBytes (leBytes 4 call.rpcId.toUInt32.toNat) = call.rpcId := by
    rw [i32OfBytes, leNat_leBytes_of_lt call.rpcId.toUInt32.toNat_lt, UInt32.ofNat_toNat]
    simp
  simp only [ServerTcpConnection.outcomeOf, argsOf_bytes, List.length_append, leBytes_length,
    List.take_left' (leBytes_length ..), List.drop_left' (leBytes_length ..), hid, outcome]
  cases handlers call.rpcId <;> simp

end Call

namespace System

variable {κ κ' η : Type}

/-! ## What the client sends -/

/-- The client's complete messages are the calls, and the one in progress is the next. -/
structure Requests (client : Client κ) (calls : List Call) (calling : Option Call) : Prop where
  inv : client.Inv
  done : client.sender.done.map Prod.snd = (numbered calls).map Prod.snd
  free : client.sender.holder = none → calling = none
  held : ∀ t, client.sender.holder = some t →
    ∃ call, calling = some call ∧
      client.sender.current = call.bytes (Int64.ofNat calls.length) ∧
      client.sender.current.length < 2 ^ 31
  futures : client.futures = calls.length + calling.toList.length
  xid : client.xidCounter = Int64.ofNat client.futures
  le : client.futures ≤ 2 ^ 48
  lt : ∀ pk ∈ numbered calls, pk.2.length < 2 ^ 31

section Requests

variable {client client' : Client κ} {calls : List Call} {calling : Option Call}

theorem requests_init (h : Heap) : Requests (.init h : Client κ) [] none where
  inv := Client.inv_init h
  done := rfl
  free _ := rfl
  held _ ht := nomatch ht
  futures := rfl
  xid := rfl
  le := by simp [Client.init]
  lt := by simp [numbered]

variable (hR : Requests client calls calling)

include hR

/-- Steps that write no message. -/
theorem Requests.same (hinv : client'.Inv) (hdone : client'.sender.done = client.sender.done)
    (hholder : client'.sender.holder = client.sender.holder)
    (hcurrent : client'.sender.current = client.sender.current)
    (hfutures : client'.futures = client.futures) (hxid : client'.xidCounter = client.xidCounter) :
    Requests client' calls calling where
  inv := hinv
  done := hdone ▸ hR.done
  free := hholder ▸ hR.free
  held := hholder ▸ hcurrent ▸ hR.held
  futures := hfutures ▸ hR.futures
  xid := hxid ▸ hfutures ▸ hR.xid
  le := hfutures ▸ hR.le
  lt := hR.lt

theorem Requests.begin (hfree : client.sender.holder = none) (hlt : calls.length < 2 ^ 48) (t : κ)
    (buf : List UInt8) (rpcId : Int32) (W' : World ConnName) (bm : Bookmark)
    (hinv : Client.Inv (client.addFuture
      (client.sender.started t W' bm (requestHeader buf client.xidCounter rpcId).bytes))) :
    Requests (client.addFuture
      (client.sender.started t W' bm (requestHeader buf client.xidCounter rpcId).bytes))
      calls (some ⟨rpcId, []⟩) := by
  -- nobody else is calling
  have hcalling : calling = none := hR.free hfree
  have hfutures : client.futures = calls.length := by
    rw [hR.futures, hcalling]
    rfl
  -- the xid is the number of the call
  have hheader : (requestHeader buf client.xidCounter rpcId).bytes =
      Call.bytes ⟨rpcId, []⟩ (Int64.ofNat calls.length) := by
    rw [hR.xid, hfutures, Call.bytes, List.append_nil]
    rfl
  refine ⟨hinv, hR.done, (fun h => nomatch h), fun _ _ => ⟨_, rfl, hheader, ?_⟩, ?_, ?_, ?_, hR.lt⟩
  · change (requestHeader buf client.xidCounter rpcId).bytes.length < 2 ^ 31
    rw [hheader, Call.bytes_eq, List.length_append, SparseInt.encode64_length]
    have := SparseInt.bufSize_le_nine ((SparseInt.encode64 (Int64.ofNat calls.length) ++ []).getD 0 0)
    rw [SparseInt.bufSize_encode64] at this
    simp
    omega
  · -- one Future more
    simp [Client.addFuture, hfutures]
  · -- and `xid_counter_` goes on with it
    change client.xidCounter + 1 = Int64.ofNat (client.futures + 1)
    rw [hR.xid, Int64.ofNat_add]
    rfl
  · change client.futures + 1 ≤ 2 ^ 48
    omega

theorem Requests.put {t : κ} (hheld : client.sender.holder = some t) {bytes : List UInt8}
    (hlt : (client.sender.current ++ bytes).length < 2 ^ 31) {sender' : Sender ConnName κ}
    (hholder : sender'.holder = client.sender.holder)
    (hcurrent' : sender'.current = client.sender.current ++ bytes)
    (hdone : sender'.done = client.sender.done)
    (hinv : Client.Inv { client with sender := sender' }) :
    Requests { client with sender := sender' } calls (calling.map (·.more bytes)) := by
  obtain ⟨call, rfl, hcurrent, -⟩ := hR.held t hheld
  refine ⟨hinv, hdone ▸ hR.done, fun hfree => ?_, fun _ _ => ⟨_, rfl, ?_, ?_⟩, hR.futures, hR.xid,
    hR.le, hR.lt⟩
  · -- the caller still holds `out_l_`
    change sender'.holder = none at hfree
    rw [hholder, hheld] at hfree
    cases hfree
  · change sender'.current = _
    rw [hcurrent', hcurrent]
    simp [Call.bytes, Call.more]
  · change sender'.current.length < _
    rwa [hcurrent']

theorem Requests.endMessage {t : κ} (hheld : client.sender.holder = some t)
    {sender' : Sender ConnName κ} (heff : Sender.Effect .out_ client.sender (.endMessage t) sender')
    (hinv : Client.Inv { client with sender := sender' }) :
    Requests { client with sender := sender' } (calls ++ calling.toList) none := by
  obtain ⟨call, rfl, hcurrent, hlt⟩ := hR.held t hheld
  have hholder : sender'.holder = none := heff.holder
  refine ⟨hinv, ?_, fun _ => rfl, fun t' ht' => ?_, ?_, hR.xid, hR.le, fun pk hpk => ?_⟩
  · rw [heff.done, Option.toList_some, numbered_concat, List.map_append, List.map_append, hR.done]
    simp [SendOp.finished, hcurrent]
  · rw [hholder] at ht'
    cases ht'
  · simpa using hR.futures
  · rw [Option.toList_some, numbered_concat] at hpk
    rcases List.mem_append.mp hpk with hpk | hpk
    · exact hR.lt pk hpk
    · obtain rfl := List.mem_singleton.mp hpk
      rwa [← hcurrent]

/-- What was sent are the numbered calls. -/
theorem Requests.sent_prefix :
    client.sender.sent <+: ((numbered calls).map Prod.snd).flatMap frame := by
  rw [← hR.done, List.flatMap_map]
  exact hR.inv.sender.sent_prefix

end Requests

/-! ## What the server sends -/

/-- The server's complete messages are the answers, and the one in progress is the next. -/
structure Replies (handlers : Int32 → Option η) (server : ServerTcpConnection κ' η)
    (answers : List Reply) (answering : Option Reply) : Prop where
  inv : server.Inv handlers
  done : server.sender.done.map Prod.snd = answers.map Reply.bytes
  free : server.sender.holder = none → answering = none
  held : ∀ t, server.sender.holder = some t →
    ∃ r, answering = some r ∧ server.sender.current = r.bytes ∧
      server.sender.current.length < 2 ^ 31
  lt : ∀ r ∈ answers, r.bytes.length < 2 ^ 31

theorem length_header_lt (xid : Int64) (errorCode : Int32) :
    (Reply.bytes ⟨xid, errorCode, []⟩).length < 2 ^ 31 := by
  have h64 := SparseInt.bufSize_le_nine ((SparseInt.encode64 xid ++ []).getD 0 0)
  have h32 := SparseInt.bufSize_le_nine ((SparseInt.encode32 errorCode ++ []).getD 0 0)
  rw [SparseInt.bufSize_encode64] at h64
  rw [SparseInt.bufSize_encode32] at h32
  simp only [Reply.bytes, List.length_append, SparseInt.encode64_length, SparseInt.encode32_length,
    List.length_nil]
  omega

section Replies

variable {handlers : Int32 → Option η} {server server' : ServerTcpConnection κ' η}
  {answers : List Reply} {answering : Option Reply}

theorem replies_init (h : Heap) :
    Replies handlers (.init h : ServerTcpConnection κ' η) [] none where
  inv := ServerTcpConnection.inv_init handlers h
  done := rfl
  free _ := rfl
  held _ ht := nomatch ht
  lt := by simp

variable (hR : Replies handlers server answers answering)

include hR

/-- Steps that write no message. -/
theorem Replies.same (hinv : server'.Inv handlers) (hdone : server'.sender.done = server.sender.done)
    (hholder : server'.sender.holder = server.sender.holder)
    (hcurrent : server'.sender.current = server.sender.current) :
    Replies handlers server' answers answering where
  inv := hinv
  done := hdone ▸ hR.done
  free := hholder ▸ hR.free
  held := hholder ▸ hcurrent ▸ hR.held
  lt := hR.lt

theorem Replies.begin {t : κ'} {buf buf' : List UInt8} {xid : Int64} {errorCode : Int32}
    {sender' : Sender ConnName (Option κ')}
    (heff : Sender.Effect .out_ server.sender (.begin (some t) (.reply buf buf' xid errorCode)) sender')
    (hinv : ServerTcpConnection.Inv handlers { server with sender := sender' }) :
    Replies handlers { server with sender := sender' } answers (some ⟨xid, errorCode, []⟩) := by
  have hcurrent : sender'.current = Reply.bytes ⟨xid, errorCode, []⟩ := by
    rw [heff.current, Reply.bytes, List.append_nil]
    rfl
  refine ⟨hinv, ?_, fun hfree => ?_, fun _ _ => ⟨_, rfl, hcurrent, ?_⟩, hR.lt⟩
  · rw [heff.done]
    simp [SendOp.finished, hR.done]
  · have : sender'.holder = some (some t) := heff.holder
    rw [this] at hfree
    cases hfree
  · change sender'.current.length < _
    rw [hcurrent]
    exact length_header_lt xid errorCode

theorem Replies.put {t : κ'} (hheld : server.sender.holder = some (some t)) {bytes : List UInt8}
    (hlt : (server.sender.current ++ bytes).length < 2 ^ 31)
    {sender' : Sender ConnName (Option κ')} (hholder : sender'.holder = server.sender.holder)
    (hcurrent' : sender'.current = server.sender.current ++ bytes)
    (hdone : sender'.done = server.sender.done)
    (hinv : ServerTcpConnection.Inv handlers { server with sender := sender' }) :
    Replies handlers { server with sender := sender' } answers (answering.map (·.more bytes)) := by
  obtain ⟨r, rfl, hcurrent, -⟩ := hR.held _ hheld
  refine ⟨hinv, hdone ▸ hR.done, fun hfree => ?_, fun _ _ => ⟨_, rfl, ?_, ?_⟩, hR.lt⟩
  · change sender'.holder = none at hfree
    rw [hholder, hheld] at hfree
    cases hfree
  · change sender'.current = _
    rw [hcurrent', hcurrent]
    simp [Reply.bytes, Reply.more]
  · change sender'.current.length < _
    rwa [hcurrent']

theorem Replies.endMessage {t : κ'} (hheld : server.sender.holder = some (some t))
    {sender' : Sender ConnName (Option κ')}
    (heff : Sender.Effect .out_ server.sender (.endMessage (some t)) sender')
    (hinv : ServerTcpConnection.Inv handlers { server with sender := sender' }) :
    Replies handlers { server with sender := sender' } (answers ++ answering.toList) none := by
  obtain ⟨r, rfl, hcurrent, hlt⟩ := hR.held _ hheld
  have hholder : sender'.holder = none := heff.holder
  refine ⟨hinv, ?_, fun _ => rfl, fun t' ht' => ?_, fun r' hr' => ?_⟩
  · rw [heff.done, List.map_append, List.map_append, hR.done]
    simp [SendOp.finished, hcurrent]
  · rw [hholder] at ht'
    cases ht'
  · rcases List.mem_append.mp hr' with hr' | hr'
    · exact hR.lt r' hr'
    · obtain rfl := List.mem_singleton.mp hr'
      rwa [← hcurrent]

/-- A round of the second loop that sends `more`. -/
theorem Replies.served {req : Request} {reqs : List Request} {outcome : Outcome η}
    {sender' : Sender ConnName (Option κ')} {sent : List (Option κ' × List UInt8)}
    (hinv : ServerTcpConnection.Inv handlers
      ({ server with sender := sender' }.served reqs outcome))
    (hs : ServerTcpConnection.Serves server req sender' sent) {more : List Reply}
    (hsent : sent.map Prod.snd = more.map Reply.bytes) (hmore : ∀ r ∈ more, r.payload = []) :
    Replies handlers ({ server with sender := sender' }.served reqs outcome) (answers ++ more)
      answering := by
  refine ⟨hinv, ?_, fun hfree => hR.free (hs.holder_eq ▸ hfree), fun t ht => ?_, fun r hr => ?_⟩
  · -- `handle_read` sends its replies behind those of before
    change sender'.done.map Prod.snd = _
    rw [hs.done_eq, List.map_append, hR.done, hsent, List.map_append]
  · -- a reply that is being written is not touched
    have hheld : server.sender.holder = some t := hs.holder_eq ▸ ht
    change ∃ r, answering = some r ∧ sender'.current = r.bytes ∧ sender'.current.length < 2 ^ 31
    rw [hs.current_eq t hheld]
    exact hR.held t hheld
  · -- all of them are short
    rcases List.mem_append.mp hr with hr | hr
    · exact hR.lt r hr
    · have := length_header_lt r.xid r.errorCode
      rwa [← hmore r hr] at this

/-- What was sent are the answers. -/
theorem Replies.sent_prefix :
    server.sender.sent <+: (answers.map Reply.bytes).flatMap frame := by
  rw [← hR.done, List.flatMap_map]
  exact hR.inv.sender.sent_prefix

end Replies

/-! ## Requests on the server -/

/-- The `xid` of every request that arrived, by where it is. -/
def tickets (server : ServerTcpConnection κ' η) (owed : List Request) (answers : List Reply)
    (answering : Option Reply) : List Int64 :=
  answers.map Reply.xid ++ answering.toList.map Reply.xid ++ owed.map Request.xid ++
    server.io.waiting.map Request.xid

/-- The packets are the first calls, and each of them is at exactly one place. -/
structure Serving (sent : List UInt8) (calls : List Call) (server : ServerTcpConnection κ' η)
    (owed : List Request) (answers : List Reply) (answering : Option Reply) : Prop where
  toServer : server.received <+: sent
  packets : server.packets <+: numbered calls
  tickets : (tickets server owed answers answering).Perm
    ((List.range server.packets.length).map Int64.ofNat)

section Serving

variable {sent : List UInt8} {calls : List Call} {handlers : Int32 → Option η}
  {server server' : ServerTcpConnection κ' η} {owed : List Request} {answers : List Reply}
  {answering : Option Reply}

theorem serving_init (h : Heap) :
    Serving [] [] (.init h : ServerTcpConnection κ' η) [] [] none where
  toServer := List.nil_prefix
  packets := List.nil_prefix
  tickets := List.Perm.refl _

variable (hS : Serving sent calls server owed answers answering)

include hS

theorem Serving.mono {sent' : List UInt8} {calls' : List Call} (hsent : sent <+: sent')
    (hcalls : numbered calls <+: numbered calls') :
    Serving sent' calls' server owed answers answering :=
  ⟨hS.toServer.trans hsent, hS.packets.trans hcalls, hS.tickets⟩

/-- Steps that take no packet in. -/
theorem Serving.same {owed' : List Request} {answers' : List Reply} {answering' : Option Reply}
    (hreceived : server'.received = server.received) (hpackets : server'.packets = server.packets)
    (htickets : (System.tickets server' owed' answers' answering').Perm
      (System.tickets server owed answers answering)) :
    Serving sent calls server' owed' answers' answering' :=
  ⟨hreceived ▸ hS.toServer, hpackets ▸ hS.packets, by rw [hpackets]; exact htickets.trans hS.tickets⟩

theorem Serving.packets_le : server.packets.length ≤ calls.length := by
  simpa using hS.packets.length_le

/-- Every answer belongs to a call. -/
theorem Serving.answer_xid {r : Reply} (hr : r ∈ answers) :
    ∃ n < server.packets.length, r.xid = Int64.ofNat n := by
  have hmem : r.xid ∈ System.tickets server owed answers answering := by
    simp only [System.tickets, List.append_assoc]
    exact List.mem_append_left _ (List.mem_map_of_mem hr)
  rw [hS.tickets.mem_iff] at hmem
  obtain ⟨n, hn, hx⟩ := List.mem_map.mp hmem
  exact ⟨n, List.mem_range.mp hn, hx.symm⟩

theorem Serving.nodup (hle : calls.length ≤ 2 ^ 48) :
    (System.tickets server owed answers answering).Nodup := by
  rw [hS.tickets.nodup_iff]
  refine List.Nodup.map_on (fun n hn m hm heq => ?_) List.nodup_range
  have := hS.packets_le
  rw [List.mem_range] at hn hm
  exact ofNat_inj_int64 (by omega) (by omega) heq

/-- No two answers have the same `xid`. -/
theorem Serving.nodup_answers (hle : calls.length ≤ 2 ^ 48) : (answers.map Reply.xid).Nodup := by
  have hnodup := hS.nodup hle
  simp only [System.tickets, List.append_assoc] at hnodup
  exact (List.nodup_append.mp hnodup).1

theorem Serving.not_answered (hle : calls.length ≤ 2 ^ 48) {k : Nat} {r : Reply}
    (hget : answers[k]? = some r) : r.xid ∉ (answers.take k).map Reply.xid := by
  obtain ⟨hlt, rfl⟩ := List.getElem?_eq_some_iff.mp hget
  have hnodup := hS.nodup_answers hle
  rw [← List.take_append_drop k answers, List.drop_eq_getElem_cons hlt, List.map_append,
    List.map_cons] at hnodup
  exact fun hmem => (List.nodup_append.mp hnodup).2.2 _ hmem _ (List.mem_cons_self ..) rfl

/-- A complete packet in `in_` is the next call. -/
theorem Serving.next_packet (hI : server.Inv handlers)
    (hsent : sent <+: ((numbered calls).map Prod.snd).flatMap frame)
    (hlt : ∀ pk ∈ numbered calls, pk.2.length < 2 ^ 31)
    (hr : FrameReady (server.world.content .in_)) :
    ∃ call rest, calls[server.packets.length]? = some call ∧
      server.world.content .in_ =
        frame (call.bytes (Int64.ofNat server.packets.length)) ++ rest ∧
      (call.bytes (Int64.ofNat server.packets.length)).length < 2 ^ 31 := by
  -- what has arrived is a part of what was sent
  obtain ⟨t, ht⟩ := hS.toServer.trans hsent
  rw [hI.stream, List.append_assoc] at ht
  obtain ⟨qs, hqs, hrest⟩ := flatMap_frame_append_inj
    (fun p hp => by
      obtain ⟨pk, hpk, rfl⟩ := List.mem_map.mp hp
      exact (hI.wellFormed pk hpk).lt)
    (fun p hp => by
      obtain ⟨pk, hpk, rfl⟩ := List.mem_map.mp hp
      exact hlt pk hpk) ht
  have hlen : ∀ q ∈ qs, q.length < 2 ^ 31 := by
    intro q hq
    have hmem : q ∈ (numbered calls).map Prod.snd := by
      rw [hqs]
      exact List.mem_append_right _ hq
    obtain ⟨pk, hpk, rfl⟩ := List.mem_map.mp hmem
    exact hlt pk hpk
  -- so that the next packet is the next call
  obtain ⟨q, qs', rest, rfl, hcontent, -⟩ := ready_of_frames hlen hrest hr
  -- the packet behind those that were cut off
  have hget : ((numbered calls).map Prod.snd)[server.packets.length]? = some q := by
    rw [hqs, List.getElem?_append_right (by simp)]
    simp
  rw [List.getElem?_map, numbered_getElem?, Option.map_map] at hget
  obtain ⟨call, hcall, rfl⟩ := Option.map_eq_some_iff.mp hget
  exact ⟨call, rest, hcall, hcontent, hlen _ (by simp)⟩

/-- A packet that was cut off waits in the list of `handle_read`. -/
theorem Serving.cutOff {reqs : List Request} (hio : server.io = .parsing reqs) {call : Call}
    (hcall : calls[server.packets.length]? = some call) (W' : World ConnName) :
    Serving sent calls (server.cutOff reqs W' (Int64.ofNat server.packets.length)
      (call.bytes (Int64.ofNat server.packets.length))) owed answers answering := by
  refine ⟨hS.toServer, ?_, ?_⟩
  · -- the packets are still those of the calls
    obtain ⟨more, hmore⟩ := hS.packets
    have hget := numbered_getElem? calls server.packets.length
    rw [hcall, ← hmore, List.getElem?_append_right (Nat.le_refl _), Nat.sub_self] at hget
    cases more with
    | nil => simp at hget
    | cons pk more =>
      have hpk : pk = (Int64.ofNat server.packets.length,
          call.bytes (Int64.ofNat server.packets.length)) := by simpa using hget
      exact ⟨more, by rw [← hmore, hpk]; simp [ServerTcpConnection.cutOff]⟩
  · -- the new ticket waits
    have htickets := hS.tickets
    simp only [System.tickets, hio, Io.waiting] at htickets
    simp only [System.tickets, ServerTcpConnection.cutOff, Io.waiting, List.map_append,
      List.length_append, List.length_singleton, List.range_succ]
    simp only [List.map_cons, List.map_nil, ← List.append_assoc]
    exact htickets.append_right _

end Serving

/-! ## Who wrote the answers -/

/-- The answers that no handler wrote are refusals, and every refusal is an answer. -/
structure Written (outcomes : List (Outcome η)) (answers replied : List Reply) : Prop where
  author : ∀ r ∈ answers, r ∈ replied ∨ ∃ outcome ∈ outcomes, outcome.refusal = some r
  refusal : ∀ outcome ∈ outcomes, ∀ r, outcome.refusal = some r → r ∈ answers

theorem written_nil : Written ([] : List (Outcome η)) [] [] := ⟨by simp, by simp⟩

/-- A request was dispatched. -/
theorem Written.served {outcomes : List (Outcome η)} {answers replied : List Reply}
    (hW : Written outcomes answers replied) (outcome : Outcome η) :
    Written (outcomes ++ [outcome]) (answers ++ outcome.refusal.toList) replied := by
  refine ⟨fun r hr => ?_, fun o ho r hrefusal => ?_⟩
  · rcases List.mem_append.mp hr with hr | hr
    · refine (hW.author r hr).imp_right ?_
      rintro ⟨o, ho, hrefusal⟩
      exact ⟨o, List.mem_append_left _ ho, hrefusal⟩
    · exact .inr ⟨outcome, by simp, by simpa using hr⟩
  · rcases List.mem_append.mp ho with ho | ho
    · exact List.mem_append_left _ (hW.refusal o ho r hrefusal)
    · obtain rfl := List.mem_singleton.mp ho
      exact List.mem_append_right _ (by simpa using hrefusal)

/-- A handler finished its reply. -/
theorem Written.endMessage {outcomes : List (Outcome η)} {answers replied : List Reply}
    (hW : Written outcomes answers replied) (more : List Reply) :
    Written outcomes (answers ++ more) (replied ++ more) := by
  refine ⟨fun r hr => ?_, fun o ho r hrefusal => List.mem_append_left _ (hW.refusal o ho r hrefusal)⟩
  rcases List.mem_append.mp hr with hr | hr
  · exact (hW.author r hr).imp_left (List.mem_append_left _)
  · exact .inl (List.mem_append_right _ hr)

/-! ## Replies at the client -/

/-- The completion of a Future by a reply. -/
def delivered (r : Reply) : Option Completion :=
  some ⟨⟨r.xid.toInt.toNat, r.xid⟩, r.errorCode, r.payload⟩

/-- The replies that were parsed are the first answers; each completed the Future of its `xid`,
    and the others are pending. -/
structure Completing (sent : List UInt8) (answers : List Reply) (client : Client κ) : Prop where
  toClient : client.received <+: sent
  following : client.Following answers
  log : client.log = (answers.take client.log.length).map delivered
  pending : ∀ n < client.futures, Int64.ofNat n ∉ (answers.take client.log.length).map Reply.xid →
    client.pendingFu (Int64.ofNat n) = some ⟨n, Int64.ofNat n⟩

section Completing

variable {sent : List UInt8} {answers : List Reply} {client client' : Client κ}

theorem completing_init (h : Heap) : Completing [] [] (.init h : Client κ) where
  toClient := List.nil_prefix
  following := ⟨Nat.le_refl 0, rfl, List.nil_prefix⟩
  log := rfl
  pending _ h := nomatch h

variable (hC : Completing sent answers client)

include hC

/-- The server writes more. -/
theorem Completing.mono {sent' : List UInt8} {answers' : List Reply} (hsent : sent <+: sent')
    (hanswers : answers <+: answers') : Completing sent' answers' client := by
  obtain ⟨more, rfl⟩ := hanswers
  have htake : (answers ++ more).take client.log.length = answers.take client.log.length :=
    List.take_append_of_le_length hC.following.count
  refine ⟨hC.toClient.trans hsent, ⟨?_, ?_, ?_⟩, ?_, ?_⟩
  · have := hC.following.count
    rw [List.length_append]
    omega
  · rw [htake]
    exact hC.following.stream
  · rw [List.map_append, List.flatMap_append]
    exact hC.following.sub.trans (List.prefix_append ..)
  · rw [htake]
    exact hC.log
  · rw [htake]
    exact hC.pending

/-- Steps that read nothing and add no Future. -/
theorem Completing.same (hreceived : client'.received = client.received)
    (hcontent : client'.world.content .in_ = client.world.content .in_)
    (hlog : client'.log = client.log) (hfutures : client'.futures = client.futures)
    (hpending : client'.pendingFu = client.pendingFu) : Completing sent answers client' := by
  refine ⟨hreceived ▸ hC.toClient, ⟨?_, ?_, ?_⟩, ?_, ?_⟩
  · rw [hlog]
    exact hC.following.count
  · rw [hreceived, hlog, hcontent]
    exact hC.following.stream
  · rw [hreceived]
    exact hC.following.sub
  · rw [hlog]
    exact hC.log
  · rw [hlog, hfutures, hpending]
    exact hC.pending

/-- A new Future is pending. -/
theorem Completing.addFuture {sender' : Sender ConnName κ}
    (hcontent : sender'.world.content .in_ = client.world.content .in_)
    (hxid : client.xidCounter = Int64.ofNat client.futures) (hlt : client.futures < 2 ^ 48) :
    Completing sent answers (client.addFuture sender') := by
  refine ⟨hC.toClient, ⟨hC.following.count, ?_, hC.following.sub⟩, hC.log, fun n hn hnot => ?_⟩
  · change client.received = _ ++ sender'.world.content .in_
    rw [hcontent]
    exact hC.following.stream
  · change n < client.futures + 1 at hn
    change Function.update client.pendingFu client.xidCounter _ (Int64.ofNat n) = _
    by_cases heq : n = client.futures
    · rw [heq, hxid, Function.update_self]
    · rw [Function.update_of_ne, hC.pending n (by omega) hnot]
      rw [hxid]
      exact fun h => heq (ofNat_inj_int64 (by omega) hlt h)

/-- More bytes arrive. -/
theorem Completing.fill {W' : World ConnName} {got : List UInt8}
    (hcontent : W'.content .in_ = client.world.content .in_ ++ got)
    (hgot : client.received ++ got <+: sent)
    (hsent : sent <+: (answers.map Reply.bytes).flatMap frame) :
    Completing sent answers (client.fill W' got) := by
  refine ⟨hgot, ⟨hC.following.count, ?_, hgot.trans hsent⟩, hC.log, hC.pending⟩
  change client.received ++ got = _ ++ W'.content .in_
  rw [hcontent, ← List.append_assoc]
  exact congrArg (· ++ got) hC.following.stream

/-- A reply is delivered. -/
theorem Completing.complete {r : Reply} {n : Nat} (hn : n < 2 ^ 48) (hxid : r.xid = Int64.ofNat n)
    (hget : answers[client.log.length]? = some r) {W' : World ConnName} {rest : List UInt8}
    (hcontent : client.world.content .in_ = frame r.bytes ++ rest) (hin : W'.content .in_ = rest)
    (hslice : W'.content (.slice n) = r.payload) :
    Completing sent answers (client.complete W' ⟨n, r.xid⟩ r.errorCode) := by
  -- the Future gets its own reply
  have hlog : (client.complete W' ⟨n, r.xid⟩ r.errorCode).log = client.log ++ [delivered r] := by
    simp only [Client.complete, hslice, delivered, hxid, toInt_ofNat_int64 hn, Int.toNat_natCast]
  have htake : answers.take (client.log.length + 1) = answers.take client.log.length ++ [r] := by
    rw [List.take_add_one, hget]
    rfl
  have hlen : (client.complete W' ⟨n, r.xid⟩ r.errorCode).log.length = client.log.length + 1 := by
    rw [hlog, List.length_append, List.length_singleton]
  refine ⟨hC.toClient, ⟨?_, ?_, hC.following.sub⟩, ?_, fun m hm hnot => ?_⟩
  · -- one answer more was consumed
    rw [hlen]
    exact (List.getElem?_eq_some_iff.mp hget).1
  · change client.received = _ ++ W'.content .in_
    rw [hlen, htake, hin, hC.following.stream, hcontent]
    simp
  · -- the log grows with the answers
    rw [hlen, htake, hlog, List.map_append, ← hC.log]
    rfl
  · -- the Futures behind it still wait
    rw [hlen, htake, List.map_append, List.mem_append, not_or] at hnot
    change Function.update client.pendingFu r.xid none (Int64.ofNat m) = _
    rw [Function.update_of_ne (by simpa using hnot.2)]
    exact hC.pending m hm hnot.1

end Completing

/-! ## One step -/

structure Inv (handlers : Int32 → Option η) (s : System κ κ' η) : Prop where
  requests : Requests s.client s.calls s.calling
  replies : Replies handlers s.server s.answers s.answering
  serving : Serving s.client.sender.sent s.calls s.server s.owed s.answers s.answering
  written : Written s.server.outcomes s.answers s.replied
  completing : Completing s.server.sender.sent s.answers s.client

theorem inv_init (handlers : Int32 → Option η) (h h' : Heap) :
    (init h h' : System κ κ' η).Inv handlers :=
  ⟨requests_init h, replies_init h', serving_init h', written_nil, completing_init h⟩

theorem dispatched_settle {s : System κ κ' η} {server : ServerTcpConnection κ' η} {req : Request}
    {reqs : List Request} (hio : s.server.io = .dispatching (req :: reqs)) {outcome : Outcome η}
    (hlast : server.outcomes.getLast? = some outcome) :
    s.dispatched server = s.settle server req outcome := by
  simp only [dispatched, hio, hlast]

section Steps

variable {handlers : Int32 → Option η} {s : System κ κ' η} (hI : s.Inv handlers)

include hI

/-- Steps of the client that send. -/
theorem Inv.clientSend {op : SendOp ConnName κ} (hop : s.client.Allowed (.send op)) :
    ∃ sender', s.client.step (.send op) = .ok { s.client with sender := sender' } ∧
      Client.Inv { s.client with sender := sender' } ∧
      Sender.Effect .out_ s.client.sender op sender' ∧
      Completing s.server.sender.sent s.answers { s.client with sender := sender' } := by
  obtain ⟨sender', heq, hinv, heff, hcontent⟩ := hI.requests.inv.send hop
  exact ⟨sender', by simp only [Client.step, heq, ok_bind, pure_eq_ok], hinv, heff,
    hI.completing.same rfl hcontent rfl rfl rfl⟩

/-- Steps of the server that send. -/
theorem Inv.serverSend {op : SendOp ConnName (Option κ')}
    (hop : s.server.Allowed handlers (.send op)) :
    ∃ sender', s.server.step handlers (.send op) = .ok { s.server with sender := sender' } ∧
      ServerTcpConnection.Inv handlers { s.server with sender := sender' } ∧
      Sender.Effect .out_ s.server.sender op sender' := by
  obtain ⟨sender', heq, hinv, heff, -⟩ := hI.replies.inv.send hop
  exact ⟨sender', by simp only [ServerTcpConnection.step, heq, ok_bind, pure_eq_ok], hinv, heff⟩

theorem Inv.beginRequest {t : κ} {buf : List UInt8} {rpcId : Int32}
    (hop : s.Allowed handlers (.beginRequest t buf rpcId)) :
    ∃ s', s.step handlers (.beginRequest t buf rpcId) = .ok s' ∧ s'.Inv handlers := by
  obtain ⟨hfree, hlt⟩ := hop
  obtain ⟨W', bm, heq, hinv, hcontent⟩ := hI.requests.inv.beginRequest hfree t buf rpcId
  have hfutures : s.client.futures < 2 ^ 48 := by
    rw [hI.requests.futures, hI.requests.free hfree]
    simpa using hlt
  have hstep : s.step handlers (.beginRequest t buf rpcId) = .ok
      { s with client := s.client.addFuture (s.client.sender.started t W' bm
                 (requestHeader buf s.client.xidCounter rpcId).bytes)
               calling := some ⟨rpcId, []⟩ } := by
    simp only [step, Client.step, heq, ok_bind, pure_eq_ok]
  exact ⟨_, hstep, hI.requests.begin hfree hlt t buf rpcId W' bm hinv, hI.replies, hI.serving,
    hI.written, hI.completing.addFuture hcontent hI.requests.xid hfutures⟩

/-- Steps of the client that continue a message. -/
theorem Inv.clientPut {op : SendOp ConnName κ} (hop : s.client.Allowed (.send op)) {t : κ}
    (hheld : s.client.sender.holder = some t) {bytes : List UInt8}
    (hlt : (s.client.sender.current ++ bytes).length < 2 ^ 31)
    (hholder : op.holder s.client.sender.holder = s.client.sender.holder)
    (hcurrent : op.current s.client.sender.world s.client.sender.current =
      s.client.sender.current ++ bytes)
    (hfinished : op.finished s.client.sender.current = []) :
    ∃ client', s.client.step (.send op) = .ok client' ∧
      Inv handlers { s with client := client', calling := s.calling.map (·.more bytes) } := by
  obtain ⟨sender', heq, hinv, heff, hC⟩ := hI.clientSend hop
  refine ⟨_, heq, hI.requests.put hheld hlt (heff.holder.trans hholder)
    (heff.current.trans hcurrent) ?_ hinv, hI.replies,
    hI.serving.mono heff.sent List.prefix_rfl, hI.written, hC⟩
  rw [heff.done, hfinished, List.append_nil]

theorem Inv.endRequest {t : κ} (hop : s.Allowed handlers (.endRequest t)) :
    ∃ s', s.step handlers (.endRequest t) = .ok s' ∧ s'.Inv handlers := by
  obtain ⟨sender', heq, hinv, heff, hC⟩ := hI.clientSend hop
  have hstep : s.step handlers (.endRequest t) = .ok
      { s with client := { s.client with sender := sender' }, calls := s.calls ++ s.calling.toList
               calling := none } := by
    simp only [step, heq, ok_bind, pure_eq_ok]
  refine ⟨_, hstep, hI.requests.endMessage hop.1 heff hinv, hI.replies,
    hI.serving.mono heff.sent ?_, hI.written, hC⟩
  cases s.calling with
  | none => simp
  | some call =>
    rw [Option.toList_some, numbered_concat]
    exact List.prefix_append ..

/-- Steps of the client that send and neither begin nor continue nor end a message. -/
theorem Inv.clientQuiet {op : SendOp ConnName κ} (hop : s.client.Allowed (.send op))
    (hholder : op.holder s.client.sender.holder = s.client.sender.holder)
    (hcurrent : op.current s.client.sender.world s.client.sender.current = s.client.sender.current)
    (hfinished : op.finished s.client.sender.current = []) :
    ∃ client', s.client.step (.send op) = .ok client' ∧
      Inv handlers { s with client := client' } := by
  obtain ⟨sender', heq, hinv, heff, hC⟩ := hI.clientSend hop
  refine ⟨_, heq, hI.requests.same hinv ?_ (heff.holder.trans hholder) (heff.current.trans hcurrent)
    rfl rfl, hI.replies, hI.serving.mono heff.sent List.prefix_rfl, hI.written, hC⟩
  change sender'.done = _
  rw [heff.done, hfinished, List.append_nil]

theorem Inv.clientRead (resps : List Nat) :
    ∃ s', s.step handlers (.clientRead resps) = .ok s' ∧ s'.Inv handlers := by
  obtain ⟨W', k, heq, -, hinv, hcontent⟩ := hI.requests.inv.readFd s.toClient resps
  have hstep : s.step handlers (.clientRead resps) = .ok
      { s with client := s.client.fill W' (s.toClient.take k) } := by
    simp only [step, Client.step, heq, ok_bind, pure_eq_ok]
  exact ⟨_, hstep, hI.requests.same hinv rfl rfl rfl rfl rfl, hI.replies, hI.serving,
    hI.written, hI.completing.fill hcontent (prefix_take_missing hI.completing.toClient k)
      hI.replies.sent_prefix⟩

theorem Inv.clientParse (buf buf' : List UInt8) :
    ∃ s', s.step handlers (.clientParse buf buf') = .ok s' ∧ s'.Inv handlers := by
  by_cases hr : FrameReady (s.client.world.content .in_)
  · -- the next reply is complete, and its Future still waits
    obtain ⟨r, rest, hget, hmem, hcontent⟩ := hI.completing.following.next hI.replies.lt hr
    obtain ⟨n, hn, hxid⟩ := hI.serving.answer_xid hmem
    have hcalls := hI.serving.packets_le
    have hfutures := hI.requests.futures
    have hle := hI.requests.le
    -- no earlier answer has this xid
    have hnot : Int64.ofNat n ∉ (s.answers.take s.client.log.length).map Reply.xid :=
      hxid ▸ hI.serving.not_answered (by omega) hget
    have hfu := hI.completing.pending n (by omega) hnot
    rw [← hxid] at hfu
    obtain ⟨W', heq, hinv, hin, hslice⟩ := hI.requests.inv.parse_found hcontent
      (hI.replies.lt r hmem) (hxid ▸ valSize_ofNat (by omega)) hfu buf buf'
    have hstep : s.step handlers (.clientParse buf buf') = .ok
        { s with client := s.client.complete W' ⟨n, r.xid⟩ r.errorCode } := by
      simp only [step, Client.step, heq, ok_bind, pure_eq_ok]
    exact ⟨_, hstep, hI.requests.same hinv rfl rfl rfl rfl rfl, hI.replies, hI.serving,
      hI.written, hI.completing.complete (by omega) hxid hget hcontent hin hslice⟩
  · -- the loop ends
    obtain ⟨heq, hinv⟩ := hI.requests.inv.parse_not_ready hr buf buf'
    have hstep : s.step handlers (.clientParse buf buf') = .ok
        { s with client := { s.client with parsing := false } } := by
      simp only [step, Client.step, heq, ok_bind, pure_eq_ok]
    exact ⟨_, hstep, hI.requests.same hinv rfl rfl rfl rfl rfl, hI.replies, hI.serving,
      hI.written, hI.completing.same rfl rfl rfl rfl rfl⟩

/-- Steps of the server that send and neither begin nor continue nor end a message. -/
theorem Inv.serverQuiet {op : SendOp ConnName (Option κ')}
    (hop : s.server.Allowed handlers (.send op))
    (hholder : op.holder s.server.sender.holder = s.server.sender.holder)
    (hcurrent : op.current s.server.sender.world s.server.sender.current =
      s.server.sender.current)
    (hfinished : op.finished s.server.sender.current = []) :
    ∃ server', s.server.step handlers (.send op) = .ok server' ∧
      Inv handlers { s with server := server' } := by
  obtain ⟨sender', heq, hinv, heff⟩ := hI.serverSend hop
  refine ⟨_, heq, hI.requests, hI.replies.same hinv ?_ (heff.holder.trans hholder)
    (heff.current.trans hcurrent), hI.serving.same rfl rfl (.refl _),
    hI.written, hI.completing.mono heff.sent List.prefix_rfl⟩
  change sender'.done = _
  rw [heff.done, hfinished, List.append_nil]

theorem Inv.serverRead {resps : List Nat} (hop : s.Allowed handlers (.serverRead resps)) :
    ∃ s', s.step handlers (.serverRead resps) = .ok s' ∧ s'.Inv handlers := by
  obtain ⟨W', k, heq, -, hinv, -⟩ := hI.replies.inv.readFd hop s.toServer resps
  have hstep : s.step handlers (.serverRead resps) = .ok
      { s with server := s.server.fill W' (s.toServer.take k) } := by
    simp only [step, ServerTcpConnection.step, heq, ok_bind, pure_eq_ok]
  refine ⟨_, hstep, hI.requests, hI.replies.same hinv rfl rfl rfl,
    ⟨prefix_take_missing hI.serving.toServer k, hI.serving.packets, ?_⟩, hI.written, hI.completing⟩
  have hwaiting : (s.server.fill W' (s.toServer.take k)).io.waiting = s.server.io.waiting := by
    rw [show s.server.io = .idle from hop]
    simp only [ServerTcpConnection.fill]
    split <;> rfl
  have htickets := hI.serving.tickets
  simp only [tickets, hwaiting] at htickets ⊢
  exact htickets

theorem Inv.serverParse {buf : List UInt8} (hop : s.Allowed handlers (.serverParse buf)) :
    ∃ s', s.step handlers (.serverParse buf) = .ok s' ∧ s'.Inv handlers := by
  obtain ⟨reqs, hio⟩ := hop
  by_cases hr : FrameReady (s.server.world.content .in_)
  · -- the next call is complete
    obtain ⟨call, rest, hcall, hcontent, hlt⟩ := hI.serving.next_packet hI.replies.inv
      hI.requests.sent_prefix hI.requests.lt hr
    have hn : s.server.packets.length < 2 ^ 48 := by
      have := (List.getElem?_eq_some_iff.mp hcall).1
      have := hI.requests.futures
      have := hI.requests.le
      omega
    have hwf := call.wellFormed _ hlt
    obtain ⟨W', heq, hcut⟩ := hI.replies.inv.parse_ready hio hcontent hwf hr buf
    rw [call.xidOf_bytes _ (valSize_ofNat hn)] at heq
    have hstep : s.step handlers (.serverParse buf) = .ok
        { s with server := s.server.cutOff reqs W' (Int64.ofNat s.server.packets.length)
                   (call.bytes (Int64.ofNat s.server.packets.length)) } := by
      simp only [step, ServerTcpConnection.step, heq, ok_bind, pure_eq_ok]
    exact ⟨_, hstep, hI.requests,
      hI.replies.same (hI.replies.inv.cutOff hio hcontent hwf hcut _) rfl rfl rfl,
      hI.serving.cutOff hio hcall W', hI.written, hI.completing⟩
  · -- the loop ends
    obtain ⟨heq, hinv⟩ := hI.replies.inv.parse_not_ready hio hr buf
    have hstep : s.step handlers (.serverParse buf) = .ok
        { s with server := { s.server with io := .dispatching reqs } } := by
      simp only [step, ServerTcpConnection.step, heq, ok_bind, pure_eq_ok]
    refine ⟨_, hstep, hI.requests, hI.replies.same hinv rfl rfl rfl, hI.serving.same rfl rfl ?_,
      hI.written, hI.completing⟩
    simp only [tickets, hio, Io.waiting, List.Perm.refl]

/-- A request that has a handler is with it from now on. -/
theorem Inv.handed {req : Request} {reqs : List Request}
    (hio : s.server.io = .dispatching (req :: reqs)) {sender' : Sender ConnName (Option κ')}
    {outcome : Outcome η} (hs : ServerTcpConnection.Serves s.server req sender' [])
    (hinv : ServerTcpConnection.Inv handlers
      ({ s.server with sender := sender' }.served reqs outcome))
    (hrefusal : outcome.refusal = none) :
    Inv handlers { s with server := { s.server with sender := sender' }.served reqs outcome
                          owed := s.owed ++ [req] } := by
  refine ⟨hI.requests, ?_, hI.serving.same rfl rfl ?_, ?_,
    hI.completing.mono (by rw [← hs.sent_eq]; rfl) List.prefix_rfl⟩
  · have hR := hI.replies.served hinv hs rfl (List.forall_mem_nil _)
    rwa [List.append_nil] at hR
  · simp [tickets, hio, ServerTcpConnection.served, Io.waiting]
  · have hW := hI.written.served outcome
    rwa [hrefusal, Option.toList_none, List.append_nil] at hW

/-- A request that has none is answered by `handle_read`. -/
theorem Inv.refused {req : Request} {reqs : List Request}
    (hio : s.server.io = .dispatching (req :: reqs)) {sender' : Sender ConnName (Option κ')}
    {outcome : Outcome η} {errorCode : Int32}
    (hs : ServerTcpConnection.Serves s.server req sender'
      [(none, Reply.bytes ⟨req.xid, errorCode, []⟩)])
    (hinv : ServerTcpConnection.Inv handlers
      ({ s.server with sender := sender' }.served reqs outcome))
    (hrefusal : outcome.refusal = some ⟨req.xid, errorCode, []⟩) :
    Inv handlers { s with server := { s.server with sender := sender' }.served reqs outcome
                          answers := s.answers ++ outcome.refusal.toList } := by
  refine ⟨hI.requests, ?_, hI.serving.same rfl rfl ?_, hI.written.served outcome,
    hI.completing.mono (by rw [← hs.sent_eq]; rfl) (List.prefix_append ..)⟩
  · -- the reply is written at once
    rw [hrefusal]
    exact hI.replies.served hinv hs rfl (by simp)
  · -- the ticket moves from the waiting ones to the answered ones
    rw [hrefusal]
    simp only [tickets, hio, ServerTcpConnection.served, Io.waiting, List.map_append,
      Option.toList_some, List.map_cons, List.map_nil, List.append_assoc]
    refine List.Perm.append_left _ ?_
    rw [← List.append_assoc (s.answering.toList.map Reply.xid),
      ← List.append_assoc (s.answering.toList.map Reply.xid), List.singleton_append]
    exact List.perm_middle.symm

/-- One round of the second loop: the request goes to its handler, or is refused. -/
theorem Inv.serverDispatch {buf buf' : List UInt8}
    (hop : s.Allowed handlers (.serverDispatch buf buf')) :
    ∃ s', s.step handlers (.serverDispatch buf buf') = .ok s' ∧ s'.Inv handlers := by
  obtain ⟨reqs, hio, hlock⟩ := hop
  cases reqs with
  | nil =>
    -- the loop ends
    have heq : s.server.dispatch handlers buf buf' = .ok { s.server with io := .idle } := by
      simp only [ServerTcpConnection.dispatch, hio, pure_eq_ok]
    have hstep : s.step handlers (.serverDispatch buf buf') = .ok
        { s with server := { s.server with io := .idle } } := by
      simp only [step, ServerTcpConnection.step, heq, ok_bind, pure_eq_ok, dispatched, hio]
    refine ⟨_, hstep, hI.requests, hI.replies.same (hI.replies.inv.idle hio) rfl rfl rfl,
      hI.serving.same rfl rfl ?_, hI.written, hI.completing⟩
    simp only [tickets, hio, Io.waiting, List.Perm.refl]
  | cons req reqs =>
    obtain ⟨old, packet, new, hpackets, hout, hargs, hnew⟩ := hI.replies.inv.first_packet hio
    obtain ⟨sender', heq, hs⟩ := ServerTcpConnection.dispatch_serves hI.replies.inv.sender hio
      (hlock req rfl) hargs buf buf'
    have hinv := hI.replies.inv.served hio hpackets hout hnew hs
    -- the outcome of the round is the one of the first packet
    have hstep : s.step handlers (.serverDispatch buf buf') = .ok
        (s.settle ({ s.server with sender := sender' }.served reqs
          (ServerTcpConnection.outcomeOf handlers req.xid packet)) req
          (ServerTcpConnection.outcomeOf handlers req.xid packet)) := by
      simp only [System.step, ServerTcpConnection.step, heq, ok_bind, pure_eq_ok]
      rw [dispatched_settle hio (List.getLast?_concat ..)]
    refine ⟨_, hstep, ?_⟩
    have hxid := ServerTcpConnection.outcomeOf_xid handlers req.xid packet
    cases houtcome : ServerTcpConnection.outcomeOf handlers req.xid packet with
    | handed handler xid rpcId args =>
      -- the request is handed to its handler
      rw [houtcome] at hs hinv
      exact hI.handed hio hs hinv rfl
    | einval xid =>
      -- no rpc id in it
      rw [houtcome] at hs hinv hxid
      obtain rfl : xid = req.xid := hxid
      exact hI.refused hio (by rw [Reply.bytes, List.append_nil]; exact hs) hinv rfl
    | enoent xid =>
      -- nobody is registered
      rw [houtcome] at hs hinv hxid
      obtain rfl : xid = req.xid := hxid
      exact hI.refused hio (by rw [Reply.bytes, List.append_nil]; exact hs) hinv rfl

theorem Inv.beginReply {t : κ'} {req : Request} {errorCode : Int32} {buf buf' : List UInt8}
    (hop : s.Allowed handlers (.beginReply t req errorCode buf buf')) :
    ∃ s', s.step handlers (.beginReply t req errorCode buf buf') = .ok s' ∧ s'.Inv handlers := by
  obtain ⟨howed, hsend⟩ := hop
  obtain ⟨sender', heq, hinv, heff⟩ := hI.serverSend hsend
  have hstep : s.step handlers (.beginReply t req errorCode buf buf') = .ok
      { s with server := { s.server with sender := sender' }, owed := s.owed.erase req
               answering := some ⟨req.xid, errorCode, []⟩ } := by
    simp only [step, heq, ok_bind, pure_eq_ok]
  refine ⟨_, hstep, hI.requests, hI.replies.begin heff hinv, hI.serving.same rfl rfl ?_,
    hI.written, hI.completing.mono heff.sent List.prefix_rfl⟩
  -- the ticket moves from the handler to the reply it begins
  have hfree : s.server.sender.holder = none := hsend.1
  have herase := (List.perm_cons_erase howed).map Request.xid
  simp only [tickets, hI.replies.free hfree, List.append_assoc]
  refine List.Perm.append_left _ ?_
  simpa using (herase.symm.append_right (s.server.io.waiting.map Request.xid))

/-- Steps of the server that continue a message. -/
theorem Inv.serverPut {op : SendOp ConnName (Option κ')}
    (hop : s.server.Allowed handlers (.send op)) {t : κ'}
    (hheld : s.server.sender.holder = some (some t)) {bytes : List UInt8}
    (hlt : (s.server.sender.current ++ bytes).length < 2 ^ 31)
    (hholder : op.holder s.server.sender.holder = s.server.sender.holder)
    (hcurrent : op.current s.server.sender.world s.server.sender.current =
      s.server.sender.current ++ bytes)
    (hfinished : op.finished s.server.sender.current = []) :
    ∃ server', s.server.step handlers (.send op) = .ok server' ∧
      Inv handlers { s with server := server', answering := s.answering.map (·.more bytes) } := by
  obtain ⟨sender', heq, hinv, heff⟩ := hI.serverSend hop
  refine ⟨_, heq, hI.requests, hI.replies.put hheld hlt (heff.holder.trans hholder)
    (heff.current.trans hcurrent) ?_ hinv, hI.serving.same rfl rfl ?_,
    hI.written, hI.completing.mono heff.sent List.prefix_rfl⟩
  · rw [heff.done, hfinished, List.append_nil]
  · cases s.answering <;> exact .refl _

theorem Inv.endReply {t : κ'} (hop : s.Allowed handlers (.endReply t)) :
    ∃ s', s.step handlers (.endReply t) = .ok s' ∧ s'.Inv handlers := by
  obtain ⟨sender', heq, hinv, heff⟩ := hI.serverSend hop
  have hstep : s.step handlers (.endReply t) = .ok
      { s with server := { s.server with sender := sender' }
               answers := s.answers ++ s.answering.toList, answering := none
               replied := s.replied ++ s.answering.toList } := by
    simp only [step, heq, ok_bind, pure_eq_ok]
  refine ⟨_, hstep, hI.requests, hI.replies.endMessage hop.1 heff hinv, hI.serving.same rfl rfl ?_,
    hI.written.endMessage _, hI.completing.mono heff.sent (List.prefix_append ..)⟩
  simp only [tickets, List.map_append, Option.toList_none, List.map_nil, List.append_nil]
  exact .refl _

/-- **One step** of a connection returns and keeps the invariant. -/
theorem Inv.step {op : SystemOp κ κ'} (hop : s.Allowed handlers op) :
    ∃ s', s.step handlers op = .ok s' ∧ s'.Inv handlers := by
  cases op with
  | beginRequest t buf rpcId => exact hI.beginRequest hop
  | putArg t v =>
    -- what is written behind a request leaves the rest alone
    obtain ⟨client', heq, hinv⟩ := hI.clientPut hop.1 hop.1.1 hop.2 rfl rfl rfl
    exact ⟨_, by simp only [System.step, heq, ok_bind, pure_eq_ok], hinv⟩
  | putArgMarshal t j =>
    obtain ⟨client', heq, hinv⟩ := hI.clientPut hop.1 hop.1.1.1 hop.2 rfl rfl rfl
    exact ⟨_, by simp only [System.step, heq, ok_bind, pure_eq_ok], hinv⟩
  | endRequest t => exact hI.endRequest hop
  | clientWrite resps =>
    obtain ⟨client', heq, hinv⟩ := hI.clientQuiet hop rfl rfl rfl
    exact ⟨_, by simp only [System.step, heq, ok_bind, pure_eq_ok], hinv⟩
  | clientRead resps => exact hI.clientRead resps
  | clientParse buf buf' => exact hI.clientParse buf buf'
  | clientOwn op =>
    -- the own steps of a client are quiet
    obtain ⟨client', heq, hinv⟩ := hI.clientQuiet hop rfl rfl rfl
    exact ⟨_, by simp only [System.step, heq, ok_bind, pure_eq_ok], hinv⟩
  | serverRead resps => exact hI.serverRead hop
  | serverParse buf => exact hI.serverParse hop
  | serverDispatch buf buf' => exact hI.serverDispatch hop
  | beginReply t req errorCode buf buf' => exact hI.beginReply hop
  | putRet t v =>
    obtain ⟨server', heq, hinv⟩ := hI.serverPut hop.1 hop.1.1 hop.2 rfl rfl rfl
    exact ⟨_, by simp only [System.step, heq, ok_bind, pure_eq_ok], hinv⟩
  | putRetMarshal t j =>
    obtain ⟨server', heq, hinv⟩ := hI.serverPut hop.1 hop.1.1.1 hop.2 rfl rfl rfl
    exact ⟨_, by simp only [System.step, heq, ok_bind, pure_eq_ok], hinv⟩
  | endReply t => exact hI.endReply hop
  | serverWrite resps =>
    obtain ⟨server', heq, hinv⟩ := hI.serverQuiet hop rfl rfl rfl
    exact ⟨_, by simp only [System.step, heq, ok_bind, pure_eq_ok], hinv⟩
  | serverOwn op =>
    obtain ⟨server', heq, hinv⟩ := hI.serverQuiet hop rfl rfl rfl
    exact ⟨_, by simp only [System.step, heq, ok_bind, pure_eq_ok], hinv⟩

end Steps

/-! ## Whole runs -/

/-- The replies that completed a Future, in order. -/
def completions (s : System κ κ' η) : List Completion := s.client.log.filterMap id

/-- `c` is what the server wrote for `call`, the request that its Future was made for. -/
structure Matches (handlers : Int32 → Option η) (s : System κ κ' η) (c : Completion)
    (call : Call) : Prop where
  /-- `call` is the only request with this `xid` -/
  request : ∃ n, s.calls[n]? = some call ∧ c.fu = ⟨n, Int64.ofNat n⟩ ∧
    (∀ m < s.calls.length, Int64.ofNat m = c.fu.xid → m = n) ∧
    -- it was dispatched as it was written
    s.server.outcomes[n]? = some (call.outcome c.fu.xid handlers)
  /-- the reply is the only one with this `xid` -/
  reply : (⟨c.fu.xid, c.errorCode, c.bytes⟩ : Reply) ∈ s.answers ∧
    ∀ r ∈ s.answers, r.xid = c.fu.xid → r = ⟨c.fu.xid, c.errorCode, c.bytes⟩
  /-- if the request has a handler, it is the handler's reply -/
  handler : handlers call.rpcId ≠ none →
    (⟨c.fu.xid, c.errorCode, c.bytes⟩ : Reply) ∈ s.replied
  /-- if it has none, it is a refusal -/
  refusal : handlers call.rpcId = none → c.errorCode = ENOENT ∧ c.bytes = []

/-- What is asked of a connection in a state. -/
structure Reliable (handlers : Int32 → Option η) (s : System κ κ' η) : Prop where
  returns : ∀ op, s.Allowed handlers op → ∃ s', s.step handlers op = .ok s'
  matched : ∀ c ∈ s.completions, ∃ call, s.Matches handlers c call
  once : (s.completions.map Completion.fu).Nodup

section Runs

variable {handlers : Int32 → Option η} {s : System κ κ' η} (hI : s.Inv handlers)

include hI

theorem Inv.calls_le : s.calls.length ≤ 2 ^ 48 := by
  have := hI.requests.futures
  have := hI.requests.le
  omega

/-- Only answers complete Futures. -/
theorem Inv.completions_eq : s.completions =
    (s.answers.take s.client.log.length).map fun r =>
      ⟨⟨r.xid.toInt.toNat, r.xid⟩, r.errorCode, r.payload⟩ := by
  calc s.completions
      = ((s.answers.take s.client.log.length).map delivered).filterMap id :=
        congrArg (List.filterMap id) hI.completing.log
    _ = _ := by
        rw [List.filterMap_map]
        exact congrFun List.filterMap_eq_map _

/-- Requests are dispatched as they were written. -/
theorem Inv.outcome_eq {n : Nat} {outcome : Outcome η}
    (hout : s.server.outcomes[n]? = some outcome) :
    ∃ call, s.calls[n]? = some call ∧ outcome = call.outcome (Int64.ofNat n) handlers := by
  obtain ⟨old, new, hpackets, hold, -⟩ := hI.replies.inv.progress
  rw [hold, List.getElem?_map] at hout
  obtain ⟨pk, hpk, rfl⟩ := Option.map_eq_some_iff.mp hout
  obtain ⟨more, hmore⟩ := hI.serving.packets
  have hget : (numbered s.calls)[n]? = some pk := by
    have hlt := (List.getElem?_eq_some_iff.mp hpk).1
    rw [← hmore, hpackets, List.append_assoc, List.getElem?_append_left hlt, hpk]
  rw [numbered_getElem?] at hget
  obtain ⟨call, hcall, rfl⟩ := Option.map_eq_some_iff.mp hget
  exact ⟨call, hcall, call.outcomeOf_bytes _ handlers⟩

/-- A request that was answered was dispatched. -/
theorem Inv.answered_dispatched {r : Reply} (hr : r ∈ s.answers) {n : Nat}
    (hn : n < s.server.packets.length) (hxid : r.xid = Int64.ofNat n) :
    n < s.server.outcomes.length := by
  obtain ⟨old, new, hpackets, hold, hnew⟩ := hI.replies.inv.progress
  by_contra hge
  rw [hold, List.length_map, Nat.not_lt] at hge
  -- it would still wait, but nobody answers a request that waits
  obtain ⟨more, hmore⟩ := hI.serving.packets
  have hget : new[n - old.length]?.map Prod.fst = some (Int64.ofNat n) := by
    have hlt : n < s.calls.length := by
      have := hI.serving.packets_le
      omega
    have hget := numbered_getElem? s.calls n
    rw [← hmore, List.getElem?_append_left hn, hpackets, List.getElem?_append_right hge,
      List.getElem?_eq_getElem hlt] at hget
    rw [hget]
    rfl
  have hwaiting : s.server.io.waiting.map Request.xid = new.map Prod.fst := by
    have := congrArg (List.map Prod.fst) hnew
    simpa [ServerTcpConnection.view, Function.comp_def] using this
  have hmem : r.xid ∈ s.server.io.waiting.map Request.xid := by
    rw [hwaiting, hxid]
    rw [← List.getElem?_map] at hget
    exact List.mem_of_getElem? hget
  have hnodup := hI.serving.nodup hI.calls_le
  rw [tickets, List.append_assoc, List.append_assoc, List.nodup_append] at hnodup
  exact hnodup.2.2 _ (List.mem_map_of_mem hr) _
    (List.mem_append_right _ (List.mem_append_right _ hmem)) rfl

/-- There is one answer to a request. -/
theorem Inv.answer_unique {r r' : Reply} (hr : r ∈ s.answers) (hr' : r' ∈ s.answers)
    (hxid : r.xid = r'.xid) : r = r' :=
  List.inj_on_of_nodup_map (hI.serving.nodup_answers hI.calls_le) hr hr' hxid

/-- A request without a handler is refused, and no other. -/
theorem Inv.refused_iff {r : Reply} (hr : r ∈ s.answers) {n : Nat} (hn : n < s.calls.length)
    (hxid : r.xid = Int64.ofNat n) {call : Call} (hcall : s.calls[n]? = some call)
    (hout : s.server.outcomes[n]? = some (call.outcome (Int64.ofNat n) handlers)) :
    (handlers call.rpcId ≠ none → r ∈ s.replied) ∧
      (handlers call.rpcId = none → r = ⟨r.xid, ENOENT, []⟩) := by
  have hle := hI.calls_le
  refine ⟨fun hhandler => (hI.written.author r hr).resolve_right ?_, fun hhandler => ?_⟩
  · -- a refused call has no handler, and its xid is its own
    rintro ⟨outcome, ho, hrefusal⟩
    obtain ⟨m, hm⟩ := List.mem_iff_getElem?.mp ho
    obtain ⟨call', hcall', rfl⟩ := hI.outcome_eq hm
    have hm : m < s.calls.length := (List.getElem?_eq_some_iff.mp hcall').1
    cases hhandler' : handlers call'.rpcId with
    | some handler => simp [Call.outcome, hhandler', Outcome.refusal] at hrefusal
    | none =>
      obtain rfl : r = ⟨Int64.ofNat m, ENOENT, []⟩ := by
        simpa [Call.outcome, hhandler', Outcome.refusal] using hrefusal.symm
      obtain rfl : m = n := ofNat_inj_int64 (by omega) (by omega) hxid
      obtain rfl : call' = call := Option.some.inj (hcall'.symm.trans hcall)
      exact hhandler hhandler'
  · -- such a call is refused, and answered once
    have hrefusal : (call.outcome (Int64.ofNat n) handlers).refusal =
        some ⟨r.xid, ENOENT, []⟩ := by
      simp [Call.outcome, hhandler, Outcome.refusal, hxid]
    exact hI.answer_unique hr
      (hI.written.refusal _ (List.mem_of_getElem? hout) _ hrefusal) rfl

/-- A Future that was completed has its own reply. -/
theorem Inv.matched {c : Completion} (hc : c ∈ s.completions) :
    ∃ call, s.Matches handlers c call := by
  -- the log has the answers in order
  rw [hI.completions_eq] at hc
  obtain ⟨r, hr, rfl⟩ := List.mem_map.mp hc
  have hr := List.mem_of_mem_take hr
  -- the answer belongs to a call, which was dispatched
  obtain ⟨n, hn, hxid⟩ := hI.serving.answer_xid hr
  have hout := List.getElem?_eq_getElem (hI.answered_dispatched hr hn hxid)
  obtain ⟨call, hcall, houtcome⟩ := hI.outcome_eq hout
  rw [houtcome] at hout
  have hle := hI.calls_le
  have hlt : n < s.calls.length := (List.getElem?_eq_some_iff.mp hcall).1
  obtain ⟨hhandler, hrefusal⟩ := hI.refused_iff hr hlt hxid hcall hout
  refine ⟨call, ⟨n, hcall, ?_, fun m hm heq => ?_, hxid ▸ hout⟩,
    ⟨hr, fun r' hr' heq => hI.answer_unique hr' hr heq⟩, hhandler, fun hnone => ?_⟩
  · -- the number of the Future
    rw [hxid, toInt_ofNat_int64 (by omega), Int.toNat_natCast]
  · -- no other call has this xid
    exact ofNat_inj_int64 (by omega) (by omega) (heq.trans hxid)
  · -- without a handler the reply is ENOENT
    have heq := hrefusal hnone
    exact ⟨congrArg Reply.errorCode heq, congrArg Reply.payload heq⟩

theorem Inv.once : (s.completions.map Completion.fu).Nodup := by
  have hnodup := hI.serving.nodup_answers hI.calls_le
  have htake : ((s.answers.take s.client.log.length).map Reply.xid).Nodup :=
    hnodup.sublist ((List.take_sublist ..).map _)
  refine List.Nodup.of_map Future.xid ?_
  rw [hI.completions_eq, List.map_map, List.map_map]
  exact htake

end Runs

/-- **Replies reach their callers**: in every run of a client and a server, a Future is completed
    with what the server wrote for the one request that has its `xid`, which was dispatched as it
    was written, and no Future is completed twice. -/
theorem replies_reach_their_callers (handlers : Int32 → Option η) (h h' : Heap)
    (ops : List (SystemOp κ κ')) (s : System κ κ' η)
    (hrun : Steps (Next handlers) (init h h') ops s) : s.Reliable handlers := by
  have hI : s.Inv handlers := by
    refine Steps.invariant (P := Inv handlers) ?_ hrun (inv_init handlers h h')
    rintro s op s' hI ⟨hop, hstep⟩
    obtain ⟨s'', heq, hinv⟩ := hI.step hop
    obtain rfl : s'' = s' := by simpa using heq.symm.trans hstep
    exact hinv
  refine ⟨fun op hop => ?_, fun c hc => hI.matched hc, hI.once⟩
  obtain ⟨s', heq, -⟩ := hI.step hop
  exact ⟨s', heq⟩

/-! ## One call -/

/-- Checks a step of a connection with one thread on each side. -/
def ready (s : System Unit Unit η) : SystemOp Unit Unit → Bool
  | .beginRequest _ _ _ => s.client.sender.holder = none ∧ s.calls.length < 2 ^ 48
  | .putArg t v => s.client.sender.holder = some t ∧
      (s.client.sender.current ++ v.bytes).length < 2 ^ 31
  | .endRequest t => s.client.sender.holder = some t
  | .clientWrite _ => s.client.sender.holder = none
  | .clientRead _ => s.client.parsing = false
  | .clientParse _ _ => s.client.parsing = true
  | .serverRead _ => (s.server.io matches .idle)
  | .serverParse _ => (s.server.io matches .parsing _)
  | .serverDispatch _ _ => (s.server.io matches .dispatching _) ∧ s.server.sender.holder = none
  | .beginReply _ req _ _ _ => req ∈ s.owed ∧ s.server.sender.holder = none
  | .putRet t v => s.server.sender.holder = some (some t) ∧
      (s.server.sender.current ++ v.bytes).length < 2 ^ 31
  | .endReply t => s.server.sender.holder = some (some t)
  | .serverWrite _ => s.server.sender.holder = none
  | _ => false

theorem allowed_of_ready (handlers : Int32 → Option η) {s : System Unit Unit η}
    {op : SystemOp Unit Unit} (hop : s.ready op = true) : s.Allowed handlers op := by
  cases op with
  | serverRead _ | serverParse _ =>
    cases hio : s.server.io <;> simp_all [ready, Allowed, ServerTcpConnection.Allowed]
  | serverDispatch _ _ =>
    cases hio : s.server.io <;> simp_all [ready, Allowed, ServerTcpConnection.Allowed]
  | _ =>
    simp_all [ready, Allowed, Client.Allowed, ServerTcpConnection.Allowed, Sender.Allowed,
      SendOp.names, SendOp.holder]

/-- A request and its reply. -/
def oneCall : List (SystemOp Unit Unit) :=
  [.beginRequest () [] 7, .putArg () (.raw [1, 2, 3]), .endRequest (), .clientWrite [20],
    .serverRead [20], .serverParse [], .serverParse [], .serverDispatch [] [],
    .beginReply () ⟨0, 0⟩ 5 [] [], .putRet () (.raw [8, 9]), .endReply (), .serverWrite [20],
    .clientRead [20], .clientParse [] []]

/-- The Future of one call has got error code 5 and two bytes from its handler. -/
theorem replies_reach_their_callers_one_call :
    ∃ s : System Unit Unit Unit, Steps (Next handleSeven) (init .empty .empty) oneCall s ∧
      (s.completions.map fun c => (c.fu.xid, c.errorCode, c.bytes)) = [(0, 5, [8, 9])] ∧
      s.Reliable handleSeven := by
  obtain ⟨s, hrun, hs⟩ : ∃ s : System Unit Unit Unit,
      Steps (Next handleSeven) (init .empty .empty) oneCall s ∧
      (s.completions.map fun c => (c.fu.xid, c.errorCode, c.bytes)) = [(0, 5, [8, 9])] := by
    apply Steps.reach_of_checked ready (System.step handleSeven)
    · exact fun s op s' hready hstep => ⟨allowed_of_ready _ hready, hstep⟩
    · decide +kernel
  exact ⟨s, hrun, hs, replies_reach_their_callers _ _ _ _ _ hrun⟩

end System

end SimpleRpc.Rpc
