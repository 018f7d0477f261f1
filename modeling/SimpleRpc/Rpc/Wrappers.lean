import SimpleRpc.Gen.Service
import SimpleRpc.Rpc.ServerConnection
import SimpleRpc.Rpc.WireTypes
import Mathlib.Algebra.Order.BigOperators.Group.Finset
import Mathlib.Order.RelClasses

/-!
# Generated Wrappers

`ServerTcpConnection::handle_read` hands a Request and a reference to the connection to the
handler of its `rpc_id`, a wrapper that `emit_service_and_proxy` has printed. A `fast` wrapper runs
in the poll thread, the one of a `defer` function runs there until its function returns, and
replies when somebody calls `DeferredReply::reply`, and all others are jobs of the `ThreadPool`.

## Layers

- **Generator**: `emitWrapper`, the statements of a wrapper, and `startsIn`, where they run
- **Code**: the rounds of `handle_read`, and `Serving.step`, their execution
- **System**: `Serving.Guard`, any interleaving of the poll thread, the workers and the callers of
  `DeferredReply::reply`
- **Invariant**: `Serving.Inv`, with an `Account` for each request

## Main results

- `emitWrapper_eq`: a wrapper has the same statements wherever it runs
- `Inv.settle`: a request that is dispatched has an account, whoever answers it

## Model

The request cut off as the `k`-th is named `k`. `ThreadPool::run_async` accepts every job, because
the pool is not stopped before the connections of its server are gone; any worker may take any
job that waits, and a worker that runs the jobs of other connections just takes none. The objects
that hold arguments and results belong to one wrapper, so that their deletion is left out.
-/

namespace SimpleRpc.Rpc

open SimpleRpc.Lib SimpleRpc.Base

/-! ## The generator -/

/-- A function of a service that is neither `raw` nor `udp`. -/
structure TcpFunc where
  attrs : List Gen.Attr
  input : Fields
  output : Fields
  not_raw : .raw ∉ attrs
  not_udp : .udp ∉ attrs

/-- A statement of a wrapper. -/
inductive Stmt where
  /-- `req->m >> in_0; req->m >> in_1; ..` -/
  | readArgs
  /-- `this->f(in_0, .., &out_0, ..);` -/
  | call
  /-- `sconn->begin_reply(req);` -/
  | beginReply
  /-- `*sconn << out_0; *sconn << out_1; ..` -/
  | writeRets
  /-- `sconn->end_reply();` -/
  | endReply
  /-- `delete req;` -/
  | deleteReq
  /-- `sconn->release();` -/
  | release
  deriving DecidableEq

/-- What `emit_service_and_proxy` prints for the wrapper of a function. -/
def emitWrapper (attrs : List Gen.Attr) : List Stmt :=
  if .defer ∈ attrs then
    -- the wrapper, then `DeferredReply::reply` and `~DeferredReply`
    [.readArgs, .call] ++ [.beginReply, .writeRets, .endReply] ++ [.deleteReq, .release]
  else
    [.readArgs, .call] ++
      (if .udp ∈ attrs then [] else [.beginReply, .writeRets, .endReply]) ++
      [.deleteReq, .release]

/-- Where the next statement of a wrapper runs; the workers are named by `ω`. -/
inductive Place (ω : Type) where
  /-- a job of the thread pool that no worker has taken -/
  | queued
  /-- in the poll thread, inside `handle_read` -/
  | poll
  | worker (w : ω)
  /-- in whatever thread calls `DeferredReply::reply`; or all of them were executed -/
  | free
  deriving DecidableEq

/-- `sconn->run_async(f);` unless the wrapper is printed without the lambda -/
def startsIn {ω : Type} (attrs : List Gen.Attr) : Place ω :=
  if .defer ∈ attrs then .poll
  else if .fast ∈ attrs then .poll
  else .queued

/-- `*sconn << out_0; *sconn << out_1; ..` -/
def Fields.value (fs : Fields) (x : fs.Obj) : Value := ⟨fs.put x, fs.enc x, fs.puts_put x⟩

/-! ## The state -/

/-- A wrapper that was called. -/
structure Task (ω : Type) where
  func : TcpFunc
  /-- `req->xid` -/
  xid : Int64
  place : Place ω
  /-- the results, once the function has set them -/
  out : Value
  /-- the statements that were not executed yet -/
  body : List Stmt

/-- What was done with a Request. -/
structure Tally where
  deletes : Nat
  /-- `ref_copy()` of the connection -/
  takes : Nat
  releases : Nat

/-- A connection with its wrappers. -/
structure Serving (ω : Type) where
  conn : ServerTcpConnection Nat TcpFunc
  tasks : Nat → Option (Task ω)
  /-- ghost: the replies, each with its request -/
  answers : List (Nat × List UInt8)
  /-- ghost -/
  tally : Nat → Tally

/-- One step of one thread. -/
inductive ServeOp (ω : Type) where
  /-- a round of `handle_read`, or `handle_write` -/
  | poll (op : ServerTcpConnection.Op Nat)
  /-- a worker takes a job -/
  | take (w : ω) (k : Nat)
  | readArgs (k : Nat) (bufs : Nat → List UInt8)
  /-- the function sets its results, and returns or calls `DeferredReply::reply` -/
  | call (k : Nat) (out : Value)
  | beginReply (k : Nat) (buf buf' : List UInt8)
  | writeRets (k : Nat)
  | endReply (k : Nat)
  | deleteReq (k : Nat)
  | release (k : Nat)
  /-- the wrapper returns to the poll thread or to the worker -/
  | leave (k : Nat)

namespace Serving

variable {ω : Type}

def init (h : Heap) : Serving ω := ⟨.init h, fun _ => none, [], fun _ => ⟨0, 0, 0⟩⟩

/-! ## The code -/

/-- Something was done with request `k`. -/
def count (s : Serving ω) (k : Nat) (f : Tally → Tally) : Serving ω :=
  { s with tally := Function.update s.tally k (f (s.tally k)) }

/-- What becomes of a request that `handle_read` has dispatched. -/
def settle (s : Serving ω) (conn : ServerTcpConnection Nat TcpFunc) (req : Request) :
    Outcome TcpFunc → Serving ω
  | .handed func _ _ _ =>
    -- `it->second(req, (ServerConnection *) this->ref_copy());`
    { s with conn := conn
             tasks := Function.update s.tasks req.m (some ⟨func, req.xid, startsIn func.attrs,
               Value.raw [], emitWrapper func.attrs⟩) }.count req.m
      fun tally => { tally with takes := tally.takes + 1 }
  | outcome =>
    -- `begin_reply(req, ..); end_reply(); delete req;`
    { s with conn := conn
             answers := s.answers ++ outcome.errorReply.toList.map fun bytes => (req.m, bytes)
             }.count req.m
      fun tally => { tally with deletes := tally.deletes + 1 }

/-- The poll thread has taken a step. -/
def polled (s : Serving ω) (op : ServerTcpConnection.Op Nat)
    (conn : ServerTcpConnection Nat TcpFunc) : Serving ω :=
  match op, s.conn.io, conn.outcomes.getLast? with
  | .dispatch _ _, .dispatching (req :: _), some outcome => s.settle conn req outcome
  | _, _, _ => { s with conn := conn }

/-- The wrapper of request `k` goes on. -/
def setTask (s : Serving ω) (k : Nat) (task : Task ω) : Serving ω :=
  { s with tasks := Function.update s.tasks k (some task) }

/-- The next statement of the wrapper was executed. -/
def next (s : Serving ω) (k : Nat) (task : Task ω) : Serving ω :=
  s.setTask k { task with body := task.body.tail }

/-- What each step does. -/
def step (handlers : Int32 → Option TcpFunc) (s : Serving ω) :
    ServeOp ω → Except Fault (Serving ω)
  | .poll op => do
    let conn ← s.conn.step handlers op
    pure (s.polled op conn)
  | .take w k => do
    let task ← deref (s.tasks k)
    pure (s.setTask k { task with place := .worker w })
  | .readArgs k bufs => do
    let task ← deref (s.tasks k)
    let (_, W) ← s.conn.world.run (.slice k) (task.func.input.get bufs)
    pure ({ s with conn := s.conn.withWorld W }.next k task)
  | .call k out => do
    let task ← deref (s.tasks k)
    pure (s.next k { task with out := out })
  | .beginReply k buf buf' => do
    let task ← deref (s.tasks k)
    let conn ← s.conn.step handlers (.send (.begin (some k) (.reply buf buf' task.xid 0)))
    pure ({ s with conn := conn }.next k task)
  | .writeRets k => do
    let task ← deref (s.tasks k)
    let conn ← s.conn.step handlers (.send (.put (some k) task.out))
    pure ({ s with conn := conn }.next k task)
  | .endReply k => do
    let task ← deref (s.tasks k)
    let conn ← s.conn.step handlers (.send (.endMessage (some k)))
    pure ({ s with conn := conn, answers := s.answers ++ [(k, s.conn.sender.current)] }.next k task)
  | .deleteReq k => do
    let task ← deref (s.tasks k)
    pure ((s.count k fun tally => { tally with deletes := tally.deletes + 1 }).next k task)
  | .release k => do
    let task ← deref (s.tasks k)
    pure ((s.count k fun tally => { tally with releases := tally.releases + 1 }).next k task)
  | .leave k => do
    let task ← deref (s.tasks k)
    pure (s.setTask k { task with place := .free })

/-! ## The system -/

/-- The next statement of the wrapper of request `k`, which is running. -/
def At (s : Serving ω) (k : Nat) (stmt : Stmt) : Prop :=
  ∃ task, s.tasks k = some task ∧ task.place ≠ .queued ∧ task.body.head? = some stmt

end Serving

/-- The steps of the poll thread outside of wrappers. -/
def ServerTcpConnection.Op.isPoll : ServerTcpConnection.Op Nat → Bool
  | .readFd _ _ | .parse _ | .dispatch _ _ | .send (.handleWrite _) => true
  | .send _ => false

/-- A wrapper returns when it is at its end; the one of a `defer` function also when its function
    has been called. -/
def Task.Leaves {ω : Type} (task : Task ω) : Prop :=
  (task.place = .poll ∨ ∃ w, task.place = .worker w) ∧
    (task.body = [] ∨ (.defer ∈ task.func.attrs ∧ task.body.head? ≠ some .readArgs))

namespace Serving

variable {ω : Type}

/-- When a step can be taken. -/
def Guard (handlers : Int32 → Option TcpFunc) (s : Serving ω) : ServeOp ω → Prop
  | .poll op => s.conn.Allowed handlers op ∧ op.isPoll = true ∧
      ∀ k task, s.tasks k = some task → task.place ≠ .poll
  | .take w k => (∃ task, s.tasks k = some task ∧ task.place = .queued) ∧
      ∀ k' task, s.tasks k' = some task → task.place ≠ .worker w
  | .readArgs k _ => s.At k .readArgs
  | .call k out => s.At k .call ∧
      ∀ task, s.tasks k = some task → ∃ x, out = task.func.output.value x
  | .beginReply k _ _ => s.At k .beginReply ∧ s.conn.sender.holder = none
  | .writeRets k => s.At k .writeRets
  | .endReply k => s.At k .endReply
  | .deleteReq k => s.At k .deleteReq
  | .release k => s.At k .release
  | .leave k => ∃ task, s.tasks k = some task ∧ task.Leaves

/-- What a stream of well-framed requests and their arguments grant: no packet is malformed, and
    arguments decode. -/
def Granted (s : Serving ω) : ServeOp ω → Prop
  | .poll (.parse _) => ¬ Malformed (s.conn.world.content .in_)
  | .readArgs k bufs => ∀ task, s.tasks k = some task →
      ∃ r, s.conn.world.run (.slice k) (task.func.input.get bufs) = .ok r
  | _ => True

/-- `handle_read` looks at the batch. -/
def Looks (s : Serving ω) : ServeOp ω → Prop
  | .poll (.readFd avail resps) => s.conn.Notices avail resps
  | _ => True

/-- A step that can be taken and satisfies `fit`. -/
def Next (handlers : Int32 → Option TcpFunc) (fit : Serving ω → ServeOp ω → Prop)
    (s : Serving ω) (op : ServeOp ω) (s' : Serving ω) : Prop :=
  s.Guard handlers op ∧ fit s op ∧ s.step handlers op = .ok s'

end Serving

/-! ## What requests deserve -/

/-- The error code of the reply. -/
def Outcome.code {η : Type} : Outcome η → Int32
  | .handed _ _ _ _ => 0
  | .einval _ => EINVAL
  | .enoent _ => ENOENT

/-- What the reply to a packet starts with. -/
def replyTo {η : Type} (handlers : Int32 → Option η) (xid : Int64) (packet : List UInt8) :
    List UInt8 :=
  SparseInt.encode64 xid ++
    SparseInt.encode32 (ServerTcpConnection.outcomeOf handlers xid packet).code

/-- The steps that the server takes by itself. -/
def ServeOp.isInternal {ω : Type} : ServeOp ω → Bool
  | .poll op => op.isRound
  | _ => true

/-- How much a wrapper has still to do. -/
def Task.weight {ω : Type} (task : Task ω) : Nat :=
  2 * task.body.length +
    match task.place with
    | .queued => 2
    | .poll | .worker _ => 1
    | .free => 0

namespace Serving

variable {ω : Type}

/-- How many replies to request `k` were appended to `out_`. -/
def repliesTo (s : Serving ω) (k : Nat) : Nat := (s.answers.map Prod.fst).count k

/-- `bytes` is a reply to request `k`. -/
def Answers (handlers : Int32 → Option TcpFunc) (s : Serving ω) (k : Nat) (bytes : List UInt8) :
    Prop :=
  ∃ xid packet, s.conn.packets[k]? = some (xid, packet) ∧ replyTo handlers xid packet <+: bytes

/-- The rounds that `handle_read` may still take, and the work of the wrappers. -/
def work (s : Serving ω) : Nat × Nat :=
  (s.conn.remaining, ∑ k ∈ Finset.range s.conn.requests, ((s.tasks k).map Task.weight).getD 0)

/-- `handle_read` has returned, and every wrapper is at its end. -/
def Quiescent (s : Serving ω) : Prop :=
  s.conn.io = .idle ∧ ∀ k task, s.tasks k = some task → task.body = [] ∧ task.place = .free

/-- What is asked of the server in a state. -/
structure OneReply (handlers : Int32 → Option TcpFunc) (fit : Serving ω → ServeOp ω → Prop)
    (s : Serving ω) : Prop where
  /-- nothing aborts -/
  returns : ∀ op, s.Guard handlers op → fit s op → ∃ s', s.step handlers op = .ok s'
  /-- as long as there is work, somebody can go on -/
  live : ¬ s.Quiescent → ∃ op, op.isInternal = true ∧ s.Guard handlers op
  /-- the work comes to an end -/
  ends : ∀ op s', s.Guard handlers op → fit s op → op.isInternal = true →
    s.step handlers op = .ok s' → Prod.Lex (· < ·) (· < ·) s'.work s.work
  /-- the packets, in order, are what was received, and what is left of it stays in `in_` -/
  stream : s.conn.received =
    (s.conn.packets.map Prod.snd).flatMap frame ++ s.conn.world.content .in_
  /-- the replies are what was appended to `out_` -/
  appended : s.conn.sender.done.map Prod.snd = s.answers.map Prod.snd
  /-- a reply carries the `xid` of its request and the right error code -/
  header : ∀ k bytes, (k, bytes) ∈ s.answers → s.Answers handlers k bytes
  atMost : ∀ k, s.repliesTo k ≤ 1 ∧ (s.tally k).deletes ≤ 1 ∧
    (s.tally k).releases ≤ (s.tally k).takes ∧ (s.tally k).takes ≤ 1
  /-- when the work is done, every request that has arrived is answered and disposed of -/
  exactly : s.Quiescent → ¬ FrameReady (s.conn.world.content .in_) ∧
    ∀ k < s.conn.packets.length, s.repliesTo k = 1 ∧ (s.tally k).deletes = 1 ∧
      (s.tally k).releases = (s.tally k).takes

/-! ## The invariant -/

/-- What was done for a request and what its wrapper will do are one reply, one `delete` and one
    `release`. -/
inductive Account : Option (Outcome TcpFunc) → Option (Task ω) → Nat → Tally → Prop
  | unseen : Account none none 0 ⟨0, 0, 0⟩
  | refused {outcome : Outcome TcpFunc} (herror : outcome.errorReply.isSome = true) :
      Account (some outcome) none 1 ⟨1, 0, 0⟩
  | handed {outcome : Outcome TcpFunc} {task : Task ω} {replies : Nat} {tally : Tally}
      (houtcome : ∃ rpcId args, outcome = .handed task.func task.xid rpcId args)
      (hbody : task.body <:+ emitWrapper task.func.attrs)
      (hqueued : task.place = .queued → task.body = emitWrapper task.func.attrs)
      (hreplies : replies + task.body.count .endReply = 1)
      (hdeletes : tally.deletes + task.body.count .deleteReq = 1) (htakes : tally.takes = 1)
      (hreleases : tally.releases + task.body.count .release = 1) :
      Account (some outcome) (some task) replies tally

end Serving

/-- The wrapper is between `begin_reply` and `end_reply`. -/
def Task.Replying {ω : Type} (task : Task ω) : Prop :=
  task.body.head? = some .writeRets ∨ task.body.head? = some .endReply

namespace Serving

variable {ω : Type}

structure Inv (handlers : Int32 → Option TcpFunc) (s : Serving ω) : Prop where
  conn : s.conn.Inv handlers
  requests : s.conn.requests = s.conn.packets.length
  numbers : s.conn.io.waiting.map Request.m =
    List.range' s.conn.outcomes.length s.conn.io.waiting.length
  accounts : ∀ k, Account s.conn.outcomes[k]? (s.tasks k) (s.repliesTo k) (s.tally k)
  lock : ∀ k, s.conn.sender.holder = some (some k) ↔
    ∃ task, s.tasks k = some task ∧ task.Replying
  appended : s.conn.sender.done.map Prod.snd = s.answers.map Prod.snd
  headers : ∀ k bytes, (k, bytes) ∈ s.answers → s.Answers handlers k bytes
  current : ∀ k, s.conn.sender.holder = some (some k) →
    s.Answers handlers k s.conn.sender.current

theorem inv_init (handlers : Int32 → Option TcpFunc) (h : Heap) :
    (init h : Serving ω).Inv handlers where
  conn := ServerTcpConnection.inv_init handlers h
  requests := rfl
  numbers := rfl
  accounts _ := .unseen
  lock k := by simp [init, ServerTcpConnection.init, Sender.init]
  appended := rfl
  headers := by simp [init]
  current := by simp [init, ServerTcpConnection.init, Sender.init]

/-! ## Accounts -/

/-- A wrapper of a function that is not `udp` has these statements, wherever it runs. -/
theorem emitWrapper_eq (func : TcpFunc) : emitWrapper func.attrs =
    [.readArgs, .call, .beginReply, .writeRets, .endReply, .deleteReq, .release] := by
  unfold emitWrapper
  rw [if_neg func.not_udp]
  split <;> rfl

section Accounts

variable {outcome : Option (Outcome TcpFunc)} {task task' : Task ω} {replies replies' : Nat}
  {tally tally' : Tally} {stmt : Stmt} {rest : List Stmt}

/-- The statement is executed. -/
theorem Account.exec (h : Account outcome (some task) replies tally)
    (hbody : task.body = stmt :: rest) (hfunc : task'.func = task.func)
    (hxid : task'.xid = task.xid) (hplace : task'.place ≠ .queued) (hrest : task'.body = rest)
    (hreplies : replies' = replies + if stmt = .endReply then 1 else 0)
    (hdeletes : tally'.deletes = tally.deletes + if stmt = .deleteReq then 1 else 0)
    (htakes : tally'.takes = tally.takes)
    (hreleases : tally'.releases = tally.releases + if stmt = .release then 1 else 0) :
    Account outcome (some task') replies' tally' := by
  cases h with
  | handed ho hb hq hr hd ht hl =>
    rw [hbody, List.count_cons] at hr hd hl
    rw [← hfunc, ← hxid] at ho
    apply Account.handed ho
    · -- what is left of the wrapper is still a suffix of it
      rw [hrest, hfunc]
      rw [hbody] at hb
      exact (List.suffix_cons stmt rest).trans hb
    · -- a task that runs is not queued
      intro hqueued
      exact absurd hqueued hplace
    · -- one `end_reply` less ahead, one reply more
      rw [hrest, hreplies]
      simp only [beq_iff_eq] at hr
      omega
    · -- the same for `delete`
      rw [hrest, hdeletes]
      simp only [beq_iff_eq] at hd
      omega
    · rw [htakes, ht]
    · -- the same for `release`
      rw [hrest, hreleases]
      simp only [beq_iff_eq] at hl
      omega

/-- The wrapper is somewhere else. -/
theorem Account.move (h : Account outcome (some task) replies tally) {place : Place ω}
    (hplace : place ≠ .queued) :
    Account outcome (some { task with place := place }) replies tally := by
  cases h with
  | handed ho hb hq hr hd ht hl =>
    exact .handed ho hb (fun hqueued => absurd hqueued hplace) hr hd ht hl

theorem Account.atMost {task : Option (Task ω)} (h : Account outcome task replies tally) :
    replies ≤ 1 ∧ tally.deletes ≤ 1 ∧ tally.releases ≤ tally.takes ∧ tally.takes ≤ 1 := by
  cases h with
  | unseen => simp
  | refused => simp
  | handed ho hb hq hr hd ht hl => omega

/-- Nothing is left to do for a request that was dispatched. -/
theorem Account.exactly {task : Option (Task ω)} (h : Account outcome task replies tally)
    (hseen : outcome.isSome = true) (hend : ∀ t, task = some t → t.body = []) :
    replies = 1 ∧ tally.deletes = 1 ∧ tally.releases = tally.takes := by
  cases h with
  | unseen => simp at hseen
  | refused => simp
  | @handed _ t _ _ ho hb hq hr hd ht hl =>
    rw [hend t rfl, List.count_nil] at hr hd hl
    omega

theorem Account.queued_body (h : Account outcome (some task) replies tally)
    (hqueued : task.place = .queued) : task.body = emitWrapper task.func.attrs := by
  cases h with
  | handed ho hb hq hr hd ht hl => exact hq hqueued

theorem Account.body_suffix (h : Account outcome (some task) replies tally) :
    task.body <:+ emitWrapper task.func.attrs := by
  cases h with
  | handed ho hb hq hr hd ht hl => exact hb

end Accounts

/-! ## The poll thread -/

/-- Packets that were cut off stay. -/
theorem Answers.mono {handlers : Int32 → Option TcpFunc} {s s' : Serving ω} {k : Nat}
    {bytes : List UInt8} (h : s.Answers handlers k bytes)
    (hpackets : s.conn.packets <+: s'.conn.packets) : s'.Answers handlers k bytes := by
  obtain ⟨xid, packet, hk, hpre⟩ := h
  obtain ⟨more, hmore⟩ := hpackets
  refine ⟨xid, packet, ?_, hpre⟩
  rw [← hmore, List.getElem?_append_left (List.getElem?_eq_some_iff.mp hk).1, hk]

section Poll

variable {handlers : Int32 → Option TcpFunc} {s : Serving ω} (hI : s.Inv handlers)

include hI

/-- A step of the poll thread that dispatches no request. -/
theorem Inv.quiet {conn' : ServerTcpConnection Nat TcpFunc} (hconn : conn'.Inv handlers)
    (houtcomes : conn'.outcomes = s.conn.outcomes)
    (hpackets : s.conn.packets <+: conn'.packets) (hrequests : conn'.requests = conn'.packets.length)
    (hnumbers : conn'.io.waiting.map Request.m =
      List.range' conn'.outcomes.length conn'.io.waiting.length)
    (hholder : conn'.sender.holder = s.conn.sender.holder)
    (hcurrent : ∀ t, s.conn.sender.holder = some t →
      conn'.sender.current = s.conn.sender.current)
    (hdone : conn'.sender.done = s.conn.sender.done) :
    Inv handlers { s with conn := conn' } := by
  constructor
  · exact hconn
  · exact hrequests
  · exact hnumbers
  · -- no account changes
    intro k
    change Account conn'.outcomes[k]? (s.tasks k) (s.repliesTo k) (s.tally k)
    rw [houtcomes]
    exact hI.accounts k
  · -- nor does the lock
    intro k
    change conn'.sender.holder = some (some k) ↔ _
    rw [hholder]
    exact hI.lock k
  · -- no reply has ended
    change conn'.sender.done.map Prod.snd = _
    rw [hdone]
    exact hI.appended
  · -- packets are only added
    intro k bytes hmem
    exact (hI.headers k bytes hmem).mono hpackets
  · -- the open reply, if there is one, is as before
    intro k hk
    change conn'.sender.holder = some (some k) at hk
    rw [hholder] at hk
    have hans : Answers handlers { s with conn := conn' } k s.conn.sender.current :=
      (hI.current k hk).mono hpackets
    rwa [← hcurrent _ hk] at hans

/-- A request that was not dispatched has no wrapper, and nothing was done for it. -/
theorem Inv.unseen {k : Nat} (hk : s.conn.outcomes.length ≤ k) :
    s.tasks k = none ∧ s.repliesTo k = 0 ∧ s.tally k = ⟨0, 0, 0⟩ := by
  have haccount := hI.accounts k
  rw [List.getElem?_eq_none hk] at haccount
  generalize htasks : s.tasks k = task, hreplies : s.repliesTo k = replies,
    htally : s.tally k = tally at haccount
  cases haccount
  exact ⟨rfl, rfl, rfl⟩

/-- The first request in the list is the one that is numbered next. -/
theorem Inv.first_number {req : Request} {reqs : List Request}
    (hio : s.conn.io = .dispatching (req :: reqs)) :
    req.m = s.conn.outcomes.length ∧
      reqs.map Request.m = List.range' (s.conn.outcomes.length + 1) reqs.length := by
  have hnumbers := hI.numbers
  rw [hio] at hnumbers
  simpa [Io.waiting, List.range'_succ] using hnumbers

/-- What a round of the second loop leaves as it was. -/
theorem Inv.dispatched {s' : Serving ω} {req : Request} {reqs : List Request}
    {packet : List UInt8} (hio : s.conn.io = .dispatching (req :: reqs))
    (hd : ServerTcpConnection.Dispatched handlers s.conn s'.conn req reqs packet)
    (htasks : ∀ k, k ≠ req.m → s'.tasks k = s.tasks k)
    (htally : ∀ k, k ≠ req.m → s'.tally k = s.tally k)
    (hreplies : ∀ k, k ≠ req.m → s'.repliesTo k = s.repliesTo k)
    (haccount : Account (some (ServerTcpConnection.outcomeOf handlers req.xid packet))
      (s'.tasks req.m) (s'.repliesTo req.m) (s'.tally req.m))
    (hidle : ∀ task, s'.tasks req.m = some task → ¬ task.Replying)
    (happended : s'.conn.sender.done.map Prod.snd = s'.answers.map Prod.snd)
    (hheaders : ∀ k bytes, (k, bytes) ∈ s'.answers →
      (k, bytes) ∈ s.answers ∨ s'.Answers handlers k bytes) :
    Inv handlers s' := by
  obtain ⟨hm, hreqs⟩ := hI.first_number hio
  have hpackets : s.conn.packets <+: s'.conn.packets := by rw [hd.packets_eq]
  constructor
  · exact hd.inv
  · -- one request is dispatched, one packet seen
    rw [hd.requests_eq, hd.packets_eq, hI.requests]
  · rw [hd.io_eq, hd.outcomes_eq, List.length_append]
    exact hreqs
  · intro k
    by_cases hk : k = req.m
    · subst hk
      rw [hd.outcomes_eq, List.getElem?_append_right (by omega), hm, Nat.sub_self]
      rw [hm] at haccount
      exact haccount
    · -- the other requests
      rw [htasks k hk, htally k hk, hreplies k hk]
      -- one outcome is added, and it is the one of this request
      have hsame : s'.conn.outcomes[k]? = s.conn.outcomes[k]? := by
        rw [hd.outcomes_eq]
        rcases Nat.lt_or_ge k s.conn.outcomes.length with hlt | hge
        · exact List.getElem?_append_left hlt
        · rw [List.getElem?_eq_none hge, List.getElem?_eq_none]
          simp
          omega
      rw [hsame]
      exact hI.accounts k
  · intro k
    rw [hd.holder_eq, hI.lock k]
    by_cases hk : k = req.m
    · subst hk
      -- neither before nor after
      have hnone : s.tasks req.m = none := (hI.unseen (Nat.le_of_eq hm.symm)).1
      constructor
      · rintro ⟨task, htask, -⟩
        simp [hnone] at htask
      · rintro ⟨task, htask, hrep⟩
        exact absurd hrep (hidle task htask)
    · -- the wrappers of the others
      rw [htasks k hk]
  · exact happended
  · intro k bytes hmem
    obtain hold | hnew := hheaders k bytes hmem
    · exact (hI.headers k bytes hold).mono hpackets
    · exact hnew
  · -- the open reply belongs to another request
    intro k hk
    rw [hd.holder_eq] at hk
    rw [hd.current_eq _ hk]
    exact (hI.current k hk).mono hpackets

/-- A request is handed to the wrapper of its function. -/
theorem Inv.settle_handed {conn' : ServerTcpConnection Nat TcpFunc} {req : Request}
    {reqs : List Request} {packet args : List UInt8} {func : TcpFunc} {xid : Int64} {rpcId : Int32}
    (hio : s.conn.io = .dispatching (req :: reqs))
    (hd : ServerTcpConnection.Dispatched handlers s.conn conn' req reqs packet)
    (houtcome :
      ServerTcpConnection.outcomeOf handlers req.xid packet = .handed func xid rpcId args) :
    Inv handlers (s.settle conn' req (.handed func xid rpcId args)) := by
  obtain ⟨hnone, hreplies, htally⟩ := hI.unseen (Nat.le_of_eq (hI.first_number hio).1.symm)
  have hxid : xid = req.xid := by
    have hxid := ServerTcpConnection.outcomeOf_xid handlers req.xid packet
    rw [houtcome] at hxid
    exact hxid
  have hbody := emitWrapper_eq func
  apply hI.dispatched hio hd
  · intro k hk
    exact Function.update_of_ne hk ..
  · intro k hk
    exact Function.update_of_ne hk ..
  · intro k _
    rfl
  · -- the wrapper has all its statements ahead of it
    rw [houtcome, hxid]
    change Account _ (Function.update s.tasks req.m _ req.m) (s.repliesTo req.m)
      (Function.update s.tally req.m _ req.m)
    rw [Function.update_self, Function.update_self, hreplies, htally]
    refine Account.handed ⟨rpcId, args, rfl⟩ List.suffix_rfl (fun _ => rfl) ?_ ?_ ?_ ?_
    · simp [hbody]
    · simp [hbody]
    · rfl
    · simp [hbody]
  · -- it has not begun its reply
    intro task htask hrep
    change Function.update s.tasks req.m _ req.m = some task at htask
    rw [Function.update_self] at htask
    obtain rfl := Option.some.inj htask
    simp [Task.Replying, hbody] at hrep
  · -- the poll thread itself replies nothing
    change conn'.sender.done.map Prod.snd = s.answers.map Prod.snd
    rw [hd.done_eq, houtcome, ← hI.appended]
    simp [ServerTcpConnection.ownReplies, Outcome.errorReply]
  · intro k bytes hmem
    exact .inl hmem

/-- `handle_read` replies itself. -/
theorem Inv.settle_refused {conn' : ServerTcpConnection Nat TcpFunc} {req : Request}
    {reqs : List Request} {packet : List UInt8} {outcome : Outcome TcpFunc}
    (hio : s.conn.io = .dispatching (req :: reqs))
    (hd : ServerTcpConnection.Dispatched handlers s.conn conn' req reqs packet)
    (houtcome : ServerTcpConnection.outcomeOf handlers req.xid packet = outcome)
    (herror : outcome.errorReply = some (replyTo handlers req.xid packet)) :
    Inv handlers ({ s with conn := conn', answers := s.answers ++
      outcome.errorReply.toList.map fun bytes => (req.m, bytes) }.count req.m
        fun tally => { tally with deletes := tally.deletes + 1 }) := by
  have hm := (hI.first_number hio).1
  obtain ⟨hnone, hreplies, htally⟩ := hI.unseen (Nat.le_of_eq hm.symm)
  rw [herror]
  apply hI.dispatched hio hd
  · intro k _
    rfl
  · -- no other request is disposed of here
    intro k hk
    exact Function.update_of_ne hk ..
  · -- nor answered
    intro k hk
    simp [repliesTo, count, List.count_append, Ne.symm hk]
  · -- one reply and one `delete`, without a wrapper
    rw [houtcome]
    change Account _ (s.tasks req.m) _ (Function.update s.tally req.m _ req.m)
    rw [Function.update_self, hnone, htally]
    have hone : repliesTo ({ s with conn := conn', answers := s.answers ++
        (some (replyTo handlers req.xid packet)).toList.map fun bytes => (req.m, bytes)
        }.count req.m fun tally => { tally with deletes := tally.deletes + 1 }) req.m = 1 := by
      have hzero : (s.answers.map Prod.fst).count req.m = 0 := hreplies
      simp [repliesTo, count, List.count_append, hzero]
    rw [hone]
    exact .refused (by rw [herror]; rfl)
  · -- this request never gets a wrapper
    intro task htask
    change s.tasks req.m = some task at htask
    simp [hnone] at htask
  · -- its error reply is the last one
    change conn'.sender.done.map Prod.snd = (s.answers ++ _).map Prod.snd
    rw [hd.done_eq, houtcome, List.map_append, List.map_append, hI.appended]
    simp [ServerTcpConnection.ownReplies, herror]
  · intro k bytes hmem
    obtain hold | hnew := List.mem_append.mp hmem
    · -- answered before
      exact .inl hold
    · right
      obtain ⟨rfl, rfl⟩ : k = req.m ∧ bytes = replyTo handlers req.xid packet := by simpa using hnew
      refine ⟨req.xid, packet, ?_, List.prefix_rfl⟩
      change conn'.packets[req.m]? = _
      rw [hd.packets_eq, hm, hd.packet_eq]

theorem Inv.settle {conn' : ServerTcpConnection Nat TcpFunc} {req : Request}
    {reqs : List Request} {packet : List UInt8} (hio : s.conn.io = .dispatching (req :: reqs))
    (hd : ServerTcpConnection.Dispatched handlers s.conn conn' req reqs packet) :
    Inv handlers (s.settle conn' req (ServerTcpConnection.outcomeOf handlers req.xid packet)) := by
  have hxid := ServerTcpConnection.outcomeOf_xid handlers req.xid packet
  cases houtcome : ServerTcpConnection.outcomeOf handlers req.xid packet with
  | handed func xid rpcId args => exact hI.settle_handed hio hd houtcome
  | einval xid =>
    rw [houtcome] at hxid
    obtain rfl : xid = req.xid := hxid
    apply hI.settle_refused hio hd houtcome
    simp [Outcome.errorReply, replyTo, houtcome, Outcome.code]
  | enoent xid =>
    rw [houtcome] at hxid
    obtain rfl : xid = req.xid := hxid
    apply hI.settle_refused hio hd houtcome
    simp [Outcome.errorReply, replyTo, houtcome, Outcome.code]

end Poll

end Serving

end SimpleRpc.Rpc
