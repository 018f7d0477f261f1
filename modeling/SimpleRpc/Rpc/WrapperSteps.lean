import SimpleRpc.Rpc.Wrappers

/-!
# The Statements of a Wrapper

Each statement of a wrapper keeps the accounts of all requests, brings the end of the work closer and
leaves `in_` alone.

## Main results

- `Inv.readArgs`, `Inv.call`, `Inv.beginReply`, `Inv.writeRets`, `Inv.endReply`, `Inv.deleteReq`,
  `Inv.release`: the statements
- `Inv.take`, `Inv.leave`: a wrapper goes to a worker, and leaves it
-/

namespace SimpleRpc.Rpc

open SimpleRpc.Lib SimpleRpc.Base

namespace Serving

variable {ω : Type}

/-! ## The wrappers -/

/-- The statement behind another one. -/
def after : Stmt → Option Stmt
  | .readArgs => some .call
  | .call => some .beginReply
  | .beginReply => some .writeRets
  | .writeRets => some .endReply
  | .endReply => some .deleteReq
  | .deleteReq => some .release
  | .release => none

theorem head?_of_suffix {func : TcpFunc} {stmt : Stmt} {rest : List Stmt}
    (h : stmt :: rest <:+ emitWrapper func.attrs) : rest.head? = after stmt := by
  rw [emitWrapper_eq, ← List.mem_tails] at h
  -- one case for each place in the wrapper
  simp only [List.tails, List.mem_cons, List.cons.injEq, List.not_mem_nil, or_false,
    reduceCtorEq] at h
  rcases h with ⟨rfl, rfl⟩ | ⟨rfl, rfl⟩ | ⟨rfl, rfl⟩ | ⟨rfl, rfl⟩ | ⟨rfl, rfl⟩ | ⟨rfl, rfl⟩ |
    ⟨rfl, rfl⟩ <;> rfl

/-- The requests and packets of a connection are the same. -/
structure SameRequests (c c' : ServerTcpConnection Nat TcpFunc) : Prop where
  outcomes : c'.outcomes = c.outcomes
  packets : c'.packets = c.packets
  requests : c'.requests = c.requests
  io : c'.io = c.io

/-- A wrapper has come closer to its end. -/
structure Worked (s s' : Serving ω) : Prop where
  io : s'.conn.io = s.conn.io
  in_eq : s'.conn.world.content .in_ = s.conn.world.content .in_
  work : Prod.Lex (· < ·) (· < ·) s'.work s.work

section Wrappers

variable {handlers : Int32 → Option TcpFunc} {s s' : Serving ω} (hI : s.Inv handlers) {k : Nat}
  {task task' : Task ω} {stmt : Stmt} {rest : List Stmt}

include hI

theorem Inv.task_at (h : s.At k stmt) :
    ∃ task rest, s.tasks k = some task ∧ task.place ≠ .queued ∧ task.body = stmt :: rest ∧
      rest.head? = after stmt := by
  obtain ⟨task, htask, hplace, hhead⟩ := h
  obtain ⟨rest, hbody⟩ := List.head?_eq_some_iff.mp hhead
  have haccount := hI.accounts k
  rw [htask] at haccount
  exact ⟨task, rest, htask, hplace, hbody, head?_of_suffix (hbody ▸ haccount.body_suffix)⟩

/-- A request with a wrapper was dispatched. -/
theorem Inv.task_packet (htask : s.tasks k = some task) :
    ∃ packet, s.conn.packets[k]? = some (task.xid, packet) ∧
      replyTo handlers task.xid packet =
        SparseInt.encode64 task.xid ++ SparseInt.encode32 0 := by
  have haccount := hI.accounts k
  rw [htask] at haccount
  obtain ⟨old, new, hpackets, hout, -⟩ := hI.conn.progress
  cases houtcome : s.conn.outcomes[k]? with
  | none =>
    rw [houtcome] at haccount
    cases haccount
  | some outcome =>
    rw [houtcome] at haccount
    cases haccount with
    | handed ho hb hq hr hd ht hl =>
      obtain ⟨rpcId, args, rfl⟩ := ho
      rw [hout, List.getElem?_map, Option.map_eq_some_iff] at houtcome
      obtain ⟨⟨xid, packet⟩, hold, hof⟩ := houtcome
      have hxid := ServerTcpConnection.outcomeOf_xid handlers xid packet
      rw [hof] at hxid
      obtain rfl : task.xid = xid := hxid
      refine ⟨packet, ?_, ?_⟩
      · rw [hpackets, List.getElem?_append_left (List.getElem?_eq_some_iff.mp hold).1, hold]
      · rw [replyTo, hof]
        rfl

theorem Inv.task_lt (htask : s.tasks k = some task) : k < s.conn.outcomes.length := by
  by_contra hge
  simp [(hI.unseen (Nat.le_of_not_lt hge)).1] at htask

theorem Inv.outcomes_le : s.conn.outcomes.length ≤ s.conn.packets.length := by
  obtain ⟨old, new, hpackets, hout, -⟩ := hI.conn.progress
  rw [hpackets, hout, List.length_map, List.length_append]
  exact Nat.le_add_right ..

/-- The Marshal of a request belongs to its wrapper. -/
theorem Inv.task_foreign (htask : s.tasks k = some task) : s.conn.Foreign (.slice k) := by
  have hlt := hI.task_lt htask
  have hle := hI.outcomes_le
  have hrequests := hI.requests
  refine ⟨by omega, ?_⟩
  intro req hreq hm
  -- the requests that wait have larger numbers
  have hmem : req.m ∈ s.conn.io.waiting.map Request.m := List.mem_map_of_mem hreq
  rw [hI.numbers, List.mem_range'_1] at hmem
  omega

/-- The work of one wrapper becomes less. -/
theorem Inv.work_lt (hsame : SameRequests s.conn s'.conn)
    (hin : s'.conn.world.content .in_ = s.conn.world.content .in_)
    (htask : s.tasks k = some task) (htasks : s'.tasks = Function.update s.tasks k (some task'))
    (hweight : task'.weight < task.weight) :
    Prod.Lex (· < ·) (· < ·) s'.work s.work := by
  have hrem : s'.conn.remaining = s.conn.remaining := by
    unfold ServerTcpConnection.remaining
    rw [hsame.io, hin]
  have hload : ∑ j ∈ Finset.range s.conn.requests, ((s'.tasks j).map Task.weight).getD 0 <
      ∑ j ∈ Finset.range s.conn.requests, ((s.tasks j).map Task.weight).getD 0 := by
    rw [htasks]
    apply Finset.sum_lt_sum
    · intro j _
      by_cases hj : j = k
      · subst hj
        simp [htask, hweight.le]
      · simp [Function.update_of_ne hj]
    · have hlt := hI.task_lt htask
      have hle := hI.outcomes_le
      have hrequests := hI.requests
      exact ⟨k, Finset.mem_range.mpr (by omega), by simp [htask, hweight]⟩
  unfold work
  rw [hrem, hsame.requests]
  exact Prod.Lex.right _ hload

/-- A step of the wrapper of request `k`. -/
theorem Inv.wrapper (htask : s.tasks k = some task) (hconn : s'.conn.Inv handlers)
    (hsame : SameRequests s.conn s'.conn)
    (hin : s'.conn.world.content .in_ = s.conn.world.content .in_)
    (htasks : s'.tasks = Function.update s.tasks k (some task'))
    (hweight : task'.weight < task.weight)
    (haccount : Account s.conn.outcomes[k]? (some task') (s'.repliesTo k) (s'.tally k))
    (hreplies : ∀ j, j ≠ k → s'.repliesTo j = s.repliesTo j)
    (htally : ∀ j, j ≠ k → s'.tally j = s.tally j)
    (hlock : ∀ j, s'.conn.sender.holder = some (some j) ↔
      ∃ task, s'.tasks j = some task ∧ task.Replying)
    (happended : s'.conn.sender.done.map Prod.snd = s'.answers.map Prod.snd)
    (hheaders : ∀ j bytes, (j, bytes) ∈ s'.answers → s.Answers handlers j bytes)
    (hcurrent : ∀ j, s'.conn.sender.holder = some (some j) →
      s.Answers handlers j s'.conn.sender.current) : Inv handlers s' ∧ Worked s s' := by
  have hpackets : s.conn.packets <+: s'.conn.packets := by rw [hsame.packets]
  refine ⟨?_, hsame.io, hin, hI.work_lt hsame hin htask htasks hweight⟩
  constructor
  · exact hconn
  · -- a wrapper dispatches nothing
    rw [hsame.requests, hsame.packets, hI.requests]
  · rw [hsame.io, hsame.outcomes, hI.numbers]
  · -- one account changes, that of `k`
    intro j
    rw [hsame.outcomes, htasks]
    by_cases hj : j = k
    · subst hj
      rw [Function.update_self]
      exact haccount
    · rw [Function.update_of_ne hj, hreplies j hj, htally j hj]
      exact hI.accounts j
  · exact hlock
  · exact happended
  · -- the packets are those of before
    intro j bytes hmem
    exact (hheaders j bytes hmem).mono hpackets
  · intro j hj
    exact (hcurrent j hj).mono hpackets

/-- The lock stays where it is. -/
theorem Inv.lock_same (htask : s.tasks k = some task)
    (htasks : s'.tasks = Function.update s.tasks k (some task'))
    (hholder : s'.conn.sender.holder = s.conn.sender.holder)
    (hrep : task'.Replying ↔ task.Replying) (j : Nat) :
    s'.conn.sender.holder = some (some j) ↔ ∃ task, s'.tasks j = some task ∧ task.Replying := by
  rw [hholder, hI.lock j, htasks]
  by_cases hj : j = k
  · subst hj
    simp [htask, hrep]
  · rw [Function.update_of_ne hj]

/-- `out_l_.lock();` -/
theorem Inv.lock_begin (htasks : s'.tasks = Function.update s.tasks k (some task'))
    (hfree : s.conn.sender.holder = none) (hholder : s'.conn.sender.holder = some (some k))
    (hrep : task'.Replying) (j : Nat) :
    s'.conn.sender.holder = some (some j) ↔ ∃ task, s'.tasks j = some task ∧ task.Replying := by
  rw [hholder, htasks]
  by_cases hj : j = k
  · subst hj
    simp [hrep]
  · rw [Function.update_of_ne hj, ← hI.lock j, hfree]
    simp [Ne.symm hj]

/-- `out_l_.unlock();` -/
theorem Inv.lock_end (htasks : s'.tasks = Function.update s.tasks k (some task'))
    (hheld : s.conn.sender.holder = some (some k)) (hholder : s'.conn.sender.holder = none)
    (hrep : ¬ task'.Replying) (j : Nat) :
    s'.conn.sender.holder = some (some j) ↔ ∃ task, s'.tasks j = some task ∧ task.Replying := by
  rw [hholder, htasks]
  by_cases hj : j = k
  · subst hj
    simp [hrep]
  · rw [Function.update_of_ne hj, ← hI.lock j, hheld]
    simp [Ne.symm hj]

/-- A statement that neither replies nor disposes of anything. -/
theorem Inv.exec_plain (htask : s.tasks k = some task) (hplace : task.place ≠ .queued)
    (hbody : task.body = stmt :: rest)
    (hplain : stmt ≠ .endReply ∧ stmt ≠ .deleteReq ∧ stmt ≠ .release) {out : Value}
    (hconn : s'.conn.Inv handlers) (hsame : SameRequests s.conn s'.conn)
    (hin : s'.conn.world.content .in_ = s.conn.world.content .in_)
    (htasks : s'.tasks = Function.update s.tasks k (some { task with out := out, body := rest }))
    (hanswers : s'.answers = s.answers) (htally : s'.tally = s.tally)
    (hlock : ∀ j, s'.conn.sender.holder = some (some j) ↔
      ∃ task, s'.tasks j = some task ∧ task.Replying)
    (hdone : s'.conn.sender.done = s.conn.sender.done)
    (hcurrent : ∀ j, s'.conn.sender.holder = some (some j) →
      s.Answers handlers j s'.conn.sender.current) : Inv handlers s' ∧ Worked s s' := by
  have hreplies : ∀ j, s'.repliesTo j = s.repliesTo j := by
    intro j
    rw [repliesTo, repliesTo, hanswers]
  apply hI.wrapper htask hconn hsame hin htasks
  · -- one statement less is ahead
    simp [Task.weight, hbody, Nat.mul_add]
  · -- nothing is counted
    have haccount := hI.accounts k
    rw [htask] at haccount
    refine haccount.exec hbody rfl rfl hplace rfl ?_ ?_ ?_ ?_ <;> simp [hreplies, htally, hplain]
  · intro j _
    exact hreplies j
  · intro j _
    rw [htally]
  · exact hlock
  · rw [hdone, hanswers, hI.appended]
  · intro j bytes hmem
    rw [hanswers] at hmem
    exact hI.headers j bytes hmem
  · exact hcurrent

/-- A statement that leaves the connection alone. -/
theorem Inv.exec_local (htask : s.tasks k = some task) (hplace : task.place ≠ .queued)
    (hbody : task.body = stmt :: rest)
    (hrest : rest.head? = after stmt) (hlocal : stmt = .deleteReq ∨ stmt = .release)
    (hconn : s'.conn = s.conn)
    (htasks : s'.tasks = Function.update s.tasks k (some { task with body := rest }))
    (hanswers : s'.answers = s.answers)
    (hdeletes : (s'.tally k).deletes = (s.tally k).deletes + if stmt = .deleteReq then 1 else 0)
    (htakes : (s'.tally k).takes = (s.tally k).takes)
    (hreleases : (s'.tally k).releases = (s.tally k).releases + if stmt = .release then 1 else 0)
    (htally : ∀ j, j ≠ k → s'.tally j = s.tally j) : Inv handlers s' ∧ Worked s s' := by
  have hreplies : ∀ j, s'.repliesTo j = s.repliesTo j := by
    intro j
    rw [repliesTo, repliesTo, hanswers]
  apply hI.wrapper htask (by rw [hconn]; exact hI.conn)
    ⟨by rw [hconn], by rw [hconn], by rw [hconn], by rw [hconn]⟩ (by rw [hconn]) htasks
  · -- one statement less is ahead
    simp [Task.weight, hbody, Nat.mul_add]
  · -- the `delete` or the `release` is counted
    have haccount := hI.accounts k
    rw [htask] at haccount
    refine haccount.exec hbody rfl rfl hplace rfl ?_ hdeletes htakes hreleases
    rw [hreplies]
    obtain rfl | rfl := hlocal <;> simp
  · intro j _
    exact hreplies j
  · exact htally
  · -- neither is inside a reply
    apply hI.lock_same htask htasks (by rw [hconn])
    obtain rfl | rfl := hlocal <;> simp [Task.Replying, hbody, hrest, after]
  · -- `out_` is left alone
    rw [hconn, hanswers, hI.appended]
  · intro j bytes hmem
    rw [hanswers] at hmem
    exact hI.headers j bytes hmem
  · intro j hj
    rw [hconn] at hj ⊢
    exact hI.current j hj

/-- `req->m >> in_0; ..` -/
theorem Inv.readArgs {bufs : Nat → List UInt8} (hat : s.At k .readArgs)
    (hgrant : s.Granted (.readArgs k bufs)) :
    ∃ s', s.step handlers (.readArgs k bufs) = .ok s' ∧ Inv handlers s' ∧ Worked s s' := by
  obtain ⟨task, rest, htask, hplace, hbody, hrest⟩ := hI.task_at hat
  obtain ⟨⟨x, W⟩, hrun⟩ := hgrant task htask
  obtain ⟨n, hu⟩ := hI.conn.sender.world.reads (task.func.input.reads_get bufs) hrun
  refine ⟨{ s with conn := s.conn.withWorld W }.next k task, ?_, ?_⟩
  · simp only [Serving.step, htask, deref_some, hrun, ok_bind, pure_eq_ok]
  have htasks : ({ s with conn := s.conn.withWorld W }.next k task).tasks =
      Function.update s.tasks k (some { task with out := task.out, body := rest }) := by
    simp [next, setTask, hbody]
  apply hI.exec_plain htask hplace hbody (by simp)
  · exact hI.conn.foreign (hI.task_foreign htask) hu
  · exact ⟨rfl, rfl, rfl, rfl⟩
  · exact hu.content_of_ne (by simp)
  · exact htasks
  · rfl
  · rfl
  · apply hI.lock_same htask htasks rfl
    simp [Task.Replying, hbody, hrest, after]
  · rfl
  · exact hI.current

/-- `this->f(in_0, .., &out_0, ..);` -/
theorem Inv.call {out : Value} (hat : s.At k .call) :
    ∃ s', s.step handlers (.call k out) = .ok s' ∧ Inv handlers s' ∧ Worked s s' := by
  obtain ⟨task, rest, htask, hplace, hbody, hrest⟩ := hI.task_at hat
  refine ⟨s.next k { task with out := out }, ?_, ?_⟩
  · simp only [Serving.step, htask, deref_some, ok_bind, pure_eq_ok]
  have htasks : (s.next k { task with out := out }).tasks =
      Function.update s.tasks k (some { task with out := out, body := rest }) := by
    simp [next, setTask, hbody]
  apply hI.exec_plain htask hplace hbody (by simp)
  · exact hI.conn
  · exact ⟨rfl, rfl, rfl, rfl⟩
  · rfl
  · exact htasks
  · rfl
  · rfl
  · apply hI.lock_same htask htasks rfl
    simp [Task.Replying, hbody, hrest, after]
  · rfl
  · exact hI.current

/-- A step of a wrapper on `out_` is a step of the connection. -/
theorem Inv.send_step {op : SendOp ConnName (Option Nat)} (hop : s.conn.sender.Allowed .out_ op)
    (hnames : op.names = []) (hthread : op.holder none ≠ some none) :
    ∃ sender', s.conn.step handlers (.send op) = .ok { s.conn with sender := sender' } ∧
      ServerTcpConnection.Inv handlers { s.conn with sender := sender' } ∧
      sender'.world.content .in_ = s.conn.world.content .in_ ∧
      sender'.holder = op.holder s.conn.sender.holder ∧
      sender'.current = op.current s.conn.world s.conn.sender.current ∧
      sender'.done = s.conn.sender.done ++ op.finished s.conn.sender.current := by
  have hallowed : s.conn.Allowed handlers (.send op) := by
    refine ⟨hop, ?_, hthread⟩
    simp [hnames]
  obtain ⟨sender', heq, hinv, heff, hin⟩ := hI.conn.send hallowed
  refine ⟨sender', ?_, hinv, hin, heff.holder, heff.current, heff.done⟩
  simp only [ServerTcpConnection.step, heq, ok_bind, pure_eq_ok]

/-- The holder of the lock is the wrapper between `begin_reply` and `end_reply`. -/
theorem Inv.held (hat : s.At k stmt) (hstmt : stmt = .writeRets ∨ stmt = .endReply) :
    s.conn.sender.holder = some (some k) := by
  obtain ⟨task, htask, -, hhead⟩ := hat
  apply (hI.lock k).mpr ⟨task, htask, ?_⟩
  obtain rfl | rfl := hstmt
  · exact .inl hhead
  · exact .inr hhead

/-- A statement that goes on with the message in `out_`. -/
theorem Inv.exec_send (htask : s.tasks k = some task) (hplace : task.place ≠ .queued)
    (hbody : task.body = stmt :: rest)
    (hplain : stmt ≠ .endReply ∧ stmt ≠ .deleteReq ∧ stmt ≠ .release)
    {op : SendOp ConnName (Option Nat)} (hop : s.conn.sender.Allowed .out_ op)
    (hnames : op.names = []) (hthread : op.holder none ≠ some none)
    (hunfinished : op.finished s.conn.sender.current = [])
    (hlock : ∀ s' : Serving ω, s'.tasks = Function.update s.tasks k (some { task with body := rest }) →
      s'.conn.sender.holder = op.holder s.conn.sender.holder →
      ∀ j, s'.conn.sender.holder = some (some j) ↔ ∃ task, s'.tasks j = some task ∧ task.Replying)
    (hcurrent : ∀ j, op.holder s.conn.sender.holder = some (some j) →
      s.Answers handlers j (op.current s.conn.world s.conn.sender.current)) :
    ∃ conn', s.conn.step handlers (.send op) = .ok conn' ∧
      Inv handlers ({ s with conn := conn' }.next k task) ∧
      Worked s ({ s with conn := conn' }.next k task) := by
  obtain ⟨sender', heq, hinv, hin, hholder, hbytes, hdone⟩ := hI.send_step hop hnames hthread
  refine ⟨_, heq, ?_⟩
  have htasks : ({ s with conn := { s.conn with sender := sender' } }.next k task).tasks =
      Function.update s.tasks k (some { task with body := rest }) := by
    simp [next, setTask, hbody]
  apply hI.exec_plain htask hplace hbody hplain
  · exact hinv
  · exact ⟨rfl, rfl, rfl, rfl⟩
  · exact hin
  · exact htasks
  · rfl
  · rfl
  · -- the lock goes as the operation says
    exact hlock _ htasks hholder
  · -- no message ends
    change sender'.done = s.conn.sender.done
    rw [hdone, hunfinished, List.append_nil]
  · -- the open message is as the operation leaves it
    intro j hj
    change s.Answers handlers j sender'.current
    rw [hbytes]
    exact hcurrent j (hholder.symm.trans hj)

/-- `sconn->begin_reply(req);` -/
theorem Inv.beginReply {buf buf' : List UInt8} (hat : s.At k .beginReply)
    (hfree : s.conn.sender.holder = none) :
    ∃ s', s.step handlers (.beginReply k buf buf') = .ok s' ∧ Inv handlers s' ∧ Worked s s' := by
  obtain ⟨task, rest, htask, hplace, hbody, hrest⟩ := hI.task_at hat
  have hallowed : s.conn.sender.Allowed .out_ (.begin (some k) (.reply buf buf' task.xid 0)) := hfree
  obtain ⟨conn', heq, hworked⟩ := hI.exec_send htask hplace hbody (by simp) hallowed rfl
    (by simp [SendOp.holder]) rfl
    (fun s' htasks hholder => hI.lock_begin htasks hfree hholder (.inl hrest))
    (fun j hj => by
      -- the header is all that was written so far
      obtain rfl : k = j := by simpa [SendOp.holder] using hj
      obtain ⟨packet, hpacket, hreply⟩ := hI.task_packet htask
      refine ⟨task.xid, packet, hpacket, ?_⟩
      rw [hreply]
      exact List.prefix_rfl)
  refine ⟨{ s with conn := conn' }.next k task, ?_, hworked⟩
  simp only [Serving.step, htask, deref_some, heq, ok_bind, pure_eq_ok]

/-- `*sconn << out_0; ..` -/
theorem Inv.writeRets (hat : s.At k .writeRets) :
    ∃ s', s.step handlers (.writeRets k) = .ok s' ∧ Inv handlers s' ∧ Worked s s' := by
  have hheld := hI.held hat (.inl rfl)
  obtain ⟨task, rest, htask, hplace, hbody, hrest⟩ := hI.task_at hat
  have hallowed : s.conn.sender.Allowed .out_ (.put (some k) task.out) := hheld
  obtain ⟨conn', heq, hworked⟩ := hI.exec_send htask hplace hbody (by simp) hallowed rfl
    (by simp [SendOp.holder]) rfl
    (fun s' htasks hholder => hI.lock_same htask htasks hholder
      (by simp [Task.Replying, hbody, hrest, after]))
    (fun j hj => by
      -- the header stays in front
      obtain ⟨xid, packet, hpacket, hreply⟩ := hI.current j hj
      exact ⟨xid, packet, hpacket, hreply.trans (List.prefix_append ..)⟩)
  refine ⟨{ s with conn := conn' }.next k task, ?_, hworked⟩
  simp only [Serving.step, htask, deref_some, heq, ok_bind, pure_eq_ok]

/-- `sconn->end_reply();` -/
theorem Inv.endReply (hat : s.At k .endReply) :
    ∃ s', s.step handlers (.endReply k) = .ok s' ∧ Inv handlers s' ∧ Worked s s' := by
  have hheld := hI.held hat (.inr rfl)
  obtain ⟨task, rest, htask, hplace, hbody, hrest⟩ := hI.task_at hat
  obtain ⟨sender', heq, hinv, hin, hholder, hcurrent, hdone⟩ :=
    hI.send_step (show s.conn.sender.Allowed .out_ (.endMessage (some k)) from hheld) rfl
      (by simp [SendOp.holder])
  let s' : Serving ω := { s with conn := { s.conn with sender := sender' }
                                 answers := s.answers ++ [(k, s.conn.sender.current)] }
  have htasks : (s'.next k task).tasks =
      Function.update s.tasks k (some { task with body := rest }) := by
    simp [s', next, setTask, hbody]
  refine ⟨s'.next k task, ?_, ?_⟩
  · simp only [Serving.step, htask, deref_some, heq, ok_bind, pure_eq_ok]
    rfl
  apply hI.wrapper htask
  · exact hinv
  · exact ⟨rfl, rfl, rfl, rfl⟩
  · exact hin
  · exact htasks
  · -- one statement less is ahead
    simp [Task.weight, hbody, Nat.mul_add]
  · -- this is the one reply of `k`
    have haccount := hI.accounts k
    rw [htask] at haccount
    refine haccount.exec hbody rfl rfl hplace rfl ?_ rfl rfl rfl
    simp [s', repliesTo, next, setTask, List.count_append]
  · -- the others have no new one
    intro j hj
    simp [s', repliesTo, next, setTask, List.count_append, Ne.symm hj]
  · intro j _
    rfl
  · -- the lock is free again
    apply hI.lock_end htasks hheld hholder
    simp [Task.Replying, hrest, after]
  · -- the message that ends is the answer
    change sender'.done.map Prod.snd = (s.answers ++ [(k, s.conn.sender.current)]).map Prod.snd
    rw [hdone, List.map_append, List.map_append, hI.appended]
    rfl
  · intro j bytes hmem
    -- the message under construction becomes an answer
    obtain hold | hnew := List.mem_append.mp hmem
    · exact hI.headers j bytes hold
    · obtain ⟨rfl, rfl⟩ : j = k ∧ bytes = s.conn.sender.current := by simpa using hnew
      exact hI.current j hheld
  · -- nobody has a message open
    intro j hj
    have hnone : none = some (some j) := hholder.symm.trans hj
    cases hnone

/-- `delete req;` -/
theorem Inv.deleteReq (hat : s.At k .deleteReq) :
    ∃ s', s.step handlers (.deleteReq k) = .ok s' ∧ Inv handlers s' ∧ Worked s s' := by
  obtain ⟨task, rest, htask, hplace, hbody, hrest⟩ := hI.task_at hat
  refine ⟨_, by simp only [Serving.step, htask, deref_some, ok_bind, pure_eq_ok]; rfl, ?_⟩
  apply hI.exec_local htask hplace hbody hrest (.inl rfl)
  · rfl
  · simp [next, setTask, count, hbody]
  · rfl
  · simp [next, setTask, count]
  · simp [next, setTask, count]
  · simp [next, setTask, count]
  · intro j hj
    exact Function.update_of_ne hj ..

/-- `sconn->release();` -/
theorem Inv.release (hat : s.At k .release) :
    ∃ s', s.step handlers (.release k) = .ok s' ∧ Inv handlers s' ∧ Worked s s' := by
  obtain ⟨task, rest, htask, hplace, hbody, hrest⟩ := hI.task_at hat
  refine ⟨_, by simp only [Serving.step, htask, deref_some, ok_bind, pure_eq_ok]; rfl, ?_⟩
  apply hI.exec_local htask hplace hbody hrest (.inr rfl)
  · rfl
  · simp [next, setTask, count, hbody]
  · rfl
  · simp [next, setTask, count]
  · simp [next, setTask, count]
  · simp [next, setTask, count]
  · intro j hj
    exact Function.update_of_ne hj ..

/-- The wrapper goes to another thread. -/
theorem Inv.moved (htask : s.tasks k = some task) {place : Place ω} (hplace : place ≠ .queued)
    (hweight : ({ task with place := place } : Task ω).weight < task.weight) :
    Inv handlers (s.setTask k { task with place := place }) ∧
      Worked s (s.setTask k { task with place := place }) := by
  apply hI.wrapper htask
  · exact hI.conn
  · exact ⟨rfl, rfl, rfl, rfl⟩
  · rfl
  · rfl
  · exact hweight
  · have haccount := hI.accounts k
    rw [htask] at haccount
    exact haccount.move hplace
  · intro j _
    rfl
  · intro j _
    rfl
  · exact hI.lock_same htask rfl rfl Iff.rfl
  · exact hI.appended
  · exact hI.headers
  · exact hI.current

/-- A worker takes a job. -/
theorem Inv.take {w : ω} (h : ∃ task, s.tasks k = some task ∧ task.place = .queued) :
    ∃ s', s.step handlers (.take w k) = .ok s' ∧ Inv handlers s' ∧ Worked s s' := by
  obtain ⟨task, htask, hqueued⟩ := h
  refine ⟨s.setTask k { task with place := .worker w }, ?_, ?_⟩
  · simp only [Serving.step, htask, deref_some, ok_bind, pure_eq_ok]
  · exact hI.moved htask (by simp) (by simp [Task.weight, hqueued])

/-- A wrapper returns. -/
theorem Inv.leave (h : ∃ task, s.tasks k = some task ∧ task.Leaves) :
    ∃ s', s.step handlers (.leave k) = .ok s' ∧ Inv handlers s' ∧ Worked s s' := by
  obtain ⟨task, htask, hplace, -⟩ := h
  refine ⟨s.setTask k { task with place := .free }, ?_, ?_⟩
  · simp only [Serving.step, htask, deref_some, ok_bind, pure_eq_ok]
  · apply hI.moved htask (by simp)
    obtain hpoll | ⟨w, hworker⟩ := hplace
    · simp [Task.weight, hpoll]
    · simp [Task.weight, hworker]

end Wrappers

end Serving

end SimpleRpc.Rpc
