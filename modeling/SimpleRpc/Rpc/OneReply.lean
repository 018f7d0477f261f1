import SimpleRpc.Rpc.WrapperSteps

/-!
# One Reply to Each Request

The poll thread, the workers and the callers of `DeferredReply::reply` go on as long as there is work,
and each of their steps keeps the accounts of all requests.

## Main results

- `Inv.step`: one step, of whatever thread
- `Inv.progress`: as long as there is work, somebody can go on
- `one_reply_of_looked`: every request is answered once, deleted once and its reference released
  once, in the runs in which `handle_read` looks at every batch
- `requests_not_looked_at`: a batch of 2^32 bytes gets no reply
-/

namespace SimpleRpc.Rpc

open SimpleRpc.Lib SimpleRpc.Base

namespace Serving

variable {ω : Type}

/-! ## One step -/

theorem Worked.scanned {s s' : Serving ω} (hw : Worked s s') (hscan : s.conn.Scanned) :
    s'.conn.Scanned := by
  intro hio
  rw [hw.in_eq]
  apply hscan
  rwa [hw.io] at hio

theorem polled_conn (s : Serving ω) (op : ServerTcpConnection.Op Nat)
    (conn : ServerTcpConnection Nat TcpFunc) : (s.polled op conn).conn = conn := by
  unfold polled
  split
  · unfold settle
    split <;> rfl
  · rfl

section Steps

variable {handlers : Int32 → Option TcpFunc} {s : Serving ω} (hI : s.Inv handlers)

include hI

/-- Requests are dispatched or wait. -/
theorem Inv.requests_eq :
    s.conn.requests = s.conn.outcomes.length + s.conn.io.waiting.length := by
  obtain ⟨old, new, hpackets, hout, hnew⟩ := hI.conn.progress
  have hlen := congrArg List.length hnew
  simp only [List.length_map] at hlen
  rw [hI.requests, hpackets, hout, List.length_append, List.length_map, hlen]

/-- A batch arrives. -/
theorem Inv.filled {W : World ConnName} {got : List UInt8}
    (hinv : (s.conn.fill W got).Inv handlers) :
    Inv handlers { s with conn := s.conn.fill W got } := by
  have hwaiting : (s.conn.fill W got).io.waiting = [] := by
    unfold ServerTcpConnection.fill
    split <;> rfl
  apply hI.quiet hinv rfl List.prefix_rfl hI.requests _ rfl (fun _ _ => rfl) rfl
  rw [hwaiting]
  rfl

/-- A packet is cut off. -/
theorem Inv.cutOff {W : World ConnName} {reqs : List Request} {xid : Int64} {packet : List UInt8}
    (hio : s.conn.io = .parsing reqs) (hinv : (s.conn.cutOff reqs W xid packet).Inv handlers) :
    Inv handlers { s with conn := s.conn.cutOff reqs W xid packet } := by
  have hrequests := hI.requests_eq
  have hnumbers := hI.numbers
  rw [hio] at hrequests hnumbers
  apply hI.quiet hinv rfl _ _ _ rfl (fun _ _ => rfl) rfl
  · exact List.prefix_append ..
  · simp [ServerTcpConnection.cutOff, hI.requests]
  · -- its number is the next one
    change (reqs ++ [(⟨s.conn.requests, xid⟩ : Request)]).map Request.m =
      List.range' s.conn.outcomes.length (reqs ++ [(⟨s.conn.requests, xid⟩ : Request)]).length
    rw [List.map_append, List.length_append, List.length_singleton, List.range'_concat]
    rw [show reqs.map Request.m = _ from hnumbers, hrequests]
    simp [Io.waiting]

/-- The loop goes on to the next request, or ends. -/
theorem Inv.dispatch {buf buf' : List UInt8} (hop : s.conn.Allowed handlers (.dispatch buf buf')) :
    ∃ s', s.step handlers (.poll (.dispatch buf buf')) = .ok s' ∧ Inv handlers s' := by
  obtain ⟨reqs, hio, hlock⟩ := hop
  cases reqs with
  | nil =>
    refine ⟨{ s with conn := { s.conn with io := .idle } }, ?_, ?_⟩
    · simp [Serving.step, ServerTcpConnection.step, ServerTcpConnection.dispatch, hio, polled]
    · exact hI.quiet (hI.conn.idle hio) rfl List.prefix_rfl hI.requests rfl rfl (fun _ _ => rfl) rfl
  | cons req reqs =>
    obtain ⟨conn', packet, heq, hd⟩ := hI.conn.dispatch_first hio (hlock req rfl) buf buf'
    refine ⟨_, ?_, hI.settle hio hd⟩
    simp [Serving.step, ServerTcpConnection.step, heq, polled, hio, hd.outcomes_eq]

/-- A step of the poll thread. -/
theorem Inv.poll {op : ServerTcpConnection.Op Nat} (hop : s.conn.Allowed handlers op)
    (hpoll : op.isPoll = true) (hgrant : s.Granted (.poll op)) :
    ∃ s', s.step handlers (.poll op) = .ok s' ∧ Inv handlers s' ∧
      ServerTcpConnection.Progress s.conn s'.conn op ∧
      (op.isRound = true → s'.conn.remaining < s.conn.remaining) := by
  obtain ⟨conn', heq, hinv, hp, hlt⟩ := hI.conn.progress_step hop (fun buf hparse => by
    subst hparse
    exact hgrant)
  have hstep : s.step handlers (.poll op) = .ok (s.polled op conn') := by
    simp only [Serving.step, heq, ok_bind, pure_eq_ok]
  refine ⟨s.polled op conn', hstep, ?_, ?_⟩
  · cases hp with
    | read hread hconn hin =>
      -- the kernel gave some bytes
      subst hconn
      exact hI.filled hinv
    | cut hio hcontent hwf hconn hin =>
      -- a packet was cut off and waits
      subst hconn
      exact hI.cutOff hio hinv
    | scanned hio hr hconn =>
      -- no whole packet is left, the second loop begins
      subst hconn
      have hnumbers := hI.numbers
      rw [hio] at hnumbers
      exact hI.quiet hinv rfl List.prefix_rfl hI.requests hnumbers rfl (fun _ _ => rfl) rfl
    | dispatched =>
      -- one request is dispatched or refused
      obtain ⟨s', heq', hinv'⟩ := hI.dispatch hop
      obtain rfl : s' = s.polled _ conn' := by simpa using heq'.symm.trans hstep
      exact hinv'
    | @sent op =>
      cases op with
      | handleWrite resps =>
        obtain ⟨sender', heq', hinv', -, hholder, hcurrent, hdone⟩ := hI.send_step hop.1 rfl hop.2.2
        obtain rfl : { s.conn with sender := sender' } = conn' := by simpa using heq'.symm.trans heq
        apply hI.quiet hinv' rfl List.prefix_rfl hI.requests hI.numbers hholder
        · intro t _
          exact hcurrent
        · exact hdone.trans (List.append_nil _)
      -- the other operations on `out_` are not those of the poll thread
      | begin | put | writeMarshal | endMessage | own => simp [ServerTcpConnection.Op.isPoll] at hpoll
  · rw [polled_conn]
    exact ⟨hp, hlt⟩

/-- **One step** of a thread returns, keeps the invariant, and brings the end of the work closer
    if no batch arrives. -/
theorem Inv.step (hscan : s.conn.Scanned) {op : ServeOp ω} (hguard : s.Guard handlers op)
    (hfit : s.Granted op ∧ s.Looks op) :
    ∃ s', s.step handlers op = .ok s' ∧ Inv handlers s' ∧ s'.conn.Scanned ∧
      (op.isInternal = true → Prod.Lex (· < ·) (· < ·) s'.work s.work) := by
  -- a wrapper leaves `in_` alone
  have hworked : (∃ s', s.step handlers op = .ok s' ∧ Inv handlers s' ∧ Worked s s') →
      ∃ s', s.step handlers op = .ok s' ∧ Inv handlers s' ∧ s'.conn.Scanned ∧
        (op.isInternal = true → Prod.Lex (· < ·) (· < ·) s'.work s.work) := by
    rintro ⟨s', heq, hinv, hw⟩
    exact ⟨s', heq, hinv, hw.scanned hscan, fun _ => hw.work⟩
  cases op with
  | poll op =>
    obtain ⟨s', heq, hinv, hp, hlt⟩ := hI.poll hguard.1 hguard.2.1 hfit.1
    refine ⟨s', heq, hinv, hscan.step hguard.1 ?_ (fun _ _ => id) hp,
      fun hround => Prod.Lex.left _ _ (hlt hround)⟩
    intro avail resps hread
    subst hread
    exact hfit.2
  | take w k => exact hworked (hI.take hguard.1)
  | readArgs k bufs => exact hworked (hI.readArgs hguard hfit.1)
  | call k out => exact hworked (hI.call hguard.1)
  | beginReply k buf buf' => exact hworked (hI.beginReply hguard.1 hguard.2)
  | writeRets k => exact hworked (hI.writeRets hguard)
  | endReply k => exact hworked (hI.endReply hguard)
  | deleteReq k => exact hworked (hI.deleteReq hguard)
  | release k => exact hworked (hI.release hguard)
  | leave k => exact hworked (hI.leave hguard)

/-! ## Progress -/

omit hI in
/-- A wrapper that was started can go on if the lock is free. -/
theorem started_progress {k : Nat} {task : Task ω} (htask : s.tasks k = some task)
    (hplace : task.place ≠ .queued) (hbusy : ¬ (task.body = [] ∧ task.place = .free))
    (hfree : s.conn.sender.holder = none) :
    ∃ op, op.isInternal = true ∧ s.Guard handlers op := by
  cases hbody : task.body with
  | nil =>
    -- nothing is left but to return
    refine ⟨.leave k, rfl, task, htask, ?_, .inl hbody⟩
    cases hp : task.place with
    | queued => exact absurd hp hplace
    | poll => exact .inl rfl
    | worker w => exact .inr ⟨w, rfl⟩
    | free => exact absurd ⟨hbody, hp⟩ hbusy
  | cons stmt rest =>
    -- each statement has its own operation, all of them allowed here
    have hat : s.At k stmt := ⟨task, htask, hplace, by rw [hbody]; rfl⟩
    cases stmt with
    | readArgs => exact ⟨.readArgs k fun _ => [], rfl, hat⟩
    | call =>
      obtain ⟨x⟩ := task.func.output.nonempty_obj
      refine ⟨.call k (task.func.output.value x), rfl, hat, ?_⟩
      intro task' htask'
      obtain rfl : task = task' := by simpa using htask.symm.trans htask'
      exact ⟨x, rfl⟩
    | beginReply => exact ⟨.beginReply k [] [], rfl, hat, hfree⟩
    | writeRets => exact ⟨.writeRets k, rfl, hat⟩
    | endReply => exact ⟨.endReply k, rfl, hat⟩
    | deleteReq => exact ⟨.deleteReq k, rfl, hat⟩
    | release => exact ⟨.release k, rfl, hat⟩

/-- The holder of the lock can go on. -/
theorem Inv.holder_progress {k : Nat} (hheld : s.conn.sender.holder = some (some k)) :
    ∃ op, op.isInternal = true ∧ s.Guard handlers op := by
  obtain ⟨task, htask, hrep⟩ := (hI.lock k).mp hheld
  have haccount := hI.accounts k
  rw [htask] at haccount
  have hplace : task.place ≠ .queued := by
    intro hqueued
    have hbody := haccount.queued_body hqueued
    rw [emitWrapper_eq] at hbody
    simp [Task.Replying, hbody] at hrep
  obtain hwrite | hend := hrep
  · exact ⟨.writeRets k, rfl, task, htask, hplace, hwrite⟩
  · exact ⟨.endReply k, rfl, task, htask, hplace, hend⟩

omit hI in
/-- `handle_read` can go on when no wrapper is left. -/
theorem round_progress (hdone : ∀ k task, s.tasks k = some task → task.place = .free)
    (hfree : s.conn.sender.holder = none) (hio : s.conn.io ≠ .idle) :
    ∃ op, op.isInternal = true ∧ s.Guard handlers op := by
  have hpoll : ∀ k task, s.tasks k = some task → task.place ≠ .poll := by
    intro k task htask
    rw [hdone k task htask]
    simp
  cases hs : s.conn.io with
  | idle => exact absurd hs hio
  | parsing reqs => exact ⟨.poll (.parse []), rfl, ⟨reqs, hs⟩, rfl, hpoll⟩
  | dispatching reqs =>
    exact ⟨.poll (.dispatch [] []), rfl, ⟨reqs, hs, fun _ _ _ => hfree⟩, rfl, hpoll⟩

/-- **Progress**: as long as there is work, somebody can go on. -/
theorem Inv.progress [Nonempty ω] (hbusy : ¬ s.Quiescent) :
    ∃ op, op.isInternal = true ∧ s.Guard handlers op := by
  cases hholder : s.conn.sender.holder with
  | some t =>
    cases t with
    | none => exact absurd hholder hI.conn.not_io
    | some k => exact hI.holder_progress hholder
  | none =>
    by_cases hstarted : ∃ k task, s.tasks k = some task ∧ task.place ≠ .queued ∧
        ¬ (task.body = [] ∧ task.place = .free)
    · obtain ⟨k, task, htask, hplace, hleft⟩ := hstarted
      exact started_progress htask hplace hleft hholder
    push Not at hstarted
    by_cases hqueued : ∃ k task, s.tasks k = some task ∧ task.place = .queued
    · -- no worker has a job
      obtain ⟨k, task, htask, hplace⟩ := hqueued
      obtain ⟨w⟩ := ‹Nonempty ω›
      refine ⟨.take w k, rfl, ⟨task, htask, hplace⟩, ?_⟩
      intro k' task' htask' hworker
      have hfree := (hstarted k' task' htask' (by simp [hworker])).2
      simp [hworker] at hfree
    push Not at hqueued
    apply round_progress _ hholder
    · intro hidle
      exact hbusy ⟨hidle, fun k task htask => hstarted k task htask (hqueued k task htask)⟩
    · intro k task htask
      exact (hstarted k task htask (hqueued k task htask)).2

/-- When `handle_read` has returned, every packet was dispatched. -/
theorem Inv.outcomes_length (hidle : s.conn.io = .idle) :
    s.conn.outcomes.length = s.conn.packets.length := by
  have hrequests := hI.requests_eq
  rw [hidle] at hrequests
  rw [← hI.requests, hrequests]
  rfl

theorem Inv.oneReply [Nonempty ω] (hscan : s.conn.Scanned) :
    s.OneReply handlers fun s op => s.Granted op ∧ s.Looks op where
  returns op hguard hfit := by
    obtain ⟨s', heq, -⟩ := hI.step hscan hguard hfit
    exact ⟨s', heq⟩
  live := hI.progress
  ends op s' hguard hfit hinternal hstep := by
    obtain ⟨s'', heq, -, -, hlt⟩ := hI.step hscan hguard hfit
    obtain rfl : s'' = s' := by simpa using heq.symm.trans hstep
    exact hlt hinternal
  stream := hI.conn.stream
  appended := hI.appended
  header := hI.headers
  atMost k := (hI.accounts k).atMost
  exactly := by
    rintro ⟨hidle, hend⟩
    refine ⟨hscan (by simp [hidle]), ?_⟩
    intro k hk
    rw [← hI.outcomes_length hidle] at hk
    apply (hI.accounts k).exactly
    · rw [List.getElem?_eq_getElem hk]
      rfl
    · intro task htask
      exact (hend k task htask).1

end Steps

/-! ## Whole runs -/

/-- **One reply to each request**: in every run of the poll thread, of the workers and of the
    callers of `DeferredReply::reply` in which `handle_read` looks at every batch, nothing aborts,
    the work ends, no request is answered, deleted or released twice, and at the end every request
    was answered with its `xid` and its error code, deleted and released. -/
theorem one_reply_of_looked [Nonempty ω] (handlers : Int32 → Option TcpFunc) (h : Heap)
    (ops : List (ServeOp ω)) (s : Serving ω)
    (hrun : Steps (Next handlers fun s op => s.Granted op ∧ s.Looks op) (init h) ops s) :
    s.OneReply handlers fun s op => s.Granted op ∧ s.Looks op := by
  have hI : s.Inv handlers ∧ s.conn.Scanned := by
    apply Steps.invariant (P := fun s => s.Inv handlers ∧ s.conn.Scanned) _ hrun
    · exact ⟨inv_init handlers h, fun _ => not_frameReady_nil⟩
    · rintro s op s' ⟨hI, hscan⟩ ⟨hguard, hfit, hstep⟩
      obtain ⟨s'', heq, hinv, hscan', -⟩ := hI.step hscan hguard hfit
      obtain rfl : s'' = s' := by simpa using heq.symm.trans hstep
      exact ⟨hinv, hscan'⟩
  exact hI.1.oneReply hI.2

/-! ## Runs of one worker -/

section Checks

/-- Checks that the wrapper of request `k` is running, in front of `stmt`. -/
def runs (s : Serving Unit) (k : Nat) (stmt : Stmt) : Bool :=
  (s.tasks k).any fun task => task.place ≠ .queued ∧ task.body.head? = some stmt

/-- Checks that no wrapper is at `place`. -/
def vacant (s : Serving Unit) (place : Place Unit) : Bool :=
  (List.range s.conn.requests).all fun k => (s.tasks k).all fun task => task.place ≠ place

/-- Checks that a step can be taken, and that it is granted and looks at its batch. What a function
    returns is not checked. -/
def ready (s : Serving Unit) : ServeOp Unit → Bool
  | .poll op => s.conn.ready op && s.conn.fits op && op.isPoll && s.vacant .poll
  | .take w k => ((s.tasks k).any fun task => task.place = .queued) && s.vacant (.worker w)
  | .readArgs k bufs => s.runs k .readArgs && (s.tasks k).all fun task =>
      (s.conn.world.run (.slice k) (task.func.input.get bufs)).toOption.isSome
  | .call k _ => s.runs k .call
  | .beginReply k _ _ => s.runs k .beginReply && s.conn.sender.holder.isNone
  | .writeRets k => s.runs k .writeRets
  | .endReply k => s.runs k .endReply
  | .deleteReq k => s.runs k .deleteReq
  | .release k => s.runs k .release
  | .leave k => (s.tasks k).any fun task => task.place ≠ .queued ∧ task.place ≠ .free ∧
      (task.body = [] ∨ (.defer ∈ task.func.attrs ∧ task.body.head? ≠ some .readArgs))

variable {handlers : Int32 → Option TcpFunc} {s : Serving Unit}

theorem at_of_runs {k : Nat} {stmt : Stmt} (h : s.runs k stmt = true) : s.At k stmt := by
  obtain ⟨task, htask, hat⟩ := (Option.any_eq_true _ _).mp h
  obtain ⟨hplace, hhead⟩ := of_decide_eq_true hat
  exact ⟨task, htask, hplace, hhead⟩

/-- Only requests that were dispatched have wrappers, each of a function with a handler. -/
theorem Inv.task_handled (hI : s.Inv handlers) {k : Nat} {task : Task Unit}
    (htask : s.tasks k = some task) :
    k < s.conn.requests ∧ ∃ rpcId, handlers rpcId = some task.func := by
  have haccount := hI.accounts k
  rw [htask] at haccount
  obtain ⟨outcome, hout, rpcId, args, houtcome⟩ : ∃ outcome, s.conn.outcomes[k]? = some outcome ∧
      ∃ rpcId args, outcome = .handed task.func task.xid rpcId args := by
    cases hk : s.conn.outcomes[k]? with
    | none =>
      rw [hk] at haccount
      cases haccount
    | some outcome =>
      rw [hk] at haccount
      cases haccount with
      | handed houtcome => exact ⟨outcome, rfl, houtcome⟩
  subst houtcome
  obtain ⟨hlt, -⟩ := List.getElem?_eq_some_iff.mp hout
  refine ⟨by rw [hI.requests_eq]; omega, ?_⟩
  -- its outcome is what its packet deserves
  obtain ⟨old, new, -, houtcomes, -⟩ := hI.conn.progress
  rw [houtcomes, List.getElem?_map] at hout
  obtain ⟨pk, -, hpk⟩ := Option.map_eq_some_iff.mp hout
  simp only [ServerTcpConnection.outcomeOf] at hpk
  split at hpk
  · -- a packet without an rpc id is refused
    cases hpk
  · split at hpk
    · -- the lookup has found the handler
      rename_i handler hhandler
      obtain ⟨rfl, -⟩ := Outcome.handed.inj hpk
      exact ⟨_, hhandler⟩
    · -- an unknown rpc id is refused
      cases hpk

theorem Inv.of_vacant (hI : s.Inv handlers) {place : Place Unit} (h : s.vacant place = true) (k : Nat)
    (task : Task Unit) (htask : s.tasks k = some task) : task.place ≠ place := by
  have hk := List.all_eq_true.mp h k (List.mem_range.mpr (hI.task_handled htask).1)
  rw [htask] at hk
  exact of_decide_eq_true hk

/-- A step that was checked is one of the steps in question, if functions return what they declare. -/
theorem Inv.next_of_ready (hI : s.Inv handlers) {op : ServeOp Unit} {s' : Serving Unit}
    (hout : ∀ k out, op = .call k out → ∀ rpcId func, handlers rpcId = some func →
      ∃ x, out = func.output.value x)
    (hop : s.ready op = true) (hstep : s.step handlers op = .ok s') :
    s.Next handlers (fun s op => s.Granted op ∧ s.Looks op) op s' := by
  cases op with
  | poll op =>
    simp only [ready, Bool.and_eq_true] at hop
    obtain ⟨⟨⟨hready, hfits⟩, hpoll⟩, hvacant⟩ := hop
    refine ⟨⟨ServerTcpConnection.allowed_of_ready _ hready, hpoll, hI.of_vacant hvacant⟩, ?_, hstep⟩
    have hfit := ServerTcpConnection.fit_of_fits hfits
    cases op with
    | readFd avail resps => exact ⟨trivial, hfit⟩
    -- no frame is too small for its xid
    | parse buf => exact ⟨mt Malformed.tooShort hfit, trivial⟩
    | dispatch _ _ | send _ => exact ⟨trivial, trivial⟩
  | take w k =>
    simp only [ready, Bool.and_eq_true] at hop
    obtain ⟨task, htask, hqueued⟩ := (Option.any_eq_true _ _).mp hop.1
    exact ⟨⟨⟨task, htask, of_decide_eq_true hqueued⟩, hI.of_vacant hop.2⟩, ⟨trivial, trivial⟩, hstep⟩
  | readArgs k bufs =>
    -- the arguments can be read
    simp only [ready, Bool.and_eq_true] at hop
    refine ⟨at_of_runs hop.1, ⟨fun task htask => ?_, trivial⟩, hstep⟩
    have hrun := hop.2
    rw [htask, Option.all_some] at hrun
    cases hr : s.conn.world.run (.slice k) (task.func.input.get bufs) with
    | ok r => exact ⟨r, rfl⟩
    | error e =>
      rw [hr] at hrun
      cases hrun
  | call k out =>
    -- the function returns what it declares
    refine ⟨⟨at_of_runs hop, fun task htask => ?_⟩, ⟨trivial, trivial⟩, hstep⟩
    obtain ⟨rpcId, hhandler⟩ := (hI.task_handled htask).2
    exact hout k out rfl rpcId task.func hhandler
  | beginReply k buf buf' =>
    simp only [ready, Bool.and_eq_true] at hop
    exact ⟨⟨at_of_runs hop.1, Option.isNone_iff_eq_none.mp hop.2⟩, ⟨trivial, trivial⟩, hstep⟩
  | writeRets k | endReply k | deleteReq k | release k =>
    exact ⟨at_of_runs hop, ⟨trivial, trivial⟩, hstep⟩
  | leave k =>
    obtain ⟨task, htask, hleaves⟩ := (Option.any_eq_true _ _).mp hop
    obtain ⟨hqueued, hfree, hbody⟩ := of_decide_eq_true hleaves
    refine ⟨⟨task, htask, ?_, hbody⟩, ⟨trivial, trivial⟩, hstep⟩
    cases hplace : task.place with
    | queued => exact absurd hplace hqueued
    | poll => exact .inl rfl
    | worker w => exact .inr ⟨w, rfl⟩
    | free => exact absurd hplace hfree

/-- A run is found by evaluation. -/
theorem reach_of_checked {ops : List (ServeOp Unit)}
    (hout : ∀ k out, .call k out ∈ ops → ∀ rpcId func, handlers rpcId = some func →
      ∃ x, out = func.output.value x) {P : Serving Unit → Prop} [DecidablePred P]
    (hrun : (ops.foldlM (checked ready (Serving.step handlers)) (init .empty)).any (P ·) = true) :
    ∃ s, Steps (Next handlers fun s op => s.Granted op ∧ s.Looks op) (init .empty) ops s ∧ P s := by
  obtain ⟨s, hchecked, hP⟩ := Steps.reach_of_checked _ _
    (R := fun s op s' => s.ready op = true ∧ s.step handlers op = .ok s')
    (fun _ _ _ hop hstep => ⟨hop, hstep⟩) hrun
  refine ⟨s, ?_, hP⟩
  apply hchecked.mem.refine id (P := fun s => s.Inv handlers ∧ s.conn.Scanned)
  · rintro s op s' ⟨hI, hscan⟩ ⟨hmem, hop, hstep⟩
    have hnext := hI.next_of_ready (fun k out heq => hout k out (heq ▸ hmem)) hop hstep
    obtain ⟨s'', heq, hinv, hscan', -⟩ := hI.step hscan hnext.1 hnext.2.1
    obtain rfl : s'' = s' := by simpa using heq.symm.trans hstep
    exact ⟨⟨hinv, hscan'⟩, hnext⟩
  · exact ⟨inv_init handlers .empty, fun _ => not_frameReady_nil⟩

end Checks

/-- `defer later(i32 x | i32 y)` -/
def later : TcpFunc where
  attrs := [.defer]
  input := .cons "x" (.leaf .i32) .nil
  output := .cons "y" (.leaf .i32) .nil
  not_raw := by decide
  not_udp := by decide

/-- `now(i32 x | i32 y)` -/
def now : TcpFunc := { later with attrs := [], not_raw := by decide, not_udp := by decide }

/-- A server with these two functions. -/
def handleBoth (rpcId : Int32) : Option TcpFunc :=
  if rpcId = 7 then some later else if rpcId = 9 then some now else none

/-- What both of them return. -/
def returned (y : Int32) : Value :=
  Fields.value (.cons "y" (.leaf .i32) .nil) (y, ())

/-- Three requests: the function of the first one replies later, the second one has no handler, and a
    worker runs the function of the third one. -/
def threeRequests : List (ServeOp Unit) :=
  [.poll (.readFd (frame [1, 7, 0, 0, 0, 5, 0, 0, 0] ++ frame [2, 8, 0, 0, 0] ++
      frame [3, 9, 0, 0, 0, 6, 0, 0, 0]) [40]),
    .poll (.parse []), .poll (.parse []), .poll (.parse []), .poll (.parse []),
    -- the first function returns without a reply
    .poll (.dispatch [] []), .readArgs 0 fun _ => [], .call 0 (returned 50), .leave 0,
    .poll (.dispatch [] []), .poll (.dispatch [] []), .poll (.dispatch [] []),
    -- a worker
    .take () 2, .readArgs 2 fun _ => [], .call 2 (returned 60), .beginReply 2 [] [], .writeRets 2,
    .endReply 2, .deleteReq 2, .release 2, .leave 2,
    -- and then `DeferredReply::reply`
    .beginReply 0 [] [], .writeRets 0, .endReply 0, .deleteReq 0, .release 0]

/-- Each of the three requests has got its reply, in the order in which the replies were made. -/
theorem one_reply_of_looked_three_requests :
    ∃ s : Serving Unit, Steps (Next handleBoth fun s op => s.Granted op ∧ s.Looks op)
        (init .empty) threeRequests s ∧
      (s.conn.io = .idle ∧ s.answers = [(1, [2, 2]), (2, [3, 0, 60, 0, 0, 0]),
        (0, [1, 0, 50, 0, 0, 0])]) ∧
      s.OneReply handleBoth fun s op => s.Granted op ∧ s.Looks op := by
  obtain ⟨s, hrun, hs⟩ : ∃ s : Serving Unit,
      Steps (Next handleBoth fun s op => s.Granted op ∧ s.Looks op) (init .empty) threeRequests s ∧
      (s.conn.io = .idle ∧ s.answers = [(1, [2, 2]), (2, [3, 0, 60, 0, 0, 0]),
        (0, [1, 0, 50, 0, 0, 0])]) := by
    apply reach_of_checked
    · -- both functions declare the same results
      intro k out hcall rpcId func hfunc
      have houtput : func.output = .cons "y" (.leaf .i32) .nil := by
        simp only [handleBoth] at hfunc
        split at hfunc
        · cases hfunc
          rfl
        · split at hfunc <;> cases hfunc
          rfl
      obtain ⟨y, rfl⟩ : ∃ y, out = returned y := by
        simp [threeRequests] at hcall
        obtain ⟨-, rfl⟩ | ⟨-, rfl⟩ := hcall <;> exact ⟨_, rfl⟩
      rw [houtput]
      exact ⟨(y, ()), rfl⟩
    · decide +kernel
  exact ⟨s, hrun, hs, one_reply_of_looked _ _ _ s hrun⟩

/-- The first batch of a connection, if all of it arrives at once. -/
theorem first_batch (handlers : Int32 → Option TcpFunc) (bytes : List UInt8) :
    ∃ conn : ServerTcpConnection Nat TcpFunc,
      (init .empty : Serving ω).step handlers (.poll (.readFd bytes (.replicate bytes.length 1))) =
        .ok { (init .empty : Serving ω) with conn := conn } ∧
      conn.Inv handlers ∧ conn.world.content .in_ = bytes ∧
      conn.io = (if bytes.length % 2 ^ 32 = 0 then .idle else .parsing []) ∧
      ((bytes.length % 2 ^ 32 = 0 → bytes = []) →
        (init .empty : Serving ω).Looks (.poll (.readFd bytes (.replicate bytes.length 1)))) := by
  have hinit := ServerTcpConnection.inv_init (κ := Nat) handlers .empty
  obtain ⟨W, hall⟩ : ∃ W, (init .empty : Serving ω).conn.world.readFromFd .in_ bytes
      (.replicate bytes.length 1) = .ok (W, [], bytes) :=
    World.readFromFd_all hinit.sender.world.ok.ok .in_ bytes (by simp) (by simp)
  obtain ⟨W', k, heq, hread, hinv, hcontent⟩ := hinit.readFd rfl bytes (.replicate bytes.length 1)
  obtain ⟨-, -, hgot⟩ : W' = W ∧ bytes.drop k = [] ∧ bytes.take k = bytes := by
    simpa using hread.symm.trans hall
  rw [hgot] at heq hinv hcontent
  refine ⟨_, ?_, hinv, hcontent, rfl, ?_⟩
  · change ((init .empty : Serving ω).conn.step handlers _ >>= _) = _
    simp only [ServerTcpConnection.step, init, heq, ok_bind, pure_eq_ok]
    rfl
  · intro hzero W'' rest got hread' hmod
    obtain ⟨-, -, rfl⟩ : W = W'' ∧ [] = rest ∧ bytes = got := by
      simpa using hall.symm.trans hread'
    exact hzero hmod

/-- Two requests of 2^31 bytes each that arrive at once, in a batch of 2^32 bytes, get no reply. -/
theorem requests_not_looked_at :
    ¬ ∀ (ops : List (ServeOp Unit)) (s : Serving Unit),
      Steps (Next (fun _ => none) Granted) (init .empty) ops s →
        s.OneReply (fun _ => none) Granted := by
  intro hclaim
  obtain ⟨p, hlen⟩ : ∃ p : List UInt8, p.length = 2 ^ 31 - 4 :=
    ⟨List.replicate (2 ^ 31 - 4) 1, List.length_replicate⟩
  have hbatch : (frame p ++ frame p).length = 2 ^ 32 := by
    rw [List.length_append, frame_length, hlen]
    decide
  obtain ⟨conn, hstep, -, hcontent, hio, -⟩ :=
    first_batch (ω := Unit) (fun _ => none) (frame p ++ frame p)
  have hfirst : Next (fun _ => none) Granted (init .empty)
      (.poll (.readFd (frame p ++ frame p) (.replicate (frame p ++ frame p).length 1)))
      { (init .empty : Serving Unit) with conn := conn } :=
    ⟨⟨rfl, rfl, by simp [init]⟩, trivial, hstep⟩
  -- `handle_read` has returned, and nothing else happens
  have hquiet : Quiescent { (init .empty : Serving Unit) with conn := conn } := by
    refine ⟨?_, by simp [init]⟩
    rw [hbatch] at hio
    exact hio
  obtain ⟨hnot, -⟩ := (hclaim _ _ (.cons hfirst (.nil _))).exactly hquiet
  apply hnot
  change FrameReady (conn.world.content .in_)
  rw [hcontent]
  exact frameReady_frame (by omega) _

end Serving

end SimpleRpc.Rpc
