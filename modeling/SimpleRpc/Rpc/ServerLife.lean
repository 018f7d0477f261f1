import SimpleRpc.Rpc.Closing
import Mathlib.Data.Finset.Card
import Mathlib.Data.Fintype.Basic

/-!
# The End of a Server

`server_loop` accepts sockets and makes connections of them. `~Server` waits for `server_loop`, copies
`sconns_` and calls `close()` for each connection of the copy, while the poll thread may call `close()`
for the same connections, and while handlers still refer to them. Then it waits until `sconns_ctr_` is
zero.

## Layers

- **Code**: `ServerLife.step`, a Server with its connections: one step for each access to `status_`,
  critical section of `sconns_l_`, system call and change of a reference count
- **System**: `ServerLife.Guard`, any interleaving of `server_loop`, `~Server`, the poll thread and
  handlers
- **Invariant**: `ServerLife.Inv`, with `TcpConn.Ok` for each connection

## Main results

- `Inv.closeStep`, `Inv.enlist`, `Inv.register`, `Inv.giveBack`: the steps that change a connection
- `Inv.frame`: the steps that do not

## Model

An object that was destroyed is not followed any further: a `close()` for it is a fault. A PollThread
calls handlers for the connections that it refers to, and releases a connection when no `handle_error`
of it is running, because it is the same thread that does both. Handlers pass their references around
as they like. A connection is named by the socket that `accept` has returned for it.
-/

namespace SimpleRpc.Rpc

open SimpleRpc.Lib

/-- A ServerUdpConnection. -/
structure UdpConn where
  refCnt : Nat
  polled : Polled
  /-- ghost: `udp_conn_` has its reference -/
  own : Bool
  /-- ghost: the references of handlers -/
  handlers : Nat

/-- `new ServerUdpConnection(this, udp_sock_)`, with the reference of `udp_conn_`, and
    `pollmgr_->add(udp_conn_)`, which takes another one if `udp_sock_` is not -1. -/
def UdpConn.fresh (sock : Bool) : UdpConn :=
  if sock then { refCnt := 2, polled := .registered, own := true, handlers := 0 }
  else { refCnt := 1, polled := .apart, own := true, handlers := 0 }

/-! ## The state of a Server -/

/-- `status_` of a Server -/
inductive ServerStatus where
  | new
  | running
  | stopping
  | stopped
  deriving DecidableEq

/-- Where `server_loop` is. -/
inductive ServerLoopAt (τ : Type) where
  /-- not started -/
  | idle
  /-- in front of `if (udp_)` -/
  | begun
  /-- in front of `while (status_ == RUNNING)`, or in `select` -/
  | accepting
  /-- behind `if (status_ != RUNNING) break;`, in front of `accept` -/
  | ready
  /-- `accept` has returned this socket -/
  | returned (p : τ)
  /-- and `status_ == RUNNING` was found again -/
  | accepted (p : τ)
  /-- in front of `pollmgr_->add(sconn);` -/
  | admitting (p : τ)
  | ended
  deriving DecidableEq

/-- Where `~Server` is. -/
inductive DtorAt (τ : Type) where
  /-- not called -/
  | alive
  /-- in `Pthread_join` -/
  | joining
  /-- in front of the copy of `sconns_` -/
  | copying
  /-- in front of the rest of the copy -/
  | closing (ps : List τ)
  /-- in `it->close();` -/
  | calling (p : τ) (ps : List τ)
  /-- in front of `udp_conn_->release();` -/
  | udpReleasing
  /-- in front of the waiting loop -/
  | waiting
  /-- behind it -/
  | passed
  deriving DecidableEq

/-- Who has `sconns_l_`. -/
inductive LockHolder (τ : Type) where
  | loop
  | closer (p : τ) (who : Caller)
  deriving DecidableEq

/-- A Server, with its connections. -/
structure ServerLife (τ : Type) where
  status : ServerStatus
  loop : ServerLoopAt τ
  dtor : DtorAt τ
  lock : Option (LockHolder τ)
  conn : τ → TcpConn
  /-- `sconns_ctr_` -/
  ctr : Int
  /-- `udp_` -/
  udp : Bool
  /-- `udp_sock_` is not -1 -/
  udpSock : Bool
  udpConn : Option UdpConn
  /-- ghost: the sockets that `accept` has returned -/
  accepted : Finset τ
  /-- ghost: the connections that were constructed -/
  made : Finset τ
  /-- ghost: those that were destroyed -/
  dead : Finset τ

/-- One step. -/
inductive LifeOp (τ : Type) where
  | enableUdp
  /-- a `start` that succeeds -/
  | start
  /-- `if (udp_)` at the beginning of `server_loop` -/
  | loopBegin
  /-- `select` returns, and `status_` is still RUNNING -/
  | select
  /-- `accept` returns a socket -/
  | accept (p : τ)
  /-- `accept` returns -1 -/
  | acceptNone
  /-- `if (clnt_socket >= 0 && status_ == RUNNING)` -/
  | testStatus
  /-- `sconns_l_.lock();`, `new ServerTcpConnection`, `sconns_.insert(sconn);` -/
  | enlist (p : τ)
  /-- `pollmgr_->add(sconn); sconns_l_.unlock();` -/
  | register (p : τ)
  /-- `status_ = STOPPED;` -/
  | loopEnd
  /-- `~Server` up to `Pthread_join` -/
  | destroy
  | join
  /-- `vector<ServerConnection*> sconns(..);` -/
  | snapshot (ps : List τ)
  /-- `it->close();` is called -/
  | call
  | callReturn
  /-- a `close` goes on -/
  | closeStep (p : τ) (who : Caller)
  /-- `if (udp_) pollmgr_->remove(udp_conn_);` -/
  | removeUdp
  /-- `udp_conn_->release();` -/
  | releaseUdp
  /-- `sconns_ctr_.peek_next() <= 0` -/
  | leave
  /-- the poll thread calls `handle_error` -/
  | pollError (p : τ)
  /-- the poll thread releases what it has drained -/
  | drain (p : τ)
  /-- `this->ref_copy()` for a handler -/
  | refCopy (p : τ)
  /-- `sconn->release();` by a handler -/
  | handlerRelease (p : τ)
  | udpDrain
  | udpRefCopy
  | udpHandlerRelease

namespace DtorAt

variable {τ : Type}

/-- The connections for which `close()` is still to be called. -/
def ahead : DtorAt τ → List τ
  | .closing ps | .calling _ ps => ps
  | _ => []

end DtorAt

namespace ServerLife

variable {τ : Type} [DecidableEq τ]

omit [DecidableEq τ] in
/-- `Server(pollmgr, thrpool)` -/
def init : ServerLife τ where
  status := .new
  loop := .idle
  dtor := .alive
  lock := none
  conn _ := .blank
  ctr := 0
  udp := false
  udpSock := false
  udpConn := none
  accepted := ∅
  made := ∅
  dead := ∅

/-! ## The code -/

/-- A connection changes. -/
def set (s : ServerLife τ) (p : τ) (c : TcpConn) : ServerLife τ :=
  { s with conn := Function.update s.conn p c }

/-- `release()` of a connection that is `c` so far, and `~ServerTcpConnection` -/
def release (s : ServerLife τ) (p : τ) (c : TcpConn) : Except Fault (ServerLife τ) := do
  verify (0 < c.refCnt)
  pure { s with
         conn := Function.update s.conn p { c with refCnt := c.refCnt - 1 }
         dead := if c.refCnt = 1 then insert p s.dead else s.dead
         ctr := if c.refCnt = 1 then s.ctr - 1 else s.ctr }

/-- `ServerTcpConnection::close`, one step of the call by `who`. -/
def closeStep (s : ServerLife τ) (p : τ) (who : Caller) : Except Fault (ServerLife τ) :=
  if p ∈ s.dead then .error .badPointer
  else
    let c := s.conn p
    match c.closing who with
    | none => pure s
    | some .entered => pure (s.set p (c.goto who (if c.closed then none else some .tested)))
    | some .tested =>
      if c.listed then
        pure { s.set p (({ c with listed := false }.acts who .erase).goto who (some .erased)) with
               lock := some (.closer p who) }
      else
        -- another thread has already calling close()
        pure (s.set p (c.goto who none))
    | some .erased =>
      pure { s.set p (({ c with polled := c.polled.remove }.acts who .remove).goto who
               (some .removed)) with
             lock := none }
    | some .removed => pure (s.set p ({ c with closed := true }.goto who (some .marked)))
    | some .marked => pure (s.set p ((c.acts who .closeFd).goto who (some .closedFd)))
    | some .closedFd => s.release p ((c.acts who .drop).goto who none)

/-- `release()` of the UDP connection, which is `u` so far -/
def releaseUdpConn (s : ServerLife τ) (u : UdpConn) : Except Fault (ServerLife τ) := do
  verify (0 < u.refCnt)
  pure { s with udpConn := some { u with refCnt := u.refCnt - 1 } }

/-- What each step does. -/
def step (s : ServerLife τ) : LifeOp τ → Except Fault (ServerLife τ)
  | .enableUdp => pure { s with udp := true }
  | .start => pure { s with status := .running, loop := .begun, udpSock := s.udp }
  | .loopBegin =>
    if s.udp then pure { s with loop := .accepting, udpConn := some (.fresh s.udpSock) }
    else pure { s with loop := .accepting }
  | .select => pure { s with loop := .ready }
  | .accept p => pure { s with loop := .returned p, accepted := insert p s.accepted }
  | .acceptNone => pure { s with loop := .accepting }
  | .testStatus =>
    match s.loop with
    | .returned p =>
      if s.status = .running then pure { s with loop := .accepted p }
      -- nobody knows the socket any more
      else pure { s with loop := .accepting }
    | _ => pure s
  | .enlist p =>
    pure { s.set p .fresh with
           lock := some .loop, loop := .admitting p, ctr := s.ctr + 1, made := insert p s.made }
  | .register p =>
    let c := s.conn p
    pure { s.set p { c with refCnt := c.refCnt + 1, polled := .registered } with
           lock := none, loop := .accepting }
  | .loopEnd =>
    pure { s with loop := .ended, status := .stopped, udpSock := if s.udp then false else s.udpSock }
  | .destroy =>
    if s.status = .running then pure { s with status := .stopping, dtor := .joining }
    else pure { s with dtor := .copying }
  | .join => do
    verify (s.status = .stopped)
    pure { s with dtor := .copying }
  | .snapshot ps => pure { s with dtor := .closing ps }
  | .call =>
    match s.dtor with
    | .closing (p :: ps) =>
      if p ∈ s.dead then .error .badPointer
      else pure { s.set p ((s.conn p).goto .dtor (some .entered)) with dtor := .calling p ps }
    | _ => pure s
  | .callReturn =>
    match s.dtor with
    | .calling _ ps => pure { s with dtor := .closing ps }
    | _ => pure s
  | .closeStep p who => s.closeStep p who
  | .removeUdp =>
    if s.udp then
      match s.udpConn with
      | none => .error .badPointer
      | some u => pure { s with udpConn := some { u with polled := u.polled.remove }
                                dtor := .udpReleasing }
    else pure { s with dtor := .waiting }
  | .releaseUdp =>
    match s.udpConn with
    | none => .error .badPointer
    | some u => { s with dtor := .waiting }.releaseUdpConn { u with own := false }
  | .leave => do
    verify (s.ctr = 0)
    pure { s with dtor := .passed }
  | .pollError p => pure (s.set p ((s.conn p).goto .poll (some .entered)))
  | .drain p => s.release p { s.conn p with polled := .drained }
  | .refCopy p =>
    let c := s.conn p
    pure (s.set p { c with refCnt := c.refCnt + 1, handlers := c.handlers + 1 })
  | .handlerRelease p =>
    let c := s.conn p
    s.release p { c with handlers := c.handlers - 1 }
  | .udpDrain =>
    match s.udpConn with
    | none => pure s
    | some u => s.releaseUdpConn { u with polled := .drained }
  | .udpRefCopy =>
    match s.udpConn with
    | none => pure s
    | some u =>
      pure { s with udpConn := some { u with refCnt := u.refCnt + 1, handlers := u.handlers + 1 } }
  | .udpHandlerRelease =>
    match s.udpConn with
    | none => pure s
    | some u => s.releaseUdpConn { u with handlers := u.handlers - 1 }

/-! ## The system -/

/-- When a step can be taken. -/
def Guard (s : ServerLife τ) : LifeOp τ → Prop
  | .enableUdp => s.dtor = .alive
  | .start => s.dtor = .alive ∧ s.status = .new
  | .loopBegin => s.loop = .begun
  | .select => s.loop = .accepting ∧ s.status = .running
  | .accept p => s.loop = .ready ∧ p ∉ s.accepted
  | .acceptNone => s.loop = .ready
  | .testStatus => ∃ p, s.loop = .returned p
  | .enlist p => s.loop = .accepted p ∧ s.lock = none
  | .register p => s.loop = .admitting p
  | .loopEnd => s.loop = .accepting ∧ s.status ≠ .running
  | .destroy => s.dtor = .alive
  | .join => s.dtor = .joining ∧ s.loop = .ended
  | .snapshot ps => s.dtor = .copying ∧ s.lock = none ∧ ps.Nodup ∧
      ∀ p, p ∈ ps ↔ (s.conn p).listed = true
  | .call => ∃ p ps, s.dtor = .closing (p :: ps)
  | .callReturn => ∃ p ps, s.dtor = .calling p ps ∧ (s.conn p).closing .dtor = none
  | .closeStep p who => (s.conn p).closing who ≠ none ∧
      ((s.conn p).closing who = some .tested → s.lock = none)
  | .removeUdp => s.dtor = .closing []
  | .releaseUdp => s.dtor = .udpReleasing
  | .leave => s.dtor = .waiting ∧ s.ctr ≤ 0
  | .pollError p => (s.conn p).polled.refs = 1 ∧ (s.conn p).closing .poll = none
  | .drain p => (s.conn p).polled = .pending ∧ (s.conn p).closing .poll = none
  | .refCopy p => (s.conn p).polled.refs = 1 ∨ 0 < (s.conn p).handlers
  | .handlerRelease p => 0 < (s.conn p).handlers
  | .udpDrain => ∃ u, s.udpConn = some u ∧ u.polled = .pending
  | .udpRefCopy => ∃ u, s.udpConn = some u ∧ (u.polled.refs = 1 ∨ 0 < u.handlers)
  | .udpHandlerRelease => ∃ u, s.udpConn = some u ∧ 0 < u.handlers

instance Guard.decidable [Fintype τ] (s : ServerLife τ) (op : LifeOp τ) : Decidable (s.Guard op) :=
  match op with
  | .enableUdp | .destroy => inferInstanceAs (Decidable (s.dtor = .alive))
  | .start => inferInstanceAs (Decidable (s.dtor = .alive ∧ s.status = .new))
  | .loopBegin => inferInstanceAs (Decidable (s.loop = .begun))
  | .select => inferInstanceAs (Decidable (s.loop = .accepting ∧ s.status = .running))
  | .accept p => inferInstanceAs (Decidable (s.loop = .ready ∧ p ∉ s.accepted))
  | .acceptNone => inferInstanceAs (Decidable (s.loop = .ready))
  | .testStatus => inferInstanceAs (Decidable (∃ p, s.loop = .returned p))
  | .enlist p => inferInstanceAs (Decidable (s.loop = .accepted p ∧ s.lock = none))
  | .register p => inferInstanceAs (Decidable (s.loop = .admitting p))
  | .loopEnd => inferInstanceAs (Decidable (s.loop = .accepting ∧ s.status ≠ .running))
  | .join => inferInstanceAs (Decidable (s.dtor = .joining ∧ s.loop = .ended))
  | .snapshot ps => inferInstanceAs (Decidable (s.dtor = .copying ∧ s.lock = none ∧ ps.Nodup ∧
      ∀ p, p ∈ ps ↔ (s.conn p).listed = true))
  | .call =>
    match hdtor : s.dtor with
    | .closing (p :: ps) => isTrue ⟨p, ps, hdtor⟩
    | .closing [] | .alive | .joining | .copying | .calling _ _ | .udpReleasing | .waiting
    | .passed => isFalse (by simp [Guard, hdtor])
  | .callReturn =>
    match hdtor : s.dtor with
    | .calling p ps => decidable_of_iff ((s.conn p).closing .dtor = none) (by simp [Guard, hdtor])
    | .closing _ | .alive | .joining | .copying | .udpReleasing | .waiting | .passed =>
      isFalse (by simp [Guard, hdtor])
  | .closeStep p who => inferInstanceAs (Decidable ((s.conn p).closing who ≠ none ∧
      ((s.conn p).closing who = some .tested → s.lock = none)))
  | .removeUdp => inferInstanceAs (Decidable (s.dtor = .closing []))
  | .releaseUdp => inferInstanceAs (Decidable (s.dtor = .udpReleasing))
  | .leave => inferInstanceAs (Decidable (s.dtor = .waiting ∧ s.ctr ≤ 0))
  | .pollError p => inferInstanceAs (Decidable
      ((s.conn p).polled.refs = 1 ∧ (s.conn p).closing .poll = none))
  | .drain p => inferInstanceAs (Decidable
      ((s.conn p).polled = .pending ∧ (s.conn p).closing .poll = none))
  | .refCopy p => inferInstanceAs (Decidable
      ((s.conn p).polled.refs = 1 ∨ 0 < (s.conn p).handlers))
  | .handlerRelease p => inferInstanceAs (Decidable (0 < (s.conn p).handlers))
  | .udpDrain => inferInstanceAs (Decidable (∃ u ∈ s.udpConn, u.polled = .pending))
  | .udpRefCopy => inferInstanceAs (Decidable
      (∃ u ∈ s.udpConn, u.polled.refs = 1 ∨ 0 < u.handlers))
  | .udpHandlerRelease => inferInstanceAs (Decidable (∃ u ∈ s.udpConn, 0 < u.handlers))

/-- A step that can be taken and satisfies `fit`. -/
def Next (fit : ServerLife τ → LifeOp τ → Prop) (s : ServerLife τ) (op : LifeOp τ)
    (s' : ServerLife τ) : Prop :=
  s.Guard op ∧ fit s op ∧ s.step op = .ok s'

end ServerLife

/-! ## The invariant of a Server -/

/-- `server_loop` is running. -/
def ServerLoopAt.Running {τ : Type} : ServerLoopAt τ → Prop
  | .idle | .ended => False
  | _ => True

/-- The socket that `accept` has returned, before a connection is made of it. -/
def ServerLoopAt.socket {τ : Type} : ServerLoopAt τ → Option τ
  | .returned p | .accepted p => some p
  | _ => none

/-- `~Server` does not wait for `server_loop` any more. -/
def DtorAt.Late {τ : Type} : DtorAt τ → Prop
  | .alive | .joining => False
  | _ => True

namespace ServerLife

variable {τ : Type} [DecidableEq τ]

omit [DecidableEq τ] in
/-- What `~Server` knows about `server_loop`. -/
def Course (s : ServerLife τ) : Prop :=
  match s.dtor with
  | .alive => (s.status = .new ∧ s.loop = .idle) ∨ (s.status = .running ∧ s.loop.Running)
  | .joining => (s.status = .stopping ∧ s.loop.Running) ∨ (s.status = .stopped ∧ s.loop = .ended)
  | _ => s.loop = .idle ∨ s.loop = .ended

structure Inv (s : ServerLife τ) : Prop where
  conn : ∀ p, (s.conn p).Ok (p ∈ s.made)
  dead_iff : ∀ p, p ∈ s.dead ↔ p ∈ s.made ∧ (s.conn p).refCnt = 0
  ctr : s.ctr = s.made.card - s.dead.card
  course : s.Course
  accepted : s.made ⊆ s.accepted
  socket : ∀ p, s.loop.socket = some p → p ∈ s.accepted ∧ p ∉ s.made
  admitting : ∀ p, s.loop = .admitting p →
    s.lock = some .loop ∧ p ∈ s.made ∧ s.conn p = .fresh
  erasing : ∀ p who, (s.conn p).closing who = some .erased → s.lock = some (.closer p who)
  listed : ∀ p, (s.conn p).listed = true →
    (s.conn p).polled = .registered ∨ s.loop = .admitting p
  calling : ∀ p, (s.conn p).closing .dtor ≠ none → ∃ ps, s.dtor = .calling p ps
  ahead : ∀ p ∈ s.dtor.ahead, p ∈ s.made
  passed : s.dtor = .passed → ∀ p ∈ s.made, p ∈ s.dead

omit [DecidableEq τ] in
theorem inv_init : (init : ServerLife τ).Inv where
  conn p := by simpa [init] using TcpConn.ok_blank
  dead_iff p := by simp [init]
  ctr := by simp [init]
  course := .inl ⟨rfl, rfl⟩
  accepted := subset_rfl
  socket p h := by cases h
  admitting p h := by cases h
  erasing p who h := by cases h
  listed p h := by cases h
  calling p h := absurd rfl h
  ahead p h := by cases h
  passed h := by cases h

omit [DecidableEq τ] in
theorem releaseUdpConn_ok {s s' : ServerLife τ} {u : UdpConn} (h : s.releaseUdpConn u = .ok s') :
    0 < u.refCnt ∧ s' = { s with udpConn := some { u with refCnt := u.refCnt - 1 } } := by
  by_cases hpos : 0 < u.refCnt
  · rw [releaseUdpConn, verify_of hpos] at h
    cases h
    exact ⟨hpos, rfl⟩
  · simp [releaseUdpConn, verify, hpos] at h

/-- The poll thread and the handlers of UDP requests change nothing but the UDP connection. -/
theorem step_udp {s s' : ServerLife τ} {op : LifeOp τ}
    (hop : op = .udpDrain ∨ op = .udpRefCopy ∨ op = .udpHandlerRelease) (hguard : s.Guard op)
    (hstep : s.step op = .ok s') : ∃ c, s' = { s with udpConn := c } := by
  rcases hop with rfl | rfl | rfl <;>
    obtain ⟨u, hu, -⟩ := hguard <;> simp only [ServerLife.step, hu] at hstep
  · obtain ⟨-, rfl⟩ := releaseUdpConn_ok hstep
    exact ⟨_, rfl⟩
  · cases hstep
    exact ⟨_, rfl⟩
  · obtain ⟨-, rfl⟩ := releaseUdpConn_ok hstep
    exact ⟨_, rfl⟩

/-- `~Server` goes on behind its calls of `close()`, and changes nothing but the UDP connection. -/
theorem step_dtor_udp {s s' : ServerLife τ} {op : LifeOp τ} (hop : op = .removeUdp ∨ op = .releaseUdp)
    (hstep : s.step op = .ok s') :
    ∃ c d, s' = { s with udpConn := c, dtor := d } ∧ (d = .udpReleasing ∨ d = .waiting) := by
  obtain rfl | rfl := hop
  · simp only [ServerLife.step] at hstep
    split at hstep
    case isTrue =>
      split at hstep <;> cases hstep
      exact ⟨_, _, rfl, .inl rfl⟩
    case isFalse =>
      -- without UDP nothing is removed
      cases hstep
      exact ⟨s.udpConn, _, rfl, .inr rfl⟩
  · simp only [ServerLife.step] at hstep
    split at hstep
    case h_1 => cases hstep
    case h_2 =>
      obtain ⟨-, rfl⟩ := releaseUdpConn_ok hstep
      exact ⟨_, _, rfl, .inr rfl⟩

section Frames

variable {s : ServerLife τ} (hI : s.Inv)

include hI

omit [DecidableEq τ] in
/-- While `server_loop` is running, `~Server` has not come far. -/
theorem Inv.dtor_of_running (h : s.loop.Running) : s.dtor = .alive ∨ s.dtor = .joining := by
  have hcourse := hI.course
  rw [Course] at hcourse
  split at hcourse
  case h_1 heq => exact .inl heq
  case h_2 heq => exact .inr heq
  case h_3 => obtain h' | h' := hcourse <;> rw [h'] at h <;> exact h.elim

omit [DecidableEq τ] in
/-- `server_loop` goes on. -/
theorem Inv.course_loop {s' : ServerLife τ} (h : s.loop.Running) (hloop : s'.loop.Running)
    (hdtor : s'.dtor = s.dtor) (hstatus : s'.status = s.status) : s'.Course := by
  have hcourse := hI.course
  rw [Course] at hcourse ⊢
  rw [hdtor, hstatus]
  obtain halive | hjoining := hI.dtor_of_running h
  · rw [halive] at hcourse ⊢
    obtain ⟨-, hidle⟩ | ⟨hrunning, -⟩ := hcourse
    · rw [hidle] at h
      exact h.elim
    · exact .inr ⟨hrunning, hloop⟩
  · rw [hjoining] at hcourse ⊢
    obtain ⟨hstopping, -⟩ | ⟨-, hended⟩ := hcourse
    · exact .inl ⟨hstopping, hloop⟩
    · rw [hended] at h
      exact h.elim

omit [DecidableEq τ] hI in
theorem course_of_late {s : ServerLife τ} (hdtor : s.dtor.Late)
    (hloop : s.loop = .idle ∨ s.loop = .ended) : s.Course := by
  rw [Course]
  split
  case h_1 heq => rw [heq] at hdtor; exact hdtor.elim
  case h_2 heq => rw [heq] at hdtor; exact hdtor.elim
  case h_3 => exact hloop

omit [DecidableEq τ] in
theorem Inv.loop_of_late (hdtor : s.dtor.Late) : s.loop = .idle ∨ s.loop = .ended := by
  have hcourse := hI.course
  rw [Course] at hcourse
  split at hcourse
  case h_1 heq => rw [heq] at hdtor; exact hdtor.elim
  case h_2 heq => rw [heq] at hdtor; exact hdtor.elim
  case h_3 => exact hcourse

omit [DecidableEq τ] in
/-- A step that leaves the connections alone. -/
theorem Inv.frame {s' : ServerLife τ} (hconn : s'.conn = s.conn) (hmade : s'.made = s.made)
    (hdead : s'.dead = s.dead) (hctr : s'.ctr = s.ctr) (hlock : s'.lock = s.lock)
    (haccepted : s.accepted ⊆ s'.accepted)
    (hsocket : ∀ p, s'.loop.socket = some p → p ∈ s'.accepted ∧ p ∉ s.made)
    (hloop : ∀ p, s'.loop = .admitting p ↔ s.loop = .admitting p) (hcourse : s'.Course)
    (hcalling : ∀ p, (s.conn p).closing .dtor ≠ none → ∃ ps, s'.dtor = .calling p ps)
    (hahead : ∀ p ∈ s'.dtor.ahead, p ∈ s.made)
    (hpassed : s'.dtor = .passed → ∀ p ∈ s.made, p ∈ s.dead) : s'.Inv where
  conn p := by
    rw [hconn, hmade]
    exact hI.conn p
  dead_iff p := by
    rw [hdead, hmade, hconn]
    exact hI.dead_iff p
  ctr := by
    rw [hctr, hmade, hdead]
    exact hI.ctr
  course := hcourse
  accepted := hmade ▸ hI.accepted.trans haccepted
  socket p h := hmade ▸ hsocket p h
  admitting p h := by
    rw [hlock, hmade, hconn]
    exact hI.admitting p ((hloop p).mp h)
  erasing p who h := by
    rw [hconn] at h
    rw [hlock]
    exact hI.erasing p who h
  listed p h := by
    rw [hconn] at h ⊢
    rw [hloop p]
    exact hI.listed p h
  calling p h := by
    rw [hconn] at h
    exact hcalling p h
  ahead p h := by
    rw [hmade]
    exact hahead p h
  passed h := by
    rw [hmade, hdead]
    exact hpassed h

omit [DecidableEq τ] in
/-- `~Server` goes on. -/
theorem Inv.dtorTo {s' : ServerLife τ} (hconn : s'.conn = s.conn) (hmade : s'.made = s.made)
    (hdead : s'.dead = s.dead) (hctr : s'.ctr = s.ctr) (hlock : s'.lock = s.lock)
    (haccepted : s'.accepted = s.accepted) (hloop : s'.loop = s.loop) (hlate : s.dtor.Late)
    (hlate' : s'.dtor.Late)
    (hcalling : ∀ p, (s.conn p).closing .dtor ≠ none → ∃ ps, s'.dtor = .calling p ps)
    (hahead : ∀ p ∈ s'.dtor.ahead, p ∈ s.made)
    (hpassed : s'.dtor = .passed → ∀ p ∈ s.made, p ∈ s.dead) : s'.Inv :=
  hI.frame hconn hmade hdead hctr hlock haccepted.ge
    (fun p h => haccepted ▸ hI.socket p (hloop ▸ h)) (fun _ => by rw [hloop])
    (course_of_late hlate' (by rw [hloop]; exact hI.loop_of_late hlate)) hcalling hahead hpassed

omit [DecidableEq τ] in
/-- `server_loop` goes on. -/
theorem Inv.loopTo {s' : ServerLife τ} (hconn : s'.conn = s.conn) (hmade : s'.made = s.made)
    (hdead : s'.dead = s.dead) (hctr : s'.ctr = s.ctr) (hlock : s'.lock = s.lock)
    (haccepted : s.accepted ⊆ s'.accepted)
    (hsocket : ∀ p, s'.loop.socket = some p → p ∈ s'.accepted ∧ p ∉ s.made)
    (hdtor : s'.dtor = s.dtor) (hstatus : s'.status = s.status) (hrun : s.loop.Running)
    (hrun' : s'.loop.Running) (hloop : ∀ p, s.loop ≠ .admitting p)
    (hloop' : ∀ p, s'.loop ≠ .admitting p) : s'.Inv := by
  refine hI.frame hconn hmade hdead hctr hlock haccepted hsocket
    (fun p => iff_of_false (hloop' p) (hloop p)) (hI.course_loop hrun hrun' hdtor hstatus) ?_ ?_ ?_
  · rw [hdtor]
    exact hI.calling
  · rw [hdtor]
    exact hI.ahead
  · rw [hdtor]
    exact hI.passed

omit [DecidableEq τ] in
/-- Outside of `it->close();`, `~Server` has no `close` in progress. -/
theorem Inv.not_calling (h : ∀ p ps, s.dtor ≠ .calling p ps) {P : Prop} {p : τ}
    (hpc : (s.conn p).closing .dtor ≠ none) : P := by
  obtain ⟨ps, hps⟩ := hI.calling p hpc
  exact absurd hps (h p ps)

omit [DecidableEq τ] in
/-- A connection that somebody else knows was added. -/
theorem Inv.not_admitting {p : τ} (h : s.conn p ≠ .fresh) : s.loop ≠ .admitting p :=
  fun hloop => h (hI.admitting p hloop).2.2

omit [DecidableEq τ] in
theorem Inv.refCnt_pos {p : τ} (h : (s.conn p).polled.refs = 1 ∨ 0 < (s.conn p).handlers) :
    p ∈ s.made ∧ 0 < (s.conn p).refCnt := by
  have hm : p ∈ s.made := by
    by_contra hn
    rw [(hI.conn p).unmade hn] at h
    simp [TcpConn.blank, Polled.refs] at h
  have hrefs := (hI.conn p).refs hm
  exact ⟨hm, by omega⟩

omit [DecidableEq τ] in
theorem Inv.loop_of_held {p : τ} (h : (s.conn p).polled.refs = 1 ∨ 0 < (s.conn p).handlers) :
    s.loop ≠ .admitting p := by
  apply hI.not_admitting
  intro hfresh
  rw [hfresh] at h
  simp [TcpConn.fresh, TcpConn.blank, Polled.refs] at h

/-- A connection changes, and may be destroyed. -/
theorem Inv.update {p : τ} {c : TcpConn} {dead : Finset τ} {ctr : Int} (hok : c.Ok (p ∈ s.made))
    (hself : p ∈ dead ↔ p ∈ s.made ∧ c.refCnt = 0) (hothers : ∀ q, q ≠ p → (q ∈ dead ↔ q ∈ s.dead))
    (hmono : p ∈ s.dead → p ∈ dead) (hctr : ctr = s.made.card - dead.card)
    (hloop : s.loop ≠ .admitting p)
    (herasing : ∀ who, c.closing who = some .erased → s.lock = some (.closer p who))
    (hlisted : c.listed = true → c.polled = .registered)
    (hcalling : c.closing .dtor ≠ none → ∃ ps, s.dtor = .calling p ps) :
    ({ s with conn := Function.update s.conn p c, dead := dead, ctr := ctr } : ServerLife τ).Inv := by
  -- the other connections are as before
  have hconn : ∀ q, q ≠ p → Function.update s.conn p c q = s.conn q :=
    fun q hq => Function.update_of_ne hq _ _
  refine ⟨?_, ?_, hctr, hI.course, hI.accepted, hI.socket, ?_, ?_, ?_, ?_, hI.ahead, ?_⟩
  · -- each connection is well formed
    intro q
    by_cases hq : q = p
    · subst hq
      simpa using hok
    · simpa [hq] using hI.conn q
  · -- `dead` holds those with no reference left
    intro q
    by_cases hq : q = p
    · subst hq
      simpa using hself
    · simpa [hq, hothers q hq] using hI.dead_iff q
  · -- the loop admits another connection
    intro q hq
    have hne : q ≠ p := by
      rintro rfl
      exact hloop hq
    simpa [hne] using hI.admitting q hq
  · -- who has erased holds the lock
    intro q who h
    by_cases hq : q = p
    · subst hq
      exact herasing who (by simpa using h)
    · exact hI.erasing q who (by simpa [hq] using h)
  · -- `sconns_` and `poll_set_`
    intro q h
    by_cases hq : q = p
    · subst hq
      exact .inl (by simpa using hlisted (by simpa using h))
    · simpa [hq] using hI.listed q (by simpa [hq] using h)
  · -- the calls of `~Server`
    intro q h
    by_cases hq : q = p
    · subst hq
      exact hcalling (by simpa using h)
    · exact hI.calling q (by simpa [hq] using h)
  · -- what `~Server` has waited for is dead
    intro hpassed q hq
    have hold := hI.passed hpassed q hq
    by_cases hqp : q = p
    · subst hqp
      exact hmono hold
    · exact (hothers q hqp).mpr hold

/-- A connection changes, and is not destroyed. -/
theorem Inv.set {p : τ} {c : TcpConn} (hok : c.Ok (p ∈ s.made))
    (hrefs : c.refCnt = 0 ↔ (s.conn p).refCnt = 0) (hloop : s.loop ≠ .admitting p)
    (herasing : ∀ who, c.closing who = some .erased → s.lock = some (.closer p who))
    (hlisted : c.listed = true → c.polled = .registered)
    (hcalling : c.closing .dtor ≠ none → ∃ ps, s.dtor = .calling p ps) : (s.set p c).Inv :=
  hI.update hok (by rw [hrefs]; exact hI.dead_iff p) (fun _ _ => Iff.rfl) id hI.ctr hloop herasing
    hlisted hcalling

/-- A reference is released, and the connection is destroyed if it was the last one. -/
theorem Inv.release {p : τ} {c : TcpConn} (hm : p ∈ s.made)
    (hok : ({ c with refCnt := c.refCnt - 1 } : TcpConn).Ok (p ∈ s.made))
    (hrefs : c.refCnt = (s.conn p).refCnt) (hpos : 0 < c.refCnt) (hloop : s.loop ≠ .admitting p)
    (herasing : ∀ who, c.closing who = some .erased → s.lock = some (.closer p who))
    (hlisted : c.listed = true → c.polled = .registered)
    (hcalling : c.closing .dtor ≠ none → ∃ ps, s.dtor = .calling p ps) :
    ∃ s', s.release p c = .ok s' ∧ s'.Inv := by
  have hdead : p ∉ s.dead := by
    intro h
    have hzero := ((hI.dead_iff p).mp h).2
    omega
  refine ⟨_, by rw [ServerLife.release, verify_of hpos]; rfl, hI.update hok ?_ ?_ (absurd · hdead) ?_
    hloop herasing hlisted hcalling⟩
  · by_cases hlast : c.refCnt = 1
    · simp [hlast, hm]
    · simp [hlast, hdead]
      omega
  · intro q hq
    by_cases hlast : c.refCnt = 1 <;> simp [hlast, hq]
  · have hctr := hI.ctr
    by_cases hlast : c.refCnt = 1
    · simp only [hlast, if_true, Finset.card_insert_of_notMem hdead]
      omega
    · simpa [hlast] using hctr

omit [DecidableEq τ] in
/-- Nobody relies on a free lock. -/
theorem Inv.take_lock (hfree : s.lock = none) (lock : Option (LockHolder τ)) :
    ({ s with lock := lock } : ServerLife τ).Inv :=
  { hI with
    admitting := fun p h => by
      have hlock := (hI.admitting p h).1
      simp [hfree] at hlock
    erasing := fun p who h => by
      have hlock := hI.erasing p who h
      simp [hfree] at hlock }

omit [DecidableEq τ] in
/-- The lock of a `close` is given back. -/
theorem Inv.drop_lock {p : τ} {who : Caller} (hlock : s.lock = some (.closer p who))
    (hpc : (s.conn p).closing who ≠ some .erased) : ({ s with lock := none } : ServerLife τ).Inv :=
  { hI with
    admitting := fun q h => by
      have hother := (hI.admitting q h).1
      simp [hlock] at hother
    erasing := fun q other h => by
      have hother := hI.erasing q other h
      rw [hlock] at hother
      cases hother
      exact absurd h hpc }

omit [DecidableEq τ] in
/-- After a step of one `close`, it alone may have come to the critical section. -/
theorem Inv.erasing_goto {p : τ} {c : TcpConn} (hc : c.closing = (s.conn p).closing) {who : Caller}
    {pc : Option ClosePc} (hpc : pc ≠ some .erased) (other : Caller)
    (h : (c.goto who pc).closing other = some .erased) : s.lock = some (.closer p other) := by
  by_cases hother : other = who
  · subst hother
    rw [TcpConn.goto_closing_self] at h
    exact absurd h hpc
  · rw [TcpConn.goto_closing_of_ne hother, hc] at h
    exact hI.erasing p other h

omit [DecidableEq τ] in
/-- A `close` that goes on belongs to who has called it. -/
theorem Inv.calling_goto {p : τ} {c : TcpConn} (hc : c.closing = (s.conn p).closing) {who : Caller}
    {pc : Option ClosePc} (hpc : (s.conn p).closing who ≠ none)
    (h : (c.goto who pc).closing .dtor ≠ none) : ∃ ps, s.dtor = .calling p ps := by
  cases who with
  | dtor => exact hI.calling p hpc
  | poll =>
    rw [TcpConn.goto_closing_of_ne (by simp), hc] at h
    exact hI.calling p h

omit [DecidableEq τ] in
/-- A connection with a `close` in progress was added. -/
theorem Inv.loop_of_closing {p : τ} {who : Caller} (h : (s.conn p).closing who ≠ none) :
    s.loop ≠ .admitting p := by
  apply hI.not_admitting
  intro hfresh
  rw [hfresh] at h
  exact h rfl

omit [DecidableEq τ] in
/-- A connection of `sconns_` that was added is registered. -/
theorem Inv.registered {p : τ} (hloop : s.loop ≠ .admitting p) (h : (s.conn p).listed = true) :
    (s.conn p).polled = .registered :=
  (hI.listed p h).resolve_right hloop

theorem Inv.closeStep {p : τ} {who : Caller} {s' : ServerLife τ}
    (hguard : s.Guard (.closeStep p who)) (hstep : s.closeStep p who = .ok s') : s'.Inv := by
  obtain ⟨hclosing, hlock⟩ := hguard
  have hok := hI.conn p
  have hloop := hI.loop_of_closing hclosing
  have hreg := hI.registered hloop
  rw [ServerLife.closeStep] at hstep
  split at hstep
  case isTrue => cases hstep
  case isFalse hdead =>
  cases hpc : (s.conn p).closing who with
  | none => exact absurd hpc hclosing
  | some pc =>
    have hm := hok.made_of_closing hpc
    -- the poll thread calls `close` only while the PollMgr refers to the connection
    have hpoll : who = .poll → (s.conn p).polled.refs = 1 := by
      rintro rfl
      exact hok.polling hclosing
    simp only [hpc] at hstep
    cases pc with
    | entered =>
      cases hstep
      by_cases hclosed : (s.conn p).closed = true
      · simp only [hclosed, if_true]
        exact hI.set (hok.goto hm (by rw [hpc]; rfl) (fun _ h => absurd rfl h)) Iff.rfl hloop
          (hI.erasing_goto rfl (by simp)) hreg (hI.calling_goto rfl hclosing)
      · simp only [hclosed]
        exact hI.set (hok.goto hm (by rw [hpc]; rfl) (fun h _ => hpoll h)) Iff.rfl hloop
          (hI.erasing_goto rfl (by simp)) hreg (hI.calling_goto rfl hclosing)
    | tested =>
      dsimp only at hstep
      split at hstep
      case isTrue hlisted =>
        cases hstep
        -- this caller found the connection in `sconns_` and holds the lock now
        have hfree := hI.take_lock (hlock hpc) (some (.closer p who))
        refine Inv.set hfree (hok.win hpc hlisted) Iff.rfl hloop ?_ (fun h => by cases h)
          (hI.calling_goto rfl hclosing)
        intro other h
        by_cases hother : other = who
        · rw [hother]
        · rw [TcpConn.goto_closing_of_ne hother] at h
          have hother := hI.erasing p other h
          simp [hlock hpc] at hother
      case isFalse =>
        cases hstep
        exact hI.set (hok.goto hm (by rw [hpc]; rfl) (fun _ h => absurd rfl h)) Iff.rfl hloop
          (hI.erasing_goto rfl (by simp)) hreg (hI.calling_goto rfl hclosing)
    | erased =>
      cases hstep
      -- what was erased is not in `sconns_`, so its registration may end
      have hlisted : (s.conn p).listed ≠ true := by
        intro h
        have hlen := hok.oneCloser.log_length hpc (by decide)
        rw [(hok.listed.mp h).2] at hlen
        cases hlen
      have hset := hI.set (hok.remove hpc) Iff.rfl hloop (hI.erasing_goto rfl (by simp))
        (fun h => absurd h hlisted) (hI.calling_goto rfl hclosing)
      refine Inv.drop_lock hset (hI.erasing p who hpc) ?_
      simp [ServerLife.set]
    | removed =>
      cases hstep
      exact hI.set (hok.mark hpc) Iff.rfl hloop (hI.erasing_goto rfl (by simp)) hreg
        (hI.calling_goto rfl hclosing)
    | marked =>
      cases hstep
      exact hI.set (hok.closeFd hpc) Iff.rfl hloop (hI.erasing_goto rfl (by simp)) hreg
        (hI.calling_goto rfl hclosing)
    | closedFd =>
      obtain ⟨hpos, hdrop⟩ := hok.drop hpc
      obtain ⟨s'', heq, hinv⟩ := hI.release hm hdrop rfl hpos hloop
        (hI.erasing_goto rfl (by simp)) hreg (hI.calling_goto rfl hclosing)
      rw [heq] at hstep
      cases hstep
      exact hinv

/-- `server_loop` has a new connection. -/
theorem Inv.enlist {p : τ} (hguard : s.Guard (.enlist p)) :
    ({ s.set p .fresh with
       lock := some .loop, loop := .admitting p, ctr := s.ctr + 1
       made := insert p s.made } : ServerLife τ).Inv := by
  obtain ⟨hloop, hlock⟩ := hguard
  obtain ⟨haccepted, hp⟩ := hI.socket p (by rw [hloop]; rfl)
  have hdead : p ∉ s.dead := fun h => hp ((hI.dead_iff p).mp h).1
  have hrun : s.loop.Running := by
    rw [hloop]
    trivial
  -- `~Server` has not joined the loop yet
  have hearly := hI.dtor_of_running hrun
  refine ⟨?_, ?_, ?_, hI.course_loop hrun trivial rfl rfl,
    Finset.insert_subset haccepted hI.accepted, (fun q h => by cases h), ?_, ?_, ?_, ?_, ?_, ?_⟩
  · -- the new connection is fresh, the others are as before
    intro q
    by_cases hq : q = p
    · subst hq
      simpa [ServerLife.set] using TcpConn.ok_fresh
    · simpa [ServerLife.set, hq] using hI.conn q
  · -- it has its two references
    intro q
    by_cases hq : q = p
    · subst hq
      simp [ServerLife.set, hdead, TcpConn.fresh]
    · simpa [ServerLife.set, hq] using hI.dead_iff q
  · -- `sconns_ctr_` counts it
    have hctr := hI.ctr
    change s.ctr + 1 = ((insert p s.made).card : Int) - s.dead.card
    rw [Finset.card_insert_of_notMem hp]
    omega
  · -- the loop holds the lock until the PollMgr has it
    intro q hq
    cases hq
    exact ⟨rfl, Finset.mem_insert_self _ _, Function.update_self ..⟩
  · -- nobody else has the lock
    intro q who h
    by_cases hq : q = p
    · subst hq
      have hfresh : TcpConn.fresh.closing who = some .erased := by
        simpa [ServerLife.set] using h
      cases hfresh
    · have hother := hI.erasing q who (by simpa [ServerLife.set, hq] using h)
      simp [hlock] at hother
  · -- it is in `sconns_`, though the PollMgr does not know it
    intro q h
    by_cases hq : q = p
    · exact .inr (by rw [hq])
    · have hlisted := hI.listed q (by simpa [ServerLife.set, hq] using h)
      simp only [hloop, reduceCtorEq, or_false] at hlisted
      exact .inl (by simpa [ServerLife.set, hq] using hlisted)
  · -- `~Server` is not there to call it
    intro q h
    by_cases hq : q = p
    · subst hq
      have hfresh : TcpConn.fresh.closing .dtor ≠ none := by simpa [ServerLife.set] using h
      exact absurd rfl hfresh
    · exact hI.calling q (by simpa [ServerLife.set, hq] using h)
  · intro q h
    exact Finset.mem_insert_of_mem (hI.ahead q h)
  · intro hpassed
    have hdtor : s.dtor = .passed := hpassed
    simp [hdtor] at hearly

/-- The PollMgr takes its reference to a new connection. -/
theorem Inv.register {p : τ} (hguard : s.Guard (.register p)) :
    ({ s.set p { s.conn p with refCnt := (s.conn p).refCnt + 1, polled := .registered } with
       lock := none, loop := .accepting } : ServerLife τ).Inv := by
  have hloop : s.loop = .admitting p := hguard
  obtain ⟨hlock, hm, hfresh⟩ := hI.admitting p hloop
  have hrun : s.loop.Running := by
    rw [hloop]
    trivial
  have hdead : p ∉ s.dead := by
    intro h
    have hzero := ((hI.dead_iff p).mp h).2
    rw [hfresh] at hzero
    cases hzero
  have hother : ∀ q, s.loop = .admitting q → q = p := by
    intro q h
    rw [hloop] at h
    cases h
    rfl
  rw [hfresh]
  refine ⟨?_, ?_, hI.ctr, hI.course_loop hrun trivial rfl rfl, hI.accepted, (fun q h => by cases h),
    ?_, ?_, ?_, ?_, hI.ahead, hI.passed⟩
  · -- one reference more, for `poll_set_`
    intro q
    by_cases hq : q = p
    · subst hq
      have hok : ({ TcpConn.fresh with
          refCnt := TcpConn.fresh.refCnt + 1, polled := .registered } : TcpConn).Ok (q ∈ s.made) :=
        ⟨fun hn => absurd hm hn, fun _ => rfl, .inl ⟨rfl, fun _ => rfl⟩,
          by simp [TcpConn.fresh, TcpConn.blank, hm], fun h => absurd rfl h⟩
      simpa [ServerLife.set] using hok
    · simpa [ServerLife.set, hq] using hI.conn q
  · intro q
    by_cases hq : q = p
    · subst hq
      simp [ServerLife.set, hdead]
    · simpa [ServerLife.set, hq] using hI.dead_iff q
  · -- the loop is done with it
    intro q hq
    cases hq
  · -- nobody has erased, for the loop had the lock
    intro q who h
    by_cases hq : q = p
    · subst hq
      have hfresh : TcpConn.fresh.closing who = some .erased := by
        simpa [ServerLife.set] using h
      cases hfresh
    · have hcloser := hI.erasing q who (by simpa [ServerLife.set, hq] using h)
      simp [hlock] at hcloser
  · -- now every connection in `sconns_` is registered
    intro q h
    by_cases hq : q = p
    · subst hq
      exact .inl (by simp [ServerLife.set])
    · have hlisted := hI.listed q (by simpa [ServerLife.set, hq] using h)
      exact .inl (by simpa [ServerLife.set, hq] using hlisted.resolve_right fun h => hq (hother q h))
  · -- `~Server` calls none
    intro q h
    by_cases hq : q = p
    · subst hq
      have hfresh : TcpConn.fresh.closing .dtor ≠ none := by simpa [ServerLife.set] using h
      exact absurd rfl hfresh
    · exact hI.calling q (by simpa [ServerLife.set, hq] using h)

/-- The poll thread or a handler gives back a reference. -/
theorem Inv.giveBack {p : τ} {c : TcpConn} {s' : ServerLife τ}
    (hheld : (s.conn p).polled.refs = 1 ∨ 0 < (s.conn p).handlers)
    (hcnt : c.refCnt = (s.conn p).refCnt) (hlog : c.log = (s.conn p).log)
    (hclosing : c.closing = (s.conn p).closing) (hlisted : c.listed = (s.conn p).listed)
    (hrefs : c.polled.refs + c.handlers + 1 = (s.conn p).polled.refs + (s.conn p).handlers)
    (hpolling : c.closing .poll ≠ none → c.polled.refs = 1)
    (hreg : c.listed = true → c.polled = .registered) (hstep : s.release p c = .ok s') :
    s'.Inv := by
  obtain ⟨hm, hpos⟩ := hI.refCnt_pos hheld
  have hok := hI.conn p
  have hloop := hI.loop_of_held hheld
  -- one holder less and one reference less
  have hnew : ({ c with refCnt := c.refCnt - 1 } : TcpConn).Ok (p ∈ s.made) := by
    refine ⟨fun hn => absurd hm hn, fun _ => ?_, ?_, ?_, hpolling⟩
    · have hold := hok.refs hm
      have hown : c.own = (s.conn p).own := by rw [TcpConn.own, TcpConn.own, hlog]
      change c.refCnt - 1 = c.own + c.polled.refs + c.handlers
      omega
    · have hone := hok.oneCloser
      simp only [TcpConn.OneCloser, hlog, hclosing] at hone ⊢
      exact hone
    · change c.listed = true ↔ _ ∧ c.log = []
      rw [hlisted, hlog]
      exact hok.listed
  obtain ⟨s'', heq, hinv⟩ := hI.release hm hnew hcnt (by omega) hloop
    (fun who h => hI.erasing p who (hclosing ▸ h)) hreg (fun h => hI.calling p (hclosing ▸ h))
  rw [heq] at hstep
  cases hstep
  exact hinv

end Frames

end ServerLife

end SimpleRpc.Rpc
