import SimpleRpc.Gen.Service
import SimpleRpc.Rpc.Shutdown
import SimpleRpc.Rpc.Sockets
import Mathlib.Data.List.TakeWhile

/-!
# Starting and Destroying a Server

`start` opens a TCP socket and, if UDP is enabled, a UDP socket; `server_loop`, in a thread of its
own, makes the UDP connection; and `~Server` waits for `server_loop`, which closes both sockets, and
releases the UDP connection. `udp_` is what a user has asked for, and `~Server` takes it for what was
made.

## Layers

- **Code**: `ServerSetup.start`, `loopBegin`, `loopEnd` and `destroy`, over `regService`
- **Ledger**: the descriptors that `start` has opened, as for a Client
- **Invariant**: `ServerSetup.Ready`, what was made; `ServerSetup.Past`, what the calls so far mean

## Main results

- `start_cases`: a `start` fails and leaves nothing behind, or its sockets are open
- `lifecycle_iff`: the Server can be destroyed if and only if UDP is not enabled in the end, or was
  enabled before the `server_loop` of the `start` that succeeds has looked

## Model

No `start` follows one that has succeeded. `listen` and `set_nonblocking` succeed, and so does
`epoll_ctl` for a socket that is open. `socket` returns descriptors that are not open, and an address
that cannot be resolved for UDP has no addresses to try. Connections and events are not part of this
model, nor is the list that `getaddrinfo` allocates.
-/

namespace SimpleRpc.Rpc

open SimpleRpc.Lib

/-! ## The state -/

/-- A Server, as far as starting and destroying it go. -/
structure ServerSetup where
  /-- `handlers_` and `udp_` -/
  table : Gen.Server
  status : ServerStatus
  serverSock : Option Nat
  udpSock : Option Nat
  /-- `udp_conn_`, with its `sock_`, which is -1 if UDP was enabled behind `start` -/
  udpConn : Option (Option Nat)
  /-- `server_loop` has begun -/
  begun : Bool
  /-- ghost -/
  ledger : Ledger

/-- What `bind_addr` leads to. -/
inductive BindAddr where
  /-- there is no colon in it -/
  | bad
  /-- `getaddrinfo` fails -/
  | unresolved
  /-- the addresses to try, and whether `::bind` succeeds -/
  | resolved (addrs : List Attempt)

/-- A call on the Server, or the begin of `server_loop`. -/
inductive SetupOp where
  | enableUdp
  /-- `reg(svc)` -/
  | reg (service : Gen.Service)
  /-- `reg(rpc_id, func)` -/
  | regFunc (rpcId : Int32) (f : Gen.Handler)
  /-- `start(bind_addr)`, with what `udp_bind` can try -/
  | start (addr : BindAddr) (udpAddrs : List Attempt)
  | loopBegin

/-- `server_loop` begins. -/
def SetupOp.beginsLoop : SetupOp → Bool
  | .loopBegin => true
  | _ => false

/-- `EINVAL` -/
def einval : Int32 := 22

namespace ServerSetup

/-- `Server(pollmgr, thrpool)` -/
def init : ServerSetup where
  table := ⟨fun _ => none, false⟩
  status := .new
  serverSock := none
  udpSock := none
  udpConn := none
  begun := false
  ledger := ⟨[], []⟩

/-! ## The code -/

/-- `start(bind_addr)`: the loop over the addresses is the one of `open_socket`. -/
def start (s : ServerSetup) (addr : BindAddr) (udpAddrs : List Attempt) : Int32 × ServerSetup :=
  match addr with
  | .bad | .unresolved => (einval, s)
  | .resolved addrs =>
    match openSocket addrs s.ledger with
    | (l, none) =>
      -- failed to bind
      (einval, { s with serverSock := none, ledger := l })
    | (l, some fd) =>
      if s.table.udp then
        match openSocket udpAddrs l with
        | (l, none) =>
          -- close the TCP socket opened
          (einval, { s with serverSock := none, udpSock := none, ledger := l.close fd })
        | (l, some udpFd) =>
          (0, { s with serverSock := some fd, udpSock := some udpFd, ledger := l, status := .running })
      else (0, { s with serverSock := some fd, ledger := l, status := .running })

/-- The first lines of `server_loop`. For a `sock_` of -1, `pollmgr_->add(udp_conn_)` returns at
    once. -/
def loopBegin (s : ServerSetup) : ServerSetup :=
  if s.table.udp then { s with begun := true, udpConn := some s.udpSock }
  else { s with begun := true }

/-- The last lines of `server_loop`; closing -1 does nothing. -/
def loopEnd (s : ServerSetup) : ServerSetup :=
  let s := { s with ledger := s.ledger.closeIf s.serverSock, serverSock := none }
  let s := if s.table.udp then { s with ledger := s.ledger.closeIf s.udpSock, udpSock := none } else s
  { s with status := .stopped }

/-- `~Server` -/
def destroy (s : ServerSetup) : Except Fault ServerSetup := do
  let s ← if s.status = .running then do
    -- wait till accepting thread done, which may begin only now
    let s := (if s.begun then s else s.loopBegin).loopEnd
    verify (s.serverSock = none ∧ s.status = .stopped)
    pure s
  else pure s
  if s.table.udp then
    match s.udpConn with
    | none => .error .badPointer
    -- removed from the PollMgr, if it was added, and released
    | some _ => pure { s with udpConn := none }
  else pure s

/-- What `enable_udp` and `reg` do to `handlers_` and `udp_`. -/
def tableStep (table : Gen.Server) : SetupOp → Gen.Server
  | .enableUdp => table.enableUdp
  | .reg service => (Gen.regService service table).2
  | .regFunc rpcId f => (table.reg rpcId f).2
  | .start _ _ | .loopBegin => table

/-- What each call does. -/
def effect (s : ServerSetup) : SetupOp → ServerSetup
  | .start addr udpAddrs => (s.start addr udpAddrs).2
  | .loopBegin => s.loopBegin
  | op => { s with table := tableStep s.table op }

/-- When a call is made. -/
def Guard (s : ServerSetup) : SetupOp → Prop
  | .start addr udpAddrs => s.status = .new ∧ ∀ addrs, addr = .resolved addrs →
      SocketClient.Fresh s.ledger addrs ∧ SocketClient.Fresh (openSocket addrs s.ledger).1 udpAddrs
  | .loopBegin => s.status = .running ∧ s.begun = false
  | _ => True

/-! ## The specification -/

/-- A `start` that fails leaves the Server as it was, without a socket. -/
def Restored (s s' : ServerSetup) : Prop :=
  s'.status = s.status ∧ s'.serverSock = none ∧ s'.udpSock = none ∧ s'.ledger = s.ledger

/-- Each `start` that fails does. -/
def FailsCleanly : ServerSetup → List SetupOp → Prop
  | _, [] => True
  | s, op :: ops =>
    (∀ addr udpAddrs, op = .start addr udpAddrs → (s.start addr udpAddrs).1 ≠ 0 →
      Restored s (s.start addr udpAddrs).2) ∧ FailsCleanly (s.effect op) ops

/-- The Server can be destroyed, and each socket was closed once. -/
def Destroyed (s : ServerSetup) : Prop :=
  ∃ s', s.destroy = .ok s' ∧ s'.ledger.Balanced

/-- `handlers_` and `udp_` after some calls. -/
def tableAfter (ops : List SetupOp) : Gen.Server :=
  ops.foldl tableStep init.table

/-- Sockets can be bound: one for TCP and, with UDP, another one. -/
def Binds (udp : Bool) (addr : BindAddr) (udpAddrs : List Attempt) : Prop :=
  ∃ addrs, addr = .resolved addrs ∧ firstSocket addrs ≠ none ∧
    (udp = true → firstSocket udpAddrs ≠ none)

/-- There was a `start` that could bind its sockets. -/
def Started (ops : List SetupOp) : Prop :=
  ∃ before addr udpAddrs after, ops = before ++ .start addr udpAddrs :: after ∧
    Binds (tableAfter before).udp addr udpAddrs

/-- The calls before `server_loop` begins, which may be as late as in `~Server`. -/
def beforeLoop (ops : List SetupOp) : List SetupOp :=
  ops.takeWhile fun op => !op.beginsLoop

/-- UDP was enabled when `server_loop` began. -/
def UdpInTime (ops : List SetupOp) : Prop :=
  Started ops ∧ (tableAfter (beforeLoop ops)).udp = true

/-! ## UDP stays enabled -/

theorem reg_udp (table : Gen.Server) (rpcId : Int32) (f : Gen.Handler) :
    (table.reg rpcId f).2.udp = table.udp := by
  rw [Gen.Server.reg]
  split
  · rfl
  · rfl

theorem runBody_udp {table : Gen.Server} (h : table.udp = true) (stmts : List Gen.Stmt) :
    (Gen.runBody stmts table).2.udp = true := by
  induction stmts generalizing table with
  | nil => exact h
  | cons stmt stmts ih =>
    cases stmt with
    | enableUdp => exact ih rfl
    | reg rpcId f =>
      have hkept : (table.reg rpcId f).2.udp = true := (reg_udp table rpcId f).trans h
      simp only [Gen.runBody]
      split
      · exact hkept
      · exact ih hkept

theorem foldl_unreg_udp (ids : List Int32) (table : Gen.Server) :
    (ids.foldl Gen.Server.unreg table).udp = table.udp := by
  induction ids generalizing table with
  | nil => rfl
  | cons rpcId ids ih => exact ih (table.unreg rpcId)

theorem tableStep_udp {table : Gen.Server} (h : table.udp = true) (op : SetupOp) :
    (tableStep table op).udp = true := by
  cases op with
  | enableUdp => rfl
  | reg service =>
    have hbody := runBody_udp h (Gen.emitRegTo service).body
    simp only [tableStep, Gen.regService, Gen.RegTo.run]
    split
    · -- the rollback does not disable it
      rw [foldl_unreg_udp]
      exact hbody
    · exact hbody
  | regFunc rpcId f => exact (reg_udp table rpcId f).trans h
  | start addr udpAddrs => exact h
  | loopBegin => exact h

/-! ## What was made -/

/-- Nothing but a TCP socket was made by `start`. -/
def TcpOnly (s : ServerSetup) (fd : Nat) : Prop :=
  s.udpSock = none ∧ s.ledger = ⟨[fd], []⟩

/-- Both sockets were made by `start`. -/
def WithUdp (s : ServerSetup) (fd udpFd : Nat) : Prop :=
  udpFd ≠ fd ∧ s.table.udp = true ∧ s.udpSock = some udpFd ∧ s.ledger = ⟨[udpFd, fd], []⟩

/-- What was made. -/
def Ready (s : ServerSetup) : Prop :=
  (s.status = .new ∧ s.serverSock = none ∧ s.udpSock = none ∧ s.udpConn = none ∧
      s.begun = false ∧ s.ledger = ⟨[], []⟩) ∨
    (s.status = .running ∧
      ∃ fd, s.serverSock = some fd ∧ (s.TcpOnly fd ∨ ∃ udpFd, s.WithUdp fd udpFd))

theorem ready_init : Ready init := .inl ⟨rfl, rfl, rfl, rfl, rfl, rfl⟩

/-- **What a `start` does**: it fails and leaves nothing behind, or its sockets are open. -/
theorem start_cases {s : ServerSetup} (hready : s.Ready) {addr : BindAddr}
    {udpAddrs : List Attempt} (hguard : s.Guard (.start addr udpAddrs)) :
    (s.start addr udpAddrs = (einval, s) ∧ ¬ Binds s.table.udp addr udpAddrs) ∨
      ∃ fd s', s.start addr udpAddrs = (0, s') ∧ s'.status = .running ∧ s'.serverSock = some fd ∧
        s'.table = s.table ∧ s'.begun = false ∧ s'.udpConn = none ∧ Binds s.table.udp addr udpAddrs ∧
        (s'.TcpOnly fd ∨ ∃ udpFd, s'.WithUdp fd udpFd) := by
  obtain ⟨hnew, hfresh⟩ := hguard
  obtain ⟨-, hsock, hudpSock, hconn, hbegun, hledger⟩ | ⟨hrunning, -⟩ := hready
  case inr => simp [hnew] at hrunning
  obtain ⟨table, status, serverSock, udpSock, udpConn, begun, ledger⟩ := s
  subst hsock hudpSock hconn hbegun hledger
  cases addr with
  | bad => exact .inl ⟨rfl, by simp [Binds]⟩
  | unresolved => exact .inl ⟨rfl, by simp [Binds]⟩
  | resolved addrs =>
    cases hfd : firstSocket addrs with
    | none => exact .inl ⟨by simp [start, openSocket_eq, hfd], by simp [Binds, hfd]⟩
    | some fd =>
      cases hflag : table.udp with
      | false =>
        -- `udp_sock_` is left alone
        let s' : ServerSetup := ⟨table, .running, some fd, none, none, false, ⟨[fd], []⟩⟩
        refine .inr ⟨fd, s', ?_, rfl, rfl, rfl, rfl, rfl, ⟨addrs, rfl, by simp [hfd], by simp⟩,
          .inl ⟨rfl, rfl⟩⟩
        simp [start, openSocket_eq, hfd, hflag, Ledger.opened, s']
      | true =>
        cases hudpFd : firstSocket udpAddrs with
        | none =>
          refine .inl ⟨?_, by simp [Binds, hudpFd]⟩
          simp [start, openSocket_eq, hfd, hflag, hudpFd]
        | some udpFd =>
          -- the UDP socket is opened while the TCP socket is open
          have hne : udpFd ≠ fd := by
            obtain ⟨a, hmem, ha⟩ := mem_of_firstSocket hudpFd
            have hclosed := (hfresh addrs rfl).2 a hmem udpFd ha
            simp only [openSocket_eq, hfd, Option.elim_some, Ledger.opened, List.mem_cons,
              not_or] at hclosed
            exact hclosed.1
          let s' : ServerSetup :=
            ⟨table, .running, some fd, some udpFd, none, false, ⟨[udpFd, fd], []⟩⟩
          refine .inr ⟨fd, s', ?_, rfl, rfl, rfl, rfl, rfl,
            ⟨addrs, rfl, by simp [hfd], by simp [hudpFd]⟩, .inr ⟨udpFd, hne, hflag, rfl, rfl⟩⟩
          simp [start, openSocket_eq, hfd, hflag, hudpFd, Ledger.opened, s']

/-- A change of the table keeps what was made. -/
theorem Ready.tableStep {s : ServerSetup} (hready : s.Ready) (op : SetupOp) :
    Ready { s with table := ServerSetup.tableStep s.table op } := by
  obtain hnew | ⟨hrunning, fd, hfd, htcp | ⟨udpFd, hne, hflag, hopen⟩⟩ := hready
  · exact .inl hnew
  · exact .inr ⟨hrunning, fd, hfd, .inl htcp⟩
  · exact .inr ⟨hrunning, fd, hfd, .inr ⟨udpFd, hne, tableStep_udp hflag op, hopen⟩⟩

/-- `server_loop` makes no socket. -/
theorem loopBegin_cases (s : ServerSetup) :
    (s.table.udp = true ∧ s.loopBegin = { s with begun := true, udpConn := some s.udpSock }) ∨
      (s.table.udp = false ∧ s.loopBegin = { s with begun := true }) := by
  cases hflag : s.table.udp with
  | true => exact .inl ⟨rfl, by rw [loopBegin, if_pos hflag]⟩
  | false => exact .inr ⟨rfl, by simp [loopBegin, hflag]⟩

/-- `server_loop` begins with what `start` has made. -/
theorem Ready.loopBegin {s : ServerSetup} (hready : s.Ready) (hrunning : s.status = .running) :
    s.loopBegin.Ready := by
  obtain ⟨hnew, -⟩ | hmade := hready
  · cases hnew.symm.trans hrunning
  · obtain ⟨-, heq⟩ | ⟨-, heq⟩ := s.loopBegin_cases
    · rw [heq]
      exact .inr hmade
    · rw [heq]
      exact .inr hmade

theorem Ready.effect {s : ServerSetup} (hready : s.Ready) {op : SetupOp} (hguard : s.Guard op) :
    (s.effect op).Ready := by
  cases op with
  | start addr udpAddrs =>
    obtain ⟨heq, -⟩ | ⟨fd, s', heq, hrunning, hfd, -, -, -, -, hmade⟩ := start_cases hready hguard
    · simpa [ServerSetup.effect, heq] using hready
    · simp only [ServerSetup.effect, heq]
      exact .inr ⟨hrunning, fd, hfd, hmade⟩
  | loopBegin => exact hready.loopBegin hguard.1
  | enableUdp => exact hready.tableStep .enableUdp
  | reg service => exact hready.tableStep (.reg service)
  | regFunc rpcId f => exact hready.tableStep (.regFunc rpcId f)

/-- **A failing `start`**: over a whole sequence of calls, each one leaves the Server as it was. -/
theorem failsCleanly_of_run {s s' : ServerSetup} {ops : List SetupOp}
    (hrun : Steps (Guarded Guard effect) s ops s') (hready : s.Ready) : FailsCleanly s ops := by
  induction hrun with
  | nil => trivial
  | cons hfirst _ ih =>
    obtain ⟨hguard, rfl⟩ := hfirst
    refine ⟨?_, ih (hready.effect hguard)⟩
    intro addr udpAddrs hop hfails
    subst hop
    obtain ⟨heq, -⟩ | ⟨fd, s', heq, -⟩ := start_cases hready hguard
    · rw [heq]
      obtain ⟨-, hsock, hudp, -⟩ | ⟨hrunning, -⟩ := hready
      · exact ⟨rfl, hsock, hudp, rfl⟩
      · cases hguard.1.symm.trans hrunning
    · simp [heq] at hfails

/-! ## Destruction -/

/-- Both sockets are closed. -/
theorem balanced_of_both {fd udpFd : Nat} (hne : udpFd ≠ fd) :
    (((⟨[udpFd, fd], []⟩ : Ledger).closeIf (some fd)).closeIf (some udpFd)).Balanced := by
  simp [Ledger.closeIf, Ledger.close, Ledger.Balanced, hne]

/-- `~Server` takes `udp_` for the connection, which `server_loop` makes if it finds `udp_`. -/
theorem destroyed_iff {s : ServerSetup} (hready : s.Ready) :
    s.Destroyed ↔
      s.table.udp = false ∨ (s.status = .running ∧ (s.begun = true → s.udpConn ≠ none)) := by
  obtain ⟨table, status, serverSock, udpSock, udpConn, begun, ledger⟩ := s
  obtain ⟨hstatus, hsock, hudpSock, hconn, hbegun, hledger⟩ |
    ⟨hstatus, fd, hsock, ⟨hudpSock, hledger⟩ | ⟨udpFd, hne, hflag, hudpSock, hledger⟩⟩ := hready
  · -- no `start` has succeeded
    subst hstatus hsock hudpSock hconn hbegun hledger
    cases hflag : table.udp <;> simp [Destroyed, destroy, hflag, Ledger.Balanced]
  · -- `start` has opened the TCP socket only
    subst hstatus hsock hudpSock hledger
    cases hflag : table.udp with
    | false =>
      -- UDP is off, so the destructor does not look at `udp_conn_`
      cases begun <;> simp [Destroyed, destroy, loopBegin, loopEnd, hflag, Ledger.Balanced,
        Ledger.closeIf, Ledger.close, verify]
    | true =>
      cases begun with
      | false =>
        -- `server_loop` finds UDP enabled, and makes a connection without a socket
        simp [Destroyed, destroy, loopBegin, loopEnd, hflag, verify, Ledger.Balanced,
          Ledger.closeIf, Ledger.close]
      | true =>
        cases udpConn <;> simp [Destroyed, destroy, loopEnd, hflag, verify, Ledger.Balanced,
          Ledger.closeIf, Ledger.close]
  · -- `start` has opened both
    subst hstatus hsock hudpSock hledger
    change table.udp = true at hflag
    have hbalanced := balanced_of_both hne
    cases begun with
    | false => simp [Destroyed, destroy, loopBegin, loopEnd, hflag, verify, hbalanced]
    | true =>
      cases udpConn <;> simp [Destroyed, destroy, loopEnd, hflag, verify, hbalanced]

/-! ## Whole lives -/

/-- What the calls so far mean. -/
structure Past (past : List SetupOp) (s : ServerSetup) : Prop where
  ready : s.Ready
  table : s.table = tableAfter past
  started : s.status = .running ↔ Started past
  begun : s.begun = true ↔ ∃ op ∈ past, op.beginsLoop = true
  made : s.udpConn ≠ none ↔ s.begun = true ∧ (tableAfter (beforeLoop past)).udp = true

theorem past_init : Past [] init where
  ready := ready_init
  table := rfl
  started := by simp [init, Started]
  begun := by simp [init]
  made := by simp [init]

theorem tableAfter_concat (past : List SetupOp) (op : SetupOp) :
    tableAfter (past ++ [op]) = tableStep (tableAfter past) op := by
  simp [tableAfter]

theorem started_concat {past : List SetupOp} {op : SetupOp} :
    Started (past ++ [op]) ↔ Started past ∨ ∃ addr udpAddrs, op = .start addr udpAddrs ∧
      Binds (tableAfter past).udp addr udpAddrs := by
  constructor
  · intro h
    obtain ⟨before, addr, udpAddrs, after, heq, hbinds⟩ := h
    -- the `start` is the last call, or an earlier one
    induction after using List.reverseRecOn with
    | nil =>
      obtain ⟨rfl, hop⟩ := List.append_inj' heq rfl
      obtain rfl : op = .start addr udpAddrs := by simpa using hop
      exact .inr ⟨addr, udpAddrs, rfl, hbinds⟩
    | append_singleton after last _ =>
      rw [← List.cons_append, ← List.append_assoc] at heq
      obtain ⟨hpast, -⟩ := List.append_inj' heq rfl
      exact .inl ⟨before, addr, udpAddrs, after, hpast, hbinds⟩
  · intro h
    obtain ⟨before, addr, udpAddrs, after, rfl, hbinds⟩ | ⟨addr, udpAddrs, rfl, hbinds⟩ := h
    · exact ⟨before, addr, udpAddrs, after ++ [op], by simp, hbinds⟩
    · exact ⟨past, addr, udpAddrs, [], rfl, hbinds⟩

/-- All calls come before a `server_loop` that has not begun. -/
theorem beforeLoop_of_not_begun {ops : List SetupOp} (h : ¬ ∃ op ∈ ops, op.beginsLoop = true) :
    beforeLoop ops = ops := by
  apply List.takeWhile_eq_self_iff.mpr
  intro op hop
  simpa using fun hbegin => h ⟨op, hop, hbegin⟩

/-- What comes behind the begin of `server_loop` does not count. -/
theorem beforeLoop_concat_of_begun {past : List SetupOp} (h : ∃ op ∈ past, op.beginsLoop = true)
    (op : SetupOp) : beforeLoop (past ++ [op]) = beforeLoop past := by
  obtain ⟨first, hfirst, hbegin⟩ := h
  rw [beforeLoop, beforeLoop, List.takeWhile_append, if_neg]
  intro hlen
  have hall := List.takeWhile_eq_self_iff.mp ((List.takeWhile_prefix _).eq_of_length hlen)
  simpa [hbegin] using hall first hfirst

/-- `server_loop` begins behind all calls so far. -/
theorem beforeLoop_concat_loopBegin {past : List SetupOp}
    (h : ¬ ∃ op ∈ past, op.beginsLoop = true) : beforeLoop (past ++ [.loopBegin]) = past := by
  have hlen := congrArg List.length (beforeLoop_of_not_begun h)
  rw [beforeLoop] at hlen ⊢
  rw [List.takeWhile_append, if_pos hlen]
  simp [SetupOp.beginsLoop]

/-- A call on the table. -/
theorem Past.tableStep {past : List SetupOp} {s : ServerSetup} (h : Past past s) {op : SetupOp}
    (hstart : ∀ addr udpAddrs, op ≠ .start addr udpAddrs)
    (hbegin : op.beginsLoop = false) :
    Past (past ++ [op]) { s with table := ServerSetup.tableStep s.table op } where
  ready := h.ready.tableStep op
  table := by rw [tableAfter_concat, h.table]
  started := by
    have hnone : ¬ ∃ addr udpAddrs, op = .start addr udpAddrs ∧
        Binds (tableAfter past).udp addr udpAddrs :=
      fun ⟨addr, udpAddrs, heq, _⟩ => hstart addr udpAddrs heq
    rw [started_concat, or_iff_left hnone]
    exact h.started
  begun := by
    have hnext : (∃ x ∈ past ++ [op], x.beginsLoop = true) ↔
        ∃ x ∈ past, x.beginsLoop = true := by simp [hbegin]
    rw [hnext]
    exact h.begun
  made := by
    cases hbegun : s.begun with
    | false => simpa [hbegun] using h.made
    | true =>
      rw [beforeLoop_concat_of_begun (h.begun.mp hbegun)]
      simpa [hbegun] using h.made

theorem Past.loopBegin {past : List SetupOp} {s : ServerSetup} (h : Past past s)
    (hguard : s.Guard .loopBegin) : Past (past ++ [.loopBegin]) s.loopBegin := by
  obtain ⟨hrunning, hbegun⟩ := hguard
  have hfirst : ¬ ∃ op ∈ past, op.beginsLoop = true := by
    rw [← h.begun, hbegun]
    simp
  have hnone : s.udpConn = none := by simpa [hbegun] using h.made
  have hstarted : Started (past ++ [.loopBegin]) ↔ Started past := by simp [started_concat]
  have htable : tableAfter (past ++ [.loopBegin]) = tableAfter past := tableAfter_concat past _
  -- what `server_loop` finds is what was enabled by the calls before
  have hkept : s.loopBegin.table = s.table ∧ s.loopBegin.status = s.status ∧
      s.loopBegin.begun = true ∧ (s.loopBegin.udpConn ≠ none ↔ s.table.udp = true) := by
    obtain ⟨hflag, heq⟩ | ⟨hflag, heq⟩ := s.loopBegin_cases
    · simp [heq, hflag]
    · simp [heq, hflag, hnone]
  obtain ⟨hsame, hstatus, hbegins, hmade⟩ := hkept
  refine ⟨h.ready.loopBegin hrunning, ?_, ?_, ?_, ?_⟩
  · rw [hsame, htable]
    exact h.table
  · rw [hstatus, hstarted]
    exact h.started
  · simp [hbegins, SetupOp.beginsLoop]
  · rw [hmade, hbegins, beforeLoop_concat_loopBegin hfirst, ← h.table]
    simp

theorem Past.start {past : List SetupOp} {s : ServerSetup} (h : Past past s) {addr : BindAddr}
    {udpAddrs : List Attempt} (hguard : s.Guard (.start addr udpAddrs)) :
    Past (past ++ [.start addr udpAddrs]) (s.start addr udpAddrs).2 := by
  have hready : (s.effect (.start addr udpAddrs)).Ready := h.ready.effect hguard
  have htable : tableAfter (past ++ [.start addr udpAddrs]) = tableAfter past :=
    tableAfter_concat past _
  have hstarted : Started (past ++ [.start addr udpAddrs]) ↔ Binds s.table.udp addr udpAddrs := by
    have hbefore : ¬ Started past := by
      rw [← h.started, hguard.1]
      simp
    rw [started_concat, or_iff_right hbefore, ← h.table]
    simp
  have hnone : s.begun = false ∧ s.udpConn = none := by
    obtain ⟨-, -, -, hconn, hbegun, -⟩ | ⟨hrunning, -⟩ := h.ready
    · exact ⟨hbegun, hconn⟩
    · cases hguard.1.symm.trans hrunning
  have hfirst : ¬ ∃ op ∈ past ++ [.start addr udpAddrs], op.beginsLoop = true := by
    have hpast := h.begun
    rw [hnone.1] at hpast
    simpa [SetupOp.beginsLoop] using hpast
  obtain ⟨heq, hfails⟩ | ⟨fd, s', heq, hrunning, -, hkept, hbegun, hconn, hbinds, -⟩ :=
    start_cases h.ready hguard
  · -- `start` fails: the Server is as new, but for its table
    simp only [effect, heq] at hready ⊢
    refine ⟨hready, htable ▸ h.table, ?_, ?_, ?_⟩
    · rw [hstarted, hguard.1]
      simpa using hfails
    · rw [hnone.1]
      simpa using hfirst
    · simp [hnone]
  · -- `start` succeeds
    simp only [effect, heq] at hready ⊢
    refine ⟨hready, ?_, ?_, ?_, ?_⟩
    · rw [htable, hkept]
      exact h.table
    · rw [hstarted]
      exact iff_of_true hrunning hbinds
    · rw [hbegun]
      simpa using hfirst
    · simp [hbegun, hconn]

/-- **One call** -/
theorem Past.step {past : List SetupOp} {s s' : ServerSetup} {op : SetupOp} (h : Past past s)
    (hnext : Guarded Guard effect s op s') : Past (past ++ [op]) s' := by
  obtain ⟨hguard, rfl⟩ := hnext
  cases op with
  | enableUdp => exact h.tableStep (by simp) rfl
  | reg service => exact h.tableStep (by simp) rfl
  | regFunc rpcId f => exact h.tableStep (by simp) rfl
  | loopBegin => exact h.loopBegin hguard
  | start addr udpAddrs => exact h.start hguard

/-- **A Server's life**: in every sequence of calls, each `start` that fails leaves nothing behind
    and the destructor completes with every socket closed once, if and only if UDP is not enabled in
    the end, or a `start` could bind its sockets and UDP was enabled when its `server_loop` began. -/
theorem lifecycle_iff {ops : List SetupOp} {s : ServerSetup}
    (hrun : Steps (Guarded Guard effect) init ops s) :
    (FailsCleanly init ops ∧ s.Destroyed) ↔ ((tableAfter ops).udp = false ∨ UdpInTime ops) := by
  have hpast : Past ops s := hrun.history (fun _ _ _ _ => Past.step) past_init
  rw [and_iff_right (failsCleanly_of_run hrun ready_init), destroyed_iff hpast.ready, hpast.table,
    hpast.started, UdpInTime, hpast.made]
  cases hflag : (tableAfter ops).udp with
  | false => simp
  | true =>
    cases hbegun : s.begun with
    | true => simp
    | false =>
      -- `server_loop` begins behind all calls
      have hnone : ¬ ∃ op ∈ ops, op.beginsLoop = true := by
        rw [← hpast.begun, hbegun]
        simp
      simp [beforeLoop_of_not_begun hnone, hflag]

/-- `FloodService`, as it stands in `test/floodtest_service.h`. -/
def floodService : Gen.Service :=
  ⟨"Flood", [⟨"update_node_list", [.fast], 0x43102c1b⟩, ⟨"flood", [.fast], 0x4c64a660⟩,
    ⟨"flood_udp", [.udp, .fast], 0x632a2de2⟩]⟩

theorem floodService_udp : (Gen.regService floodService init.table).2.udp = true := by decide

/-- A `start` fails because the port is in use, and the next one succeeds. -/
def secondStart : List SetupOp :=
  [.reg floodService, .start (.resolved [⟨some 3, false⟩]) [],
    .start (.resolved [⟨some 3, true⟩]) [⟨some 4, true⟩], .loopBegin]

theorem lifecycle_iff_secondStart :
    ∃ s, Steps (Guarded Guard effect) init secondStart s ∧ UdpInTime secondStart ∧
      FailsCleanly init secondStart ∧ s.Destroyed := by
  have hrun : Steps (Guarded Guard effect) init secondStart (secondStart.foldl effect init) := by
    apply Steps.of_passes
    have hflag := floodService_udp
    simp [secondStart, Passes, Guard, effect, init, start, openSocket, SocketClient.Fresh,
      Ledger.opened, Ledger.close, tableStep] at hflag ⊢
    simp [hflag]
  have htime : UdpInTime secondStart :=
    ⟨⟨[.reg floodService, .start (.resolved [⟨some 3, false⟩]) []], .resolved [⟨some 3, true⟩],
      [⟨some 4, true⟩], [.loopBegin], rfl, _, rfl, by decide, fun _ => by decide⟩, floodService_udp⟩
  exact ⟨_, hrun, htime, (lifecycle_iff hrun).mpr (.inr htime)⟩

/-- **The destructor follows a null pointer**: `main` of the flood test deletes the Server after its
    `start` has failed. -/
theorem null_udp_connection :
    ∃ s, Steps (Guarded Guard effect) init
        [.reg floodService, .start (.resolved [⟨some 3, false⟩]) []] s ∧
      s.destroy = .error .badPointer ∧ ¬ s.Destroyed := by
  let ops : List SetupOp := [.reg floodService, .start (.resolved [⟨some 3, false⟩]) []]
  have hdestroy : (ops.foldl effect init).destroy = .error .badPointer := by
    have hflag := floodService_udp
    simp [ops, effect, start, openSocket, tableStep, init, destroy] at hflag ⊢
    simp [hflag]
  refine ⟨_, Steps.of_passes ?_, hdestroy, ?_⟩
  · simp [Passes, Guard, effect, init, SocketClient.Fresh]
  · intro h
    obtain ⟨s', heq, -⟩ := h
    cases hdestroy.symm.trans heq

end ServerSetup

end SimpleRpc.Rpc
