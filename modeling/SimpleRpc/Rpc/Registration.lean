import SimpleRpc.Rpc.Sockets
import SimpleRpc.Rpc.WriteEvents
import Mathlib.Data.Finset.Basic

/-!
# Registered Descriptors

`mode_` of a PollThread is keyed by descriptors, and the kernel gives the number of a closed
descriptor to the next socket. A key must therefore leave `mode_` before its number is closed. The
numbers are closed in many places: `Client::close`, the error path of `Client::connect`,
`ServerTcpConnection::close`, `ServerUdpConnection::handle_error` and the end of `server_loop`.

## Layers

- **Kernel**: `holder`, the socket that is open under a number
- **Code**: `Registration.step`, Clients, ServerTcpConnections and ServerUdpConnections that share a
  PollMgr, with one step for each system call, each critical section of a PollThread and each access
  to `status_`
- **System**: `Registration.Guard`, any number of each, and any interleaving
- **Invariant**: `Registration.Inv`, what is registered is open

## Main results

- `keys_open_of_careful`: keys are open, and `add` does not fail, in the runs in which the calls on a
  Client keep out of each other's way and no UDP socket of a Server is closed

## Model

`epoll`, the references, `pending_remove_` and the `assert`s of `remove` are left out. Sockets that
are no Pollables (the listening ones, those that `open_socket` has tried) are opened and closed by
others. The sockets of Servers that share the PollMgr are not told apart. A `close()` of a
ServerTcpConnection that does not find it in `sconns_` does nothing here. Calls of `connect` on one
Client do not overlap, and none is made on a connected one.
-/

namespace SimpleRpc.Rpc

open SimpleRpc.Lib SimpleRpc.Base

/-! ## The state -/

/-- A Pollable. -/
inductive Pollable (κ τ υ : Type) where
  | client (c : κ)
  | tcp (t : τ)
  | udp (u : υ)
  deriving DecidableEq

/-- What an open number stands for. -/
inductive Holder (κ τ υ : Type) where
  /-- `sock_` of a Pollable -/
  | sock (p : Pollable κ τ υ)
  /-- `udp_sock_` of a Client -/
  | udpSock (c : κ)
  | other
  deriving DecidableEq

/-- Where `Client::connect` is. -/
inductive ConnectAt where
  | idle
  /-- `tcp_connect` has returned a socket -/
  | tcpDone
  /-- `udp_connect` has, too -/
  | udpDone
  /-- in `pollmgr_->add(this);` -/
  | adding
  /-- in front of `::close(sock_);` -/
  | failing
  /-- in front of `::close(udp_sock_);` -/
  | failingUdp
  deriving DecidableEq

/-- Where a `Client::close` is. -/
inductive CloseAt where
  /-- `status_ == CONNECTED` was found -/
  | removing
  /-- `PollMgr::remove` has chosen the PollThread -/
  | erasing (thread : Nat)
  /-- in front of `::close(sock_);` -/
  | closing
  /-- in front of `status_ = CLOSED;` -/
  | marking
  deriving DecidableEq

/-- The life of a ServerTcpConnection. -/
inductive TcpAt where
  | unborn
  /-- `accept` has returned -/
  | accepted
  /-- in `sconns_`, and in `pollmgr_->add(sconn);` -/
  | admitted
  | serving
  /-- a `close()` has taken it from `sconns_` -/
  | claimed
  /-- in front of `::close(sock_);` -/
  | removed
  | closed
  deriving DecidableEq

/-- The life of a ServerUdpConnection. -/
inductive UdpAt where
  | unborn
  /-- `udp_bind` has returned -/
  | bound
  | serving
  /-- `server_loop` has returned -/
  | ended
  /-- `~Server` has removed it -/
  | removed
  deriving DecidableEq

/-- A PollMgr, the Pollables that use it, and the kernel. -/
structure Registration (κ τ υ : Type) where
  /-- `poll_set_` of each PollThread -/
  pollSet : Nat → Finset (Pollable κ τ υ)
  /-- `mode_` of each PollThread -/
  mode : Nat → Nat → Option Mode
  /-- `fd()`, if it is not -1 -/
  sock : Pollable κ τ υ → Option Nat
  holder : Nat → Option (Holder κ τ υ)
  /-- an `add` in progress, with what `poll_mode()` and `fd()` have returned -/
  adding : Pollable κ τ υ → Option (Mode × Nat)
  status : κ → ClientStatus
  udpSock : κ → Option Nat
  connecting : κ → ConnectAt
  closers : κ → List CloseAt
  tcp : τ → TcpAt
  udp : υ → UdpAt

/-- One step. -/
inductive RegOp (κ τ υ : Type) where
  /-- `sock_ = tcp_connect(addr);` -/
  | connectTcp (c : κ) (fd : Option Nat)
  /-- `udp_sock_ = udp_connect(addr, ..);` -/
  | connectUdp (c : κ) (fd : Option Nat)
  /-- `status_ = CONNECTED;` -/
  | connected (c : κ)
  /-- `if (sock_ != -1) ::close(sock_);` in `err_out` -/
  | failSock (c : κ)
  /-- `if (udp_sock_ != -1) ::close(udp_sock_);` in `err_out` -/
  | failUdp (c : κ)
  /-- `if (status_ == CONNECTED)` in `Client::close` -/
  | closeTest (c : κ)
  /-- `PollMgr::remove` up to `l_.lock();` -/
  | closeRead (c : κ)
  /-- the critical section of `PollThread::remove` -/
  | closeErase (c : κ) (thread : Nat)
  /-- `::close(sock_);` in `Client::close` -/
  | closeSock (c : κ)
  /-- `status_ = CLOSED;` -/
  | closeMark (c : κ)
  /-- `accept(server_sock_, ..)` -/
  | accept (t : τ) (fd : Nat)
  /-- `new ServerTcpConnection(this, clnt_socket); sconns_.insert(sconn);` -/
  | enlist (t : τ)
  /-- `server_->sconns_.erase(it);` -/
  | claim (t : τ)
  /-- `server_->pollmgr_->remove(this);` -/
  | tcpRemove (t : τ)
  /-- `::close(sock_);` in `ServerTcpConnection::close` -/
  | tcpClose (t : τ)
  /-- `udp_sock_ = udp_bind(bind_addr);` -/
  | udpBind (u : υ) (fd : Nat)
  /-- `ServerUdpConnection::handle_error` -/
  | udpError (u : υ)
  /-- `close(udp_sock_);` at the end of `server_loop` -/
  | loopEnd (u : υ)
  /-- `pollmgr_->remove(udp_conn_);` -/
  | udpRemove (u : υ)
  /-- `add` up to `l_.lock();` -/
  | startAdd (p : Pollable κ τ υ) (mode : Mode)
  /-- the critical section of `add` -/
  | insert (p : Pollable κ τ υ) (mode : Mode) (fd : Nat)
  /-- somebody else opens a descriptor -/
  | openOther (fd : Nat)
  | closeOther (fd : Nat)

namespace Registration

variable {κ τ υ : Type} [DecidableEq κ] [DecidableEq τ] [DecidableEq υ]

/-- Nothing is open. -/
def init : Registration κ τ υ where
  pollSet _ := ∅
  mode _ _ := none
  sock _ := none
  holder _ := none
  adding _ := none
  status _ := .new
  udpSock _ := none
  connecting _ := .idle
  closers _ := []
  tcp _ := .unborn
  udp _ := .unborn

/-! ## The code -/

/-- `hash_fd` -/
def hashFd (h : UInt32) : UInt32 :=
  let h := h ^^^ (h >>> 16)
  let h := h * 0x85ebca6b
  let h := h ^^^ (h >>> 13)
  let h := h * 0xc2b2ae35
  h ^^^ (h >>> 16)

/-- `hash_fd(fd) % n_threads_` -/
def tid (n fd : Nat) : Nat :=
  (hashFd (UInt32.ofNat fd)).toNat % n

/-- A number is given to a new socket of a Pollable. -/
def opened (s : Registration κ τ υ) (p : Pollable κ τ υ) (fd : Nat) : Registration κ τ υ :=
  { s with sock := Function.update s.sock p (some fd)
           holder := Function.update s.holder fd (some (.sock p)) }

/-- `::close(fd)`, whatever the number stands for -/
def close (s : Registration κ τ υ) (fd : Option Nat) : Registration κ τ υ :=
  { s with
    holder := match fd with
      | some fd => Function.update s.holder fd none
      | none => s.holder }

/-- `PollThread::add` has inserted the Pollable. -/
def inserted (s : Registration κ τ υ) (thread : Nat) (p : Pollable κ τ υ) (mode : Mode) (fd : Nat) :
    Registration κ τ υ :=
  { s with
    pollSet := Function.update s.pollSet thread (insert p (s.pollSet thread))
    mode := Function.update s.mode thread (Function.update (s.mode thread) fd (some mode)) }

/-- The critical section of `PollThread::remove` -/
def erased (s : Registration κ τ υ) (thread : Nat) (p : Pollable κ τ υ) : Registration κ τ υ :=
  { s with
    pollSet :=
      if p ∈ s.pollSet thread then
        Function.update s.pollSet thread ((s.pollSet thread).erase p)
      else s.pollSet
    mode :=
      if p ∈ s.pollSet thread then
        match s.sock p with
        | some fd => Function.update s.mode thread (Function.update (s.mode thread) fd none)
        | none => s.mode
      else s.mode }

/-- `PollMgr::remove` of a Pollable whose `fd()` does not change -/
def remove (n : Nat) (s : Registration κ τ υ) (p : Pollable κ τ υ) : Registration κ τ υ :=
  match s.sock p with
  | some fd => s.erased (tid n fd) p
  | none => s

/-- `PollMgr::add` returns. -/
def added (s : Registration κ τ υ) : Pollable κ τ υ → Registration κ τ υ
  | .client c => { s with connecting := Function.update s.connecting c .idle }
  | .tcp t => { s with tcp := Function.update s.tcp t .serving }
  | .udp u => { s with udp := Function.update s.udp u .serving }

/-- A `Client::close` goes on, or returns. -/
def closerTo (s : Registration κ τ υ) (c : κ) (pc : CloseAt) (next : List CloseAt) :
    Registration κ τ υ :=
  { s with closers := Function.update s.closers c (next ++ (s.closers c).erase pc) }

/-- What each step does, with `n` PollThreads. -/
def step (n : Nat) (s : Registration κ τ υ) : RegOp κ τ υ → Except Fault (Registration κ τ υ)
  | .connectTcp c (some fd) =>
    pure { s.opened (.client c) fd with connecting := Function.update s.connecting c .tcpDone }
  | .connectTcp c none =>
    pure { s with sock := Function.update s.sock (.client c) none
                  connecting := Function.update s.connecting c .failing }
  | .connectUdp c (some fd) =>
    pure { s with udpSock := Function.update s.udpSock c (some fd)
                  holder := Function.update s.holder fd (some (.udpSock c))
                  connecting := Function.update s.connecting c .udpDone }
  | .connectUdp c none =>
    pure { s with udpSock := Function.update s.udpSock c none
                  connecting := Function.update s.connecting c .failing }
  | .connected c =>
    pure { s with status := Function.update s.status c .connected
                  connecting := Function.update s.connecting c .adding }
  | .failSock c =>
    pure { s.close (s.sock (.client c)) with
           connecting := Function.update s.connecting c .failingUdp }
  | .failUdp c =>
    pure { s.close (s.udpSock c) with connecting := Function.update s.connecting c .idle }
  | .closeTest c =>
    let pc := if s.status c = .connected then CloseAt.removing else .marking
    pure { s with closers := Function.update s.closers c (pc :: s.closers c) }
  | .closeRead c =>
    match s.sock (.client c) with
    | some fd => pure (s.closerTo c .removing [.erasing (tid n fd)])
    | none => pure (s.closerTo c .removing [.closing])
  | .closeErase c thread =>
    pure ((s.erased thread (.client c)).closerTo c (.erasing thread) [.closing])
  | .closeSock c => pure ((s.close (s.sock (.client c))).closerTo c .closing [.marking])
  | .closeMark c =>
    pure ({ s with status := Function.update s.status c .closed }.closerTo c .marking [])
  | .accept t fd => pure { s.opened (.tcp t) fd with tcp := Function.update s.tcp t .accepted }
  | .enlist t => pure { s with tcp := Function.update s.tcp t .admitted }
  | .claim t => pure { s with tcp := Function.update s.tcp t .claimed }
  | .tcpRemove t => pure { s.remove n (.tcp t) with tcp := Function.update s.tcp t .removed }
  | .tcpClose t =>
    pure { s.close (s.sock (.tcp t)) with tcp := Function.update s.tcp t .closed }
  | .udpBind u fd => pure { s.opened (.udp u) fd with udp := Function.update s.udp u .bound }
  | .udpError u => pure (s.close (s.sock (.udp u)))
  | .loopEnd u => pure { s.close (s.sock (.udp u)) with udp := Function.update s.udp u .ended }
  | .udpRemove u => pure { s.remove n (.udp u) with udp := Function.update s.udp u .removed }
  | .startAdd p mode =>
    match s.sock p with
    | some fd => pure { s with adding := Function.update s.adding p (some (mode, fd)) }
    | none => pure (s.added p)
  | .insert p mode fd => do
    verify (p ∉ s.pollSet (tid n fd))
    verify (s.mode (tid n fd) fd = none)
    pure { (s.inserted (tid n fd) p mode fd).added p with adding := Function.update s.adding p none }
  | .openOther fd => pure { s with holder := Function.update s.holder fd (some .other) }
  | .closeOther fd => pure (s.close (some fd))

/-! ## The system -/

omit [DecidableEq κ] [DecidableEq τ] [DecidableEq υ] in
/-- The Pollable has its socket, and is in front of `add` or in it. -/
def Entering (s : Registration κ τ υ) : Pollable κ τ υ → Prop
  | .client c => s.connecting c = .adding
  | .tcp t => s.tcp t = .admitted
  | .udp u => s.udp u = .bound

omit [DecidableEq κ] [DecidableEq τ] [DecidableEq υ] in
/-- When a step can be taken. The kernel gives out numbers that are not open. -/
def Guard (s : Registration κ τ υ) : RegOp κ τ υ → Prop
  | .connectTcp c fd => s.connecting c = .idle ∧ s.status c ≠ .connected ∧
      ∀ x, fd = some x → s.holder x = none
  | .connectUdp c fd => s.connecting c = .tcpDone ∧ ∀ x, fd = some x → s.holder x = none
  | .connected c => s.connecting c = .udpDone
  | .failSock c => s.connecting c = .failing
  | .failUdp c => s.connecting c = .failingUdp
  | .closeTest _ => True
  | .closeRead c => .removing ∈ s.closers c
  | .closeErase c thread => .erasing thread ∈ s.closers c
  | .closeSock c => .closing ∈ s.closers c
  | .closeMark c => .marking ∈ s.closers c
  | .accept t fd => s.tcp t = .unborn ∧ s.holder fd = none
  | .enlist t => s.tcp t = .accepted
  | .claim t => s.tcp t = .serving
  | .tcpRemove t => s.tcp t = .claimed
  | .tcpClose t => s.tcp t = .removed
  | .udpBind u fd => s.udp u = .unborn ∧ s.holder fd = none
  | .udpError u => s.udp u = .serving ∨ s.udp u = .ended ∨ s.udp u = .removed
  | .loopEnd u => s.udp u = .serving
  | .udpRemove u => s.udp u = .ended
  | .startAdd p _ => s.Entering p ∧ s.adding p = none
  | .insert p mode fd => s.adding p = some (mode, fd)
  | .openOther fd => s.holder fd = none
  | .closeOther fd => s.holder fd = some .other

omit [DecidableEq κ] [DecidableEq τ] [DecidableEq υ] in
/-- The Pollable is in no `poll_set_`. -/
def Apart (s : Registration κ τ υ) (p : Pollable κ τ υ) : Prop :=
  ∀ thread, p ∉ s.pollSet thread

/-- The calls on a Client keep out of each other's way, `err_out` does not close a number that has
    passed to somebody else, and the UDP sockets of Servers stay open. -/
def Careful (s : Registration κ τ υ) : RegOp κ τ υ → Prop
  | .connectTcp c _ => s.Apart (.client c)
  | .closeSock c => s.connecting c = .idle ∧ s.Apart (.client c) ∧
      ∀ fd, s.sock (.client c) = some fd →
        s.holder fd = none ∨ s.holder fd = some (.sock (.client c))
  | .failUdp c => ∀ fd, s.udpSock c = some fd →
      s.holder fd = none ∨ s.holder fd = some (.udpSock c)
  | .udpError _ | .loopEnd _ => False
  | _ => True

/-- A step that can be taken and satisfies `fit`. -/
def Next (n : Nat) (fit : Registration κ τ υ → RegOp κ τ υ → Prop) (s : Registration κ τ υ)
    (op : RegOp κ τ υ) (s' : Registration κ τ υ) : Prop :=
  s.Guard op ∧ fit s op ∧ s.step n op = .ok s'

/-! ## The invariant -/

section States

variable (s : Registration κ τ υ)

omit [DecidableEq κ] [DecidableEq τ] [DecidableEq υ]

/-- The socket of the Pollable is open. -/
def Owns (p : Pollable κ τ υ) : Prop :=
  ∃ fd, s.sock p = some fd ∧ s.holder fd = some (.sock p)

/-- Its owner counts on that. -/
def Holds : Pollable κ τ υ → Prop
  | .client c => s.connecting c = .tcpDone ∨ s.connecting c = .udpDone ∨ s.connecting c = .adding ∨
      (s.connecting c = .failing ∧ s.sock (.client c) ≠ none)
  | .tcp t => s.tcp t ≠ .unborn ∧ s.tcp t ≠ .closed
  | .udp u => s.udp u ≠ .unborn

/-- Its owner has not registered it yet, or has removed it. -/
def Outside : Pollable κ τ υ → Prop
  | .client c => s.connecting c ≠ .idle
  | .tcp t => s.tcp t ≠ .serving ∧ s.tcp t ≠ .claimed
  | .udp u => s.udp u ≠ .serving

variable {s} in
theorem Entering.holds {p : Pollable κ τ υ} (h : s.Entering p) : s.Holds p := by
  cases p with
  | client c => exact .inr (.inr (.inl h))
  | tcp t =>
    have ht : s.tcp t = .admitted := h
    simp [Holds, ht]
  | udp u =>
    have hu : s.udp u = .bound := h
    simp [Holds, hu]

variable {s} in
theorem Entering.outside {p : Pollable κ τ υ} (h : s.Entering p) : s.Outside p := by
  cases p with
  | client c =>
    have hc : s.connecting c = .adding := h
    simp [Outside, hc]
  | tcp t =>
    have ht : s.tcp t = .admitted := h
    simp [Outside, ht]
  | udp u =>
    have hu : s.udp u = .bound := h
    simp [Outside, hu]

/-- What is registered is open under the number that it is registered with. -/
structure Core (n : Nat) : Prop where
  mode_set : ∀ thread fd, s.mode thread fd ≠ none → ∃ p ∈ s.pollSet thread, s.sock p = some fd
  set_open : ∀ thread, ∀ p ∈ s.pollSet thread, ∃ fd, s.sock p = some fd ∧ tid n fd = thread ∧
    s.holder fd = some (.sock p) ∧ s.mode thread fd ≠ none

structure Inv (n : Nat) : Prop where
  core : s.Core n
  holds : ∀ p, s.Holds p → s.Owns p
  outside : ∀ p, s.Outside p → s.Apart p
  entering : ∀ p mode fd, s.adding p = some (mode, fd) → s.Entering p ∧ s.sock p = some fd
  udp_open : ∀ u, s.udp u = .unborn ∨ s.udp u = .bound ∨ s.udp u = .serving

/-- A step of one Pollable, seen by the others. -/
structure Elsewhere (q : Pollable κ τ υ) (s s' : Registration κ τ υ) : Prop where
  holds : ∀ p, p ≠ q → s'.Holds p → s.Holds p
  outside : ∀ p, p ≠ q → s'.Outside p → s.Outside p
  entering : ∀ p, p ≠ q → s.Entering p → s'.Entering p
  sock : ∀ p, p ≠ q → s'.sock p = s.sock p
  adding : ∀ p, p ≠ q → s'.adding p = s.adding p
  apart : ∀ p, p ≠ q → s.Apart p → s'.Apart p
  holder : ∀ p, p ≠ q → ∀ fd, s.holder fd = some (.sock p) → s'.holder fd = some (.sock p)

end States

omit [DecidableEq κ] [DecidableEq τ] [DecidableEq υ] in
theorem inv_init (n : Nat) : (init : Registration κ τ υ).Inv n where
  core := by
    constructor <;> simp [init]
  holds p h := by
    cases p <;> simp [init, Holds] at h
  outside p h thread := Finset.notMem_empty p
  entering p mode fd h := by
    simp [init] at h
  udp_open u := .inl rfl

section Elsewhere

variable {s s' : Registration κ τ υ} {q : Pollable κ τ υ}

omit [DecidableEq κ] [DecidableEq τ] [DecidableEq υ] in
theorem elsewhere_of (hclient : ∀ c, .client c ≠ q → s'.connecting c = s.connecting c)
    (htcp : ∀ t, .tcp t ≠ q → s'.tcp t = s.tcp t) (hudp : ∀ u, .udp u ≠ q → s'.udp u = s.udp u)
    (hsock : ∀ p, p ≠ q → s'.sock p = s.sock p) (hadding : ∀ p, p ≠ q → s'.adding p = s.adding p)
    (hapart : ∀ p, p ≠ q → s.Apart p → s'.Apart p)
    (hholder : ∀ p, p ≠ q → ∀ fd, s.holder fd = some (.sock p) → s'.holder fd = some (.sock p)) :
    Elsewhere q s s' := by
  refine ⟨?_, ?_, ?_, hsock, hadding, hapart, hholder⟩
  · -- who owned a socket owns it
    intro p hne h
    cases p with
    | client c => simpa only [Holds, hclient c hne, hsock _ hne] using h
    | tcp t => simpa only [Holds, htcp t hne] using h
    | udp u => simpa only [Holds, hudp u hne] using h
  · -- who was outside of every PollThread is
    intro p hne h
    cases p with
    | client c => simpa only [Outside, hclient c hne] using h
    | tcp t => simpa only [Outside, htcp t hne] using h
    | udp u => simpa only [Outside, hudp u hne] using h
  · -- who was about to be added is
    intro p hne h
    cases p with
    | client c => simpa only [Entering, hclient c hne] using h
    | tcp t => simpa only [Entering, htcp t hne] using h
    | udp u => simpa only [Entering, hudp u hne] using h

omit [DecidableEq τ] [DecidableEq υ] in
/-- A step of a Client. -/
theorem elsewhere_client {c : κ} {x : ConnectAt}
    (hconnecting : s'.connecting = Function.update s.connecting c x) (htcp : s'.tcp = s.tcp)
    (hudp : s'.udp = s.udp) (hsock : ∀ p, p ≠ .client c → s'.sock p = s.sock p)
    (hadding : ∀ p, p ≠ .client c → s'.adding p = s.adding p)
    (hapart : ∀ p, p ≠ .client c → s.Apart p → s'.Apart p)
    (hholder : ∀ p, p ≠ .client c → ∀ fd, s.holder fd = some (.sock p) →
      s'.holder fd = some (.sock p)) : Elsewhere (.client c) s s' := by
  apply elsewhere_of _ (fun t _ => by rw [htcp]) (fun u _ => by rw [hudp]) hsock hadding hapart
    hholder
  intro c' hne
  rw [hconnecting]
  exact Function.update_of_ne (fun h => hne (congrArg _ h)) _ _

omit [DecidableEq κ] [DecidableEq υ] in
/-- A step of a ServerTcpConnection. -/
theorem elsewhere_tcp {t : τ} {x : TcpAt} (htcp : s'.tcp = Function.update s.tcp t x)
    (hconnecting : s'.connecting = s.connecting)
    (hudp : s'.udp = s.udp) (hsock : ∀ p, p ≠ .tcp t → s'.sock p = s.sock p)
    (hadding : ∀ p, p ≠ .tcp t → s'.adding p = s.adding p)
    (hapart : ∀ p, p ≠ .tcp t → s.Apart p → s'.Apart p)
    (hholder : ∀ p, p ≠ .tcp t → ∀ fd, s.holder fd = some (.sock p) →
      s'.holder fd = some (.sock p)) : Elsewhere (.tcp t) s s' := by
  apply elsewhere_of (fun c _ => by rw [hconnecting]) _ (fun u _ => by rw [hudp]) hsock hadding
    hapart hholder
  intro t' hne
  rw [htcp]
  exact Function.update_of_ne (fun h => hne (congrArg _ h)) _ _

omit [DecidableEq κ] [DecidableEq τ] in
/-- A step of a ServerUdpConnection. -/
theorem elsewhere_udp {u : υ} {x : UdpAt} (hudp : s'.udp = Function.update s.udp u x)
    (hconnecting : s'.connecting = s.connecting)
    (htcp : s'.tcp = s.tcp) (hsock : ∀ p, p ≠ .udp u → s'.sock p = s.sock p)
    (hadding : ∀ p, p ≠ .udp u → s'.adding p = s.adding p)
    (hapart : ∀ p, p ≠ .udp u → s.Apart p → s'.Apart p)
    (hholder : ∀ p, p ≠ .udp u → ∀ fd, s.holder fd = some (.sock p) →
      s'.holder fd = some (.sock p)) : Elsewhere (.udp u) s s' := by
  apply elsewhere_of (fun c _ => by rw [hconnecting]) (fun t _ => by rw [htcp]) _ hsock hadding
    hapart hholder
  intro u' hne
  rw [hudp]
  exact Function.update_of_ne (fun h => hne (congrArg _ h)) _ _

omit [DecidableEq κ] [DecidableEq τ] [DecidableEq υ] in
/-- A step of one Pollable keeps the invariant if it keeps the part about this Pollable. -/
theorem Inv.act {n : Nat} (hI : s.Inv n) (h : Elsewhere q s s') (hcore : s'.Core n)
    (hholds : s'.Holds q → s'.Owns q) (houtside : s'.Outside q → s'.Apart q)
    (hentering : ∀ mode fd, s'.adding q = some (mode, fd) → s'.Entering q ∧ s'.sock q = some fd)
    (hudp : ∀ u, s'.udp u = .unborn ∨ s'.udp u = .bound ∨ s'.udp u = .serving) : s'.Inv n := by
  refine ⟨hcore, ?_, ?_, ?_, hudp⟩
  · -- the owners of sockets
    intro p hp
    by_cases hq : p = q
    · subst hq
      exact hholds hp
    · obtain ⟨fd, hsock, hholder⟩ := hI.holds p (h.holds p hq hp)
      exact ⟨fd, (h.sock p hq).trans hsock, h.holder p hq fd hholder⟩
  · -- those outside of every PollThread
    intro p hp
    by_cases hq : p = q
    · subst hq
      exact houtside hp
    · exact h.apart p hq (hI.outside p (h.outside p hq hp))
  · -- those with an `add` in progress
    intro p mode fd hp
    by_cases hq : p = q
    · subst hq
      exact hentering mode fd hp
    · rw [h.adding p hq] at hp
      obtain ⟨he, hsock⟩ := hI.entering p mode fd hp
      exact ⟨h.entering p hq he, (h.sock p hq).trans hsock⟩

end Elsewhere

/-! ## What is registered, step by step -/

section Core

variable {n : Nat} {s : Registration κ τ υ} (hI : s.Core n)

include hI

omit [DecidableEq κ] [DecidableEq τ] [DecidableEq υ] in
/-- A change that no registered Pollable sees. -/
theorem Core.frame {s' : Registration κ τ υ} (hset : s'.pollSet = s.pollSet)
    (hmode : s'.mode = s.mode)
    (hsock : ∀ thread, ∀ p ∈ s.pollSet thread, s'.sock p = s.sock p)
    (hholder : ∀ thread, ∀ p ∈ s.pollSet thread, ∀ fd, s.sock p = some fd →
      s'.holder fd = s.holder fd) : s'.Core n where
  -- every key of `mode_` belongs to a registered Pollable
  mode_set thread fd h := by
    rw [hmode] at h
    obtain ⟨p, hp, hfd⟩ := hI.mode_set thread fd h
    exact ⟨p, hset ▸ hp, (hsock thread p hp).trans hfd⟩
  set_open thread p hp := by
    rw [hset] at hp
    obtain ⟨fd, hfd, htid, hown, hm⟩ := hI.set_open thread p hp
    -- and every registered Pollable has an open socket
    refine ⟨fd, (hsock thread p hp).trans hfd, htid, ?_, hmode ▸ hm⟩
    rw [hholder thread p hp fd hfd, hown]

omit [DecidableEq κ] [DecidableEq τ] [DecidableEq υ] in
/-- A number that is not open is not registered. -/
theorem Core.holder_ne {fd : Nat} {p : Pollable κ τ υ} {thread fd' : Nat}
    (hp : p ∈ s.pollSet thread) (hfd' : s.sock p = some fd')
    (h : s.holder fd ≠ some (.sock p)) : fd' ≠ fd := by
  obtain ⟨x, hx, -, hown, -⟩ := hI.set_open thread p hp
  rintro rfl
  rw [hfd'] at hx
  cases hx
  exact h hown

omit [DecidableEq κ] [DecidableEq τ] [DecidableEq υ] in
/-- A number is opened or closed that no registered Pollable has. -/
theorem Core.update_holder {fd : Nat} (h : Option (Holder κ τ υ))
    (hfree : ∀ thread, ∀ p ∈ s.pollSet thread, s.holder fd ≠ some (.sock p)) :
    ({ s with holder := Function.update s.holder fd h } : Registration κ τ υ).Core n := by
  refine hI.frame rfl rfl (fun _ _ _ => rfl) ?_
  intro thread p hp fd' hfd'
  exact Function.update_of_ne (hI.holder_ne hp hfd' (hfree thread p hp)) _ _

theorem Core.opened {p : Pollable κ τ υ} {fd : Nat} (happart : s.Apart p)
    (hfree : s.holder fd = none) : (s.opened p fd).Core n := by
  refine hI.frame rfl rfl ?_ ?_
  · intro thread p' hp
    have hne : p' ≠ p := by
      rintro rfl
      exact happart thread hp
    exact Function.update_of_ne hne _ _
  · intro thread p' hp fd' hfd'
    exact Function.update_of_ne (hI.holder_ne hp hfd' (by simp [hfree])) _ _

omit [DecidableEq κ] [DecidableEq τ] [DecidableEq υ] in
/-- `::close` of a number that is free, or belongs to somebody who is not registered -/
theorem Core.close {fd : Option Nat}
    (hfree : ∀ x, fd = some x → ∀ thread, ∀ p ∈ s.pollSet thread, s.holder x ≠ some (.sock p)) :
    (s.close fd).Core n := by
  cases fd with
  | none => exact hI
  | some x => exact hI.update_holder none (hfree x rfl)

theorem Core.erased (thread : Nat) (p : Pollable κ τ υ) : (s.erased thread p).Core n := by
  by_cases hp : p ∈ s.pollSet thread
  · obtain ⟨fd, hfd, htid, hown, -⟩ := hI.set_open thread p hp
    -- another Pollable of this PollThread has another number
    have hother : ∀ {q : Pollable κ τ υ} {fd' : Nat}, q ≠ p → s.holder fd' = some (.sock q) →
        fd' ≠ fd := by
      rintro q fd' hqp hq rfl
      rw [hown] at hq
      cases hq
      exact hqp rfl
    simp only [Registration.erased, if_pos hp, hfd]
    constructor
    · -- the keys that are left belong to the Pollables that are left
      intro thread' fd' hm
      by_cases ht : thread' = thread
      · subst ht
        by_cases hx : fd' = fd
        · simp [hx] at hm
        · have hold : s.mode thread' fd' ≠ none := by simpa [hx] using hm
          obtain ⟨q, hq, hqfd⟩ := hI.mode_set thread' fd' hold
          have hqp : q ≠ p := by
            rintro rfl
            rw [hfd] at hqfd
            exact hx (Option.some.inj hqfd).symm
          exact ⟨q, by simp [hqp, hq], hqfd⟩
      · have hold : s.mode thread' fd' ≠ none := by simpa [ht] using hm
        obtain ⟨q, hq, hqfd⟩ := hI.mode_set thread' fd' hold
        exact ⟨q, by simpa [ht] using hq, hqfd⟩
    · -- and the Pollables that are left keep their keys
      intro thread' q hq
      by_cases ht : thread' = thread
      · subst ht
        obtain ⟨hqp, hq⟩ : q ≠ p ∧ q ∈ s.pollSet thread' := by simpa using hq
        obtain ⟨fd', hfd', htid', hown', hm⟩ := hI.set_open thread' q hq
        exact ⟨fd', hfd', htid', hown', by simpa [hother hqp hown'] using hm⟩
      · obtain ⟨fd', hfd', htid', hown', hm⟩ := hI.set_open thread' q (by simpa [ht] using hq)
        exact ⟨fd', hfd', htid', hown', by simpa [ht] using hm⟩
  · -- nothing is erased when it is not registered
    simp only [Registration.erased, if_neg hp]
    exact { hI with }

omit hI in
theorem mem_of_mem_erased {thread thread' : Nat} {p q : Pollable κ τ υ}
    (h : q ∈ (s.erased thread p).pollSet thread') : q ∈ s.pollSet thread' := by
  by_cases hp : p ∈ s.pollSet thread
  · simp only [Registration.erased, if_pos hp] at h
    by_cases ht : thread' = thread
    · subst ht
      have hq : q ≠ p ∧ q ∈ s.pollSet thread' := by simpa using h
      exact hq.2
    · simpa [ht] using h
  · simpa only [Registration.erased, if_neg hp] using h

omit hI in
theorem Apart.inserted {thread fd : Nat} {p q : Pollable κ τ υ} {mode : Mode} (hne : q ≠ p)
    (h : s.Apart q) : (s.inserted thread p mode fd).Apart q := by
  intro thread' hmem
  by_cases ht : thread' = thread
  · subst ht
    have hq : q = p ∨ q ∈ s.pollSet thread' := by simpa [Registration.inserted] using hmem
    exact hq.elim hne (h _)
  · exact h thread' (by simpa [Registration.inserted, ht] using hmem)

omit hI in
theorem Apart.erased {thread : Nat} {p q : Pollable κ τ υ} (h : s.Apart q) :
    (s.erased thread p).Apart q :=
  fun thread' hmem => h thread' (mem_of_mem_erased hmem)

/-- `remove` looks into the PollThread that the Pollable was added to. -/
theorem Core.apart_erased {p : Pollable κ τ υ} {fd : Nat} (hfd : s.sock p = some fd) :
    (s.erased (tid n fd) p).Apart p := by
  intro thread hmem
  have hp := mem_of_mem_erased hmem
  obtain ⟨fd', hfd', rfl, -, -⟩ := hI.set_open thread p hp
  obtain rfl : fd = fd' := by simpa [hfd] using hfd'
  simp [Registration.erased, hp] at hmem

omit [DecidableEq κ] [DecidableEq τ] [DecidableEq υ] in
/-- The critical section of `add` passes its two verifications. -/
theorem Core.insert_verifies {p : Pollable κ τ υ} {fd : Nat} (happart : s.Apart p)
    (hown : s.holder fd = some (.sock p)) :
    p ∉ s.pollSet (tid n fd) ∧ s.mode (tid n fd) fd = none := by
  refine ⟨happart _, ?_⟩
  by_contra hm
  obtain ⟨q, hq, hqfd⟩ := hI.mode_set _ _ hm
  obtain ⟨fd', hfd', -, hown', -⟩ := hI.set_open _ q hq
  rw [hqfd] at hfd'
  cases hfd'
  rw [hown] at hown'
  cases hown'
  exact happart _ hq

theorem Core.inserted {p : Pollable κ τ υ} {fd : Nat} (mode : Mode) (hfd : s.sock p = some fd)
    (hown : s.holder fd = some (.sock p)) : (s.inserted (tid n fd) p mode fd).Core n := by
  constructor
  · intro thread fd' hm
    change ∃ q ∈ Function.update s.pollSet (tid n fd) (insert p (s.pollSet (tid n fd))) thread,
      s.sock q = some fd'
    -- the new key belongs to the new Pollable, the other keys are those of before
    by_cases ht : thread = tid n fd
    · subst ht
      by_cases hx : fd' = fd
      · subst hx
        exact ⟨p, by simp, hfd⟩
      · have hold : s.mode (tid n fd) fd' ≠ none := by
          simpa [Registration.inserted, hx] using hm
        obtain ⟨q, hq, hqfd⟩ := hI.mode_set _ _ hold
        exact ⟨q, by simp [hq], hqfd⟩
    · have hold : s.mode thread fd' ≠ none := by simpa [Registration.inserted, ht] using hm
      obtain ⟨q, hq, hqfd⟩ := hI.mode_set _ _ hold
      exact ⟨q, by simpa [ht] using hq, hqfd⟩
  · -- every registered Pollable is open and has a key, the new one has got both
    intro thread q hq
    change ∃ fd', s.sock q = some fd' ∧ tid n fd' = thread ∧ s.holder fd' = some (.sock q) ∧
      Function.update s.mode (tid n fd) (Function.update (s.mode (tid n fd)) fd (some mode)) thread
        fd' ≠ none
    by_cases ht : thread = tid n fd
    · subst ht
      obtain rfl | hq : q = p ∨ q ∈ s.pollSet (tid n fd) := by
        simpa [Registration.inserted] using hq
      · exact ⟨fd, hfd, rfl, hown, by simp⟩
      · obtain ⟨fd', hfd', htid', hown', hm⟩ := hI.set_open _ q hq
        refine ⟨fd', hfd', htid', hown', ?_⟩
        by_cases hx : fd' = fd
        · simp [hx]
        · simpa [hx] using hm
    · have hq : q ∈ s.pollSet thread := by simpa [Registration.inserted, ht] using hq
      obtain ⟨fd', hfd', htid', hown', hm⟩ := hI.set_open _ q hq
      exact ⟨fd', hfd', htid', hown', by simpa [ht] using hm⟩

end Core

/-! ## One step -/

section Step

variable {n : Nat} {s : Registration κ τ υ}

omit [DecidableEq κ] [DecidableEq τ] [DecidableEq υ] in
/-- What is open stays open when a free number is given out. -/
theorem holder_update {fd fd' : Nat} {h : Option (Holder κ τ υ)} {p : Pollable κ τ υ}
    (hne : s.holder fd ≠ some (.sock p)) (hfd' : s.holder fd' = some (.sock p)) :
    Function.update s.holder fd h fd' = some (.sock p) := by
  have hfd : fd' ≠ fd := by
    rintro rfl
    exact hne hfd'
  rw [Function.update_of_ne hfd, hfd']

omit [DecidableEq κ] [DecidableEq τ] [DecidableEq υ] in
/-- What is open stays open when another number is closed. -/
theorem holder_close {fd : Option Nat} {fd' : Nat} {p : Pollable κ τ υ}
    (hne : ∀ x, fd = some x → s.holder x ≠ some (.sock p)) (hfd' : s.holder fd' = some (.sock p)) :
    (s.close fd).holder fd' = some (.sock p) := by
  cases fd with
  | none => exact hfd'
  | some x => exact holder_update (hne x rfl) hfd'

theorem owns_opened (s : Registration κ τ υ) (p : Pollable κ τ υ) (fd : Nat) :
    (s.opened p fd).Owns p :=
  ⟨fd, Function.update_self .., Function.update_self ..⟩

omit [DecidableEq κ] [DecidableEq τ] [DecidableEq υ] in
/-- A number that belongs to a Pollable that is not registered is not registered. -/
theorem Apart.close_own {p : Pollable κ τ υ} {fd : Nat} (hapart : s.Apart p)
    (hown : s.holder fd = none ∨ s.holder fd = some (.sock p)) :
    ∀ thread, ∀ q ∈ s.pollSet thread, s.holder fd ≠ some (.sock q) := by
  intro thread q hq h
  obtain hnone | hp := hown
  · simp [hnone] at h
  · rw [hp] at h
    cases h
    exact hapart thread hq

variable (hI : s.Inv n)

include hI

omit [DecidableEq κ] [DecidableEq τ] [DecidableEq υ] in
/-- Only a Pollable on its way in has an `add` in progress. -/
theorem Inv.not_adding {p : Pollable κ τ υ} {P : Prop} {mode : Mode} {fd : Nat}
    (hp : ¬ s.Entering p) (h : s.adding p = some (mode, fd)) : P :=
  absurd (hI.entering p mode fd h).1 hp

theorem Inv.connectTcp {c : κ} {fd : Option Nat} (hguard : s.Guard (.connectTcp c fd))
    (hapart : s.Apart (.client c)) :
    ∃ s', s.step n (.connectTcp c fd) = .ok s' ∧ s'.Inv n := by
  obtain ⟨hidle, -, hfree⟩ := hguard
  have hnot : ¬ s.Entering (.client c) := by simp [Entering, hidle]
  cases fd with
  | some fd =>
    -- `connect` has got a socket
    have hfd := hfree fd rfl
    refine ⟨_, rfl, hI.act (q := .client c) (elsewhere_client rfl rfl rfl ?_ (fun _ _ => rfl)
      (fun _ _ h => h) ?_) { hI.core.opened hapart hfd with } ?_ (fun _ => hapart) ?_ hI.udp_open⟩
    · exact fun _ hne => Function.update_of_ne hne _ _
    · exact fun _ _ _ h => holder_update (by simp [hfd]) h
    · exact fun _ => owns_opened s (.client c) fd
    · exact fun mode fd h => hI.not_adding hnot h
  | none =>
    -- `tcp_connect` has failed
    refine ⟨_, rfl, hI.act (q := .client c) (elsewhere_client rfl rfl rfl ?_ (fun _ _ => rfl)
      (fun _ _ h => h) (fun _ _ _ h => h)) ?_ ?_ (fun _ => hapart) ?_ hI.udp_open⟩
    · exact fun _ hne => Function.update_of_ne hne _ _
    · refine hI.core.frame rfl rfl ?_ (fun _ _ _ _ _ => rfl)
      intro thread p hp
      have hne : p ≠ .client c := by
        rintro rfl
        exact hapart thread hp
      exact Function.update_of_ne hne _ _
    · simp [Holds]
    · exact fun mode fd h => hI.not_adding hnot h

theorem Inv.connectUdp {c : κ} {fd : Option Nat} (hguard : s.Guard (.connectUdp c fd)) :
    ∃ s', s.step n (.connectUdp c fd) = .ok s' ∧ s'.Inv n := by
  obtain ⟨htcp, hfree⟩ := hguard
  have hnot : ¬ s.Entering (.client c) := by simp [Entering, htcp]
  have hapart : s.Apart (.client c) := hI.outside _ (by simp [Outside, htcp])
  obtain ⟨x, hsock, hown⟩ := hI.holds (.client c) (.inl htcp)
  cases fd with
  | some fd =>
    -- the second socket is nobody's `sock_`
    have hfd := hfree fd rfl
    refine ⟨_, rfl, hI.act (q := .client c) (elsewhere_client rfl rfl rfl (fun _ _ => rfl)
      (fun _ _ => rfl) (fun _ _ h => h) ?_) ?_ ?_ (fun _ => hapart) ?_ hI.udp_open⟩
    · exact fun _ _ _ h => holder_update (by simp [hfd]) h
    · exact { hI.core.update_holder (some (.udpSock c)) (by simp [hfd]) with }
    · exact fun _ => ⟨x, hsock, holder_update (by simp [hfd]) hown⟩
    · exact fun mode fd h => hI.not_adding hnot h
  | none =>
    -- `udp_connect` has failed
    refine ⟨_, rfl, hI.act (q := .client c) (elsewhere_client rfl rfl rfl (fun _ _ => rfl)
      (fun _ _ => rfl) (fun _ _ h => h) (fun _ _ _ h => h)) { hI.core with } ?_ (fun _ => hapart) ?_
      hI.udp_open⟩
    · exact fun _ => ⟨x, hsock, hown⟩
    · exact fun mode fd h => hI.not_adding hnot h

theorem Inv.connected {c : κ} (hguard : s.Guard (.connected c)) :
    ∃ s', s.step n (.connected c) = .ok s' ∧ s'.Inv n := by
  have hudp : s.connecting c = .udpDone := hguard
  have hnot : ¬ s.Entering (.client c) := by simp [Entering, hudp]
  refine ⟨_, rfl, hI.act (q := .client c) (elsewhere_client rfl rfl rfl (fun _ _ => rfl)
    (fun _ _ => rfl) (fun _ _ h => h) (fun _ _ _ h => h)) { hI.core with } ?_ ?_ ?_ hI.udp_open⟩
  · exact fun _ => hI.holds (.client c) (.inr (.inl hudp))
  · exact fun _ => hI.outside (.client c) (by simp [Outside, hudp])
  · exact fun mode fd h => hI.not_adding hnot h

theorem Inv.failSock {c : κ} (hguard : s.Guard (.failSock c)) :
    ∃ s', s.step n (.failSock c) = .ok s' ∧ s'.Inv n := by
  have hfailing : s.connecting c = .failing := hguard
  have hnot : ¬ s.Entering (.client c) := by simp [Entering, hfailing]
  have hapart : s.Apart (.client c) := hI.outside _ (by simp [Outside, hfailing])
  -- it is the socket of this Client, if there is one
  have hown : ∀ fd, s.sock (.client c) = some fd → s.holder fd = some (.sock (.client c)) := by
    intro fd hfd
    obtain ⟨x, hsock, hown⟩ := hI.holds (.client c)
      (.inr (.inr (.inr ⟨hfailing, by simp [hfd]⟩)))
    rw [hfd] at hsock
    cases hsock
    exact hown
  refine ⟨_, rfl, hI.act (q := .client c) (elsewhere_client rfl rfl rfl (fun _ _ => rfl)
    (fun _ _ => rfl) (fun _ _ h => h) ?_) ?_ ?_ (fun _ => hapart) ?_ hI.udp_open⟩
  · -- the others keep theirs
    intro p hne fd h
    refine holder_close (fun x hx => ?_) h
    rw [hown x hx]
    simpa using hne.symm
  · -- nobody has registered it
    have hC := hI.core.close (fun x hx => hapart.close_own (.inr (hown x hx)))
    exact { hC with }
  · simp [Holds]
  · exact fun mode fd h => hI.not_adding hnot h

theorem Inv.failUdp {c : κ} (hguard : s.Guard (.failUdp c)) (hcareful : s.Careful (.failUdp c)) :
    ∃ s', s.step n (.failUdp c) = .ok s' ∧ s'.Inv n := by
  have hfailing : s.connecting c = .failingUdp := hguard
  have hnot : ¬ s.Entering (.client c) := by simp [Entering, hfailing]
  have hown : ∀ fd, s.udpSock c = some fd → ∀ p, s.holder fd ≠ some (.sock p) := by
    intro fd hfd p
    -- it was closed before, or is a UDP socket
    obtain hnone | hudp := hcareful fd hfd
    · simp [hnone]
    · simp [hudp]
  refine ⟨_, rfl, hI.act (q := .client c) (elsewhere_client rfl rfl rfl (fun _ _ => rfl)
    (fun _ _ => rfl) (fun _ _ h => h) ?_) ?_ ?_ ?_ ?_ hI.udp_open⟩
  · exact fun p _ fd h => holder_close (fun x hx => hown x hx p) h
  · have hC := hI.core.close (fun x hx _ p _ => hown x hx p)
    exact { hC with }
  · simp [Holds]
  · simp [Outside]
  · exact fun mode fd h => hI.not_adding hnot h

theorem Inv.closeSock {c : κ} (hcareful : s.Careful (.closeSock c)) :
    ∃ s', s.step n (.closeSock c) = .ok s' ∧ s'.Inv n := by
  obtain ⟨hidle, hapart, hown⟩ := hcareful
  have hnot : ¬ s.Entering (.client c) := by simp [Entering, hidle]
  refine ⟨_, rfl, hI.act (q := .client c) (elsewhere_client (Function.update_eq_self c _).symm rfl rfl
    (fun _ _ => rfl) (fun _ _ => rfl) (fun _ _ h => h) ?_) ?_ ?_ (fun _ => hapart) ?_ hI.udp_open⟩
  · -- the others keep their sockets
    intro p hne fd h
    refine holder_close (fun x hx => ?_) h
    obtain hnone | hself := hown x hx
    · simp [hnone]
    · rw [hself]
      simpa using hne.symm
  · -- no PollThread knows the socket
    have hC := hI.core.close (fun x hx => hapart.close_own (hown x hx))
    exact { hC with }
  · -- the Client holds no socket while it is not connecting
    intro h
    obtain h | h | h | ⟨h, -⟩ := h <;> exact absurd (hidle.symm.trans h) (by simp)
  · exact fun mode fd h => hI.not_adding hnot h

/-- Removing a Pollable leaves it open. -/
theorem Inv.erased (thread : Nat) (p : Pollable κ τ υ) : (s.erased thread p).Inv n where
  core := hI.core.erased thread p
  holds := hI.holds
  outside q h := (hI.outside q h).erased
  entering := hI.entering
  udp_open := hI.udp_open

theorem Inv.accept {t : τ} {fd : Nat} (hguard : s.Guard (.accept t fd)) :
    ∃ s', s.step n (.accept t fd) = .ok s' ∧ s'.Inv n := by
  obtain ⟨hunborn, hfd⟩ := hguard
  have hnot : ¬ s.Entering (.tcp t) := by simp [Entering, hunborn]
  have hapart : s.Apart (.tcp t) := hI.outside _ (by simp [Outside, hunborn])
  refine ⟨_, rfl, hI.act (q := .tcp t) (elsewhere_tcp rfl rfl rfl ?_ (fun _ _ => rfl)
    (fun _ _ h => h) ?_) { hI.core.opened hapart hfd with } ?_ (fun _ => hapart) ?_ hI.udp_open⟩
  · exact fun _ hne => Function.update_of_ne hne _ _
  · exact fun _ _ _ h => holder_update (by simp [hfd]) h
  · exact fun _ => owns_opened s (.tcp t) fd
  · exact fun mode fd h => hI.not_adding hnot h

omit [DecidableEq κ] [DecidableEq υ] in
/-- A ServerTcpConnection goes on to a state in which it still has its socket. -/
theorem Inv.tcpTo {t : τ} (x : TcpAt) (hnot : ¬ s.Entering (.tcp t)) (hholds : s.Holds (.tcp t))
    (hapart : x ≠ .serving → x ≠ .claimed → s.Apart (.tcp t)) :
    ({ s with tcp := Function.update s.tcp t x } : Registration κ τ υ).Inv n := by
  refine hI.act (q := .tcp t) (elsewhere_tcp rfl rfl rfl (fun _ _ => rfl) (fun _ _ => rfl)
    (fun _ _ h => h) (fun _ _ _ h => h)) { hI.core with } ?_ ?_ ?_ hI.udp_open
  · exact fun _ => hI.holds (.tcp t) hholds
  · intro h
    have hx : x ≠ .serving ∧ x ≠ .claimed := by simpa [Outside] using h
    exact hapart hx.1 hx.2
  · exact fun mode fd h => hI.not_adding hnot h

theorem Inv.tcpRemove {t : τ} (hguard : s.Guard (.tcpRemove t)) :
    ∃ s', s.step n (.tcpRemove t) = .ok s' ∧ s'.Inv n := by
  have hclaimed : s.tcp t = .claimed := hguard
  have hholds : s.Holds (.tcp t) := by simp [Holds, hclaimed]
  obtain ⟨fd, hfd, -⟩ := hI.holds (.tcp t) hholds
  refine ⟨_, rfl, ?_⟩
  simp only [Registration.remove, hfd]
  refine (hI.erased (tid n fd) (.tcp t)).tcpTo .removed ?_ hholds ?_
  · change s.tcp t ≠ .admitted
    simp [hclaimed]
  · exact fun _ _ => hI.core.apart_erased hfd

theorem Inv.tcpClose {t : τ} (hguard : s.Guard (.tcpClose t)) :
    ∃ s', s.step n (.tcpClose t) = .ok s' ∧ s'.Inv n := by
  have hremoved : s.tcp t = .removed := hguard
  have hnot : ¬ s.Entering (.tcp t) := by simp [Entering, hremoved]
  have hapart : s.Apart (.tcp t) := hI.outside _ (by simp [Outside, hremoved])
  obtain ⟨fd, hfd, hown⟩ := hI.holds (.tcp t) (by simp [Holds, hremoved])
  -- the socket that is closed is the one of this connection
  have hself : ∀ x, s.sock (.tcp t) = some x → s.holder x = some (.sock (.tcp t)) := by
    intro x hx
    rw [hfd] at hx
    cases hx
    exact hown
  refine ⟨_, rfl, hI.act (q := .tcp t) (elsewhere_tcp rfl rfl rfl (fun _ _ => rfl)
    (fun _ _ => rfl) (fun _ _ h => h) ?_) ?_ ?_ (fun _ => hapart) ?_ hI.udp_open⟩
  · -- the others keep theirs
    intro p hne fd h
    refine holder_close (fun x hx => ?_) h
    rw [hself x hx]
    simpa using hne.symm
  · -- nobody has registered it
    have hC := hI.core.close (fun x hx => hapart.close_own (.inr (hself x hx)))
    exact { hC with }
  · simp [Holds]
  · exact fun mode fd h => hI.not_adding hnot h

theorem Inv.udpBind {u : υ} {fd : Nat} (hguard : s.Guard (.udpBind u fd)) :
    ∃ s', s.step n (.udpBind u fd) = .ok s' ∧ s'.Inv n := by
  obtain ⟨hunborn, hfd⟩ := hguard
  have hnot : ¬ s.Entering (.udp u) := by simp [Entering, hunborn]
  have hapart : s.Apart (.udp u) := hI.outside _ (by simp [Outside, hunborn])
  refine ⟨_, rfl, hI.act (q := .udp u) (elsewhere_udp rfl rfl rfl ?_ (fun _ _ => rfl)
    (fun _ _ h => h) ?_) { hI.core.opened hapart hfd with } ?_ (fun _ => hapart) ?_ ?_⟩
  · -- the sockets of the others
    exact fun _ hne => Function.update_of_ne hne _ _
  · exact fun _ _ _ h => holder_update (by simp [hfd]) h
  · exact fun _ => owns_opened s (.udp u) fd
  · exact fun mode fd h => hI.not_adding hnot h
  · -- the other Servers have bound theirs or not
    intro u'
    by_cases hu : u' = u
    · simp [hu]
    · simpa [hu] using hI.udp_open u'

theorem Inv.startAdd {p : Pollable κ τ υ} {mode : Mode} (hguard : s.Guard (.startAdd p mode)) :
    ∃ s', s.step n (.startAdd p mode) = .ok s' ∧ s'.Inv n := by
  obtain ⟨hentering, -⟩ := hguard
  obtain ⟨fd, hfd, hown⟩ := hI.holds p hentering.holds
  refine ⟨{ s with adding := Function.update s.adding p (some (mode, fd)) }, ?_,
    hI.act (q := p) (elsewhere_of (fun _ _ => rfl) (fun _ _ => rfl) (fun _ _ => rfl) (fun _ _ => rfl)
      ?_ (fun _ _ h => h) (fun _ _ _ h => h)) { hI.core with } (fun _ => ⟨fd, hfd, hown⟩)
      (fun _ => hI.outside p hentering.outside) ?_ hI.udp_open⟩
  · simp [Registration.step, hfd]
  · exact fun _ hne => Function.update_of_ne hne _ _
  · intro mode' fd' h
    obtain ⟨rfl, rfl⟩ : mode = mode' ∧ fd = fd' := by simpa using h
    exact ⟨hentering, hfd⟩

/-- The Pollable is registered, and its owner learns about it. -/
theorem Inv.inserted {p : Pollable κ τ υ} (mode : Mode) {fd : Nat} (hfd : s.sock p = some fd)
    (hown : s.holder fd = some (.sock p)) :
    ({ (s.inserted (tid n fd) p mode fd).added p with
       adding := Function.update s.adding p none } : Registration κ τ υ).Inv n := by
  have hcore := hI.core.inserted mode hfd hown
  have hapart : ∀ q, q ≠ p → s.Apart q → (s.inserted (tid n fd) p mode fd).Apart q :=
    fun q hne h => h.inserted hne
  have hadding : ∀ q, q ≠ p → Function.update s.adding p none q = s.adding q :=
    fun q hne => Function.update_of_ne hne _ _
  cases p with
  | client c =>
    refine hI.act (q := .client c) (elsewhere_client rfl rfl rfl (fun _ _ => rfl) hadding hapart
      (fun _ _ _ h => h)) { hcore with } ?_ ?_ ?_ hI.udp_open
    · -- the owner has its socket, and is not about to be added any more
      exact fun _ => ⟨fd, hfd, hown⟩
    · simp [Outside, added]
    · simp
  | tcp t =>
    refine hI.act (q := .tcp t) (elsewhere_tcp rfl rfl rfl (fun _ _ => rfl) hadding hapart
      (fun _ _ _ h => h)) { hcore with } ?_ ?_ ?_ hI.udp_open
    · -- the same for a connection of a Server
      exact fun _ => ⟨fd, hfd, hown⟩
    · simp [Outside, added]
    · simp
  | udp u =>
    refine hI.act (q := .udp u) (elsewhere_udp rfl rfl rfl (fun _ _ => rfl) hadding hapart
      (fun _ _ _ h => h)) { hcore with } ?_ ?_ ?_ ?_
    · -- and for its UDP socket, which stays open
      exact fun _ => ⟨fd, hfd, hown⟩
    · simp [Outside, added]
    · simp
    · intro u'
      by_cases hu : u' = u
      · simp [added, hu]
      · simpa [added, Registration.inserted, hu] using hI.udp_open u'

theorem Inv.insert {p : Pollable κ τ υ} {mode : Mode} {fd : Nat}
    (hguard : s.Guard (.insert p mode fd)) :
    ∃ s', s.step n (.insert p mode fd) = .ok s' ∧ s'.Inv n := by
  obtain ⟨hentering, hfd⟩ := hI.entering p mode fd hguard
  obtain ⟨x, hx, hown⟩ := hI.holds p hentering.holds
  obtain rfl : fd = x := by simpa [hfd] using hx
  -- the number that was read at the start of `add` is still its own
  obtain ⟨hset, hmode⟩ := hI.core.insert_verifies (hI.outside p hentering.outside) hown
  refine ⟨_, ?_, hI.inserted mode hfd hown⟩
  simp [Registration.step, verify, hset, hmode]

omit [DecidableEq κ] [DecidableEq τ] [DecidableEq υ] in
/-- Somebody else opens or closes a number. -/
theorem Inv.update_holder {fd : Nat} (h : Option (Holder κ τ υ))
    (hfree : ∀ p, s.holder fd ≠ some (.sock p)) :
    ({ s with holder := Function.update s.holder fd h } : Registration κ τ υ).Inv n where
  core := hI.core.update_holder h (fun _ p _ => hfree p)
  holds p hp := by
    obtain ⟨fd', hfd', hown⟩ := hI.holds p hp
    exact ⟨fd', hfd', holder_update (hfree p) hown⟩
  outside := hI.outside
  entering := hI.entering
  udp_open := hI.udp_open

theorem Inv.step {op : RegOp κ τ υ} (hguard : s.Guard op) (hcareful : s.Careful op) :
    ∃ s', s.step n op = .ok s' ∧ s'.Inv n := by
  cases op with
  | connectTcp c fd => exact hI.connectTcp hguard hcareful
  | connectUdp c fd => exact hI.connectUdp hguard
  | connected c => exact hI.connected hguard
  | failSock c => exact hI.failSock hguard
  | failUdp c => exact hI.failUdp hguard hcareful
  | closeTest c => exact ⟨_, rfl, { hI with core := { hI.core with } }⟩
  | closeRead c =>
    cases hfd : s.sock (.client c) with
    | some fd =>
      refine ⟨s.closerTo c .removing [.erasing (tid n fd)], ?_, { hI with core := { hI.core with } }⟩
      simp [Registration.step, hfd]
    | none =>
      refine ⟨s.closerTo c .removing [.closing], ?_, { hI with core := { hI.core with } }⟩
      simp [Registration.step, hfd]
  | closeErase c thread =>
    have hE := hI.erased thread (.client c)
    exact ⟨_, rfl, { hE with core := { hE.core with } }⟩
  | closeSock c => exact hI.closeSock hcareful
  | closeMark c => exact ⟨_, rfl, { hI with core := { hI.core with } }⟩
  | accept t fd => exact hI.accept hguard
  | enlist t =>
    have haccepted : s.tcp t = .accepted := hguard
    refine ⟨_, rfl, hI.tcpTo .admitted (by simp [Entering, haccepted]) (by simp [Holds, haccepted]) ?_⟩
    exact fun _ _ => hI.outside _ (by simp [Outside, haccepted])
  | claim t =>
    have hserving : s.tcp t = .serving := hguard
    exact ⟨_, rfl, hI.tcpTo .claimed (by simp [Entering, hserving]) (by simp [Holds, hserving])
      (fun _ h => absurd rfl h)⟩
  | tcpRemove t => exact hI.tcpRemove hguard
  | tcpClose t => exact hI.tcpClose hguard
  | udpBind u fd => exact hI.udpBind hguard
  -- both close the socket of a connection that stays registered
  | udpError u => exact hcareful.elim
  | loopEnd u => exact hcareful.elim
  | udpRemove u =>
    -- `~Server` comes after the end of `server_loop`
    have hended : s.udp u = .ended := hguard
    have hopen := hI.udp_open u
    simp [hended] at hopen
  | startAdd p mode => exact hI.startAdd hguard
  | insert p mode fd => exact hI.insert hguard
  | openOther fd =>
    have hfree : s.holder fd = none := hguard
    exact ⟨_, rfl, hI.update_holder _ (by simp [hfree])⟩
  | closeOther fd =>
    have hother : s.holder fd = some .other := hguard
    exact ⟨_, rfl, hI.update_holder _ (by simp [hother])⟩

end Step

/-! ## Whole runs -/

omit [DecidableEq κ] [DecidableEq τ] [DecidableEq υ] in
/-- Each key of a `mode_` is the number of exactly one Pollable of the `poll_set_`, whose socket is
    open under it. -/
def Sound (s : Registration κ τ υ) : Prop :=
  ∀ thread fd, s.mode thread fd ≠ none →
    ∃ p ∈ s.pollSet thread, s.sock p = some fd ∧ s.holder fd = some (.sock p) ∧
      ∀ q ∈ s.pollSet thread, s.sock q = some fd → q = p

omit [DecidableEq κ] [DecidableEq τ] [DecidableEq υ] in
theorem Core.sound {n : Nat} {s : Registration κ τ υ} (hI : s.Core n) : s.Sound := by
  intro thread fd hm
  obtain ⟨p, hp, hfd⟩ := hI.mode_set thread fd hm
  have hown : ∀ q ∈ s.pollSet thread, s.sock q = some fd → s.holder fd = some (.sock q) := by
    intro q hq hqfd
    obtain ⟨x, hx, -, hown, -⟩ := hI.set_open thread q hq
    obtain rfl : fd = x := by simpa [hqfd] using hx
    exact hown
  refine ⟨p, hp, hfd, hown p hp hfd, ?_⟩
  intro q hq hqfd
  have h := (hown p hp hfd).symm.trans (hown q hq hqfd)
  cases h
  rfl

/-- **Keys are open**: for any number of PollThreads, Clients and connections, in every run in which
    the calls on a Client keep out of each other's way and the UDP sockets of Servers stay open, a
    key of `mode_` is the open socket of one Pollable, and an `add` in progress passes its
    verifications whatever number the kernel has given out. -/
theorem keys_open_of_careful (n : Nat) (ops : List (RegOp κ τ υ)) (s : Registration κ τ υ)
    (hrun : Steps (Next n Careful) init ops s) :
    s.Sound ∧ ∀ p mode fd, s.Guard (.insert p mode fd) →
      ∃ s', s.step n (.insert p mode fd) = .ok s' := by
  -- the invariant holds in every state reached
  have hI : s.Inv n := by
    apply hrun.invariant _ (inv_init n)
    rintro s op s' hI ⟨hguard, hcareful, hstep⟩
    obtain ⟨s'', heq, hinv⟩ := hI.step hguard hcareful
    obtain rfl : s'' = s' := by simpa using heq.symm.trans hstep
    exact hinv
  refine ⟨hI.core.sound, ?_⟩
  -- and with it the verifications of `add` pass
  intro p mode fd hguard
  obtain ⟨s', heq, -⟩ := hI.insert hguard
  exact ⟨s', heq⟩

/-- A connection is closed, and the next one gets its number. -/
theorem keys_open_of_careful_reused :
    ∃ s : Registration Unit Bool Unit, Steps (Next 1 Careful) init
        [.accept false 5, .enlist false, .startAdd (.tcp false) .onlyRead,
          .insert (.tcp false) .onlyRead 5, .claim false, .tcpRemove false, .tcpClose false,
          .accept true 5, .enlist true, .startAdd (.tcp true) .onlyRead] s ∧
      s.Sound ∧ ∀ p mode fd, s.Guard (.insert p mode fd) →
        ∃ s', s.step 1 (.insert p mode fd) = .ok s' := by
  obtain ⟨s, hrun, -⟩ : ∃ s : Registration Unit Bool Unit, Steps (Next 1 Careful) init
      [.accept false 5, .enlist false, .startAdd (.tcp false) .onlyRead,
        .insert (.tcp false) .onlyRead 5, .claim false, .tcpRemove false, .tcpClose false,
        .accept true 5, .enlist true, .startAdd (.tcp true) .onlyRead] s ∧ True := by
    -- the first connection is made and closed
    apply Steps.reach_cons ⟨⟨rfl, rfl⟩, trivial, rfl⟩
    apply Steps.reach_cons ⟨rfl, trivial, rfl⟩
    apply Steps.reach_cons ⟨⟨rfl, rfl⟩, trivial, rfl⟩
    apply Steps.reach_cons ⟨rfl, trivial, rfl⟩
    apply Steps.reach_cons ⟨rfl, trivial, rfl⟩
    apply Steps.reach_cons ⟨rfl, trivial, rfl⟩
    apply Steps.reach_cons ⟨rfl, trivial, rfl⟩
    -- the second one gets its number
    apply Steps.reach_cons ⟨⟨rfl, rfl⟩, trivial, rfl⟩
    apply Steps.reach_cons ⟨rfl, trivial, rfl⟩
    apply Steps.reach_cons ⟨⟨rfl, rfl⟩, trivial, rfl⟩
    exact Steps.reach_nil trivial
  exact ⟨s, hrun, keys_open_of_careful 1 _ s hrun⟩

/-- A Server with UDP is destroyed: `server_loop` closes the socket while it is registered, another
    Server accepts a connection under the same number, and `add` fails. -/
theorem closed_key :
    ∃ s : Registration Unit Unit Unit, Steps (Next 1 fun _ _ => True) init
        [.udpBind () 5, .startAdd (.udp ()) .onlyRead, .insert (.udp ()) .onlyRead 5,
          .loopEnd ()] s ∧
      s.mode 0 5 ≠ none ∧ s.holder 5 = none ∧ ¬ s.Sound ∧
      ∃ s' : Registration Unit Unit Unit, Steps (Next 1 fun _ _ => True) s
          [.accept () 5, .enlist (), .startAdd (.tcp ()) .onlyRead] s' ∧
        s'.Guard (.insert (.tcp ()) .onlyRead 5) ∧
        s'.step 1 (.insert (.tcp ()) .onlyRead 5) = .error .verifyFailed := by
  apply Steps.reach_cons ⟨⟨rfl, rfl⟩, trivial, rfl⟩
  apply Steps.reach_cons ⟨⟨rfl, rfl⟩, trivial, rfl⟩
  apply Steps.reach_cons ⟨rfl, trivial, rfl⟩
  apply Steps.reach_cons ⟨rfl, trivial, rfl⟩
  refine Steps.reach_nil ⟨nofun, rfl, ?_, ?_⟩
  · -- the key is left without a socket
    intro hsound
    obtain ⟨p, -, -, hholder, -⟩ := hsound 0 5 nofun
    cases hholder
  · -- and the next owner of the number cannot be added
    apply Steps.reach_cons ⟨⟨rfl, rfl⟩, trivial, rfl⟩
    apply Steps.reach_cons ⟨rfl, trivial, rfl⟩
    apply Steps.reach_cons ⟨⟨rfl, rfl⟩, trivial, rfl⟩
    exact Steps.reach_nil ⟨rfl, rfl⟩

end Registration

end SimpleRpc.Rpc
