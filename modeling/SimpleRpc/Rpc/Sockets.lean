import SimpleRpc.Lib.Machine
import Mathlib.Data.List.Basic

/-!
# The Descriptors of a Client

`Client::connect` opens a TCP and a UDP socket. `close` closes the TCP socket, the error path of
`connect` closes both, and the destructor closes none, so that the UDP socket of a connection is
only closed by the error path of a later `connect`. This file says for which sequences of calls
every descriptor is closed exactly once.

## Layers

- **Code**: `openSocket`, `tcpConnect`, `udpConnect`, and `SocketClient.connect`, `close` and
  `destroy`
- **Ledger**: `Ledger`, the descriptors that are open on behalf of the Client, and those that it
  closed without owning them
- **Invariant**: `SocketClient.At`, what `udp_sock_` stands for, and `SocketClient.Doomed`, that
  a descriptor is lost or was closed by mistake

## Main results

- `openSocket_eq`: `open_socket` leaves open what it returns, and nothing else
- `ledger_balanced_iff`: every descriptor is closed exactly once if and only if each connect that
  succeeds is directly followed by one whose `tcp_connect` fails, and that one is not followed by
  another one whose `tcp_connect` fails

## Model

`socket` returns descriptors that are not open. An address that cannot be resolved has no
addresses to try. A Client is destroyed by `close_and_release`, so that `close` comes first.
-/

namespace SimpleRpc.Rpc

open SimpleRpc.Lib

/-! ## The ledger -/

/-- The descriptors of one owner. -/
structure Ledger where
  /-- opened and not closed yet -/
  owned : List Nat
  /-- closed without being owned -/
  strays : List Nat
  deriving DecidableEq

namespace Ledger

/-- A descriptor is opened. -/
def opened (l : Ledger) (fd : Nat) : Ledger := { l with owned := fd :: l.owned }

/-- `::close(fd)` -/
def close (l : Ledger) (fd : Nat) : Ledger :=
  if fd ∈ l.owned then { l with owned := l.owned.erase fd }
  else { l with strays := fd :: l.strays }

/-- `if (fd != -1) ::close(fd);` -/
def closeIf (l : Ledger) : Option Nat → Ledger
  | some fd => l.close fd
  | none => l

/-- Every descriptor was closed once, and no other one. -/
def Balanced (l : Ledger) : Prop := l.owned = [] ∧ l.strays = []

instance (l : Ledger) : Decidable l.Balanced := inferInstanceAs (Decidable (_ ∧ _))

@[simp] theorem close_opened (l : Ledger) (fd : Nat) : (l.opened fd).close fd = l := by
  simp [close, opened]

/-- What is not closed stays open. -/
theorem mem_owned_closeIf {l : Ledger} {fd : Nat} {x : Option Nat} (hfd : fd ∈ l.owned)
    (hx : x ≠ some fd) : fd ∈ (l.closeIf x).owned := by
  cases x with
  | none => exact hfd
  | some y =>
    have hne : fd ≠ y := fun h => hx (h ▸ rfl)
    simp only [closeIf, close]
    split
    · exact (List.mem_erase_of_ne hne).mpr hfd
    · exact hfd

/-- Closing by mistake is not undone. -/
theorem strays_closeIf {l : Ledger} {x : Option Nat} (h : l.strays ≠ []) :
    (l.closeIf x).strays ≠ [] := by
  cases x with
  | none => exact h
  | some y =>
    simp only [closeIf, close]
    split
    · exact h
    · simp

end Ledger

/-! ## Opening sockets -/

/-- One of the addresses that `open_socket` tries. -/
structure Attempt where
  /-- what `socket` returns -/
  fd : Option Nat
  /-- what `filter` returns -/
  passes : Bool
  deriving DecidableEq

/-- The loop of `open_socket` -/
def openSocket : List Attempt → Ledger → Ledger × Option Nat
  | [], l => (l, none)
  | ⟨none, _⟩ :: rest, l => openSocket rest l
  | ⟨some fd, passes⟩ :: rest, l =>
    if passes then (l.opened fd, some fd) else openSocket rest ((l.opened fd).close fd)

/-- The first address that works. -/
def firstSocket : List Attempt → Option Nat
  | [] => none
  | a :: rest => if a.passes then a.fd.or (firstSocket rest) else firstSocket rest

/-- `tcp_connect(addr)` -/
def tcpConnect (addrs : List Attempt) (l : Ledger) : Ledger × Option Nat := openSocket addrs l

/-- `udp_connect(addr, ..)`: there is no filter. -/
def udpConnect (addrs : List Attempt) (l : Ledger) : Ledger × Option Nat :=
  openSocket (addrs.map fun a => { a with passes := true }) l

/-- `open_socket` leaves open what it returns. -/
theorem openSocket_eq (addrs : List Attempt) (l : Ledger) :
    openSocket addrs l =
      ((firstSocket addrs).elim l l.opened, firstSocket addrs) := by
  induction addrs generalizing l with
  | nil => rfl
  | cons a rest ih =>
    obtain ⟨fd, passes⟩ := a
    cases fd with
    | none => cases passes <;> simp [openSocket, firstSocket, ih]
    | some fd => cases passes <;> simp [openSocket, firstSocket, ih]

/-! ## The Client -/

/-- `status_` -/
inductive ClientStatus where
  | new
  | connected
  | closed
  deriving DecidableEq

/-- The descriptors that a Client remembers, and its ledger. -/
structure SocketClient where
  sock : Option Nat
  udpSock : Option Nat
  status : ClientStatus
  /-- ghost -/
  ledger : Ledger
  deriving DecidableEq

/-- A call on the Client. -/
inductive SocketCall where
  | connect (tcp udp : List Attempt)
  /-- `handle_error` or `close` -/
  | close

namespace SocketClient

/-- `Client(pollmgr)` -/
def init : SocketClient := ⟨none, none, .new, ⟨[], []⟩⟩

/-- `err_out` of `connect` -/
def errOut (s : SocketClient) : SocketClient :=
  { s with ledger := (s.ledger.closeIf s.sock).closeIf s.udpSock }

/-- `connect(addr)`, where `addr` has these addresses to try -/
def connect (s : SocketClient) (tcp udp : List Attempt) : SocketClient :=
  match tcpConnect tcp s.ledger with
  | (l, none) =>
    -- `udp_sock_` still has the value of an earlier connection
    { s with sock := none, ledger := l }.errOut
  | (l, some fd) =>
    match udpConnect udp l with
    | (l, none) => { s with sock := some fd, udpSock := none, ledger := l }.errOut
    | (l, some udpFd) =>
      { s with sock := some fd, udpSock := some udpFd, ledger := l, status := .connected }

/-- `close()` -/
def close (s : SocketClient) : SocketClient :=
  { s with
    ledger := if s.status = .connected then s.ledger.closeIf s.sock else s.ledger
    status := .closed }

/-- `close_and_release()` by the last owner: `close()`, and `~Client()`, which closes nothing. -/
def destroy (s : SocketClient) : SocketClient := s.close

/-- What each call does. -/
def effect (s : SocketClient) : SocketCall → SocketClient
  | .connect tcp udp => s.connect tcp udp
  | .close => s.close

/-- The descriptors among the addresses are not open. -/
def Fresh (l : Ledger) (addrs : List Attempt) : Prop :=
  ∀ a ∈ addrs, ∀ fd, a.fd = some fd → fd ∉ l.owned

/-- `verify(status_ != CONNECTED)`, and `socket` returns descriptors that are not open. -/
def Guard (s : SocketClient) : SocketCall → Prop
  | .connect tcp udp =>
    s.status ≠ .connected ∧ Fresh s.ledger tcp ∧ Fresh (tcpConnect tcp s.ledger).1 udp
  | .close => True

end SocketClient

/-! ## Outcomes of a connect -/

theorem mem_of_firstSocket {addrs : List Attempt} {fd : Nat} (h : firstSocket addrs = some fd) :
    ∃ a ∈ addrs, a.fd = some fd := by
  induction addrs with
  | nil => cases h
  | cons a rest ih =>
    have hrest : firstSocket rest = some fd → ∃ a' ∈ a :: rest, a'.fd = some fd := by
      intro hrest
      obtain ⟨a', hmem, hfd⟩ := ih hrest
      exact ⟨a', List.mem_cons_of_mem a hmem, hfd⟩
    unfold firstSocket at h
    split at h
    · cases hfd : a.fd with
      | none => exact hrest (by simpa [hfd] using h)
      | some x => exact ⟨a, List.mem_cons_self, by simpa [hfd] using h⟩
    · exact hrest h

/-- Which of the sockets could be opened. -/
inductive ConnectOutcome where
  | tcpFails
  | udpFails
  | connects
  deriving DecidableEq

/-- Which of the sockets can be opened at these addresses. -/
def connectOutcome (tcp udp : List Attempt) : ConnectOutcome :=
  match firstSocket tcp, firstSocket (udp.map fun a => { a with passes := true }) with
  | none, _ => .tcpFails
  | some _, none => .udpFails
  | some _, some _ => .connects

/-- The outcomes of the connects among the calls. -/
def outcomes : List SocketCall → List ConnectOutcome
  | [] => []
  | .connect tcp udp :: rest => connectOutcome tcp udp :: outcomes rest
  | .close :: rest => outcomes rest

namespace SocketClient

/-- **What a connect does**, by its outcome. -/
theorem connect_cases {s : SocketClient} {tcp udp : List Attempt}
    (hguard : s.Guard (.connect tcp udp)) :
    (connectOutcome tcp udp = .tcpFails ∧
      s.connect tcp udp = { s with sock := none, ledger := s.ledger.closeIf s.udpSock }) ∨
    (connectOutcome tcp udp = .udpFails ∧ ∃ fd, fd ∉ s.ledger.owned ∧
      s.connect tcp udp = { s with sock := some fd, udpSock := none }) ∨
    (connectOutcome tcp udp = .connects ∧ ∃ fd udpFd, fd ∉ s.ledger.owned ∧
      udpFd ∉ s.ledger.owned ∧ udpFd ≠ fd ∧
      s.connect tcp udp =
        { sock := some fd, udpSock := some udpFd, status := .connected
          ledger := (s.ledger.opened fd).opened udpFd }) := by
  obtain ⟨-, htcp, hudp⟩ := hguard
  cases hfd : firstSocket tcp with
  | none =>
    -- no TCP address answers
    left
    simp [connectOutcome, hfd, connect, tcpConnect, openSocket_eq, errOut, Ledger.closeIf]
  | some fd =>
    right
    have hfresh : fd ∉ s.ledger.owned := by
      obtain ⟨a, hmem, ha⟩ := mem_of_firstSocket hfd
      exact htcp a hmem fd ha
    have hledger : (tcpConnect tcp s.ledger).1 = s.ledger.opened fd := by
      simp [tcpConnect, openSocket_eq, hfd]
    -- no UDP address answers, the TCP socket is left open
    cases hudpFd : firstSocket (udp.map fun a => { a with passes := true }) with
    | none =>
      left
      refine ⟨by simp [connectOutcome, hfd, hudpFd], fd, hfresh, ?_⟩
      simp [connect, tcpConnect, udpConnect, openSocket_eq, hfd, hudpFd, errOut, Ledger.closeIf]
    | some udpFd =>
      right
      -- the UDP socket is opened while the TCP socket is open
      have hfresh' : udpFd ∉ (s.ledger.opened fd).owned := by
        obtain ⟨a, hmem, ha⟩ := mem_of_firstSocket hudpFd
        obtain ⟨b, hb, rfl⟩ := List.mem_map.mp hmem
        rw [← hledger]
        exact hudp b hb udpFd ha
      simp only [Ledger.opened, List.mem_cons, not_or] at hfresh'
      refine ⟨by simp [connectOutcome, hfd, hudpFd], fd, udpFd, hfresh, hfresh'.2, hfresh'.1, ?_⟩
      simp [connect, tcpConnect, udpConnect, openSocket_eq, hfd, hudpFd]

/-! ## What `udp_sock_` stands for -/

/-- The UDP socket that `udp_sock_` names. -/
inductive Phase where
  /-- there is none -/
  | clear
  /-- it is open -/
  | held
  /-- it was closed -/
  | shut

/-- The ledger is right so far. -/
def At (s : SocketClient) : Phase → Prop
  | .clear => s.status ≠ .connected ∧ s.udpSock = none ∧ s.ledger = ⟨[], []⟩
  | .held => ∃ udpFd, s.udpSock = some udpFd ∧
      (s.status ≠ .connected ∧ s.ledger = ⟨[udpFd], []⟩ ∨
        s.status = .connected ∧ ∃ fd, s.sock = some fd ∧ udpFd ≠ fd ∧ s.ledger = ⟨[udpFd, fd], []⟩)
  | .shut => s.status ≠ .connected ∧ s.udpSock ≠ none ∧ s.ledger = ⟨[], []⟩

/-- A descriptor was closed by mistake, or one that nobody remembers is open. -/
def Doomed (s : SocketClient) : Prop :=
  s.ledger.strays ≠ [] ∨ ∃ fd ∈ s.ledger.owned, s.sock ≠ some fd ∧ s.udpSock ≠ some fd

theorem At.init : At init .clear := ⟨by decide, rfl, rfl⟩

theorem At.close {s : SocketClient} {p : Phase} (h : s.At p) : s.close.At p := by
  cases p with
  | clear =>
    obtain ⟨hstatus, hudp, hledger⟩ := h
    simp [SocketClient.close, At, hstatus, hudp, hledger]
  | held =>
    obtain ⟨udpFd, hudp, ⟨hstatus, hledger⟩ | ⟨hstatus, fd, hsock, hne, hledger⟩⟩ := h
    · exact ⟨udpFd, hudp, .inl ⟨by simp [SocketClient.close], by simp [SocketClient.close, hstatus, hledger]⟩⟩
    · refine ⟨udpFd, hudp, .inl ⟨by simp [SocketClient.close], ?_⟩⟩
      simp [SocketClient.close, hstatus, hsock, hledger, Ledger.closeIf, Ledger.close,
        List.erase_cons_tail, hne]
  | shut =>
    obtain ⟨hstatus, hudp, hledger⟩ := h
    simp [SocketClient.close, At, hstatus, hudp, hledger]

/-- At the end, the ledger is balanced unless a UDP socket is open. -/
theorem At.balanced_iff {s : SocketClient} {p : Phase} (h : s.At p) :
    s.destroy.ledger.Balanced ↔ p ≠ .held := by
  have hclose : s.destroy.At p := h.close
  have hstatus : s.destroy.status ≠ .connected := by simp [destroy, SocketClient.close]
  cases p with
  | clear => simp [hclose.2.2, Ledger.Balanced]
  | held =>
    obtain ⟨udpFd, -, ⟨-, hledger⟩ | ⟨hconn, -⟩⟩ := hclose
    · simp [hledger, Ledger.Balanced]
    · exact absurd hconn hstatus
  | shut => simp [hclose.2.2, Ledger.Balanced]

theorem Doomed.close {s : SocketClient} (h : s.Doomed) : s.close.Doomed := by
  obtain hstrays | ⟨fd, hmem, hsock, hudp⟩ := h
  · left
    unfold SocketClient.close
    dsimp only
    split
    · exact Ledger.strays_closeIf hstrays
    · exact hstrays
  · refine .inr ⟨fd, ?_, hsock, hudp⟩
    unfold SocketClient.close
    dsimp only
    split
    · exact Ledger.mem_owned_closeIf hmem hsock
    · exact hmem

theorem Doomed.not_balanced {s : SocketClient} (h : s.Doomed) : ¬ s.destroy.ledger.Balanced := by
  rintro ⟨howned, hstrays⟩
  obtain h | ⟨fd, hmem, -⟩ := h.close
  · exact h hstrays
  · have hmem : fd ∈ s.destroy.ledger.owned := hmem
    rw [howned] at hmem
    cases hmem

/-- What was lost stays lost. -/
theorem Doomed.connect {s : SocketClient} {tcp udp : List Attempt} (h : s.Doomed)
    (hguard : s.Guard (.connect tcp udp)) : (s.connect tcp udp).Doomed := by
  obtain ⟨-, heq⟩ | ⟨-, fd, hfresh, heq⟩ | ⟨-, fd, udpFd, hfresh, hfresh', hne, heq⟩ :=
    connect_cases hguard
  · rw [heq]
    obtain hstrays | ⟨lost, hmem, hsock, hudp⟩ := h
    · exact .inl (Ledger.strays_closeIf hstrays)
    · exact .inr ⟨lost, Ledger.mem_owned_closeIf hmem hudp, by simp, hudp⟩
  · rw [heq]
    obtain hstrays | ⟨lost, hmem, hsock, hudp⟩ := h
    · exact .inl hstrays
    · refine .inr ⟨lost, hmem, ?_, by simp⟩
      -- the new descriptor was not open
      rintro ⟨⟩
      exact hfresh hmem
  · rw [heq]
    obtain hstrays | ⟨lost, hmem, hsock, hudp⟩ := h
    · exact .inl hstrays
    · refine .inr ⟨lost, List.mem_cons_of_mem _ (List.mem_cons_of_mem _ hmem), ?_, ?_⟩
      · rintro ⟨⟩
        exact hfresh hmem
      · rintro ⟨⟩
        exact hfresh' hmem

/-- What `udp_sock_` stands for after a connect, unless the ledger is wrong from then on. -/
def Phase.next : Phase → ConnectOutcome → Option Phase
  | .clear, .tcpFails | .clear, .udpFails => some .clear
  | .clear, .connects => some .held
  | .held, .tcpFails => some .shut
  -- the descriptor of the open socket is overwritten
  | .held, .udpFails | .held, .connects => none
  -- the descriptor is closed a second time
  | .shut, .tcpFails => none
  | .shut, .udpFails => some .clear
  | .shut, .connects => some .held

/-- **One connect** follows the phases. -/
theorem At.connect {s : SocketClient} {p : Phase} {tcp udp : List Attempt} (h : s.At p)
    (hguard : s.Guard (.connect tcp udp)) :
    (∃ p', p.next (connectOutcome tcp udp) = some p' ∧ (s.connect tcp udp).At p') ∨
    p.next (connectOutcome tcp udp) = none ∧ (s.connect tcp udp).Doomed := by
  have hstatus : s.status ≠ .connected := hguard.1
  obtain ⟨hout, heq⟩ | ⟨hout, fd, hfresh, heq⟩ | ⟨hout, fd, udpFd, hfresh, hfresh', hne, heq⟩ :=
    connect_cases hguard
  -- `tcp_connect` fails and closes what `udp_sock_` names
  · rw [hout, heq]
    cases p with
    | clear =>
      obtain ⟨-, hudp, hledger⟩ := h
      exact .inl ⟨.clear, rfl, hstatus, hudp, by simp [hudp, hledger, Ledger.closeIf]⟩
    | held =>
      obtain ⟨u, hudp, ⟨-, hledger⟩ | ⟨hconn, -⟩⟩ := h
      · exact .inl ⟨.shut, rfl, hstatus, by simp [hudp],
          by simp [hudp, hledger, Ledger.closeIf, Ledger.close]⟩
      · exact absurd hconn hstatus
    | shut =>
      obtain ⟨-, hudp, hledger⟩ := h
      obtain ⟨u, hu⟩ := Option.ne_none_iff_exists'.mp hudp
      exact .inr ⟨rfl, .inl (by simp [hu, hledger, Ledger.closeIf, Ledger.close])⟩
  -- `udp_connect` fails and forgets what `udp_sock_` named
  · rw [hout, heq]
    cases p with
    | clear => exact .inl ⟨.clear, rfl, hstatus, rfl, h.2.2⟩
    | held =>
      obtain ⟨u, hudp, ⟨-, hledger⟩ | ⟨hconn, -⟩⟩ := h
      · refine .inr ⟨rfl, .inr ⟨u, by simp [hledger], ?_, by simp⟩⟩
        rintro ⟨⟩
        exact hfresh (by simp [hledger])
      · exact absurd hconn hstatus
    | shut => exact .inl ⟨.clear, rfl, hstatus, rfl, h.2.2⟩
  -- both succeed
  · rw [hout, heq]
    cases p with
    | clear =>
      exact .inl ⟨.held, rfl, udpFd, rfl, .inr ⟨rfl, fd, rfl, hne, by simp [h.2.2, Ledger.opened]⟩⟩
    | held =>
      obtain ⟨u, hudp, ⟨-, hledger⟩ | ⟨hconn, -⟩⟩ := h
      · refine .inr ⟨rfl, .inr ⟨u, by simp [hledger, Ledger.opened], ?_, ?_⟩⟩
        · rintro ⟨⟩
          exact hfresh (by simp [hledger])
        · rintro ⟨⟩
          exact hfresh' (by simp [hledger])
      · exact absurd hconn hstatus
    | shut =>
      exact .inl ⟨.held, rfl, udpFd, rfl, .inr ⟨rfl, fd, rfl, hne, by simp [h.2.2, Ledger.opened]⟩⟩

/-! ## Which sequences keep the ledger -/

/-- Each connect that succeeds is directly followed by one whose `tcp_connect` fails, and that one
    is not directly followed by another one whose `tcp_connect` fails. -/
def Tidy (os : List ConnectOutcome) : Prop :=
  ∀ before after, os = before ++ .connects :: after →
    ∃ rest, after = .tcpFails :: rest ∧ rest.head? ≠ some .tcpFails

/-- What is asked of the connects that follow, by what `udp_sock_` stands for. -/
def TidyFrom (os : List ConnectOutcome) : Phase → Prop
  | .clear => Tidy os
  | .held => (∃ rest, os = .tcpFails :: rest ∧ rest.head? ≠ some .tcpFails) ∧ Tidy os
  | .shut => os.head? ≠ some .tcpFails ∧ Tidy os

theorem tidy_nil : Tidy [] := by
  intro before after h
  simp at h

theorem tidy_cons_iff {o : ConnectOutcome} {os : List ConnectOutcome} :
    Tidy (o :: os) ↔
      (o = .connects → ∃ rest, os = .tcpFails :: rest ∧ rest.head? ≠ some .tcpFails) ∧ Tidy os := by
  constructor
  · intro h
    constructor
    · rintro rfl
      exact h [] os rfl
    · rintro before after rfl
      exact h (o :: before) after rfl
  · rintro ⟨hfirst, hrest⟩ before after heq
    cases before with
    | nil =>
      obtain ⟨rfl, rfl⟩ : o = .connects ∧ os = after := by simpa using heq
      exact hfirst rfl
    | cons b before =>
      obtain ⟨rfl, rfl⟩ : o = b ∧ os = before ++ .connects :: after := by simpa using heq
      exact hrest before after rfl

/-- The condition follows the phases. -/
theorem tidyFrom_cons {o : ConnectOutcome} {os : List ConnectOutcome} {p : Phase} :
    TidyFrom (o :: os) p ↔ ∃ p', p.next o = some p' ∧ TidyFrom os p' := by
  cases p <;> cases o <;> simp [TidyFrom, Phase.next, tidy_cons_iff]

theorem tidyFrom_nil {p : Phase} : TidyFrom [] p ↔ p ≠ .held := by
  cases p <;> simp [TidyFrom, tidy_nil]

theorem Doomed.run {s s' : SocketClient} {calls : List SocketCall}
    (hrun : Steps (Guarded Guard effect) s calls s') (h : s.Doomed) : s'.Doomed := by
  apply hrun.guarded_invariant _ h
  intro s call h hguard
  cases call with
  | connect tcp udp => exact h.connect hguard
  | close => exact h.close

/-- From any phase on. -/
theorem At.balanced_of_run {s s' : SocketClient} {calls : List SocketCall}
    (hrun : Steps (Guarded Guard effect) s calls s') :
    ∀ {p : Phase}, s.At p → (s'.destroy.ledger.Balanced ↔ TidyFrom (outcomes calls) p) := by
  induction hrun with
  | nil s =>
    intro p h
    rw [h.balanced_iff]
    exact tidyFrom_nil.symm
  | cons hfirst hrest ih =>
    rename_i s s₁ s' call calls
    intro p h
    obtain ⟨hguard, rfl⟩ := hfirst
    cases call with
    | close => exact ih h.close
    | connect tcp udp =>
      rw [outcomes, tidyFrom_cons]
      obtain ⟨p', hnext, hat⟩ | ⟨hnext, hdoomed⟩ := h.connect hguard
      · rw [ih hat, hnext]
        simp
      · rw [hnext]
        exact iff_of_false (hdoomed.run hrest).not_balanced (by simp)

/-- **The ledger of a Client**: for every sequence of connects, whatever of them succeeds, and
    closes, every descriptor that was opened for the Client was closed exactly once when it is
    destroyed, and no other one, if and only if each connect that succeeds is directly followed by
    one whose `tcp_connect` fails, and that one is not followed by another such one. -/
theorem ledger_balanced_iff {calls : List SocketCall} {s : SocketClient}
    (hrun : Steps (Guarded Guard effect) init calls s) :
    s.destroy.ledger.Balanced ↔ Tidy (outcomes calls) :=
  At.balanced_of_run hrun At.init

/-- A Client is connected, and a second connect fails. -/
def connectThenFail : List SocketCall :=
  [.connect [⟨some 3, true⟩] [⟨some 4, true⟩], .close, .connect [⟨some 3, false⟩] []]

theorem connectThenFail_run :
    Steps (Guarded Guard effect) init connectThenFail (connectThenFail.foldl effect init) := by
  apply Steps.of_passes
  simp [connectThenFail, Passes, Guard, Fresh, effect, init, connect, close, tcpConnect, udpConnect,
    openSocket, Ledger.opened, Ledger.closeIf, Ledger.close]

/-- The failing connect closes the UDP socket of the first one. -/
theorem ledger_balanced_connectThenFail :
    (connectThenFail.foldl effect init).destroy.ledger.Balanced := by
  apply (ledger_balanced_iff connectThenFail_run).mpr
  have houtcomes : outcomes connectThenFail = [.connects, .tcpFails] := by decide
  rw [houtcomes, tidy_cons_iff, tidy_cons_iff]
  exact ⟨fun _ => ⟨[], rfl, by simp⟩, by simp, tidy_nil⟩

/-- **Descriptors that are lost or closed twice**: the UDP socket of a Client that was connected
    once is never closed, and a second connect that fails closes it again. -/
theorem ledger_not_balanced :
    (∃ s, Steps (Guarded Guard effect) init [.connect [⟨some 3, true⟩] [⟨some 4, true⟩]] s ∧
      s.destroy.ledger = ⟨[4], []⟩ ∧ ¬ s.destroy.ledger.Balanced) ∧
    (∃ s, Steps (Guarded Guard effect) init (connectThenFail ++ [.connect [] []]) s ∧
      s.destroy.ledger = ⟨[], [4]⟩ ∧ ¬ s.destroy.ledger.Balanced) := by
  constructor
  · refine ⟨_, Steps.of_passes ?_, by decide, by decide⟩
    simp [Passes, Guard, Fresh, init, tcpConnect, openSocket, Ledger.opened]
  · refine ⟨_, Steps.of_passes ?_, by decide, by decide⟩
    simp [connectThenFail, Passes, Guard, Fresh, effect, init, connect, close, tcpConnect,
      udpConnect, openSocket, errOut, Ledger.opened, Ledger.closeIf, Ledger.close]

end SocketClient

end SimpleRpc.Rpc
