import SimpleRpc.Rpc.Sender

/-!
# Read Events

Every Pollable is registered with `EPOLLET`: a read event is queued when data arrives, and not again
for data that was left behind. The `handle_read` of a Client and of a ServerTcpConnection reads until
the socket is empty, the one of a ServerUdpConnection takes one datagram.

## Layers

- **Kernel**: `RecvQueue`, what a socket has received
- **Code**: `Inlet.step`, the rounds of `read_from_fd`, and `recvfrom`
- **System**: `Inlet.Guard`, any interleaving of arrivals, of the poll thread, and of whoever uses the
  Marshals of the process
- **Invariant**: `Inlet.Inv`, data that was not taken has an event to come, or is being read

## Main results

- `no_stranded_input_of_single`: nothing is left behind in the runs in which `recvfrom` never finds a
  second datagram whose event is gone

## Model

The connection is open and stays so. The rest of `handle_read` uses the Marshals as their owners do,
which `OwnOp` covers. `read` returns nothing only if the socket is empty; `recvfrom`, on a blocking
socket, waits for a datagram.
-/

namespace SimpleRpc.Rpc

open SimpleRpc.Lib SimpleRpc.Base

/-! ## The kernel -/

/-- What a socket has received and not handed out. -/
inductive RecvQueue where
  /-- of a Client or a ServerTcpConnection -/
  | stream (bytes : List UInt8)
  /-- of a ServerUdpConnection -/
  | datagrams (packets : List (List UInt8))

namespace RecvQueue

def isEmpty : RecvQueue → Bool
  | .stream bytes => bytes.isEmpty
  | .datagrams packets => packets.isEmpty

/-- More data arrives: some bytes, or one datagram. -/
def push (q : RecvQueue) (data : List UInt8) : RecvQueue :=
  match q with
  | .stream bytes => .stream (bytes ++ data)
  | .datagrams packets => .datagrams (packets ++ [data])

end RecvQueue

/-! ## The state -/

/-- Where the poll thread is. -/
inductive ReadPhase where
  /-- in `epoll_wait`, or busy with something else -/
  | waiting
  /-- `epoll_wait` has returned `EPOLLIN`, `handle_read` is to come -/
  | woken
  /-- in the loop of `read_from_fd`, or in front of `recvfrom` -/
  | reading
  /-- in the rest of `handle_read` -/
  | handling
  deriving DecidableEq

/-- The way into a connection, in a process whose Marshals are named by `ι`. -/
structure Inlet (ι : Type) where
  world : World ι
  /-- ghost: the Marshals that are filled by their owner only -/
  writers : Set ι
  queue : RecvQueue
  /-- `epoll` knows the socket -/
  registered : Bool
  /-- a read event is queued -/
  queued : Bool
  poll : ReadPhase

/-- One step of one thread, or of the kernel. -/
inductive ReadOp (ι : Type) where
  /-- `pollmgr_->add(this);` -/
  | add
  | arrive (data : List UInt8)
  /-- `epoll_wait` returns `EPOLLIN` -/
  | wake
  /-- `handle_read` begins -/
  | start
  /-- a `read` that would hand out `resp` bytes, none if it fails; or `recvfrom` -/
  | read (resp : Nat)
  /-- `handle_read` returns -/
  | finish
  /-- somebody uses a Marshal -/
  | own (op : OwnOp ι)

namespace Inlet

variable {ι : Type}

/-- A connection that is not registered yet. -/
def init (h : Heap) (writers : Set ι) (queue : RecvQueue) : Inlet ι :=
  ⟨.init h, writers, queue, false, false, .waiting⟩

/-! ## The code -/

variable [DecidableEq ι]

/-- What each step does; `in_` is the Marshal that `read_from_fd` fills. -/
def step (in_ : ι) (s : Inlet ι) : ReadOp ι → Except Fault (Inlet ι)
  | .add => pure { s with registered := true, queued := !s.queue.isEmpty }
  | .arrive data => pure { s with queue := s.queue.push data, queued := s.queued || s.registered }
  | .wake => pure { s with queued := false, poll := .woken }
  | .start => pure { s with poll := .reading }
  | .read resp =>
    match s.queue with
    | .stream bytes => do
      let (W, rest, got) ← s.world.readFromFd in_ bytes [resp]
      pure { s with world := W, queue := .stream rest
                    -- `if (r <= 0) break;`
                    poll := if got.length = 0 then .handling else .reading }
    | .datagrams [] => pure s
    | .datagrams (_ :: rest) =>
      -- once for each event
      pure { s with queue := .datagrams rest, poll := .handling }
  | .finish => pure { s with poll := .waiting }
  | .own op => do
    let (W, ws) ← op.step s.world s.writers
    pure { s with world := W, writers := ws }

/-! ## The system -/

/-- When a step can be taken. -/
def Guard (in_ : ι) (s : Inlet ι) : ReadOp ι → Prop
  | .add => s.registered = false
  | .arrive data => ∀ bytes, s.queue = .stream bytes → data ≠ []
  | .wake => s.registered = true ∧ s.poll = .waiting
  | .start => s.poll = .woken
  | .read resp => s.poll = .reading ∧ s.queue ≠ .datagrams [] ∧
      ∀ bytes, s.queue = .stream bytes → resp = 0 → bytes = []
  | .finish => s.poll = .handling
  | .own op => op.Allowed s.world s.writers ∧
      ∀ W ws, op.step s.world s.writers = .ok (W, ws) → in_ ∈ ws

/-- `recvfrom` takes the only datagram, or there is an event for the others. -/
def Single (s : Inlet ι) : ReadOp ι → Prop
  | .read _ => ∀ packets, s.queue = .datagrams packets → packets.length ≤ 1 ∨ s.queued = true
  | _ => True

/-- A step that can be taken and satisfies `fit`. -/
def Next (in_ : ι) (fit : Inlet ι → ReadOp ι → Prop) (s : Inlet ι) (op : ReadOp ι) (s' : Inlet ι) :
    Prop :=
  s.Guard in_ op ∧ fit s op ∧ s.step in_ op = .ok s'

omit [DecidableEq ι] in
/-- If no read event is pending and no `handle_read` is running, everything was taken. -/
def Taken (s : Inlet ι) : Prop :=
  s.registered = true → s.queued = false → s.poll = .waiting → s.queue.isEmpty = true

/-! ## The invariant -/

omit [DecidableEq ι] in
structure Inv (in_ : ι) (s : Inlet ι) : Prop where
  world : s.world.Inv s.writers
  in_mem : in_ ∈ s.writers
  awaited : s.registered = true → s.queue.isEmpty = false →
    s.queued = true ∨ s.poll = .woken ∨ s.poll = .reading

omit [DecidableEq ι] in
theorem inv_init {in_ : ι} (h : Heap) {writers : Set ι} (hin : in_ ∈ writers) (queue : RecvQueue) :
    (init h writers queue).Inv in_ where
  world := World.inv_init h writers
  in_mem := hin
  awaited hreg := by simp [init] at hreg

section Steps

variable {in_ : ι} {s : Inlet ι} (hI : s.Inv in_)

include hI

/-- A round of `read_from_fd`: the loop ends when the socket is empty. -/
theorem Inv.read_stream {bytes : List UInt8} {resp : Nat} (hqueue : s.queue = .stream bytes)
    (hguard : s.Guard in_ (.read resp)) :
    ∃ s', s.step in_ (.read resp) = .ok s' ∧ Inv in_ s' := by
  obtain ⟨W', k, heq, -, hu⟩ := hI.world.readFromFd hI.in_mem bytes [resp]
  refine ⟨{ s with world := W', queue := .stream (bytes.drop k)
                   poll := if (bytes.take k).length = 0 then .handling else .reading }, ?_, ?_⟩
  · simp only [Inlet.step, hqueue, heq, ok_bind, pure_eq_ok]
  · constructor
    · exact hu.inv
    · exact hI.in_mem
    · intro _ hleft
      change (bytes.drop k).isEmpty = false at hleft
      by_cases hgot : (bytes.take k).length = 0
      · -- `read` has failed, because the socket is empty
        have hresp : resp = 0 := by
          by_contra hpos
          have hne : bytes ≠ [] := by
            rintro rfl
            simp at hleft
          exact World.readFromFd_ne_nil hI.world.ok.ok hne (Nat.pos_of_ne_zero hpos) heq
            (List.length_eq_zero_iff.mp hgot)
        rw [hguard.2.2 bytes hqueue hresp, List.drop_nil] at hleft
        cases hleft
      · right
        right
        exact if_neg hgot

/-- `recvfrom` takes one datagram. -/
theorem Inv.read_datagram {packets : List (List UInt8)} {resp : Nat}
    (hqueue : s.queue = .datagrams packets) (hguard : s.Guard in_ (.read resp))
    (hsingle : s.Single (.read resp)) : ∃ s', s.step in_ (.read resp) = .ok s' ∧ Inv in_ s' := by
  cases packets with
  | nil => exact absurd hqueue hguard.2.1
  | cons packet rest =>
    refine ⟨{ s with queue := .datagrams rest, poll := .handling }, ?_, ?_⟩
    · simp only [Inlet.step, hqueue, pure_eq_ok]
    · constructor
      · exact hI.world
      · exact hI.in_mem
      · intro _ hleft
        left
        obtain hone | hqueued := hsingle (packet :: rest) hqueue
        · -- it was the only one
          have hnil : rest = [] := by
            rw [List.length_cons] at hone
            exact List.length_eq_zero_iff.mp (Nat.le_zero.mp (Nat.le_of_succ_le_succ hone))
          rw [hnil] at hleft
          cases hleft
        · exact hqueued

/-- **One step** returns and keeps the invariant, if `recvfrom` leaves no datagram without an
    event. -/
theorem Inv.step {op : ReadOp ι} (hguard : s.Guard in_ op) (hsingle : s.Single op) :
    ∃ s', s.step in_ op = .ok s' ∧ Inv in_ s' := by
  cases op with
  | add =>
    refine ⟨_, rfl, hI.world, hI.in_mem, ?_⟩
    -- `EPOLL_CTL_ADD` queues an event for what is already there
    intro _ hleft
    left
    change (!s.queue.isEmpty) = true
    rw [show s.queue.isEmpty = false from hleft]
    rfl
  | arrive data =>
    refine ⟨_, rfl, hI.world, hI.in_mem, ?_⟩
    intro hreg _
    left
    change (s.queued || s.registered) = true
    rw [show s.registered = true from hreg, Bool.or_true]
  | wake => exact ⟨_, rfl, hI.world, hI.in_mem, fun _ _ => .inr (.inl rfl)⟩
  | start => exact ⟨_, rfl, hI.world, hI.in_mem, fun _ _ => .inr (.inr rfl)⟩
  | read resp =>
    cases hqueue : s.queue with
    | stream bytes => exact hI.read_stream hqueue hguard
    | datagrams packets => exact hI.read_datagram hqueue hguard hsingle
  | finish =>
    have hhandling : s.poll = .handling := hguard
    refine ⟨_, rfl, hI.world, hI.in_mem, ?_⟩
    -- `handle_read` is past its reads, so that an event is on its way
    intro hreg hleft
    obtain hqueued | hwoken | hreading := hI.awaited hreg hleft
    · exact .inl hqueued
    · simp [hhandling] at hwoken
    · simp [hhandling] at hreading
  | own op =>
    obtain ⟨W', ws', heq, hspares⟩ := OwnOp.step_spares hI.world hguard.1
    refine ⟨{ s with world := W', writers := ws' }, ?_, hspares.inv, hguard.2 W' ws' heq, hI.awaited⟩
    simp only [Inlet.step, heq, ok_bind, pure_eq_ok]

omit [DecidableEq ι] in
theorem Inv.taken : s.Taken := by
  intro hreg hqueued hwaiting
  cases hempty : s.queue.isEmpty with
  | true => rfl
  | false =>
    obtain hevent | hwoken | hreading := hI.awaited hreg hempty
    · simp [hqueued] at hevent
    · simp [hwaiting] at hwoken
    · simp [hwaiting] at hreading

end Steps

/-! ## Whole runs -/

/-- **No stranded input**: in every run in which `recvfrom` finds no second datagram without an
    event, whatever was in the socket before it was registered, the socket is empty whenever no
    read event is pending and no `handle_read` is running. -/
theorem no_stranded_input_of_single (in_ : ι) (h : Heap) (others : Set ι) (queue : RecvQueue)
    (ops : List (ReadOp ι)) (s : Inlet ι)
    (hrun : Steps (Next in_ Single) (init h (insert in_ others) queue) ops s) : s.Taken := by
  have hI : s.Inv in_ := by
    apply hrun.invariant _ (inv_init h (Set.mem_insert in_ others) queue)
    rintro s op s' hI ⟨hguard, hsingle, hstep⟩
    obtain ⟨s'', heq, hinv⟩ := hI.step hguard hsingle
    obtain rfl : s'' = s' := by simpa using heq.symm.trans hstep
    exact hinv
  exact hI.taken

/-- One datagram, which is taken. -/
theorem no_stranded_input_of_single_datagram :
    ∃ s : Inlet Unit, Steps (Next () Single) (init .empty (insert () ∅) (.datagrams []))
        [.add, .arrive [7], .wake, .start, .read 0, .finish] s ∧ s.Taken := by
  have hrun : Steps (Next () Single) (init .empty (insert () ∅) (.datagrams []))
      [.add, .arrive [7], .wake, .start, .read 0, .finish]
      ⟨.init .empty, insert () ∅, .datagrams [], true, false, .waiting⟩ := by
    apply Steps.cons ⟨rfl, trivial, rfl⟩
    apply Steps.cons ⟨by simp [Guard, init], trivial, rfl⟩
    apply Steps.cons ⟨⟨rfl, rfl⟩, trivial, rfl⟩
    apply Steps.cons ⟨rfl, trivial, rfl⟩
    apply Steps.cons ⟨⟨rfl, by simp [init, RecvQueue.push], by simp [init, RecvQueue.push]⟩,
      by simp [Single, init, RecvQueue.push], rfl⟩
    exact Steps.cons ⟨rfl, trivial, rfl⟩ (.nil _)
  exact ⟨_, hrun, no_stranded_input_of_single () .empty ∅ _ _ _ hrun⟩

/-- Two datagrams arrive before the event of the first is handled, and the second one is left
    behind. -/
theorem stranded_datagram :
    ¬ ∀ (queue : RecvQueue) (ops : List (ReadOp Unit)) (s : Inlet Unit),
      Steps (Next () fun _ _ => True) (init .empty (insert () ∅) queue) ops s → s.Taken := by
  intro hclaim
  have hrun : Steps (Next () fun _ _ => True) (init .empty (insert () ∅) (.datagrams []))
      [.add, .arrive [7], .arrive [8], .wake, .start, .read 0, .finish]
      ⟨.init .empty, insert () ∅, .datagrams [[8]], true, false, .waiting⟩ := by
    apply Steps.cons ⟨rfl, trivial, rfl⟩
    apply Steps.cons ⟨by simp [Guard, init], trivial, rfl⟩
    apply Steps.cons ⟨by simp [Guard, init, RecvQueue.push], trivial, rfl⟩
    apply Steps.cons ⟨⟨rfl, rfl⟩, trivial, rfl⟩
    apply Steps.cons ⟨rfl, trivial, rfl⟩
    apply Steps.cons ⟨⟨rfl, by simp [init, RecvQueue.push], by simp [init, RecvQueue.push]⟩,
      trivial, rfl⟩
    exact Steps.cons ⟨rfl, trivial, rfl⟩ (.nil _)
  exact absurd (hclaim _ _ _ hrun rfl rfl rfl) (by simp [RecvQueue.isEmpty])

end Inlet

end SimpleRpc.Rpc
