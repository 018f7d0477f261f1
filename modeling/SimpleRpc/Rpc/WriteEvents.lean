import SimpleRpc.Rpc.Sender

/-!
# Write Events

`end_request` and `end_reply` ask for write events while they hold `out_l_`, and `handle_write`,
which the poll thread calls for such an event, gives them up when it has emptied `out_`. The
events are edge-triggered: the kernel does not repeat one that was taken.

## Layers

- **Kernel**: `Watch`, what `epoll` knows about writing on the socket
- **Code**: `Channel.updateMode`, `Channel.add` and `Channel.step`, one step of one thread
- **System**: `Channel.Guard`, any interleaving of the threads that send, of the poll thread and of
  the kernel
- **Invariant**: `Channel.Inv`, whoever leaves bytes in `out_` has a write event to come

## Main results

- `no_stranded_output`: bytes in `out_` wait for a write event or for a full send buffer

## Model

The connection may be a Client or a ServerTcpConnection, which share this code; it is connected
and stays so. A round of the loop in `write_to_fd` is one step, so that the kernel can go on between
two calls of `write`, and `end_request` has one step up to `update_mode` and one for the `unlock`
behind it. `handle_write` may also be called without an event, as it is when `epoll_wait` returns for
another reason and finds the socket writable.
-/

namespace SimpleRpc.Rpc

open SimpleRpc.Lib SimpleRpc.Base

/-! ## The kernel -/

/-- A socket in the interest list of `epoll`, as far as writing goes. -/
structure Watch where
  /-- `EPOLLOUT` was asked for -/
  interest : Bool
  /-- the send buffer is full -/
  full : Bool
  /-- a write event is queued -/
  queued : Bool

namespace Watch

/-- `epoll_ctl` with `EPOLL_CTL_ADD` or `EPOLL_CTL_MOD`: a write event is queued if the socket is
    writable now. -/
def ctl (w : Watch) (interest : Bool) : Watch :=
  { w with interest := interest, queued := interest && (w.queued || !w.full) }

/-- The socket becomes writable. -/
def drain (w : Watch) : Watch := { w with full := false, queued := w.queued || w.interest }

/-- `epoll_wait` takes the event. -/
def take (w : Watch) : Watch := { w with queued := false }

/-- A write event is to come. -/
def Armed (w : Watch) : Prop := w.queued = true ∨ w.full = true

theorem ctl_armed (w : Watch) : (w.ctl true).Armed := by
  cases hfull : w.full with
  | false => exact .inl (by simp [ctl, hfull])
  | true => exact .inr hfull

theorem drain_armed {w : Watch} (hinterest : w.interest = true) : w.drain.Armed := by
  left
  simp [drain, hinterest]

end Watch

/-! ## The state -/

/-- `Pollable::READ` and `Pollable::WRITE` as flags. -/
structure Mode where
  read : Bool
  write : Bool
  deriving DecidableEq

/-- `Pollable::READ` -/
def Mode.onlyRead : Mode := ⟨true, false⟩

/-- `Pollable::READ | Pollable::WRITE` -/
def Mode.readWrite : Mode := ⟨true, true⟩

/-- Where the poll thread is. -/
inductive Phase where
  /-- in `epoll_wait`, or busy with something else -/
  | waiting
  /-- `epoll_wait` has returned `EPOLLOUT`, `handle_write` is to come -/
  | woken
  /-- in the loop of `write_to_fd` -/
  | writing
  /-- in front of `if (out_.empty())` -/
  | written
  /-- in front of `out_l_.unlock();` -/
  | leaving
  deriving DecidableEq

/-- The poll thread holds `out_l_`. -/
def Phase.holds : Phase → Bool
  | .waiting | .woken => false
  | .writing | .written | .leaving => true

/-- The way out of a connection. -/
structure Channel (ι τ : Type) where
  sender : Sender ι τ
  /-- a thread is between `update_mode` and `out_l_.unlock();` -/
  ending : Bool
  /-- `mode_[fd]`, if it is registered -/
  mode : Option Mode
  watch : Watch
  poll : Phase

/-- One step of one thread, or of the kernel. -/
inductive ChannelOp (ι τ : Type) where
  /-- `pollmgr_->add(this);` -/
  | add
  /-- a thread that sends, up to `update_mode` if it ends a message -/
  | send (op : SendOp ι τ)
  /-- `out_l_.unlock();` behind `update_mode` -/
  | unlock
  /-- `epoll_wait` returns `EPOLLOUT` -/
  | wake
  /-- `handle_write` takes the lock -/
  | lock
  /-- a round of the loop: the kernel would take `resp` bytes, none if `write` fails, and leaves
      the buffer full or not -/
  | write (resp : Nat) (full : Bool)
  /-- the loop ends because `out_` is empty -/
  | emptied
  /-- `if (out_.empty()) { update_mode(this, READ); }` -/
  | test
  /-- `handle_write` releases the lock -/
  | leave
  /-- the peer takes bytes out of a full send buffer -/
  | drain
  /-- `epoll_wait` finds that the socket is not writable any more -/
  | expire

namespace Channel

variable {ι τ : Type}

/-- A connection that is not registered yet. -/
def init (sender : Sender ι τ) (full : Bool) : Channel ι τ :=
  ⟨sender, false, none, ⟨false, full, false⟩, .waiting⟩

/-- Nobody holds `out_l_`. -/
def Free (s : Channel ι τ) : Prop :=
  s.sender.holder = none ∧ s.ending = false ∧ s.poll.holds = false

/-- A write event is queued, or was returned and `handle_write` is to come. -/
def Pending (s : Channel ι τ) : Prop := s.watch.queued = true ∨ s.poll = .woken

/-! ## The code -/

/-- `PollThread::update_mode` -/
def updateMode (s : Channel ι τ) (newMode : Mode) : Channel ι τ :=
  match s.mode with
  | none => s
  | some oldMode =>
    if newMode ≠ oldMode then
      { s with mode := some newMode, watch := s.watch.ctl newMode.write }
    else { s with mode := some newMode }

/-- `poll_mode()` -/
def pollMode (out : ι) (s : Channel ι τ) : Mode :=
  if s.sender.world.contentSize out = 0 then .onlyRead else .readWrite

/-- `PollThread::add` -/
def add (out : ι) (s : Channel ι τ) : Channel ι τ :=
  { s with mode := some (s.pollMode out), watch := s.watch.ctl (s.pollMode out).write }

theorem updateMode_self {s : Channel ι τ} {mode : Mode} (hmode : s.mode = some mode) :
    s.updateMode mode = s := by
  unfold updateMode
  rw [hmode]
  simp only [ne_eq, not_true_eq_false, if_false, ← hmode]

theorem updateMode_of_ne {s : Channel ι τ} {oldMode newMode : Mode} (hmode : s.mode = some oldMode)
    (hne : newMode ≠ oldMode) :
    s.updateMode newMode = { s with mode := some newMode, watch := s.watch.ctl newMode.write } := by
  simp [updateMode, hmode, hne]

theorem updateMode_sender (s : Channel ι τ) (newMode : Mode) :
    (s.updateMode newMode).sender = s.sender ∧ (s.updateMode newMode).poll = s.poll ∧
      (s.updateMode newMode).ending = s.ending := by
  unfold updateMode
  split
  · exact ⟨rfl, rfl, rfl⟩
  · split <;> exact ⟨rfl, rfl, rfl⟩

/-- After `update_mode` the kernel knows the new mode, and an event is to come if one was to come
    or none was asked for. -/
theorem updateMode_spec {s : Channel ι τ} {oldMode : Mode} (newMode : Mode)
    (hmode : s.mode = some oldMode) (hinterest : s.watch.interest = oldMode.write) :
    (s.updateMode newMode).mode = some newMode ∧
    (s.updateMode newMode).watch.interest = newMode.write ∧
    (newMode.write = true → (oldMode.write = true → s.watch.Armed) →
      (s.updateMode newMode).watch.Armed) := by
  by_cases hne : newMode = oldMode
  · -- nothing is told to the kernel
    subst hne
    rw [updateMode_self hmode]
    exact ⟨hmode, hinterest, fun hwrite harmed => harmed hwrite⟩
  · rw [updateMode_of_ne hmode hne]
    refine ⟨rfl, rfl, ?_⟩
    intro hwrite _
    change (s.watch.ctl newMode.write).Armed
    rw [hwrite]
    exact Watch.ctl_armed _

variable [DecidableEq ι]

/-- What each step does. -/
def step (out : ι) (s : Channel ι τ) : ChannelOp ι τ → Except Fault (Channel ι τ)
  | .add => pure (s.add out)
  | .send op => do
    let sender ← s.sender.step out op
    let s := { s with sender := sender }
    match op with
    | .endMessage _ =>
      -- always enable write events
      pure { s.updateMode .readWrite with ending := true }
    | _ => pure s
  | .unlock => pure { s with ending := false }
  | .wake => pure { s with watch := s.watch.take, poll := .woken }
  | .lock => pure { s with poll := .writing }
  | .write resp full => do
    let (W, bytes) ← s.sender.world.writeToFd out [resp]
    pure { s with sender := { s.sender with world := W, sent := s.sender.sent ++ bytes }
                  watch := { s.watch with full := full }
                  -- `if (cnt <= 0) break;`
                  poll := if bytes.length = 0 then .written else .writing }
  | .emptied => pure { s with poll := .written }
  | .test =>
    if s.sender.world.contentSize out = 0 then
      pure { s.updateMode .onlyRead with poll := .leaving }
    else pure { s with poll := .leaving }
  | .leave => pure { s with poll := .waiting }
  | .drain => pure { s with watch := s.watch.drain }
  | .expire => pure { s with watch := s.watch.take }

/-! ## The system -/

/-- When a step can be taken. Messages are produced after `add` has returned, and `write` fails
    only if the send buffer is full. -/
def Guard (out : ι) (s : Channel ι τ) : ChannelOp ι τ → Prop
  | .add => s.mode = none ∧ s.Free
  | .send op => s.mode ≠ none ∧ s.sender.Allowed out op ∧ (∀ resps, op ≠ .handleWrite resps) ∧
      ∀ t header, op = .begin t header → s.Free
  | .unlock => s.ending = true
  | .wake => s.mode ≠ none ∧ s.poll = .waiting
  | .lock => s.poll = .woken ∧ s.Free
  | .write resp full => s.poll = .writing ∧ s.sender.world.contentSize out ≠ 0 ∧
      (resp = 0 → s.watch.full = true) ∧ (s.watch.full = true → full = true)
  | .emptied => s.poll = .writing ∧ s.sender.world.contentSize out = 0
  | .test => s.poll = .written
  | .leave => s.poll = .leaving
  | .drain | .expire => s.watch.full = true

/-- A step that can be taken. -/
def Next (out : ι) (s : Channel ι τ) (op : ChannelOp ι τ) (s' : Channel ι τ) : Prop :=
  s.Guard out op ∧ s.step out op = .ok s'

/-! ## The invariant -/

omit [DecidableEq ι] in
/-- A write event is to come, or `handle_write` has still to look at `out_`. -/
def Awaited (out : ι) (s : Channel ι τ) : Prop :=
  s.watch.Armed ∨ s.poll = .woken ∨ s.poll = .writing ∨
    (s.poll = .written ∧ s.sender.world.content out = [])

omit [DecidableEq ι] in
/-- The event is with the kernel if `handle_write` will not look at `out_`. -/
theorem Awaited.armed {out : ι} {s : Channel ι τ} (h : s.Awaited out) (hwoken : s.poll ≠ .woken)
    (hwriting : s.poll ≠ .writing)
    (hwritten : s.poll = .written → s.sender.world.content out ≠ []) : s.watch.Armed := by
  obtain harmed | hpoll | hpoll | ⟨hpoll, hempty⟩ := h
  · exact harmed
  · exact absurd hpoll hwoken
  · exact absurd hpoll hwriting
  · exact absurd hempty (hwritten hpoll)

omit [DecidableEq ι] in
structure Inv (out : ι) (s : Channel ι τ) : Prop where
  sender : s.sender.Inv out
  interest : ∀ mode, s.mode = some mode → s.watch.interest = mode.write
  ending : s.ending = true → s.sender.holder = none
  critical : s.poll.holds = true → s.sender.holder = none ∧ s.ending = false
  /-- whoever has left bytes in `out_` has asked for write events -/
  wanted : ∀ mode, s.mode = some mode → s.sender.holder = none →
    s.sender.world.content out ≠ [] → mode.write = true
  /-- whoever has asked for write events will get one -/
  awaited : ∀ mode, s.mode = some mode → mode.write = true → s.Awaited out

omit [DecidableEq ι] in
theorem inv_init {out : ι} {sender : Sender ι τ} (hsender : sender.Inv out) (full : Bool) :
    (init sender full).Inv out where
  sender := hsender
  interest := by simp [init]
  ending := by simp [init]
  critical := by simp [init, Phase.holds]
  wanted := by simp [init]
  awaited := by simp [init]

section Steps

variable {out : ι} {s : Channel ι τ} (hI : s.Inv out)

include hI

omit [DecidableEq ι] in
/-- `out_.empty()` -/
theorem Inv.empty_iff : s.sender.world.contentSize out = 0 ↔ s.sender.world.content out = [] := by
  rw [World.contentSize_eq hI.sender.world.ok.ok, List.length_eq_zero_iff]

omit [DecidableEq ι] in
/-- A thread that writes a message is alone. -/
theorem Inv.alone {t : τ} (hheld : s.sender.holder = some t) :
    s.ending = false ∧ s.poll.holds = false := by
  constructor
  · cases hending : s.ending with
    | false => rfl
    | true => simp [hI.ending hending] at hheld
  · cases hholds : s.poll.holds with
    | false => rfl
    | true => simp [(hI.critical hholds).1] at hheld

omit [DecidableEq ι] in
/-- `PollThread::add` -/
theorem Inv.add (hfree : s.Free) : (s.add out).Inv out := by
  obtain ⟨hholder, hending, hholds⟩ := hfree
  constructor
  · exact hI.sender
  · intro mode hmode
    obtain rfl : s.pollMode out = mode := by simpa [Channel.add] using hmode
    rfl
  · exact hI.ending
  · exact hI.critical
  · intro mode hmode _ hne
    obtain rfl : s.pollMode out = mode := by simpa [Channel.add] using hmode
    have hsize : ¬ s.sender.world.contentSize out = 0 := fun hzero => hne (hI.empty_iff.mp hzero)
    unfold pollMode
    rw [if_neg hsize]
    rfl
  · intro mode hmode hwrite
    obtain rfl : s.pollMode out = mode := by simpa [Channel.add] using hmode
    left
    change (s.watch.ctl (s.pollMode out).write).Armed
    rw [hwrite]
    exact Watch.ctl_armed _

/-- A thread that sends holds the lock, or leaves `out_` alone. -/
theorem Inv.send_cases {sender' : Sender ι τ} {op : SendOp ι τ} (hguard : s.Guard out (.send op))
    (hstep : s.sender.step out op = .ok sender') (heff : Sender.Effect out s.sender op sender')
    (hend : ∀ t, op ≠ .endMessage t) :
    (∃ t, sender'.holder = some t ∧ s.ending = false ∧ s.poll.holds = false) ∨
      (sender'.holder = s.sender.holder ∧
        sender'.world.content out = s.sender.world.content out) := by
  obtain ⟨-, hallowed, hwrite, hbegin⟩ := hguard
  cases op with
  | begin t header =>
    obtain ⟨-, hending, hholds⟩ := hbegin t header rfl
    exact .inl ⟨t, heff.holder, hending, hholds⟩
  | put t v => exact .inl ⟨t, heff.holder.trans hallowed, hI.alone hallowed⟩
  | writeMarshal t j => exact .inl ⟨t, heff.holder.trans hallowed.1, hI.alone hallowed.1⟩
  | endMessage t => exact absurd rfl (hend t)
  | handleWrite resps => exact absurd rfl (hwrite resps)
  | own op =>
    obtain ⟨W', ws', heq, hspares⟩ := OwnOp.step_spares hI.sender.world hallowed.1
    obtain rfl : { s.sender with world := W', writers := ws' } = sender' := by
      simpa [Sender.step, heq] using hstep
    exact .inr ⟨rfl, (hspares.untouched out hallowed.2).content_eq⟩

/-- A thread goes on with its message, or with something of its own. -/
theorem Inv.send {sender' : Sender ι τ} {op : SendOp ι τ} (hguard : s.Guard out (.send op))
    (hstep : s.sender.step out op = .ok sender') (heff : Sender.Effect out s.sender op sender')
    (hend : ∀ t, op ≠ .endMessage t) : Inv out { s with sender := sender' } := by
  obtain ⟨t, hholder, hending, hholds⟩ | ⟨hholder, hcontent⟩ :=
    hI.send_cases hguard hstep heff hend
  · -- the lock is held, so that neither the poll thread nor `end_request` is at work
    constructor
    · -- the sender
      exact heff.inv
    · -- what epoll watches follows the mode
      exact hI.interest
    · intro htrue
      simp [hending] at htrue
    · intro htrue
      simp [hholds] at htrue
    · -- the lock is taken, so there is nothing to show
      intro mode _ hfree
      simp [hholder] at hfree
    · -- an edge that is due stays due
      intro mode hmode hwrite
      obtain harmed | hwoken | hwriting | ⟨hwritten, -⟩ := hI.awaited mode hmode hwrite
      · exact .inl harmed
      · exact .inr (.inl hwoken)
      · simp [hwriting, Phase.holds] at hholds
      · simp [hwritten, Phase.holds] at hholds
  · -- neither the lock nor `out_` is concerned
    constructor
    · exact heff.inv
    · exact hI.interest
    · intro hending
      exact hholder.trans (hI.ending hending)
    · intro hholds
      exact ⟨hholder.trans (hI.critical hholds).1, (hI.critical hholds).2⟩
    · -- who finds the lock free finds `out_` as before
      intro mode hmode hfree hne
      apply hI.wanted mode hmode (hholder.symm.trans hfree)
      rwa [← hcontent]
    · -- an edge that is due stays due
      intro mode hmode hwrite
      obtain harmed | hwoken | hwriting | ⟨hwritten, hempty⟩ := hI.awaited mode hmode hwrite
      · exact .inl harmed
      · exact .inr (.inl hwoken)
      · exact .inr (.inr (.inl hwriting))
      · exact .inr (.inr (.inr ⟨hwritten, hcontent.trans hempty⟩))

/-- `end_request` and `end_reply` ask for write events. -/
theorem Inv.endMessage {t : τ} (hheld : s.sender.holder = some t) (hmode : s.mode ≠ none) :
    Inv out { ({ s with sender := s.sender.endMessage out t }).updateMode .readWrite with
      ending := true } := by
  obtain ⟨oldMode, hold⟩ := Option.ne_none_iff_exists'.mp hmode
  obtain ⟨hinv, -⟩ := hI.sender.endMessage hheld
  obtain ⟨-, hholds⟩ := hI.alone hheld
  obtain ⟨hsender, hpoll, -⟩ :=
    updateMode_sender { s with sender := s.sender.endMessage out t } .readWrite
  obtain ⟨hnew, hinterest, harmed⟩ :=
    updateMode_spec (s := { s with sender := s.sender.endMessage out t }) .readWrite hold
      (hI.interest oldMode hold)
  constructor
  · change Sender.Inv out (Channel.updateMode _ _).sender
    rw [hsender]
    exact hinv
  · intro mode hmode
    obtain rfl : Mode.readWrite = mode := by simpa using hnew.symm.trans hmode
    exact hinterest
  · -- `end_request` has let the lock go
    intro _
    change (Channel.updateMode _ _).sender.holder = none
    rw [hsender]
    rfl
  · -- the poll thread is elsewhere
    intro htrue
    change (Channel.updateMode _ _).poll.holds = true at htrue
    rw [hpoll] at htrue
    simp [hholds] at htrue
  · -- the mode has the write bit
    intro mode hmode _ _
    obtain rfl : Mode.readWrite = mode := by simpa using hnew.symm.trans hmode
    rfl
  · -- an event is due: the mode changed, or it was due before
    intro _ _ _
    by_cases hwoken : s.poll = .woken
    · exact .inr (.inl (hpoll.trans hwoken))
    · left
      apply harmed rfl
      intro hwrite
      -- the poll thread is not at work
      apply (hI.awaited oldMode hold hwrite).armed hwoken
      · intro hwriting
        simp [hwriting, Phase.holds] at hholds
      · intro hwritten
        simp [hwritten, Phase.holds] at hholds

omit [DecidableEq ι] in
/-- A step that leaves `out_` and the mode alone. -/
theorem Inv.aside {ending : Bool} {watch : Watch} {poll : Phase}
    (hinterest : watch.interest = s.watch.interest) (hending : ending = true → s.ending = true)
    (hcritical : poll.holds = true → s.poll.holds = true ∨ s.Free)
    (hawaited : ∀ mode, s.mode = some mode → mode.write = true →
      Awaited out { s with ending := ending, watch := watch, poll := poll }) :
    Inv out { s with ending := ending, watch := watch, poll := poll } := by
  constructor
  · exact hI.sender
  · intro mode hmode
    exact hinterest.trans (hI.interest mode hmode)
  · intro htrue
    exact hI.ending (hending htrue)
  · intro hholds
    -- a thread that ends its message has the lock
    have hfree : s.sender.holder = none ∧ s.ending = false := by
      obtain hheld | ⟨hholder, hnot, -⟩ := hcritical hholds
      · exact hI.critical hheld
      · exact ⟨hholder, hnot⟩
    refine ⟨hfree.1, ?_⟩
    change ending = false
    cases hend : ending with
    | false => rfl
    | true => simp [hending hend] at hfree
  · exact hI.wanted
  · exact hawaited

/-- A round of the loop in `write_to_fd`: it ends with an empty `out_` or a full send buffer. -/
theorem Inv.write {resp : Nat} {full : Bool} (hguard : s.Guard out (.write resp full)) :
    ∃ s', s.step out (.write resp full) = .ok s' ∧ Inv out s' := by
  obtain ⟨hpoll, hsize, hfails, hfull⟩ := hguard
  have hne : s.sender.world.content out ≠ [] := fun hnil => hsize (hI.empty_iff.mpr hnil)
  have hheld : s.poll.holds = true := by rw [hpoll]; rfl
  obtain ⟨hholder, hending⟩ := hI.critical hheld
  obtain ⟨W', k, heq, -, hu⟩ := hI.sender.world.writeToFd out [resp]
  have hinv : Sender.Inv out { s.sender with
      world := W', sent := s.sender.sent ++ (s.sender.world.content out).take k } := by
    obtain ⟨W'', k', heq', hinv, -⟩ := hI.sender.handleWrite hholder [resp]
    simp only [Sender.handleWrite, heq, ok_bind, pure_eq_ok, Except.ok.injEq] at heq'
    rw [heq']
    exact hinv
  refine ⟨_, by simp only [Channel.step, heq, ok_bind, pure_eq_ok]; rfl, ?_⟩
  constructor
  · exact hinv
  · -- the mode has not changed
    exact hI.interest
  · exact hI.ending
  · intro _
    exact ⟨hholder, hending⟩
  · -- while something is queued, the write bit is set
    intro mode hmode _ _
    exact hI.wanted mode hmode hholder hne
  · -- the next event
    intro mode hmode _
    by_cases hnone : ((s.sender.world.content out).take k).length = 0
    · -- `write` has failed, because a Marshal that is not empty offers some bytes
      left
      right
      apply hfull
      apply hfails
      by_contra hresp
      exact World.writeToFd_ne_nil hI.sender.world.ok.ok hne (Nat.pos_of_ne_zero hresp) heq
        (List.length_eq_zero_iff.mp hnone)
    · -- some bytes went out, and the loop goes on
      right
      right
      left
      exact if_neg hnone

omit [DecidableEq ι] in
/-- `if (out_.empty()) { update_mode(this, READ); }` -/
theorem Inv.test_empty (hpoll : s.poll = .written) (hempty : s.sender.world.content out = []) :
    Inv out { s.updateMode .onlyRead with poll := .leaving } := by
  obtain ⟨hholder, hending⟩ := hI.critical (by rw [hpoll]; rfl)
  obtain ⟨hsender, -, hend⟩ := updateMode_sender s .onlyRead
  -- after `update_mode` the Pollable waits for reads only, unless it was removed
  have hnew : ∀ mode, (s.updateMode .onlyRead).mode = some mode →
      mode = .onlyRead ∧ (s.updateMode .onlyRead).watch.interest = false := by
    intro mode hmode
    cases hold : s.mode with
    | none => simp [Channel.updateMode, hold] at hmode
    | some oldMode =>
      obtain ⟨hnew, hinterest, -⟩ := updateMode_spec .onlyRead hold (hI.interest oldMode hold)
      exact ⟨by simpa using hmode.symm.trans hnew, hinterest⟩
  constructor
  · change Sender.Inv out (s.updateMode _).sender
    rw [hsender]
    exact hI.sender
  · -- only reads are watched
    intro mode hmode
    obtain ⟨rfl, hinterest⟩ := hnew mode hmode
    exact hinterest
  · -- no `end_request` is at work
    intro htrue
    change (s.updateMode _).ending = true at htrue
    simp [hend, hending] at htrue
  · -- `out_l_` is still with the poll thread
    intro _
    change (s.updateMode _).sender.holder = none ∧ (s.updateMode _).ending = false
    rw [hsender, hend]
    exact ⟨hholder, hending⟩
  · -- `out_` is empty
    intro mode _ _ hne
    change (s.updateMode _).sender.world.content out ≠ [] at hne
    rw [hsender] at hne
    exact absurd hempty hne
  · -- no write event is due
    intro mode hmode hwrite
    obtain ⟨rfl, -⟩ := hnew mode hmode
    cases hwrite

/-- **One step** returns and keeps the invariant. -/
theorem Inv.step {op : ChannelOp ι τ} (hguard : s.Guard out op) :
    ∃ s', s.step out op = .ok s' ∧ Inv out s' := by
  cases op with
  | add => exact ⟨_, rfl, hI.add hguard.2⟩
  | send op =>
    obtain ⟨sender', hstep, heff⟩ := hI.sender.step hguard.2.1
    cases op with
    | endMessage t =>
      exact ⟨_, rfl, hI.endMessage hguard.2.1 hguard.1⟩
    | begin | put | writeMarshal | handleWrite | own =>
      refine ⟨{ s with sender := sender' }, ?_, hI.send hguard hstep heff (by simp)⟩
      simp only [Channel.step, hstep, ok_bind, pure_eq_ok]
  | unlock =>
    refine ⟨_, rfl, hI.aside rfl (by simp) (fun hholds => .inl hholds) ?_⟩
    exact hI.awaited
  | wake =>
    refine ⟨_, rfl, hI.aside rfl (fun hending => hending) (by simp [Phase.holds]) ?_⟩
    intro _ _ _
    exact .inr (.inl rfl)
  | lock =>
    refine ⟨_, rfl, hI.aside rfl (fun hending => hending) (fun _ => .inr hguard.2) ?_⟩
    intro _ _ _
    exact .inr (.inr (.inl rfl))
  | write resp full => exact hI.write hguard
  | emptied =>
    refine ⟨_, rfl, hI.aside rfl (fun hending => hending) (fun _ => .inl (by rw [hguard.1]; rfl)) ?_⟩
    intro _ _ _
    exact .inr (.inr (.inr ⟨rfl, hI.empty_iff.mp hguard.2⟩))
  | test =>
    have hwritten : s.poll = .written := hguard
    -- `out_` is empty: the mode is set to reads
    by_cases hempty : s.sender.world.content out = []
    · refine ⟨_, ?_, hI.test_empty hguard hempty⟩
      simp only [Channel.step, hI.empty_iff.mpr hempty, if_true, pure_eq_ok]
    · -- it is not: the mode stays
      refine ⟨{ s with poll := .leaving }, ?_, ?_⟩
      · simp only [Channel.step, hI.empty_iff, hempty, if_false, pure_eq_ok]
      · apply hI.aside rfl (fun hending => hending) (fun _ => .inl (by rw [hwritten]; rfl))
        intro mode hmode hwrite
        left
        -- the loop has ended with a full send buffer
        apply (hI.awaited mode hmode hwrite).armed
        · simp [hwritten]
        · simp [hwritten]
        · exact fun _ => hempty
  | leave =>
    have hleaving : s.poll = .leaving := hguard
    refine ⟨_, rfl, hI.aside rfl (fun hending => hending) (by simp [Phase.holds]) ?_⟩
    intro mode hmode hwrite
    left
    apply (hI.awaited mode hmode hwrite).armed
    · simp [hleaving]
    · simp [hleaving]
    · simp [hleaving]
  | drain =>
    refine ⟨_, rfl, hI.aside rfl (fun hending => hending) (fun hholds => .inl hholds) ?_⟩
    intro mode hmode hwrite
    left
    apply Watch.drain_armed
    rw [hI.interest mode hmode, hwrite]
  | expire =>
    refine ⟨_, rfl, hI.aside rfl (fun hending => hending) (fun hholds => .inl hholds) ?_⟩
    intro _ _ _
    exact .inl (.inr hguard)

end Steps

/-! ## Whole runs -/

/-- **No stranded output**: whatever `out_` held before the connection was registered, in every
    state of every run in which nobody holds `out_l_`, if `out_` is not empty then `mode_[fd]`
    contains `WRITE`, and a write event is pending or the send buffer is full. -/
theorem no_stranded_output (out : ι) (h : Heap) (others : Set ι) (past : List (SendOp ι τ))
    (sender : Sender ι τ)
    (hpast : Steps (Sender.Next out) (Sender.init h (insert out others)) past sender)
    (full : Bool) (ops : List (ChannelOp ι τ)) (s : Channel ι τ)
    (hrun : Steps (Next out) (init sender full) ops s) (mode : Mode) (hmode : s.mode = some mode)
    (hfree : s.Free) (hout : s.sender.world.contentSize out ≠ 0) :
    mode.write = true ∧ (s.Pending ∨ s.watch.full = true) := by
  have hsender := Sender.inv_of_run (Set.mem_insert out others) hpast
  have hI : s.Inv out := by
    apply hrun.invariant _ (inv_init hsender full)
    rintro s op s' hI ⟨hguard, hstep⟩
    obtain ⟨s'', heq, hinv⟩ := hI.step hguard
    obtain rfl : s'' = s' := by simpa using heq.symm.trans hstep
    exact hinv
  obtain ⟨hholder, -, hholds⟩ := hfree
  have hwrite := hI.wanted mode hmode hholder fun hnil => hout (hI.empty_iff.mpr hnil)
  refine ⟨hwrite, ?_⟩
  by_cases hwoken : s.poll = .woken
  · exact .inl (.inr hwoken)
  have harmed : s.watch.Armed := by
    apply (hI.awaited mode hmode hwrite).armed hwoken
    · intro hwriting
      simp [hwriting, Phase.holds] at hholds
    · intro hwritten
      simp [hwritten, Phase.holds] at hholds
  obtain hqueued | hfull := harmed
  · exact .inl (.inl hqueued)
  · exact .inr hfull

/-- A thread that has sent one request. -/
theorem no_stranded_output_request :
    ∃ (s : Channel Bool Unit) (mode : Mode),
      Steps (Next true) (init (Sender.init .empty (insert true {false})) false)
        [.add, .send (.begin () (.request [] 0 7)), .send (.endMessage ()), .unlock] s ∧
      s.mode = some mode ∧ s.Free ∧ s.sender.world.contentSize true ≠ 0 ∧
      mode.write = true ∧ (s.Pending ∨ s.watch.full = true) := by
  have hI₀ : (Sender.init .empty (insert true {false}) : Sender Bool Unit).Inv true :=
    Sender.inv_init _ (Set.mem_insert ..)
  obtain ⟨W, bm, heq, hI₁, -⟩ := hI₀.beginMessage rfl () (Header.request [] 0 7).value
  obtain ⟨hI₂, -⟩ := hI₁.endMessage (t := ()) rfl
  let begun := Sender.started (Sender.init .empty (insert true {false})) () W bm
    (Header.request [] 0 7).value.bytes
  let s : Channel Bool Unit :=
    ⟨begun.endMessage true (), false, some .readWrite, ⟨true, false, true⟩, .waiting⟩
  have hsend : Next true ((init (Sender.init .empty (insert true {false})) false).add true)
      (.send (.begin () (.request [] 0 7)))
      ⟨begun, false, some .onlyRead, ⟨false, false, false⟩, .waiting⟩ := by
    refine ⟨⟨by simp [add], rfl, by simp, fun _ _ _ => ⟨rfl, rfl, rfl⟩⟩, ?_⟩
    change (Sender.beginMessage true (Sender.init .empty (insert true {false})) ()
      (Header.request [] 0 7).value >>= _) = _
    rw [heq]
    rfl
  have hrun : Steps (Next true) (init (Sender.init .empty (insert true {false})) false)
      [.add, .send (.begin () (.request [] 0 7)), .send (.endMessage ()), .unlock] s := by
    apply Steps.cons ⟨⟨rfl, rfl, rfl, rfl⟩, rfl⟩
    apply Steps.cons hsend
    apply Steps.cons ⟨⟨by simp, rfl, by simp, by simp⟩, rfl⟩
    exact Steps.cons ⟨rfl, rfl⟩ (.nil _)
  -- the size of the request is in `out_`
  have hsize : s.sender.world.contentSize true ≠ 0 := by
    obtain ⟨-, -, hbytes⟩ := hI₂.free rfl
    have hlen := congrArg List.length hbytes
    change ([] ++ s.sender.world.content true).length = (frame _ ++ []).length at hlen
    rw [List.nil_append, List.append_nil, frame_length] at hlen
    rw [World.contentSize_eq hI₂.world.ok.ok, hlen]
    exact Nat.succ_ne_zero _
  have hfree : s.Free := ⟨rfl, rfl, rfl⟩
  exact ⟨s, .readWrite, hrun, rfl, hfree, hsize,
    no_stranded_output true .empty {false} [] _ (.nil _) false _ s hrun .readWrite rfl hfree hsize⟩

end Channel

end SimpleRpc.Rpc
