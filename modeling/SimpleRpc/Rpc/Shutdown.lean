import SimpleRpc.Rpc.ServerLife

/-!
# `~Server` and its Connections

What every step of a Server and its connections keeps, and what follows for whole runs.

## Main results

- `Inv.step`: one step, of whatever thread
- `objects_closed_once`: one `close()` does all that closing a connection means, and `~Server` waits for
  it
- `closed_once`: so each socket that was accepted is closed, if `~Server` does not come between `accept`
  and the test of `status_` behind it
- `socket_dropped`: otherwise nobody closes the socket
- `snapshot_live_of_patient`: `~Server` calls `close()` for connections that exist, if the poll thread
  does not release one first
-/

namespace SimpleRpc.Rpc

open SimpleRpc.Lib

namespace ServerLife

variable {τ : Type} [DecidableEq τ]

/-! ## One step -/

section Step

variable {s s' : ServerLife τ} (hI : s.Inv)

include hI

omit [DecidableEq τ] in
/-- The counter is the number of connections that exist, so that it is zero when none does. -/
theorem Inv.all_dead (h : s.ctr ≤ 0) : ∀ p ∈ s.made, p ∈ s.dead := by
  have hsub : s.dead ⊆ s.made := fun p hp => ((hI.dead_iff p).mp hp).1
  have hcard : s.made.card ≤ s.dead.card := by
    have hctr := hI.ctr
    omega
  rw [Finset.eq_of_subset_of_card_le hsub hcard]
  exact fun p hp => hp

theorem Inv.call (hguard : s.Guard .call) (hstep : s.step .call = .ok s') : s'.Inv := by
  obtain ⟨p, ps, hdtor⟩ := hguard
  simp only [ServerLife.step, hdtor] at hstep
  split at hstep
  case isTrue => cases hstep
  -- the pointer was copied from `sconns_`, so the object is there
  case isFalse hdead =>
    cases hstep
    have hm : p ∈ s.made := hI.ahead p (by rw [hdtor]; exact List.mem_cons_self)
    have hlate : s.dtor.Late := by
      rw [hdtor]
      trivial
    have hnone : ∀ q, (s.conn q).closing .dtor = none := by
      intro q
      by_contra hpc
      exact hI.not_calling (by simp [hdtor]) hpc
    have hloop : s.loop ≠ .admitting p := by
      obtain h | h := hI.loop_of_late hlate <;> simp [h]
    -- `~Server` is in the call from now on
    have hcalled : ({ s with dtor := .calling p ps } : ServerLife τ).Inv := by
      refine hI.dtorTo rfl rfl rfl rfl rfl rfl rfl hlate trivial ?_ ?_ (fun h => by cases h)
      · exact fun q hpc => absurd (hnone q) hpc
      · intro q hq
        exact hI.ahead q (by rw [hdtor]; exact List.mem_cons_of_mem _ hq)
    refine Inv.set hcalled ((hI.conn p).goto hm ?_ (fun h => by cases h)) Iff.rfl hloop ?_
      (hI.registered hloop) (fun _ => ⟨ps, rfl⟩)
    · rw [hnone p]
      rfl
    · exact hI.erasing_goto rfl (by simp)

omit [DecidableEq τ] in
/-- `~Server` goes on, and calls no `close()` before or after. -/
theorem Inv.dtorPast (hlate : s.dtor.Late) (hcalls : ∀ p ps, s.dtor ≠ .calling p ps)
    (hconn : s'.conn = s.conn) (hmade : s'.made = s.made) (hdead : s'.dead = s.dead)
    (hctr : s'.ctr = s.ctr) (hlock : s'.lock = s.lock) (haccepted : s'.accepted = s.accepted)
    (hloop : s'.loop = s.loop)
    (hlate' : s'.dtor.Late) (hahead : s'.dtor.ahead = [])
    (hpassed : s'.dtor = .passed → ∀ p ∈ s.made, p ∈ s.dead) : s'.Inv := by
  refine hI.dtorTo hconn hmade hdead hctr hlock haccepted hloop hlate hlate' ?_ ?_ hpassed
  · exact fun _ => hI.not_calling hcalls
  · intro p hp
    rw [hahead] at hp
    cases hp

/-- The thread of `server_loop` is created. -/
theorem Inv.start (hguard : s.Guard .start) (hstep : s.step .start = .ok s') : s'.Inv := by
  obtain ⟨hdtor, hstatus⟩ := hguard
  cases hstep
  have hidle : s.loop = .idle := by
    have hcourse := hI.course
    rw [Course, hdtor] at hcourse
    simpa [hstatus] using hcourse
  refine hI.frame rfl rfl rfl rfl rfl subset_rfl (fun p h => by cases h) (fun p => by simp [hidle]) ?_
    hI.calling hI.ahead hI.passed
  rw [Course]
  simp only [hdtor]
  exact .inr ⟨trivial, trivial⟩

omit [DecidableEq τ] in
/-- `server_loop` goes on, and looks at no new socket. -/
theorem Inv.loopNext {loop : ServerLoopAt τ} (hrun : s.loop.Running) (hrun' : loop.Running)
    (hloop : ∀ p, s.loop ≠ .admitting p) (hloop' : ∀ p, loop ≠ .admitting p)
    (hsocket : ∀ p, loop.socket = some p → s.loop.socket = some p) :
    ({ s with loop := loop } : ServerLife τ).Inv :=
  hI.loopTo rfl rfl rfl rfl rfl subset_rfl (fun p h => hI.socket p (hsocket p h)) rfl rfl hrun hrun'
    hloop hloop'

theorem Inv.loopBegin (hguard : s.Guard .loopBegin) (hstep : s.step .loopBegin = .ok s') :
    s'.Inv := by
  have hbegun : s.loop = .begun := hguard
  have hnext : ({ s with loop := .accepting } : ServerLife τ).Inv :=
    hI.loopNext (by rw [hbegun]; trivial) trivial (by simp [hbegun]) (by simp) (fun p h => by cases h)
  simp only [ServerLife.step] at hstep
  split at hstep
  case isTrue =>
    cases hstep
    exact { hnext with }
  case isFalse =>
    cases hstep
    exact hnext

/-- A socket is accepted, which is not one of those before. -/
theorem Inv.accept {p : τ} (hguard : s.Guard (.accept p)) :
    ({ s with loop := .returned p, accepted := insert p s.accepted } : ServerLife τ).Inv := by
  obtain ⟨hready, hnew⟩ := hguard
  refine hI.loopTo rfl rfl rfl rfl rfl (Finset.subset_insert _ _) ?_ rfl rfl (by rw [hready]; trivial)
    trivial (by simp [hready]) (by simp)
  intro q hq
  cases hq
  exact ⟨Finset.mem_insert_self _ _, fun hm => hnew (hI.accepted hm)⟩

/-- `status_` is tested again. -/
theorem Inv.testStatus (hguard : s.Guard .testStatus) (hstep : s.step .testStatus = .ok s') :
    s'.Inv := by
  obtain ⟨p, hreturned⟩ := hguard
  have hrun : s.loop.Running := by
    rw [hreturned]
    trivial
  simp only [ServerLife.step, hreturned] at hstep
  split at hstep
  case isTrue =>
    cases hstep
    refine hI.loopNext hrun trivial (by simp [hreturned]) (by simp) (fun q h => ?_)
    rw [hreturned]
    exact h
  case isFalse =>
    cases hstep
    exact hI.loopNext hrun trivial (by simp [hreturned]) (by simp) (fun q h => by cases h)

/-- `server_loop` ends because `~Server` has begun, and `~Server` waits for it. -/
theorem Inv.loopEnd (hguard : s.Guard .loopEnd) (hstep : s.step .loopEnd = .ok s') : s'.Inv := by
  obtain ⟨hloop, hstatus⟩ := hguard
  cases hstep
  have hjoining : s.dtor = .joining := by
    have hrun : s.loop.Running := by
      rw [hloop]
      trivial
    refine (hI.dtor_of_running hrun).resolve_left ?_
    -- nobody else ends the loop
    intro halive
    have hcourse := hI.course
    rw [Course, halive] at hcourse
    simp [hloop, hstatus] at hcourse
  refine hI.frame rfl rfl rfl rfl rfl subset_rfl (fun p h => by cases h) (fun p => by simp [hloop]) ?_
    hI.calling hI.ahead hI.passed
  rw [Course]
  simp only [hjoining]
  exact .inr ⟨trivial, trivial⟩

/-- `~Server` begins, with or without a `server_loop` to wait for. -/
theorem Inv.destroy (hguard : s.Guard .destroy) (hstep : s.step .destroy = .ok s') : s'.Inv := by
  have halive : s.dtor = .alive := hguard
  have hcourse := hI.course
  rw [Course, halive] at hcourse
  have hnone : ∀ p, (s.conn p).closing .dtor ≠ none → False :=
    fun _ => hI.not_calling (by simp [halive])
  simp only [ServerLife.step] at hstep
  split at hstep
  case isTrue hrunning =>
    cases hstep
    refine hI.frame rfl rfl rfl rfl rfl subset_rfl hI.socket (fun _ => Iff.rfl) ?_
      (fun p h => (hnone p h).elim) (fun _ h => by cases h) (fun h => by cases h)
    obtain ⟨hnew, -⟩ | ⟨-, hrun⟩ := hcourse
    · simp [hrunning] at hnew
    · exact .inl ⟨rfl, hrun⟩
  case isFalse hrunning =>
    cases hstep
    refine hI.frame rfl rfl rfl rfl rfl subset_rfl hI.socket (fun _ => Iff.rfl) ?_
      (fun p h => (hnone p h).elim) (fun _ h => by cases h) (fun h => by cases h)
    obtain ⟨-, hidle⟩ | ⟨hrun, -⟩ := hcourse
    · exact .inl hidle
    · exact absurd hrun hrunning

/-- `it->close();` returns. -/
theorem Inv.callReturn (hguard : s.Guard .callReturn) (hstep : s.step .callReturn = .ok s') :
    s'.Inv := by
  obtain ⟨p, ps, hdtor, hreturned⟩ := hguard
  simp only [ServerLife.step, hdtor] at hstep
  cases hstep
  refine hI.dtorTo rfl rfl rfl rfl rfl rfl rfl (by rw [hdtor]; trivial) trivial ?_ ?_
    (fun h => by cases h)
  · -- a `close()` of `~Server` in progress would be this one
    intro q hpc
    obtain ⟨qs, hqs⟩ := hI.calling q hpc
    rw [hdtor] at hqs
    cases hqs
    exact absurd hreturned hpc
  · intro q hq
    exact hI.ahead q (by rw [hdtor]; exact hq)

/-- `~Server` removes or releases the UDP connection. -/
theorem Inv.dtorUdp {op : LifeOp τ} (hop : op = .removeUdp ∨ op = .releaseUdp) (hguard : s.Guard op)
    (hstep : s.step op = .ok s') : s'.Inv := by
  have hlate : s.dtor.Late ∧ ∀ p ps, s.dtor ≠ .calling p ps := by
    obtain rfl | rfl := hop
    · have hdtor : s.dtor = .closing [] := hguard
      exact ⟨by rw [hdtor]; trivial, by simp [hdtor]⟩
    · have hdtor : s.dtor = .udpReleasing := hguard
      exact ⟨by rw [hdtor]; trivial, by simp [hdtor]⟩
  obtain ⟨c, d, rfl, rfl | rfl⟩ := step_dtor_udp hop hstep <;>
    exact hI.dtorPast hlate.1 hlate.2 rfl rfl rfl rfl rfl rfl rfl trivial rfl (fun h => by cases h)

/-- `handle_error` calls `close()` in the poll thread, which has a reference. -/
theorem Inv.pollError {p : τ} (hguard : s.Guard (.pollError p))
    (hstep : s.step (.pollError p) = .ok s') : s'.Inv := by
  obtain ⟨hrefs, hpc⟩ := hguard
  cases hstep
  obtain ⟨hm, -⟩ := hI.refCnt_pos (.inl hrefs)
  have hloop : s.loop ≠ .admitting p := hI.loop_of_held (.inl hrefs)
  exact hI.set ((hI.conn p).goto hm (by rw [hpc]; rfl) (fun _ _ => hrefs)) Iff.rfl hloop
    (hI.erasing_goto rfl (by simp)) (hI.registered hloop)
    (fun h => hI.calling p (by rwa [TcpConn.goto_closing_of_ne (by simp)] at h))

/-- The poll thread releases what was removed from the PollMgr. -/
theorem Inv.drain {p : τ} (hguard : s.Guard (.drain p)) (hstep : s.step (.drain p) = .ok s') :
    s'.Inv := by
  obtain ⟨hpending, hpc⟩ := hguard
  have hheld : (s.conn p).polled.refs = 1 := by
    rw [hpending]
    rfl
  refine hI.giveBack (c := { s.conn p with polled := .drained }) (.inl hheld) rfl rfl rfl rfl ?_
    (fun h => absurd hpc h) ?_ hstep
  · rw [hpending]
    simp [Polled.refs, Nat.add_comm]
  · -- it is in `sconns_` no more
    intro h
    have hreg := hI.registered (hI.loop_of_held (.inl hheld)) h
    rw [hpending] at hreg
    cases hreg

/-- A handler gets a reference from somebody who has one. -/
theorem Inv.refCopy {p : τ} (hguard : s.Guard (.refCopy p))
    (hstep : s.step (.refCopy p) = .ok s') : s'.Inv := by
  cases hstep
  obtain ⟨hm, hpos⟩ := hI.refCnt_pos hguard
  have hok := hI.conn p
  have hloop := hI.loop_of_held hguard
  refine hI.set ⟨fun hn => absurd hm hn, fun _ => ?_, hok.oneCloser, hok.listed, hok.polling⟩ ?_
    hloop (fun who h => hI.erasing p who h) (hI.registered hloop) (hI.calling p)
  · have hrefs := hok.refs hm
    change (s.conn p).refCnt + 1 =
      (s.conn p).own + (s.conn p).polled.refs + ((s.conn p).handlers + 1)
    omega
  · change (s.conn p).refCnt + 1 = 0 ↔ _
    omega

theorem Inv.handlerRelease {p : τ} (hguard : s.Guard (.handlerRelease p))
    (hstep : s.step (.handlerRelease p) = .ok s') : s'.Inv := by
  have hhandlers : 0 < (s.conn p).handlers := hguard
  have hloop := hI.loop_of_held (.inr hhandlers)
  refine hI.giveBack (c := { s.conn p with handlers := (s.conn p).handlers - 1 }) (.inr hhandlers)
    rfl rfl rfl rfl ?_ (hI.conn p).polling (hI.registered hloop) hstep
  change (s.conn p).polled.refs + ((s.conn p).handlers - 1) + 1 = _
  omega

/-- **One step** keeps the invariant. -/
theorem Inv.step {op : LifeOp τ} (hguard : s.Guard op) (hstep : s.step op = .ok s') : s'.Inv := by
  cases op with
  | enableUdp =>
    cases hstep
    exact { hI with }
  | start => exact hI.start hguard hstep
  | loopBegin => exact hI.loopBegin hguard hstep
  | select =>
    cases hstep
    exact hI.loopNext (by rw [hguard.1]; trivial) trivial (by simp [hguard.1]) (by simp)
      (fun p h => by cases h)
  | accept p =>
    cases hstep
    exact hI.accept hguard
  | acceptNone =>
    cases hstep
    have hready : s.loop = .ready := hguard
    exact hI.loopNext (by rw [hready]; trivial) trivial (by simp [hready]) (by simp)
      (fun p h => by cases h)
  | testStatus => exact hI.testStatus hguard hstep
  | enlist p =>
    cases hstep
    exact hI.enlist hguard
  | register p =>
    cases hstep
    exact hI.register hguard
  | loopEnd => exact hI.loopEnd hguard hstep
  | destroy => exact hI.destroy hguard hstep
  | join =>
    obtain ⟨hjoining, hended⟩ := hguard
    simp only [ServerLife.step, verify] at hstep
    -- the join returns after the loop has ended
    split at hstep <;> cases hstep
    exact hI.frame rfl rfl rfl rfl rfl subset_rfl hI.socket (fun _ => Iff.rfl) (.inr hended)
      (fun _ => hI.not_calling (by simp [hjoining])) (fun _ h => by cases h) (fun h => by cases h)
  | snapshot ps =>
    obtain ⟨hcopying, -, -, hps⟩ := hguard
    cases hstep
    refine hI.dtorTo rfl rfl rfl rfl rfl rfl rfl (by rw [hcopying]; trivial) trivial
      -- what is copied from `sconns_` was made
      (fun _ => hI.not_calling (by simp [hcopying])) ?_ (fun h => by cases h)
    intro p hp
    exact ((hI.conn p).listed.mp ((hps p).mp hp)).1
  | call => exact hI.call hguard hstep
  | callReturn => exact hI.callReturn hguard hstep
  | closeStep p who => exact hI.closeStep hguard hstep
  | removeUdp => exact hI.dtorUdp (.inl rfl) hguard hstep
  | releaseUdp => exact hI.dtorUdp (.inr rfl) hguard hstep
  | leave =>
    obtain ⟨hdtor, hctr⟩ := hguard
    simp only [ServerLife.step, verify] at hstep
    split at hstep <;> cases hstep
    -- `sconns_ctr_` is 0 here, so every connection is dead
    exact hI.dtorPast (by rw [hdtor]; trivial) (by simp [hdtor]) rfl rfl rfl rfl rfl rfl rfl trivial rfl
      (fun _ => hI.all_dead hctr)
  | pollError p => exact hI.pollError hguard hstep
  | drain p => exact hI.drain hguard hstep
  | refCopy p => exact hI.refCopy hguard hstep
  | handlerRelease p => exact hI.handlerRelease hguard hstep
  | udpDrain | udpRefCopy | udpHandlerRelease =>
    obtain ⟨c, rfl⟩ := step_udp (by simp) hguard hstep
    exact { hI with }

end Step

/-! ## Steps on one connection -/

section Touches

variable {s s' : ServerLife τ}

/-- What a step on one connection does, seen from outside. -/
structure Touches (p : τ) (c : TcpConn) (s s' : ServerLife τ) : Prop where
  conn : s'.conn = Function.update s.conn p c
  dtor : s'.dtor = s.dtor
  udp : s'.udp = s.udp
  udpConn : s'.udpConn = s.udpConn
  status : s'.status = s.status
  loop : s'.loop = s.loop
  accepted : s'.accepted = s.accepted
  made : s'.made = s.made

theorem release_touches {p : τ} {c : TcpConn} (h : s.release p c = .ok s') :
    Touches p { c with refCnt := c.refCnt - 1 } s s' := by
  by_cases hpos : 0 < c.refCnt
  · rw [ServerLife.release, verify_of hpos] at h
    cases h
    exact ⟨rfl, rfl, rfl, rfl, rfl, rfl, rfl, rfl⟩
  · simp [ServerLife.release, verify, hpos] at h

/-- A `close` does not change the number of references of the PollMgr. -/
theorem closeStep_touches {p : τ} {who : Caller} (hstep : s.closeStep p who = .ok s') :
    ∃ c, Touches p c s s' ∧ c.polled.refs = (s.conn p).polled.refs := by
  rw [ServerLife.closeStep] at hstep
  split at hstep
  case isTrue => cases hstep
  case isFalse =>
  cases hpc : (s.conn p).closing who with
  | none =>
    simp only [hpc] at hstep
    cases hstep
    exact ⟨s.conn p, ⟨(Function.update_eq_self p _).symm, rfl, rfl, rfl, rfl, rfl, rfl, rfl⟩, rfl⟩
  | some pc =>
    simp only [hpc] at hstep
    cases pc with
    | tested =>
      dsimp only at hstep
      split at hstep <;> cases hstep <;> exact ⟨_, ⟨rfl, rfl, rfl, rfl, rfl, rfl, rfl, rfl⟩, rfl⟩
    | erased =>
      cases hstep
      exact ⟨_, ⟨rfl, rfl, rfl, rfl, rfl, rfl, rfl, rfl⟩, Polled.refs_remove _⟩
    | closedFd => exact ⟨_, release_touches hstep, rfl⟩
    | _ =>
      cases hstep
      exact ⟨_, ⟨rfl, rfl, rfl, rfl, rfl, rfl, rfl, rfl⟩, rfl⟩

end Touches

/-! ## Closing, over whole runs -/

/-- What every run keeps. -/
theorem inv_of_run {fit : ServerLife τ → LifeOp τ → Prop} {ops : List (LifeOp τ)} {s : ServerLife τ}
    (hrun : Steps (Next fit) init ops s) : s.Inv := by
  apply hrun.invariant _ inv_init
  rintro s op s' hI ⟨hguard, -, hstep⟩
  exact hI.step hguard hstep

/-- A connection is accepted, and then `~Server` waits until `server_loop` has ended. -/
def acceptedThenJoined : List (LifeOp Unit) :=
  [.start, .loopBegin, .select, .accept (), .testStatus, .enlist (), .register (), .destroy, .loopEnd,
    .join]

/-- `handle_error` closes the connection. -/
def pollCloses : List (LifeOp Unit) :=
  .pollError () :: List.replicate 6 (.closeStep () .poll)

/-- A run of a Server is found by evaluation. -/
theorem reach_of_checked [Fintype τ] {fit : ServerLife τ → LifeOp τ → Prop}
    [∀ s op, Decidable (fit s op)] {ops : List (LifeOp τ)} {P : ServerLife τ → Prop}
    [DecidablePred P]
    (hrun : (ops.foldlM (checked (fun s op => decide (s.Guard op ∧ fit s op)) ServerLife.step)
      init).any (P ·) = true) : ∃ s, Steps (Next fit) init ops s ∧ P s := by
  apply Steps.reach_of_checked _ _ _ hrun
  intro s op s' hcheck hstep
  obtain ⟨hguard, hfit⟩ := of_decide_eq_true hcheck
  exact ⟨hguard, hfit, hstep⟩

/-- **Objects are closed once**: whoever calls `close()` and in whatever order, what is done to a
    ServerTcpConnection is the beginning of what one caller does; `sconns_ctr_` is the number of
    connections that exist; and behind the waiting loop of `~Server` each of them was closed and
    destroyed. -/
theorem objects_closed_once {fit : ServerLife τ → LifeOp τ → Prop} {ops : List (LifeOp τ)}
    {s : ServerLife τ} (hrun : Steps (Next fit) init ops s) :
    (∀ p, ∃ who, (s.conn p).log <+: closeCourse who) ∧ s.ctr = ((s.made \ s.dead).card : Int) ∧
      (s.dtor = .passed →
        ∀ p ∈ s.made, p ∈ s.dead ∧ ∃ who, (s.conn p).log = closeCourse who) := by
  have hI := inv_of_run hrun
  refine ⟨fun p => (hI.conn p).oneCloser.log_begins, ?_, ?_⟩
  · have hsub : s.dead ⊆ s.made := fun p hp => ((hI.dead_iff p).mp hp).1
    have hcard := Finset.card_le_card hsub
    have hctr := hI.ctr
    rw [Finset.card_sdiff_of_subset hsub]
    omega
  · intro hpassed p hp
    have hdead := hI.passed hpassed p hp
    -- no reference is left, and so the one of `sconns_` was released
    have hrefs := (hI.conn p).refs hp
    rw [((hI.dead_iff p).mp hdead).2] at hrefs
    have hfull : (s.conn p).log.length = 4 := by
      by_contra hne
      rw [TcpConn.own, if_neg hne] at hrefs
      omega
    exact ⟨hdead, (hI.conn p).oneCloser.log_full hfull⟩

/-! ## Sockets that are accepted -/

/-- `~Server` does not come between `accept` and the test of `status_` behind it: no socket is
    accepted once it has stored STOPPING, and it does not store STOPPING while a socket waits for that
    test. -/
def Timely (s : ServerLife τ) : LifeOp τ → Prop
  | .accept _ => s.status = .running
  | .destroy => ∀ p, s.loop ≠ .returned p
  | _ => True

instance Timely.decidable [Fintype τ] (s : ServerLife τ) (op : LifeOp τ) :
    Decidable (s.Timely op) := by
  unfold Timely
  split <;> infer_instance

/-- What is asked of closing connections in a state. -/
structure ClosedOnce (s : ServerLife τ) : Prop where
  /-- what was done to a connection is the beginning of what one caller does -/
  begins : ∀ p, ∃ who, (s.conn p).log <+: closeCourse who
  /-- `sconns_ctr_` is the number of connections that exist -/
  counted : s.ctr = ((s.made \ s.dead).card : Int)
  /-- behind the waiting loop, each connection that was accepted was closed and destroyed -/
  closed : s.dtor = .passed →
    ∀ p ∈ s.accepted, p ∈ s.dead ∧ ∃ who, (s.conn p).log = closeCourse who

section Sockets

/-- Each socket that was accepted is on its way to a connection. -/
structure Awaited (s : ServerLife τ) : Prop where
  socket : ∀ p ∈ s.accepted, p ∈ s.made ∨ s.loop.socket = some p
  running : ∀ p, s.loop = .returned p → s.status = .running

omit [DecidableEq τ] in
theorem awaited_init : (init : ServerLife τ).Awaited where
  socket p h := by cases h
  running p h := by cases h

variable {s s' : ServerLife τ}

omit [DecidableEq τ] in
/-- A step that leaves `server_loop` alone. -/
theorem Awaited.frame (h : s.Awaited) (haccepted : s'.accepted = s.accepted)
    (hmade : s'.made = s.made) (hloop : s'.loop = s.loop) (hstatus : s'.status = s.status) :
    s'.Awaited where
  socket p hp := by
    rw [hmade, hloop]
    exact h.socket p (haccepted ▸ hp)
  running p hp := by
    rw [hstatus]
    exact h.running p (hloop ▸ hp)

omit [DecidableEq τ] in
/-- `server_loop` goes on, and loses no socket. -/
theorem Awaited.loopTo (h : s.Awaited) (haccepted : s'.accepted = s.accepted)
    (hmade : s'.made = s.made) (hloop : ∀ p, s.loop.socket = some p → s'.loop.socket = some p)
    (hreturned : ∀ p, s'.loop ≠ .returned p) : s'.Awaited where
  socket p hp := by
    rw [hmade]
    exact (h.socket p (haccepted ▸ hp)).imp_right (hloop p)
  running p hp := absurd hp (hreturned p)

theorem Awaited.touches (h : s.Awaited) {p : τ} {c : TcpConn} (htouches : Touches p c s s') :
    s'.Awaited :=
  h.frame htouches.accepted htouches.made htouches.loop htouches.status

/-- A socket is accepted while the Server is running. -/
theorem Awaited.accept (h : s.Awaited) {p : τ} (hguard : s.Guard (.accept p))
    (htimely : s.Timely (.accept p)) :
    ({ s with loop := .returned p, accepted := insert p s.accepted } : ServerLife τ).Awaited where
  socket q hq := by
    obtain rfl | hold := Finset.mem_insert.mp hq
    · exact .inr rfl
    · -- no socket was waiting
      refine .inl ((h.socket q hold).resolve_right fun hsocket => ?_)
      rw [hguard.1] at hsocket
      cases hsocket
  running _ _ := htimely

/-- A connection is made of the socket. -/
theorem Awaited.enlist (h : s.Awaited) {p : τ} (hguard : s.Guard (.enlist p)) :
    ({ s.set p .fresh with
       lock := some .loop, loop := .admitting p, ctr := s.ctr + 1
       made := insert p s.made } : ServerLife τ).Awaited where
  socket q hq := by
    obtain hmade | hsocket := h.socket q hq
    · exact .inl (Finset.mem_insert_of_mem hmade)
    · rw [hguard.1] at hsocket
      cases hsocket
      exact .inl (Finset.mem_insert_self _ _)
  running q hq := by cases hq

/-- **One step** loses no socket, if it is timely. -/
theorem Awaited.step (h : s.Awaited) (hI : s.Inv) {op : LifeOp τ} (hguard : s.Guard op)
    (htimely : s.Timely op) (hstep : s.step op = .ok s') : s'.Awaited := by
  cases op with
  | start =>
    cases hstep
    have hidle : s.loop = .idle := by
      have hcourse := hI.course
      rw [Course, hguard.1] at hcourse
      simpa [hguard.2] using hcourse
    exact h.loopTo rfl rfl (by simp [hidle, ServerLoopAt.socket]) (by simp)
  | loopBegin =>
    have hbegun : s.loop = .begun := hguard
    simp only [ServerLife.step] at hstep
    split at hstep <;> cases hstep <;>
      exact h.loopTo rfl rfl (by simp [hbegun, ServerLoopAt.socket]) (by simp)
  | select =>
    cases hstep
    exact h.loopTo rfl rfl (by simp [hguard.1, ServerLoopAt.socket]) (by simp)
  | accept p =>
    cases hstep
    exact h.accept hguard htimely
  | acceptNone =>
    cases hstep
    have hready : s.loop = .ready := hguard
    exact h.loopTo rfl rfl (by simp [hready, ServerLoopAt.socket]) (by simp)
  | testStatus =>
    obtain ⟨p, hreturned⟩ := hguard
    -- the test comes before `~Server` has stored `STOPPING`
    simp only [ServerLife.step, hreturned, h.running p hreturned, if_true] at hstep
    cases hstep
    exact h.loopTo rfl rfl (by simp [hreturned, ServerLoopAt.socket]) (by simp)
  | enlist p =>
    cases hstep
    exact h.enlist hguard
  | register p =>
    cases hstep
    have hadmitting : s.loop = .admitting p := hguard
    exact h.loopTo rfl rfl (by simp [hadmitting, ServerLoopAt.socket]) (by simp)
  | loopEnd =>
    cases hstep
    exact h.loopTo rfl rfl (by simp [hguard.1, ServerLoopAt.socket]) (by simp)
  | destroy =>
    simp only [ServerLife.step] at hstep
    split at hstep
    case isTrue =>
      cases hstep
      -- no socket is between `accept()` and the test when the store comes
      exact ⟨h.socket, fun p hp => absurd hp (htimely p)⟩
    case isFalse =>
      cases hstep
      exact h.frame rfl rfl rfl rfl
  | join | leave =>
    simp only [ServerLife.step, verify] at hstep
    split at hstep <;> cases hstep
    exact h.frame rfl rfl rfl rfl
  | call =>
    obtain ⟨p, ps, hdtor⟩ := hguard
    simp only [ServerLife.step, hdtor] at hstep
    split at hstep <;> cases hstep
    exact h.frame rfl rfl rfl rfl
  | callReturn =>
    obtain ⟨p, ps, hdtor, -⟩ := hguard
    simp only [ServerLife.step, hdtor] at hstep
    cases hstep
    exact h.frame rfl rfl rfl rfl
  | closeStep p who =>
    -- a close changes one connection and no socket of the loop
    obtain ⟨c, htouches, -⟩ := closeStep_touches hstep
    exact h.touches htouches
  | removeUdp | releaseUdp =>
    -- the UDP connection is no accepted socket
    obtain ⟨c, d, rfl, -⟩ := step_dtor_udp (by simp) hstep
    exact h.frame rfl rfl rfl rfl
  | drain p => exact h.touches (release_touches hstep)
  | handlerRelease p => exact h.touches (release_touches hstep)
  | udpDrain | udpRefCopy | udpHandlerRelease =>
    obtain ⟨c, rfl⟩ := step_udp (by simp) hguard hstep
    exact h.frame rfl rfl rfl rfl
  | _ =>
    cases hstep
    exact h.frame rfl rfl rfl rfl

end Sockets

/-- **Closed once**: in every run in which `~Server` does not come between `accept` and the test of
    `status_` behind it, each accepted connection is closed exactly once, by whoever, and `~Server`
    waits for it. -/
theorem closed_once (ops : List (LifeOp τ)) (s : ServerLife τ)
    (hrun : Steps (Next Timely) init ops s) : s.ClosedOnce := by
  obtain ⟨hbegins, hcounted, hclosed⟩ := objects_closed_once hrun
  refine ⟨hbegins, hcounted, fun hpassed p hp => hclosed hpassed p ?_⟩
  have hboth : s.Inv ∧ s.Awaited := by
    apply hrun.invariant (P := fun s => s.Inv ∧ s.Awaited) _ ⟨inv_init, awaited_init⟩
    rintro s op s' ⟨hI, hawaited⟩ ⟨hguard, htimely, hstep⟩
    exact ⟨hI.step hguard hstep, hawaited.step hI hguard htimely hstep⟩
  obtain ⟨hI, hawaited⟩ := hboth
  -- `server_loop` has ended, and waits for nothing
  refine (hawaited.socket p hp).resolve_right fun hsocket => ?_
  obtain hloop | hloop := hI.loop_of_late (by rw [hpassed]; trivial) <;>
    rw [hloop] at hsocket <;> cases hsocket


/-- The poll thread and `~Server` both find `status_ == CONNECTED`, and the poll thread is the first to
    look into `sconns_`. -/
theorem closed_once_raced :
    ∃ s : ServerLife Unit, Steps (Next Timely) init
        (acceptedThenJoined ++ [.snapshot [()], .call, .pollError (), .closeStep () .dtor,
          .closeStep () .poll, .closeStep () .poll, .closeStep () .poll, .closeStep () .dtor,
          .closeStep () .poll, .closeStep () .poll, .closeStep () .poll, .callReturn, .removeUdp,
          .drain (), .leave]) s ∧
      (s.dtor = .passed ∧ s.accepted = {()}) ∧ s.ClosedOnce := by
  obtain ⟨s, hrun, hpassed⟩ : ∃ s : ServerLife Unit, Steps (Next Timely) init
      (acceptedThenJoined ++ [.snapshot [()], .call, .pollError (), .closeStep () .dtor,
        .closeStep () .poll, .closeStep () .poll, .closeStep () .poll, .closeStep () .dtor,
        .closeStep () .poll, .closeStep () .poll, .closeStep () .poll, .callReturn, .removeUdp,
        .drain (), .leave]) s ∧ (s.dtor = .passed ∧ s.accepted = {()}) :=
    reach_of_checked (by decide +kernel)
  exact ⟨s, hrun, hpassed, closed_once _ s hrun⟩

/-- `accept` returns a socket once `~Server` has stored STOPPING. `server_loop` makes no connection of
    it, and so nobody closes it. -/
theorem socket_dropped :
    ∃ s : ServerLife Unit, Steps (Next fun _ _ => True) init
        [.start, .loopBegin, .select, .destroy, .accept (), .testStatus, .loopEnd, .join, .snapshot [],
          .removeUdp, .leave] s ∧
      s.dtor = .passed ∧ () ∈ s.accepted ∧ (s.conn ()).log = [] ∧ ¬ s.ClosedOnce := by
  obtain ⟨s, hrun, hpassed, haccepted, hlog⟩ : ∃ s : ServerLife Unit,
      Steps (Next fun _ _ => True) init
        [.start, .loopBegin, .select, .destroy, .accept (), .testStatus, .loopEnd, .join, .snapshot [],
          .removeUdp, .leave] s ∧ s.dtor = .passed ∧ () ∈ s.accepted ∧ (s.conn ()).log = [] :=
    reach_of_checked (by decide +kernel)
  refine ⟨s, hrun, hpassed, haccepted, hlog, fun honce => ?_⟩
  obtain ⟨-, who, hclosed⟩ := honce.closed hpassed () haccepted
  rw [hlog] at hclosed
  cases hclosed

/-! ## The copy of `sconns_` -/

section Snapshot

/-- The poll thread does not release a connection for which `~Server` will call `close()`. -/
def Patient (s : ServerLife τ) : LifeOp τ → Prop
  | .drain p => p ∉ s.dtor.ahead
  | _ => True

instance Patient.decidable (s : ServerLife τ) (op : LifeOp τ) : Decidable (s.Patient op) := by
  unfold Patient
  split <;> infer_instance

/-- The PollMgr still refers to the connections for which `~Server` will call `close()`. -/
def Kept (s : ServerLife τ) : Prop :=
  ∀ p ∈ s.dtor.ahead, (s.conn p).polled.refs = 1

variable {s s' : ServerLife τ}

/-- A connection changes, and the PollMgr keeps its reference to it. -/
theorem Kept.update (h : s.Kept) {p : τ} {c : TcpConn}
    (hdtor : ∀ q ∈ s'.dtor.ahead, q ∈ s.dtor.ahead)
    (hconn : s'.conn = Function.update s.conn p c)
    (hc : p ∈ s.dtor.ahead → (s.conn p).polled.refs = 1 → c.polled.refs = 1) : s'.Kept := by
  intro q hq
  have hold := h q (hdtor q hq)
  rw [hconn]
  by_cases hqp : q = p
  · subst hqp
    rw [Function.update_self]
    exact hc (hdtor q hq) hold
  · rwa [Function.update_of_ne hqp]

theorem Kept.touches (h : s.Kept) {p : τ} {c : TcpConn} (htouches : Touches p c s s')
    (hc : p ∈ s.dtor.ahead → (s.conn p).polled.refs = 1 → c.polled.refs = 1) : s'.Kept :=
  h.update (by rw [htouches.dtor]; exact fun _ hq => hq) htouches.conn hc

omit [DecidableEq τ] in
theorem Kept.frame (h : s.Kept) (hdtor : ∀ q ∈ s'.dtor.ahead, q ∈ s.dtor.ahead)
    (hconn : s'.conn = s.conn) : s'.Kept := by
  intro q hq
  rw [hconn]
  exact h q (hdtor q hq)

theorem Kept.step (h : s.Kept) (hI : s.Inv) {op : LifeOp τ} (hguard : s.Guard op)
    (hpatient : s.Patient op) (hstep : s.step op = .ok s') : s'.Kept := by
  cases op with
  | loopBegin =>
    simp only [ServerLife.step] at hstep
    split at hstep <;> cases hstep <;> exact h.frame (fun _ hq => hq) rfl
  | enlist p =>
    cases hstep
    refine h.update (fun _ hq => hq) rfl (fun hp => ?_)
    -- it was not in `sconns_`
    exact absurd (hI.ahead p hp) (hI.socket p (by rw [hguard.1]; rfl)).2
  | register p =>
    cases hstep
    exact h.update (fun _ hq => hq) rfl (fun _ _ => rfl)
  | destroy =>
    simp only [ServerLife.step] at hstep
    split at hstep <;> cases hstep <;> exact h.frame (fun _ hq => by cases hq) rfl
  | join =>
    simp only [ServerLife.step, verify] at hstep
    split at hstep <;> cases hstep
    exact h.frame (fun _ hq => by cases hq) rfl
  | snapshot ps =>
    obtain ⟨-, hlock, -, hps⟩ := hguard
    cases hstep
    -- the pointers that are ahead now are those of `sconns_`
    intro p hp
    -- the copy is made under the lock, so no connection is half admitted
    have hloop : s.loop ≠ .admitting p := by
      intro hloop
      have hheld := (hI.admitting p hloop).1
      simp [hlock] at hheld
    change (s.conn p).polled.refs = 1
    rw [hI.registered hloop ((hps p).mp hp)]
    rfl
  | call =>
    obtain ⟨p, ps, hdtor⟩ := hguard
    simp only [ServerLife.step, hdtor] at hstep
    split at hstep <;> cases hstep
    -- fewer pointers are ahead
    refine h.update (fun q hq => ?_) rfl (fun _ h => h)
    rw [hdtor]
    exact List.mem_cons_of_mem _ hq
  | callReturn =>
    obtain ⟨p, ps, hdtor, -⟩ := hguard
    simp only [ServerLife.step, hdtor] at hstep
    cases hstep
    exact h.frame (fun q hq => by rw [hdtor]; exact hq) rfl
  | closeStep p who =>
    obtain ⟨c, htouches, hrefs⟩ := closeStep_touches hstep
    exact h.touches htouches (fun _ hold => hrefs.trans hold)
  | removeUdp | releaseUdp =>
    -- no pointer is ahead any more
    obtain ⟨c, d, rfl, rfl | rfl⟩ := step_dtor_udp (by simp) hstep <;>
      exact h.frame (fun _ hq => by cases hq) rfl
  | leave =>
    simp only [ServerLife.step, verify] at hstep
    split at hstep <;> cases hstep
    exact h.frame (fun _ hq => by cases hq) rfl
  -- the poll thread releases no connection that is still ahead
  | drain p => exact h.touches (release_touches hstep) (fun hp => absurd hp hpatient)
  | handlerRelease p => exact h.touches (release_touches hstep) (fun _ h => h)
  | pollError p =>
    cases hstep
    exact h.update (fun _ hq => hq) rfl (fun _ h => h)
  | refCopy p =>
    cases hstep
    exact h.update (fun _ hq => hq) rfl (fun _ h => h)
  | udpDrain | udpRefCopy | udpHandlerRelease =>
    obtain ⟨c, rfl⟩ := step_udp (by simp) hguard hstep
    exact h
  | testStatus =>
    obtain ⟨p, hreturned⟩ := hguard
    simp only [ServerLife.step, hreturned] at hstep
    split at hstep <;> cases hstep <;> exact h
  | _ =>
    cases hstep
    exact h

end Snapshot

/-- **Live connections**: in every run in which the poll thread does not release a connection for
    which `~Server` is still to call `close()`, that connection exists when its turn comes. -/
theorem snapshot_live_of_patient (ops : List (LifeOp τ)) (s : ServerLife τ)
    (hrun : Steps (Next Patient) init ops s) (p : τ) (ps : List τ)
    (hnext : s.dtor = .closing (p :: ps)) : 1 ≤ (s.conn p).refCnt := by
  have hI := inv_of_run hrun
  have hkept : s.Kept := by
    have hboth : s.Inv ∧ s.Kept := by
      apply hrun.invariant (P := fun s => s.Inv ∧ s.Kept) _ ⟨inv_init, fun p hp => by cases hp⟩
      rintro s op s' ⟨hI, hkept⟩ ⟨hguard, hpatient, hstep⟩
      exact ⟨hI.step hguard hstep, hkept.step hI hguard hpatient hstep⟩
    exact hboth.2
  have hrefs := hkept p (by rw [hnext]; exact List.mem_cons_self)
  exact (hI.refCnt_pos (.inl hrefs)).2

/-- The poll thread closes the connection, and `~Server` comes before the drain. -/
theorem snapshot_live_of_patient_closed :
    ∃ s : ServerLife Unit,
      Steps (Next Patient) init (acceptedThenJoined ++ .snapshot [()] :: pollCloses) s ∧
      s.dtor = .closing [()] ∧ 1 ≤ (s.conn ()).refCnt := by
  obtain ⟨s, hrun, hnext⟩ : ∃ s : ServerLife Unit,
      Steps (Next Patient) init (acceptedThenJoined ++ .snapshot [()] :: pollCloses) s ∧
      s.dtor = .closing [()] :=
    reach_of_checked (by decide +kernel)
  exact ⟨s, hrun, hnext, snapshot_live_of_patient _ s hrun () [] hnext⟩

/-- The poll thread closes the connection and drains it before `~Server` calls `close()`. -/
theorem snapshot_dangling :
    ∃ s : ServerLife Unit,
      Steps (Next fun _ _ => True) init
        (acceptedThenJoined ++ .snapshot [()] :: pollCloses ++ [.drain ()]) s ∧
      s.dtor = .closing [()] ∧ (s.conn ()).refCnt = 0 ∧ s.Guard .call ∧
      s.step .call = .error .badPointer := by
  obtain ⟨s, hrun, hnext, hrefs, hdead⟩ : ∃ s : ServerLife Unit,
      Steps (Next fun _ _ => True) init
        (acceptedThenJoined ++ .snapshot [()] :: pollCloses ++ [.drain ()]) s ∧
      s.dtor = .closing [()] ∧ (s.conn ()).refCnt = 0 ∧ () ∈ s.dead :=
    reach_of_checked (by decide +kernel)
  refine ⟨s, hrun, hnext, hrefs, ⟨(), [], hnext⟩, ?_⟩
  simp only [ServerLife.step, hnext, if_pos hdead]

end ServerLife

end SimpleRpc.Rpc
