import SimpleRpc.Rpc.Shutdown

/-!
# `~Server` and its UDP Connection

The waiting loop of `~Server` counts ServerTcpConnections only. The UDP connection has a reference of
the Server, one of the PollMgr, which the poll thread gives back when it drains the connection, and one
for each handler of a UDP request.

## Main results

- `UdpOk.step`: one step, of whatever thread, keeps the account of these references
- `nothing_left_of_quiet_udp`: no connection exists behind the waiting loop, if UDP requests are done
  when `~Server` removes `udp_conn_` and the poll thread drains it in time
- `udp_connection_left`: otherwise `~Server` leaves one behind
-/

namespace SimpleRpc.Rpc

open SimpleRpc.Lib

/-- `~Server` has removed `udp_conn_` from the PollMgr. -/
def DtorAt.Removed {τ : Type} : DtorAt τ → Prop
  | .udpReleasing | .waiting | .passed => True
  | _ => False

/-- `~Server` has released `udp_conn_`. -/
def DtorAt.Released {τ : Type} : DtorAt τ → Prop
  | .waiting | .passed => True
  | _ => False

theorem DtorAt.Released.removed {τ : Type} {dtor : DtorAt τ} (h : dtor.Released) : dtor.Removed := by
  cases dtor <;> first | exact h | trivial

instance DtorAt.Removed.decidable {τ : Type} (dtor : DtorAt τ) : Decidable dtor.Removed := by
  unfold Removed
  split <;> infer_instance

namespace ServerLife

variable {τ : Type} [DecidableEq τ]

/-- UDP is quiet while `~Server` waits: no handler of a UDP request is queued or running when it removes
    `udp_conn_`, no datagram starts one after that, and the poll thread has drained the connection
    before the waiting loop ends. -/
def QuietUdp (s : ServerLife τ) : LifeOp τ → Prop
  | .removeUdp => ∀ u ∈ s.udpConn, u.handlers = 0
  | .udpRefCopy => ¬ s.dtor.Removed
  | .leave => ∀ u ∈ s.udpConn, u.polled ≠ .pending
  | _ => True

omit [DecidableEq τ] in
instance QuietUdp.decidable (s : ServerLife τ) (op : LifeOp τ) : Decidable (s.QuietUdp op) :=
  match op with
  | .removeUdp => inferInstanceAs (Decidable (∀ u ∈ s.udpConn, u.handlers = 0))
  | .udpRefCopy => inferInstanceAs (Decidable (¬ s.dtor.Removed))
  | .leave => inferInstanceAs (Decidable (∀ u ∈ s.udpConn, u.polled ≠ .pending))
  | .enableUdp | .start | .loopBegin | .select | .accept _ | .acceptNone | .testStatus | .enlist _
  | .register _ | .loopEnd | .destroy | .join | .snapshot _ | .call | .callReturn | .closeStep _ _
  | .releaseUdp | .pollError _ | .drain _ | .refCopy _ | .handlerRelease _ | .udpDrain
  | .udpHandlerRelease => isTrue trivial

/-! ## The account of the UDP connection -/

section Udp

/-- Who refers to the UDP connection. -/
structure UdpOk (s : ServerLife τ) : Prop where
  refs : ∀ u ∈ s.udpConn, u.refCnt = (if u.own then 1 else 0) + u.polled.refs + u.handlers
  flag : s.udpConn ≠ none → s.udp = true
  own : ∀ u ∈ s.udpConn, u.own = false ↔ s.dtor.Released
  removed : s.dtor.Removed → ∀ u ∈ s.udpConn, u.handlers = 0 ∧ u.polled ≠ .registered
  drained : s.dtor = .passed → ∀ u ∈ s.udpConn, u.polled ≠ .pending

omit [DecidableEq τ] in
theorem udpOk_init : (init : ServerLife τ).UdpOk where
  refs u h := by cases h
  flag h := absurd rfl h
  own u h := by cases h
  removed h := h.elim
  drained h := by cases h

variable {s s' : ServerLife τ}

omit [DecidableEq τ] in
/-- A step that leaves the UDP connection alone. -/
theorem UdpOk.frame (h : s.UdpOk) (hconn : s'.udpConn = s.udpConn)
    (hudp : s.udp = true → s'.udp = true) (hdtor : s'.dtor = s.dtor) : s'.UdpOk where
  refs u hu := h.refs u (hconn ▸ hu)
  flag hne := hudp (h.flag (hconn ▸ hne))
  own u hu := by
    rw [hdtor]
    exact h.own u (hconn ▸ hu)
  removed hremoved u hu := h.removed (hdtor ▸ hremoved) u (hconn ▸ hu)
  drained hpassed u hu := h.drained (hdtor ▸ hpassed) u (hconn ▸ hu)

omit [DecidableEq τ] in
/-- `~Server` goes on, and has not come to `udp_conn_` yet. -/
theorem UdpOk.dtorTo (h : s.UdpOk) (hconn : s'.udpConn = s.udpConn) (hudp : s'.udp = s.udp)
    (hdtor : ¬ s.dtor.Removed) (hdtor' : ¬ s'.dtor.Removed) : s'.UdpOk where
  refs u hu := h.refs u (hconn ▸ hu)
  flag hne := by
    rw [hudp]
    exact h.flag (hconn ▸ hne)
  own u hu := by
    rw [h.own u (hconn ▸ hu)]
    exact iff_of_false (fun hr => hdtor hr.removed) (fun hr => hdtor' hr.removed)
  removed hremoved := absurd hremoved hdtor'
  drained hpassed := absurd (by rw [hpassed]; trivial) hdtor'

omit [DecidableEq τ] in
/-- The UDP connection changes, and no reference of the Server is given back. -/
theorem UdpOk.set (h : s.UdpOk) {u u' : UdpConn} (hu : s.udpConn = some u)
    (hrefs : u'.refCnt = (if u'.own then 1 else 0) + u'.polled.refs + u'.handlers)
    (hown : u'.own = u.own)
    (hremoved : s.dtor.Removed → u'.handlers = 0 ∧ u'.polled ≠ .registered)
    (hpending : u'.polled = .pending → u.polled = .pending) :
    ({ s with udpConn := some u' } : ServerLife τ).UdpOk where
  refs x hx := by
    cases hx
    exact hrefs
  flag _ := h.flag (by simp [hu])
  own x hx := by
    cases hx
    rw [hown]
    exact h.own u hu
  removed hr x hx := by
    cases hx
    exact hremoved hr
  drained hp x hx := by
    cases hx
    exact fun hx => h.drained hp u hu (hpending hx)

theorem UdpOk.touches (h : s.UdpOk) {p : τ} {c : TcpConn} (htouches : Touches p c s s') :
    s'.UdpOk :=
  h.frame htouches.udpConn (by rw [htouches.udp]; exact id) htouches.dtor

/-- `server_loop` makes the connection, with a reference of the Server and one of the PollMgr if there
    is a socket. -/
theorem UdpOk.loopBegin (h : s.UdpOk) (hI : s.Inv) (hguard : s.Guard .loopBegin)
    (hstep : s.step .loopBegin = .ok s') : s'.UdpOk := by
  have hbegun : s.loop = .begun := hguard
  have hearly : ¬ s.dtor.Removed := by
    obtain hd | hd := hI.dtor_of_running (by rw [hbegun]; trivial) <;> simp [hd, DtorAt.Removed]
  simp only [ServerLife.step] at hstep
  split at hstep
  case isTrue hudp =>
    cases hstep
    refine ⟨fun u hu => ?_, fun _ => hudp, fun u hu => ?_, fun hr => absurd hr hearly, fun hp => ?_⟩
    · -- the new connection
      cases hu
      cases hsock : s.udpSock <;> rfl
    · cases hu
      have hown : (UdpConn.fresh s.udpSock).own = true := by
        cases hsock : s.udpSock <;> rfl
      simp only [hown, Bool.true_eq_false, false_iff]
      exact fun hr => hearly hr.removed
    · exact absurd (by rw [hp]; trivial) hearly
  case isFalse =>
    cases hstep
    exact h.frame rfl id rfl

/-- `pollmgr_->remove(udp_conn_);` -/
theorem UdpOk.removeUdp (h : s.UdpOk) (hguard : s.Guard .removeUdp) (hquiet : s.QuietUdp .removeUdp)
    (hstep : s.step .removeUdp = .ok s') : s'.UdpOk := by
  have hdtor : s.dtor = .closing [] := hguard
  simp only [ServerLife.step] at hstep
  split at hstep
  case isTrue =>
    split at hstep
    case h_1 => cases hstep
    case h_2 u hu =>
      cases hstep
      refine ⟨fun x hx => ?_, fun _ => h.flag (by simp [hu]), fun x hx => ?_, fun _ x hx => ?_,
        fun hp => by cases hp⟩
      · -- the account of the references goes on
        cases hx
        simpa using h.refs u hu
      · -- the Server holds its own until the release
        cases hx
        have howner := h.own u hu
        simpa [hdtor, DtorAt.Released] using howner
      · -- `remove` leaves nothing in `poll_set_`, and no handler was there
        cases hx
        refine ⟨hquiet u hu, ?_⟩
        change u.polled.remove ≠ .registered
        cases u.polled <;> simp [Polled.remove]
  case isFalse hudp =>
    cases hstep
    -- without UDP there is no connection
    have hnone : s.udpConn = none := by
      by_contra hne
      exact hudp (h.flag hne)
    exact ⟨fun u hu => by simp [hnone] at hu, fun hne => absurd hnone hne,
      fun u hu => by simp [hnone] at hu, fun _ u hu => by simp [hnone] at hu, fun hp => by cases hp⟩

/-- `udp_conn_->release();` -/
theorem UdpOk.releaseUdp (h : s.UdpOk) (hguard : s.Guard .releaseUdp)
    (hstep : s.step .releaseUdp = .ok s') : s'.UdpOk := by
  have hdtor : s.dtor = .udpReleasing := hguard
  simp only [ServerLife.step] at hstep
  split at hstep
  case h_1 => cases hstep
  case h_2 u hu =>
    obtain ⟨hpos, rfl⟩ := releaseUdpConn_ok hstep
    -- the reference of the Server is given back here and nowhere else
    have hown : u.own = true := by
      have howner := h.own u hu
      simpa [hdtor, DtorAt.Released] using howner
    have hrefs := h.refs u hu
    refine ⟨fun x hx => ?_, fun _ => h.flag (by simp [hu]), fun x hx => ?_, fun _ x hx => ?_,
      fun hp => by cases hp⟩
    · cases hx
      rw [hown] at hrefs
      simp at hrefs ⊢
      omega
    · cases hx
      simp [DtorAt.Released]
    · cases hx
      exact h.removed (by rw [hdtor]; trivial) u hu

/-- `~Server` stops to wait, and the connection was drained. -/
theorem UdpOk.leave (h : s.UdpOk) (hguard : s.Guard .leave) (hquiet : s.QuietUdp .leave)
    (hstep : s.step .leave = .ok s') : s'.UdpOk := by
  obtain ⟨hdtor, -⟩ := hguard
  simp only [ServerLife.step, verify] at hstep
  split at hstep <;> cases hstep
  refine ⟨h.refs, h.flag, fun u hu => ?_, fun _ => h.removed (by rw [hdtor]; trivial),
    fun _ => hquiet⟩
  have howner := h.own u hu
  simpa [hdtor, DtorAt.Released] using howner

/-- The poll thread drains the connection. -/
theorem UdpOk.udpDrain (h : s.UdpOk) (hguard : s.Guard .udpDrain)
    (hstep : s.step .udpDrain = .ok s') : s'.UdpOk := by
  obtain ⟨u, hu, hpending⟩ := hguard
  simp only [ServerLife.step, hu] at hstep
  obtain ⟨hpos, rfl⟩ := releaseUdpConn_ok hstep
  have hrefs := h.refs u hu
  rw [hpending] at hrefs
  refine h.set hu ?_ rfl (fun hr => ⟨(h.removed hr u hu).1, by simp⟩) (fun hp => by cases hp)
  simp only [Polled.refs] at hrefs ⊢
  omega

theorem UdpOk.udpRefCopy (h : s.UdpOk) (hguard : s.Guard .udpRefCopy)
    (hquiet : s.QuietUdp .udpRefCopy) (hstep : s.step .udpRefCopy = .ok s') : s'.UdpOk := by
  obtain ⟨u, hu, hheld⟩ := hguard
  simp only [ServerLife.step, hu] at hstep
  cases hstep
  have hrefs := h.refs u hu
  refine h.set hu ?_ rfl (fun hr => absurd hr hquiet) id
  change u.refCnt + 1 = (if u.own then 1 else 0) + u.polled.refs + (u.handlers + 1)
  omega

theorem UdpOk.udpHandlerRelease (h : s.UdpOk) (hguard : s.Guard .udpHandlerRelease)
    (hstep : s.step .udpHandlerRelease = .ok s') : s'.UdpOk := by
  obtain ⟨u, hu, hhandlers⟩ := hguard
  simp only [ServerLife.step, hu] at hstep
  obtain ⟨hpos, rfl⟩ := releaseUdpConn_ok hstep
  have hrefs := h.refs u hu
  refine h.set hu ?_ rfl (fun hr => ?_) id
  · change u.refCnt - 1 = (if u.own then 1 else 0) + u.polled.refs + (u.handlers - 1)
    omega
  · obtain ⟨hnone, hpolled⟩ := h.removed hr u hu
    exact ⟨by simp [hnone], hpolled⟩

/-- **One step** keeps the account of the UDP connection. -/
theorem UdpOk.step (h : s.UdpOk) (hI : s.Inv) {op : LifeOp τ} (hguard : s.Guard op)
    (hquiet : s.QuietUdp op) (hstep : s.step op = .ok s') : s'.UdpOk := by
  cases op with
  | enableUdp =>
    cases hstep
    exact h.frame rfl (fun _ => rfl) rfl
  | loopBegin => exact h.loopBegin hI hguard hstep
  | testStatus =>
    obtain ⟨p, hreturned⟩ := hguard
    simp only [ServerLife.step, hreturned] at hstep
    split at hstep <;> cases hstep <;> exact h.frame rfl id rfl
  -- `~Server` in front of `udp_conn_`
  | destroy =>
    have halive : s.dtor = .alive := hguard
    simp only [ServerLife.step] at hstep
    split at hstep <;> cases hstep <;> exact h.dtorTo rfl rfl (by rw [halive]; exact id) id
  | join =>
    obtain ⟨hjoining, -⟩ := hguard
    simp only [ServerLife.step, verify] at hstep
    split at hstep <;> cases hstep
    exact h.dtorTo rfl rfl (by rw [hjoining]; exact id) id
  | snapshot ps =>
    cases hstep
    exact h.dtorTo rfl rfl (by rw [hguard.1]; exact id) id
  | call =>
    obtain ⟨p, ps, hdtor⟩ := hguard
    simp only [ServerLife.step, hdtor] at hstep
    split at hstep <;> cases hstep
    exact h.dtorTo rfl rfl (by rw [hdtor]; exact id) id
  | callReturn =>
    obtain ⟨p, ps, hdtor, -⟩ := hguard
    simp only [ServerLife.step, hdtor] at hstep
    cases hstep
    exact h.dtorTo rfl rfl (by rw [hdtor]; exact id) id
  -- steps on a ServerTcpConnection
  | closeStep p who =>
    obtain ⟨c, htouches, -⟩ := closeStep_touches hstep
    exact h.touches htouches
  | drain p => exact h.touches (release_touches hstep)
  | handlerRelease p => exact h.touches (release_touches hstep)
  -- steps on the UDP connection
  | removeUdp => exact h.removeUdp hguard hquiet hstep
  | releaseUdp => exact h.releaseUdp hguard hstep
  | leave => exact h.leave hguard hquiet hstep
  | udpDrain => exact h.udpDrain hguard hstep
  | udpRefCopy => exact h.udpRefCopy hguard hquiet hstep
  | udpHandlerRelease => exact h.udpHandlerRelease hguard hstep
  | _ =>
    cases hstep
    exact h.frame rfl id rfl

omit [DecidableEq τ] in
/-- Behind the waiting loop, none of those who have had references has one any more. -/
theorem UdpOk.refCnt_of_passed (h : s.UdpOk) (hpassed : s.dtor = .passed) {u : UdpConn}
    (hu : s.udpConn = some u) : u.refCnt = 0 := by
  have hown : u.own = false := (h.own u hu).mpr (by rw [hpassed]; trivial)
  obtain ⟨hhandlers, hregistered⟩ := h.removed (by rw [hpassed]; trivial) u hu
  have hpending := h.drained hpassed u hu
  have hpolled : u.polled.refs = 0 := by
    cases hp : u.polled with
    | apart | drained => rfl
    | registered => exact absurd hp hregistered
    | pending => exact absurd hp hpending
  rw [h.refs u hu, hown, hpolled, hhandlers]
  rfl

end Udp

/-! ## What `~Server` leaves behind -/

omit [DecidableEq τ] in
/-- No connection refers to the Server. -/
def NothingLeft (s : ServerLife τ) : Prop :=
  (∀ p ∈ s.made, p ∈ s.dead) ∧ ∀ u ∈ s.udpConn, u.refCnt = 0

instance NothingLeft.decidable (s : ServerLife τ) : Decidable s.NothingLeft := by
  unfold NothingLeft
  infer_instance

/-- **Nothing is left**: in every run in which UDP requests are done when `~Server` removes `udp_conn_`,
    and the poll thread drains it in time, no connection exists behind the waiting loop. -/
theorem nothing_left_of_quiet_udp (ops : List (LifeOp τ)) (s : ServerLife τ)
    (hrun : Steps (Next QuietUdp) init ops s) (hpassed : s.dtor = .passed) : s.NothingLeft := by
  have hboth : s.Inv ∧ s.UdpOk := by
    apply hrun.invariant (P := fun s => s.Inv ∧ s.UdpOk) _ ⟨inv_init, udpOk_init⟩
    rintro s op s' ⟨hI, hudp⟩ ⟨hguard, hquiet, hstep⟩
    exact ⟨hI.step hguard hstep, hudp.step hI hguard hquiet hstep⟩
  obtain ⟨hI, hudp⟩ := hboth
  exact ⟨hI.passed hpassed, fun u hu => hudp.refCnt_of_passed hpassed hu⟩

/-- A UDP request is served, the poll thread closes the TCP connection while a handler of a TCP request
    is running, and the UDP connection is drained before that handler is done. -/
def quietRun : List (LifeOp Unit) :=
  [.enableUdp, .start, .loopBegin, .udpRefCopy, .select, .accept (), .testStatus, .enlist (),
    .register (), .refCopy (), .udpHandlerRelease, .destroy, .loopEnd, .join, .snapshot [()]] ++ pollCloses ++
  [.drain (), .call, .closeStep () .dtor, .callReturn, .removeUdp, .releaseUdp, .udpDrain,
    .handlerRelease (), .leave]

theorem nothing_left_of_quiet_udp_served :
    ∃ s : ServerLife Unit, Steps (Next QuietUdp) init quietRun s ∧
      (s.dtor = .passed ∧ s.made = {()} ∧ s.udpConn.isSome = true) ∧ s.NothingLeft := by
  obtain ⟨s, hrun, hpassed⟩ : ∃ s : ServerLife Unit, Steps (Next QuietUdp) init quietRun s ∧
      (s.dtor = .passed ∧ s.made = {()} ∧ s.udpConn.isSome = true) :=
    reach_of_checked (by decide +kernel)
  exact ⟨s, hrun, hpassed, nothing_left_of_quiet_udp _ s hrun hpassed.1⟩

/-- `~Server` does not wait for the UDP connection: it leaves while a handler of a UDP request is
    running and the poll thread has not drained the connection. -/
theorem udp_connection_left :
    ∃ s : ServerLife Unit, Steps (Next fun _ _ => True) init
        [.enableUdp, .start, .loopBegin, .udpRefCopy, .select, .destroy, .acceptNone, .loopEnd, .join,
          .snapshot [], .removeUdp, .releaseUdp, .leave] s ∧
      s.dtor = .passed ∧ ¬ s.NothingLeft :=
  reach_of_checked (by decide +kernel)

end ServerLife

end SimpleRpc.Rpc
