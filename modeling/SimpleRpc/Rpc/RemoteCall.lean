import SimpleRpc.Rpc.EndToEnd

/-!
# A Remote Call Is a Call

What a client gets back is what the handler of its request makes of its arguments, if every handler
writes what it promises. A handler looks at the bytes that it was handed only, and whoever
calls looks at the bytes of the reply only: nothing else of the connection is left in the
statement.

## Layers

- **System**: `System.step`, any interleaving of the two ends
- **Promise**: a relation between the arguments and the reply, for each handler; `Kept` is what one
  handler owes at its `end_reply`, in terms of what it was handed
- **Invariant**: `Promised`, in terms of the calls

## Main results

- `Returned`: what is asked of a Future that was completed
- `Inv.returned`: every Future that was completed has what was promised for its call
-/

namespace SimpleRpc.Rpc

open SimpleRpc.Lib SimpleRpc.Base

namespace System

variable {κ κ' η : Type} (promise : η → List UInt8 → Int32 × List UInt8 → Prop)

/-- The handler that ends its reply has written what it promises for the bytes it was handed. -/
def Kept (s : System κ κ' η) : SystemOp κ κ' → Prop
  | .endReply _ => ∀ r, s.answering = some r → ∀ handler rpcId args,
      Outcome.handed handler r.xid rpcId args ∈ s.server.outcomes →
        promise handler args (r.errorCode, r.payload)
  | _ => True

/-- A step of a connection whose handlers keep their promise. -/
def NextKept (handlers : Int32 → Option η) (s : System κ κ' η) (op : SystemOp κ κ')
    (s' : System κ κ' η) : Prop :=
  s.Next handlers op s' ∧ s.Kept promise op

/-- What was promised for a call. -/
def Owes (handlers : Int32 → Option η) (call : Call) (errorCode : Int32) (payload : List UInt8) :
    Prop :=
  ∃ handler, handlers call.rpcId = some handler ∧ promise handler call.args (errorCode, payload)

/-- Every reply of a handler is what was promised for its call. -/
def Promised (handlers : Int32 → Option η) (calls : List Call) (replied : List Reply) : Prop :=
  ∀ r ∈ replied, ∃ n call, calls[n]? = some call ∧ r.xid = Int64.ofNat n ∧
    Owes promise handlers call r.errorCode r.payload

/-- `c` is what was promised for the call of its Future, or the refusal of a call that has no
    handler. -/
structure Returned (handlers : Int32 → Option η) (s : System κ κ' η) (c : Completion) (n : Nat)
    (call : Call) : Prop where
  call_eq : s.calls[n]? = some call
  fu_eq : c.fu = ⟨n, Int64.ofNat n⟩
  promised : handlers call.rpcId ≠ none → Owes promise handlers call c.errorCode c.bytes
  refused : handlers call.rpcId = none → c.errorCode = ENOENT ∧ c.bytes = []

/-! ## What a step does to the calls and the replies -/

/-- The replies that a step finishes. -/
def finishedReply (s : System κ κ' η) : SystemOp κ κ' → List Reply
  | .endReply _ => s.answering.toList
  | _ => []

theorem dispatched_calls (s : System κ κ' η) (server : ServerTcpConnection κ' η) :
    (s.dispatched server).calls = s.calls ∧ (s.dispatched server).replied = s.replied := by
  rw [dispatched]
  split
  · rename_i outcome _ _
    cases outcome <;> exact ⟨rfl, rfl⟩
  · exact ⟨rfl, rfl⟩

/-- Calls are only added, and handlers reply when they end a reply. -/
theorem step_calls {handlers : Int32 → Option η} {s s' : System κ κ' η} {op : SystemOp κ κ'}
    (h : s.step handlers op = .ok s') :
    s.calls <+: s'.calls ∧ s'.replied = s.replied ++ s.finishedReply op := by
  cases op with
  | endRequest t =>
    obtain ⟨client, -, hret⟩ := bind_eq_ok.mp h
    cases hret
    exact ⟨List.prefix_append _ _, (List.append_nil _).symm⟩
  | endReply t =>
    obtain ⟨server, -, hret⟩ := bind_eq_ok.mp h
    cases hret
    exact ⟨List.prefix_rfl, rfl⟩
  | serverDispatch buf buf' =>
    obtain ⟨server, -, hret⟩ := bind_eq_ok.mp h
    cases hret
    obtain ⟨hcalls, hreplied⟩ := dispatched_calls s server
    exact ⟨hcalls ▸ List.prefix_rfl, hreplied.trans (List.append_nil _).symm⟩
  | _ =>
    obtain ⟨_, -, hret⟩ := bind_eq_ok.mp h
    cases hret
    exact ⟨List.prefix_rfl, (List.append_nil _).symm⟩

/-! ## Who is answered -/

section Answered

variable {handlers : Int32 → Option η} {s : System κ κ' η} (hI : s.Inv handlers)

include hI

/-- A request that is not waiting was dispatched. -/
theorem Inv.dispatched_of_not_waiting {n : Nat} (hn : n < s.server.packets.length)
    (hnot : Int64.ofNat n ∉ s.server.io.waiting.map Request.xid) :
    ∃ call, s.calls[n]? = some call ∧
      s.server.outcomes[n]? = some (call.outcome (Int64.ofNat n) handlers) := by
  obtain ⟨old, new, hpackets, hold, hnew⟩ := hI.replies.inv.progress
  have hlt : n < s.server.outcomes.length := by
    by_contra hge
    rw [hold, List.length_map, Nat.not_lt] at hge
    obtain ⟨more, hmore⟩ := hI.serving.packets
    have hcalls : n < s.calls.length := Nat.lt_of_lt_of_le hn hI.serving.packets_le
    have hget := numbered_getElem? s.calls n
    rw [← hmore, List.getElem?_append_left hn, hpackets, List.getElem?_append_right hge,
      List.getElem?_eq_getElem hcalls] at hget
    have hxid : new[n - old.length]?.map Prod.fst = some (Int64.ofNat n) := by
      rw [hget]
      rfl
    have hwaiting : s.server.io.waiting.map Request.xid = new.map Prod.fst := by
      have hview := congrArg (List.map Prod.fst) hnew
      simpa [ServerTcpConnection.view, Function.comp_def] using hview
    rw [← List.getElem?_map] at hxid
    exact hnot (hwaiting ▸ List.mem_of_getElem? hxid)
  have hout := List.getElem?_eq_getElem hlt
  obtain ⟨call, hcall, houtcome⟩ := hI.outcome_eq hout
  exact ⟨call, hcall, houtcome ▸ hout⟩

/-- Who writes a reply was handed the call. -/
theorem Inv.answering_handed {r : Reply} (hr : s.answering = some r) :
    ∃ n call handler, s.calls[n]? = some call ∧ r.xid = Int64.ofNat n ∧
      handlers call.rpcId = some handler ∧
      Outcome.handed handler r.xid call.rpcId call.args ∈ s.server.outcomes := by
  have htickets := hI.serving.tickets
  have hnodup := hI.serving.nodup hI.calls_le
  rw [tickets, hr, Option.toList_some, List.map_singleton] at htickets hnodup
  -- the ticket of the reply is neither with an answer nor in the list of `handle_read`
  have hmem : r.xid ∈ (List.range s.server.packets.length).map Int64.ofNat := by
    rw [← htickets.mem_iff]
    simp
  obtain ⟨n, hn, hxid⟩ := List.mem_map.mp hmem
  have hnot : Int64.ofNat n ∉ s.server.io.waiting.map Request.xid := by
    rw [hxid]
    intro hwaiting
    exact (List.nodup_append.mp hnodup).2.2 r.xid (by simp) r.xid hwaiting rfl
  have hunanswered : r.xid ∉ s.answers.map Reply.xid := by
    intro hanswered
    have hfront := (List.nodup_append.mp (List.nodup_append.mp hnodup).1).1
    exact (List.nodup_append.mp hfront).2.2 r.xid hanswered r.xid (List.mem_singleton.mpr rfl) rfl
  obtain ⟨call, hcall, hout⟩ := hI.dispatched_of_not_waiting (List.mem_range.mp hn) hnot
  have hout := List.mem_of_getElem? hout
  rw [hxid] at hout
  refine ⟨n, call, ?_⟩
  cases hhandler : handlers call.rpcId with
  | some handler =>
    rw [Call.outcome, hhandler] at hout
    exact ⟨handler, hcall, hxid.symm, rfl, hout⟩
  | none =>
    -- it would have been refused
    rw [Call.outcome, hhandler] at hout
    have hrefused := hI.written.refusal _ hout ⟨r.xid, ENOENT, []⟩ rfl
    exact absurd (List.mem_map_of_mem hrefused) hunanswered

end Answered

/-! ## The invariant -/

section Steps

variable {promise} {handlers : Int32 → Option η} {s : System κ κ' η}

theorem Promised.mono {calls calls' : List Call} {replied : List Reply}
    (h : Promised promise handlers calls replied) (hcalls : calls <+: calls') :
    Promised promise handlers calls' replied := by
  intro r hr
  obtain ⟨n, call, hcall, hrest⟩ := h r hr
  obtain ⟨more, rfl⟩ := hcalls
  have hlt := (List.getElem?_eq_some_iff.mp hcall).1
  exact ⟨n, call, by rw [List.getElem?_append_left hlt, hcall], hrest⟩

theorem Promised.append {calls : List Call} {replied more : List Reply}
    (h : Promised promise handlers calls replied) (hmore : Promised promise handlers calls more) :
    Promised promise handlers calls (replied ++ more) := by
  intro r hr
  obtain hr | hr := List.mem_append.mp hr
  · exact h r hr
  · exact hmore r hr

/-- A reply that is finished is what was promised. -/
theorem Inv.finished_promised (hI : s.Inv handlers) {op : SystemOp κ κ'} (hkept : s.Kept promise op) :
    Promised promise handlers s.calls (s.finishedReply op) := by
  cases op with
  | endReply t =>
    intro r hr
    have hanswering : s.answering = some r := Option.mem_toList.mp hr
    obtain ⟨n, call, handler, hcall, hxid, hhandler, hhanded⟩ := hI.answering_handed hanswering
    exact ⟨n, call, hcall, hxid, handler, hhandler, hkept r hanswering handler _ _ hhanded⟩
  | _ => exact nofun

/-- **One step** of handlers that keep their promise. -/
theorem Inv.stepKept {s' : System κ κ' η} {op : SystemOp κ κ'}
    (h : s.Inv handlers ∧ Promised promise handlers s.calls s.replied)
    (hnext : s.NextKept promise handlers op s') :
    s'.Inv handlers ∧ Promised promise handlers s'.calls s'.replied := by
  obtain ⟨hI, hpromised⟩ := h
  obtain ⟨⟨hop, hstep⟩, hkept⟩ := hnext
  obtain ⟨s'', heq, hinv⟩ := hI.step hop
  cases heq.symm.trans hstep
  obtain ⟨hcalls, hreplied⟩ := step_calls hstep
  refine ⟨hinv, ?_⟩
  rw [hreplied]
  exact (hpromised.append (hI.finished_promised hkept)).mono hcalls

/-- A Future that was completed has what was promised for its call. -/
theorem Inv.returned (hI : s.Inv handlers) (hpromised : Promised promise handlers s.calls s.replied)
    {c : Completion} (hc : c ∈ s.completions) :
    ∃ n call, s.Returned promise handlers c n call := by
  obtain ⟨call, hmatches⟩ := hI.matched hc
  obtain ⟨n, hcall, hfu, hunique, -⟩ := hmatches.request
  refine ⟨n, call, hcall, hfu, fun hhandler => ?_, hmatches.refusal⟩
  obtain ⟨m, call', hcall', hxid, howes⟩ := hpromised _ (hmatches.handler hhandler)
  -- the call with this `xid` is the one of the Future
  have hm : m < s.calls.length := (List.getElem?_eq_some_iff.mp hcall').1
  cases hunique m hm hxid.symm
  cases hcall.symm.trans hcall'
  exact howes

/-- The invariant of a run in which handlers keep their promise. -/
theorem inv_of_kept {h h' : Heap} {ops : List (SystemOp κ κ')}
    (hrun : Steps (NextKept promise handlers) (init h h') ops s) :
    s.Inv handlers ∧ Promised promise handlers s.calls s.replied :=
  hrun.invariant (fun _ _ _ => Inv.stepKept) ⟨inv_init handlers h h', nofun⟩

end Steps

/-- **A remote call is a call**: in every run of a client and a server whose handlers keep their
    promise, whatever the threads do and however the bytes are cut, a Future that is completed has
    what was promised for the arguments of its own call, and is completed once. -/
theorem remote_call (handlers : Int32 → Option η) (h h' : Heap) (ops : List (SystemOp κ κ'))
    (s : System κ κ' η) (hrun : Steps (NextKept promise handlers) (init h h') ops s) :
    (∀ c ∈ s.completions, ∃ n call, s.Returned promise handlers c n call) ∧
      (s.completions.map Completion.fu).Nodup := by
  obtain ⟨hI, hpromised⟩ := inv_of_kept hrun
  exact ⟨fun c hc => hI.returned hpromised hc, hI.once⟩

/-! ## Checking a run -/

/-- Handlers are handed what was written: a reply that fits every call with a handler is kept. -/
theorem Inv.kept_of_calls {promise} {handlers : Int32 → Option η} {s : System κ κ' η}
    (hI : s.Inv handlers)
    (hcalls : ∀ call ∈ s.calls, ∀ handler, handlers call.rpcId = some handler →
      ∀ r, s.answering = some r → promise handler call.args (r.errorCode, r.payload))
    (op : SystemOp κ κ') : s.Kept promise op := by
  cases op with
  | endReply t =>
    intro r hr handler rpcId args hhanded
    obtain ⟨n, hn⟩ := List.mem_iff_getElem?.mp hhanded
    obtain ⟨call, hcall, houtcome⟩ := hI.outcome_eq hn
    cases hhandler : handlers call.rpcId with
    | none =>
      rw [Call.outcome, hhandler] at houtcome
      cases houtcome
    | some handler' =>
      rw [Call.outcome, hhandler] at houtcome
      obtain ⟨rfl, -, -, rfl⟩ := Outcome.handed.inj houtcome
      exact hcalls call (List.mem_of_getElem? hcall) handler hhandler r hr
  | _ => trivial

/-- **Checked runs**: a run of one thread on each side that is computed step by step is one whose
    handlers keep their promise, if the check makes them. -/
theorem steps_of_checked {promise} {check : System Unit Unit η → SystemOp Unit Unit → Bool}
    {handlers : Int32 → Option η} {h h' : Heap} {ops : List (SystemOp Unit Unit)}
    {s : System Unit Unit η}
    (hcheck : ∀ (s : System Unit Unit η) op, s.Inv handlers → check s op = true → s.Kept promise op)
    (hexec : ops.foldlM (checked (fun s op => s.ready op && check s op) (System.step handlers))
      (init h h') = some s) :
    Steps (NextKept promise handlers) (init h h') ops s := by
  have hrun : Steps (fun s op s' => s.Next handlers op s' ∧ check s op = true) (init h h') ops s := by
    apply Steps.of_checked _ hexec
    intro s op s' hop hstep
    obtain ⟨hready, hok⟩ := (Bool.and_eq_true _ _).mp hop
    exact ⟨⟨allowed_of_ready handlers hready, hstep⟩, hok⟩
  refine Steps.refine id (fun s op s' hI hnext => ?_) hrun (inv_init handlers h h')
  obtain ⟨⟨hop, hstep⟩, hok⟩ := hnext
  obtain ⟨s'', heq, hinv⟩ := hI.step hop
  cases heq.symm.trans hstep
  exact ⟨hinv, ⟨hop, hstep⟩, hcheck s op hI hok⟩

end System

end SimpleRpc.Rpc
