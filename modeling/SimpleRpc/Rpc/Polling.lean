import SimpleRpc.Rpc.PollSockets

/-!
# References of a PollThread

Each step of a PollThread keeps an account of the references to each Pollable: those that were taken
are those that were released, those of `poll_set_`, of `pending_remove_` and of calls in progress, and
those that were lost.

## Main results

- `Inv.step`: one step, of whatever thread
- `events_reach_live_pollables`: a pointer that `poll_loop` takes from `evlist` is one that the
  PollThread holds a reference to
- `references_balanced_of_spaced`: the references are those of `poll_set_` and `pending_remove_`, in
  the runs in which no Pollable is removed a second time before the first was drained
-/

namespace SimpleRpc.Rpc

open SimpleRpc.Lib SimpleRpc.Base

namespace PollThread

variable {π : Type} [DecidableEq π]

/-! ## The references, step by step -/

section Counted

variable {s : PollThread π} (hI : s.Counted)

include hI

theorem Counted.startAdd (p : π) (mode : Mode) :
    ({ s with refCnt := Function.update s.refCnt p (s.refCnt p + 1)
              adds := Function.update s.adds p (s.adds p + 1)
              unused := Function.update s.unused p false
              calls := .adding p mode (s.fd p) :: s.calls } : PollThread π).Counted := by
  constructor <;> intro q
  · -- the new call pins the Pollable
    have haccount := hI.account q
    by_cases hq : q = p
    · subst hq
      simp [PollCall.pins]
      omega
    · simpa [hq, Ne.symm hq, PollCall.pins] using haccount
  · -- and has taken a reference of its own
    have hrefs := hI.refs q
    by_cases hq : q = p
    · subst hq
      simp
      omega
    · simpa [hq] using hrefs

/-- Calls go on, and the references of a Pollable move with them. -/
theorem Counted.move {s' : PollThread π} (hadds : s'.adds = s.adds) (hreleases : s'.releases = s.releases)
    (hrefCnt : s'.refCnt = s.refCnt) (hothers : s'.others = s.others)
    (hmove : ∀ p, places s'.pollSet p + places s'.pendingRemove p +
        s'.calls.countP (PollCall.pins p) + s'.loop.unreleased.count p + s'.lost p =
      places s.pollSet p + places s.pendingRemove p +
        s.calls.countP (PollCall.pins p) + s.loop.unreleased.count p + s.lost p) :
    s'.Counted where
  account p := by
    -- the sum is what it was, wherever its parts are now
    have haccount := hI.account p
    have hp := hmove p
    rw [hadds, hreleases]
    omega
  refs p := by
    rw [hadds, hreleases, hrefCnt, hothers]
    exact hI.refs p

theorem Counted.insert {p : π} {mode : Mode} {fd : Nat} (hcall : .adding p mode fd ∈ s.calls)
    (hset : p ∉ s.pollSet) :
    ((s.inserted p mode fd).become (.adding p mode fd) [.watching p fd]).Counted := by
  refine hI.move rfl rfl rfl rfl ?_
  intro q
  have hcount := countP_become (s := s.inserted p mode fd) [.watching p fd] hcall (PollCall.pins q)
  by_cases hq : q = p
  · subst hq
    simp [PollCall.pins, inserted, become, places_of_not_mem hset] at hcount ⊢
    omega
  · simp [PollCall.pins, inserted, become, Ne.symm hq, places_insert_of_ne _ hq] at hcount ⊢
    omega

theorem Counted.erase {p : π} (hcall : .removing p ∈ s.calls) (hset : p ∈ s.pollSet) :
    ((s.erased p).become (.removing p) [.retiring p]).Counted := by
  refine hI.move rfl rfl rfl rfl ?_
  intro q
  have hcount := countP_become (s := s.erased p) [.retiring p] hcall (PollCall.pins q)
  by_cases hq : q = p
  · subst hq
    simp [PollCall.pins, erased, become, places_of_mem hset] at hcount ⊢
    omega
  · simp [PollCall.pins, erased, become, Ne.symm hq, places_erase_of_ne _ hq] at hcount ⊢
    omega

/-- A Pollable that `pending_remove_` has already does not take a second place there. -/
theorem Counted.retire {p : π} (hcall : .retiring p ∈ s.calls) :
    ((s.retired p).become (.retiring p) []).Counted := by
  refine hI.move rfl rfl rfl rfl ?_
  intro q
  have hcount := countP_become (s := s.retired p) [] hcall (PollCall.pins q)
  -- its reference moves into the set, and is lost if the set has one already
  by_cases hq : q = p
  · subst hq
    by_cases hpending : q ∈ s.pendingRemove
    · simp [PollCall.pins, retired, become, hpending, places_of_mem hpending] at hcount ⊢
      omega
    · simp [PollCall.pins, retired, become, hpending, places_of_not_mem hpending] at hcount ⊢
      omega
  · have hlost : (s.retired p).lost q = s.lost q := by
      by_cases hpending : p ∈ s.pendingRemove <;> simp [retired, hpending, hq]
    simp [PollCall.pins, retired, become, Ne.symm hq, places_insert_of_ne _ hq] at hcount hlost ⊢
    omega

/-- Calls that hold no reference come and go. -/
theorem Counted.of_calls {calls : List (PollCall π)} (epoll : Nat → Option π)
    (hcount : ∀ p, calls.countP (PollCall.pins p) = s.calls.countP (PollCall.pins p)) :
    ({ s with calls := calls, epoll := epoll } : PollThread π).Counted := by
  refine hI.move rfl rfl rfl rfl ?_
  intro p
  rw [show calls.countP (PollCall.pins p) = _ from hcount p]

theorem Counted.loop {loop : LoopAt π}
    (hcount : ∀ p, loop.unreleased.count p = s.loop.unreleased.count p) :
    ({ s with loop := loop } : PollThread π).Counted := by
  refine hI.move rfl rfl rfl rfl ?_
  intro p
  rw [show loop.unreleased.count p = _ from hcount p]

theorem Counted.drain {polls : List π} (hwalking : s.loop = .walking []) (hnodup : polls.Nodup)
    (hpolls : ∀ p, p ∈ polls ↔ p ∈ s.pendingRemove) :
    ({ s with pendingRemove := ∅, loop := .draining polls } : PollThread π).Counted := by
  refine hI.move rfl rfl rfl rfl ?_
  intro p
  have hcount : polls.count p = places s.pendingRemove p := by
    rw [places]
    split
    case isTrue h => exact List.count_eq_one_of_mem hnodup ((hpolls p).mpr h)
    case isFalse h => exact List.count_eq_zero_of_not_mem (fun hmem => h ((hpolls p).mp hmem))
  simp [hwalking, LoopAt.unreleased, hcount]
  omega

/-- What is still to be released is there. -/
theorem Counted.refCnt_pos {p : π} (h : s.Registered p ∨ p ∈ s.loop.unreleased) :
    0 < s.refCnt p := by
  have haccount := hI.account p
  have hrefs := hI.refs p
  obtain (hset | hpending | hretiring) | hunreleased := h
  · -- in `poll_set_`
    rw [places_of_mem hset] at haccount
    omega
  · -- in `pending_remove_`
    rw [places_of_mem hpending] at haccount
    omega
  · -- in a call of `remove`
    have hpos : 0 < s.calls.countP (PollCall.pins p) :=
      List.countP_pos_iff.mpr ⟨_, hretiring, by simp [PollCall.pins]⟩
    omega
  · -- among what is still to be drained
    have hpos : 0 < s.loop.unreleased.count p := List.count_pos_iff.mpr hunreleased
    omega

theorem Counted.release {p : π} {polls : List π} (hreleasing : s.loop = .releasing p polls) :
    ({ s with refCnt := Function.update s.refCnt p (s.refCnt p - 1)
              releases := Function.update s.releases p (s.releases p + 1)
              loop := .draining polls } : PollThread π).Counted := by
  have hpos : 0 < s.refCnt p := hI.refCnt_pos (.inr (by simp [hreleasing, LoopAt.unreleased]))
  constructor <;> intro q
  · -- it leaves the list of what is to be released, and counts as released
    have haccount := hI.account q
    by_cases hq : q = p
    · subst hq
      simp [hreleasing, LoopAt.unreleased] at haccount ⊢
      omega
    · simpa [hreleasing, LoopAt.unreleased, hq, Ne.symm hq] using haccount
  · -- one reference less is held, and one was given back
    have hrefs := hI.refs q
    by_cases hq : q = p
    · subst hq
      simp
      omega
    · simpa [hq] using hrefs

end Counted

/-! ## One step -/

section Step

variable {s : PollThread π} (hI : s.Inv)

include hI

theorem Inv.insert {p : π} {mode : Mode} {fd : Nat} (hcall : .adding p mode fd ∈ s.calls) :
    ∃ s', s.step (.insert p mode fd) = .ok s' ∧ s'.Inv := by
  obtain ⟨hset, hmode⟩ := hI.wired.insert_verifies hcall
  refine ⟨(s.inserted p mode fd).become (.adding p mode fd) [.watching p fd], ?_,
    hI.wired.insert hcall, ?_, hI.counted.insert hcall hset⟩
  · simp [PollThread.step, verify, hset, hmode]
  · refine hI.covered.mono rfl ?_ ?_
    · rintro q (hq | hq | hq)
      · exact .inl (Finset.mem_insert_of_mem hq)
      · exact .inr (.inl hq)
      · exact .inr (.inr (mem_become hq (by simp)))
    · intro fd' q h
      exact .inl h

theorem Inv.watch {p : π} {fd : Nat} (hcall : .watching p fd ∈ s.calls) :
    ∃ s', s.step (.watch p fd) = .ok s' ∧ s'.Inv := by
  obtain ⟨howner, hset, hepoll⟩ := hI.wired.watching p fd hcall
  refine ⟨{ s with epoll := Function.update s.epoll fd (some p) }.become (.watching p fd) [], ?_,
    hI.wired.watch hcall, ?_, ?_⟩
  · simp [PollThread.step, verify, howner, hepoll]
  · -- the new entry of `epoll` is in `poll_set_`
    refine hI.covered.mono rfl ?_ ?_
    · rintro q (hq | hq | hq)
      · exact .inl hq
      · exact .inr (.inl hq)
      · exact .inr (.inr (mem_become hq (by simp)))
    · intro fd' q h
      by_cases hfd : fd' = fd
      · obtain rfl : p = q := by simpa [become, hfd] using h
        exact .inr (.inl hset)
      · exact .inl (by simpa [become, hfd] using h)
  · -- a call between its two parts pins nothing
    apply hI.counted.of_calls
    intro q
    exact countP_become_eq (s := s) hcall (by simp [PollCall.pins])

theorem Inv.startRemove (p : π) : ∃ s', s.step (.startRemove p) = .ok s' ∧ s'.Inv := by
  refine ⟨{ s with calls := .removing p :: s.calls }, rfl, ?_, ?_, ?_⟩
  · -- a call that removes adds nothing
    apply hI.wired.of_calls
    · intro call hmem q hadds
      obtain rfl | hmem := List.mem_cons.mp hmem
      · simp [PollCall.adds] at hadds
      · exact hmem
    · intro q
      simp [PollCall.adds]
  · refine hI.covered.mono rfl ?_ ?_
    · rintro q (hq | hq | hq)
      · exact .inl hq
      · exact .inr (.inl hq)
      · exact .inr (.inr (List.mem_cons_of_mem _ hq))
    · intro fd q h
      exact .inl h
  · apply hI.counted.of_calls
    intro q
    simp [PollCall.pins]

theorem Inv.erase {p : π} (hcall : .removing p ∈ s.calls) (hidle : ¬ s.Adding p) :
    ∃ s', s.step (.erase p) = .ok s' ∧ s'.Inv := by
  by_cases hset : p ∈ s.pollSet
  · refine ⟨(s.erased p).become (.removing p) [.retiring p], ?_, ?_, ?_,
      hI.counted.erase hcall hset⟩
    · -- it leaves `poll_set_`
      simp [PollThread.step, hset]
    · exact (hI.wired.erased hset hidle).become hcall (fun _ => rfl) (by simp [PollCall.adds])
    · refine hI.covered.mono rfl ?_ ?_
      · -- the Pollable itself is held by this call from now on
        rintro q (hq | hq | hq)
        · by_cases hqp : q = p
          · subst hqp
            exact .inr (.inr (List.mem_cons_self))
          · exact .inl (Finset.mem_erase.mpr ⟨hqp, hq⟩)
        · exact .inr (.inl hq)
        · exact .inr (.inr (mem_become (s := s.erased p) hq (by simp)))
      · intro fd q h
        exact .inl h
  · refine ⟨s.become (.removing p) [], ?_, ?_, ?_, ?_⟩
    · -- somebody else has taken it out
      simp [PollThread.step, hset]
    · exact hI.wired.become hcall (fun _ => rfl) (by simp)
    · refine hI.covered.mono rfl ?_ ?_
      · rintro q (hq | hq | hq)
        · exact .inl hq
        · exact .inr (.inl hq)
        · exact .inr (.inr (mem_become hq (by simp)))
      · intro fd q h
        exact .inl h
    · apply hI.counted.of_calls
      intro q
      exact countP_become_eq (s := s) hcall (by simp [PollCall.pins])

theorem Inv.retire {p : π} (hcall : .retiring p ∈ s.calls) :
    ∃ s', s.step (.retire p) = .ok s' ∧ s'.Inv := by
  refine ⟨(s.retired p).become (.retiring p) [], rfl, ?_, ?_, hI.counted.retire hcall⟩
  · have hW : (s.retired p).Wired := { hI.wired with }
    exact hW.become hcall (fun _ => rfl) (by simp)
  · refine hI.covered.mono rfl ?_ ?_
    · rintro q (hq | hq | hq)
      · exact .inl hq
      · exact .inr (.inl (Finset.mem_insert_of_mem hq))
      · -- the call gives the Pollable to `pending_remove_`
        by_cases hqp : q = p
        · subst hqp
          exact .inr (.inl (Finset.mem_insert_self _ _))
        · exact .inr (.inr (mem_become (s := s.retired p) hq (by simpa using hqp)))
    · intro fd q h
      exact .inl h

theorem Inv.dropRef {p : π} (hothers : 0 < s.others p) :
    ∃ s', s.step (.dropRef p) = .ok s' ∧ s'.Inv := by
  -- who drops a reference has one
  have hpos : 0 < s.refCnt p := by
    have haccount := hI.counted.account p
    have hrefs := hI.counted.refs p
    omega
  refine ⟨{ s with refCnt := Function.update s.refCnt p (s.refCnt p - 1)
                   others := Function.update s.others p (s.others p - 1) }, ?_,
    { hI.wired with }, { hI.covered with }, hI.counted.account, ?_⟩
  · simp [PollThread.step, verify, hpos]
  · intro q
    have hrefs := hI.counted.refs q
    by_cases hq : q = p
    · subst hq
      simp
      omega
    · simpa [hq] using hrefs

/-- The steps of the poll thread. -/
theorem Inv.loop {loop : LoopAt π} (hcovered : ({ s with loop := loop } : PollThread π).Covered)
    (hcount : ∀ p, loop.unreleased.count p = s.loop.unreleased.count p) :
    ({ s with loop := loop } : PollThread π).Inv where
  wired := { hI.wired with }
  covered := hcovered
  counted := hI.counted.loop hcount

theorem Inv.drain {polls : List π} (hwalking : s.loop = .walking []) (hnodup : polls.Nodup)
    (hpolls : ∀ p, p ∈ polls ↔ p ∈ s.pendingRemove) :
    ∃ s', s.step (.drain polls) = .ok s' ∧ s'.Inv :=
  ⟨_, rfl, { hI.wired with }, hI.covered.drain hwalking hpolls,
    hI.counted.drain hwalking hnodup hpolls⟩

theorem Inv.delete {p : π} {fd : Nat} {polls : List π} (hdeleting : s.loop = .deleting p fd polls) :
    ∃ s', s.step .delete = .ok s' ∧ s'.Inv := by
  have hcovered := hI.covered.delete hI.wired hdeleting
  have hcount : ∀ q, (LoopAt.releasing p polls).unreleased.count q = s.loop.unreleased.count q := by
    intro q
    rw [hdeleting]
    rfl
  by_cases hmode : s.mode fd = none
  · rw [if_pos hmode] at hcovered
    have hW := hI.wired.delete fd
    -- nobody has registered the number again
    refine ⟨{ s with epoll := Function.update s.epoll fd none, loop := .releasing p polls }, ?_,
      { hW with }, hcovered, { hI.counted.loop hcount with }⟩
    simp [PollThread.step, hdeleting, hmode]
  · rw [if_neg hmode] at hcovered
    -- somebody has, and it stays in `epoll`
    refine ⟨{ s with loop := .releasing p polls }, ?_, hI.loop hcovered hcount⟩
    simp [PollThread.step, hdeleting, hmode]

theorem Inv.release {p : π} {polls : List π} (hreleasing : s.loop = .releasing p polls) :
    ∃ s', s.step .release = .ok s' ∧ s'.Inv := by
  have hpos : 0 < s.refCnt p :=
    hI.counted.refCnt_pos (.inr (by simp [hreleasing, LoopAt.unreleased]))
  refine ⟨{ s with refCnt := Function.update s.refCnt p (s.refCnt p - 1)
                   releases := Function.update s.releases p (s.releases p + 1)
                   loop := .draining polls }, ?_, { hI.wired with }, ?_,
    hI.counted.release hreleasing⟩
  · simp [PollThread.step, verify, hreleasing, hpos]
  · have hC : ({ s with loop := .draining polls } : PollThread π).Covered := by
      apply hI.covered.advance <;> simp [hreleasing, LoopAt.undeleted, LoopAt.events]
    exact { hC with }

theorem Inv.step {op : PollOp π} (hguard : s.Guard op) :
    ∃ s', s.step op = .ok s' ∧ s'.Inv := by
  cases op with
  | startAdd p mode =>
    obtain ⟨-, howner, hunused⟩ := hguard
    refine ⟨_, rfl, hI.wired.startAdd howner hunused, ?_, hI.counted.startAdd p mode⟩
    refine hI.covered.mono rfl ?_ (fun _ _ h => .inl h)
    intro q h
    exact h.imp_right (Or.imp_right (List.mem_cons_of_mem _))
  | insert p mode fd => exact hI.insert hguard
  | watch p fd => exact hI.watch hguard
  | startRemove p => exact hI.startRemove p
  | erase p => exact hI.erase hguard.1 hguard.2
  | retire p => exact hI.retire hguard
  -- the owners of the Pollables
  | openFd p fd =>
    obtain ⟨hfree, hclosed⟩ := hguard
    exact ⟨_, rfl, hI.wired.openFd hfree hclosed, { hI.covered with }, { hI.counted with }⟩
  | closeFd p fd =>
    obtain ⟨howner, hset, hidle⟩ := hguard
    refine ⟨_, rfl, hI.wired.closeFd howner hset hidle, ?_, { hI.counted with }⟩
    refine hI.covered.mono rfl (fun _ h => h) ?_
    intro fd' q h
    exact .inl (of_update_none h).1
  | refCopy p =>
    refine ⟨_, rfl, { hI.wired with }, { hI.covered with }, hI.counted.account, ?_⟩
    intro q
    have hrefs := hI.counted.refs q
    by_cases hq : q = p
    · subst hq
      simp
      omega
    · simpa [hq] using hrefs
  | dropRef p => exact hI.dropRef hguard
  | wait events =>
    obtain ⟨hpolling, hevents⟩ := hguard
    refine ⟨_, rfl, hI.loop (hI.covered.wait hpolling hevents) ?_⟩
    simp [hpolling, LoopAt.unreleased]
  -- the poll thread walks `evlist`
  | take =>
    obtain ⟨p, events, hwalking⟩ := hguard
    refine ⟨{ s with loop := .handling p events }, by simp [PollThread.step, hwalking], ?_⟩
    apply hI.loop
    · apply hI.covered.advance <;> simp [hwalking, LoopAt.undeleted, LoopAt.events]
    · simp [hwalking, LoopAt.unreleased]
  | handled =>
    obtain ⟨p, events, hhandling⟩ := hguard
    refine ⟨{ s with loop := .walking events }, by simp [PollThread.step, hhandling], ?_⟩
    apply hI.loop
    · apply hI.covered.advance
      · simp [hhandling, LoopAt.undeleted]
      · simp
      · intro q hq
        rw [hhandling]
        exact List.mem_cons_of_mem _ hq
    · simp [hhandling, LoopAt.unreleased]
  -- the poll thread empties `pending_remove_`
  | drain polls => exact hI.drain hguard.1 hguard.2.1 hguard.2.2
  | readFd =>
    obtain ⟨p, polls, hdraining⟩ := hguard
    refine ⟨{ s with loop := .deleting p (s.fd p) polls }, by simp [PollThread.step, hdraining], ?_⟩
    apply hI.loop (hI.covered.readFd hI.wired hdraining)
    simp [hdraining, LoopAt.unreleased]
  | delete =>
    obtain ⟨p, fd, polls, hdeleting⟩ := hguard
    exact hI.delete hdeleting
  | release =>
    obtain ⟨p, polls, hreleasing⟩ := hguard
    exact hI.release hreleasing
  | again =>
    have hdraining : s.loop = .draining [] := hguard
    refine ⟨_, rfl, ?_⟩
    apply hI.loop
    · apply hI.covered.advance <;> simp [hdraining, LoopAt.undeleted, LoopAt.events]
    · simp [hdraining, LoopAt.unreleased]

end Step

/-! ## Whole runs -/

/-- What every run keeps. -/
theorem inv_of_run {fit : PollThread π → PollOp π → Prop} {others : π → Nat} {ops : List (PollOp π)}
    {s : PollThread π} (hrun : Steps (Next fit) (init others) ops s) : s.Inv := by
  apply hrun.invariant _ (inv_init others)
  rintro s op s' hI ⟨hguard, -, hstep⟩
  obtain ⟨s'', heq, hinv⟩ := hI.step hguard
  obtain rfl : s'' = s' := by simpa using heq.symm.trans hstep
  exact hinv

/-- **Events reach live Pollables**: whatever is added, removed, closed and opened again while the
    poll thread walks its events and drains `pending_remove_`, the next pointer it takes from
    `evlist` is in `poll_set_`, in `pending_remove_` or held by a `remove`, and its count is
    positive. -/
theorem events_reach_live_pollables (others : π → Nat) (ops : List (PollOp π)) (s : PollThread π)
    (hrun : Steps (Next fun _ _ => True) (init others) ops s) (p : π) (events : List π)
    (hnext : s.loop = .walking (p :: events)) : s.Registered p ∧ 1 ≤ s.refCnt p := by
  have hI := inv_of_run hrun
  have hreg : s.Registered p := by
    apply hI.covered.events
    simp [hnext, LoopAt.events]
  exact ⟨hreg, hI.counted.refCnt_pos (.inl hreg)⟩

/-- The first event of a socket. -/
theorem events_reach_live_pollables_first :
    ∃ s : PollThread Unit, Steps (Next fun _ _ => True) (init fun _ => 1)
        [.openFd () 5, .startAdd () .onlyRead, .insert () .onlyRead 5, .watch () 5, .wait [()]] s ∧
      s.loop = .walking [()] ∧ s.Registered () ∧ 1 ≤ s.refCnt () := by
  obtain ⟨s, hrun, hnext⟩ : ∃ s : PollThread Unit, Steps (Next fun _ _ => True) (init fun _ => 1)
      [.openFd () 5, .startAdd () .onlyRead, .insert () .onlyRead 5, .watch () 5, .wait [()]] s ∧
      s.loop = .walking [()] := by
    apply Steps.reach_cons ⟨⟨rfl, by simp [init]⟩, trivial, rfl⟩
    apply Steps.reach_cons ⟨⟨Nat.one_pos, rfl, rfl⟩, trivial, rfl⟩
    apply Steps.reach_cons ⟨List.mem_cons_self, trivial, rfl⟩
    apply Steps.reach_cons ⟨List.mem_cons_self, trivial, rfl⟩
    apply Steps.reach_cons ⟨⟨rfl, fun _ _ => ⟨5, rfl⟩⟩, trivial, rfl⟩
    exact Steps.reach_nil rfl
  exact ⟨s, hrun, hnext, events_reach_live_pollables _ _ s hrun () [] hnext⟩

/-! ### The references -/

omit [DecidableEq π] in
/-- No call is in progress, and the poll thread has released what it has drained. -/
def Quiet (s : PollThread π) : Prop :=
  s.calls = [] ∧ s.loop.unreleased = []

/-- The references that were taken are those of the two sets, and those that were released. -/
def Balanced (s : PollThread π) : Prop :=
  ∀ p, s.adds p = s.releases p + places s.pollSet p + places s.pendingRemove p

/-- No call in progress is an `add` of the Pollable. -/
theorem not_adding {s : PollThread π} {p : π} (h : s.calls.countP (PollCall.adds p) = 0) :
    ¬ s.Adding p := by
  rintro ⟨call, hmem, hcall⟩
  have hnone := List.countP_eq_zero.mp h call hmem
  obtain ⟨mode, fd, rfl⟩ | ⟨fd, rfl⟩ := hcall <;> simp [PollCall.adds] at hnone

/-- A removal that comes late enough loses no reference. -/
theorem step_lost {s s' : PollThread π} {op : PollOp π} (hguard : s.Guard op)
    (hspaced : s.Spaced op) (hstep : s.step op = .ok s') : s'.lost = s.lost := by
  cases op with
  | insert p mode fd =>
    -- an `add` touches `poll_set_` and `epoll`
    simp only [step, verify] at hstep
    split at hstep <;> try cases hstep
    split at hstep <;> cases hstep
    rfl
  | watch p fd =>
    simp only [step, verify] at hstep
    split at hstep <;> cases hstep
    rfl
  | dropRef p =>
    -- the user has references of its own
    simp only [step, verify] at hstep
    split at hstep <;> cases hstep
    rfl
  | erase p =>
    -- whether it is in `poll_set_` or not
    simp only [step] at hstep
    split at hstep <;> cases hstep <;> rfl
  | retire p =>
    -- the one place where a reference can be lost
    cases hstep
    exact if_neg hspaced
  | take =>
    obtain ⟨p, events, hloop⟩ := hguard
    simp only [step, hloop] at hstep
    cases hstep
    rfl
  | handled =>
    obtain ⟨p, events, hloop⟩ := hguard
    simp only [step, hloop] at hstep
    cases hstep
    rfl
  | readFd =>
    obtain ⟨p, polls, hloop⟩ := hguard
    simp only [step, hloop] at hstep
    cases hstep
    rfl
  | delete =>
    obtain ⟨p, fd, polls, hloop⟩ := hguard
    simp only [step, hloop] at hstep
    split at hstep <;> cases hstep <;> rfl
  | release =>
    obtain ⟨p, polls, hloop⟩ := hguard
    simp only [step, hloop, verify] at hstep
    split at hstep <;> cases hstep
    rfl
  | _ =>
    -- the others do not touch `pending_remove_`
    cases hstep
    rfl

/-- **Balance**: in every run in which no Pollable is put into `pending_remove_` while it is there,
    however often it is added and removed with the same number or another, the PollThread holds one
    reference for each place in its sets, and none after the last removal was drained. -/
theorem references_balanced_of_spaced (others : π → Nat) (ops : List (PollOp π)) (s : PollThread π)
    (hrun : Steps (Next Spaced) (init others) ops s) (hquiet : s.Quiet) :
    s.Balanced ∧ ∀ p, p ∉ s.pollSet → p ∉ s.pendingRemove → s.adds p = s.releases p := by
  -- no step has lost a reference
  have hlost : s.lost = fun _ => 0 := by
    apply hrun.invariant (P := fun s => s.lost = fun _ => 0) _ rfl
    rintro s op s' hnone ⟨hguard, hspaced, hstep⟩
    exact (step_lost hguard hspaced hstep).trans hnone
  -- and no call holds one
  have hbalanced : s.Balanced := by
    intro p
    have haccount := (inv_of_run hrun).counted.account p
    rw [hquiet.1, hquiet.2, hlost] at haccount
    simpa using haccount
  refine ⟨hbalanced, ?_⟩
  intro p hset hpending
  rw [hbalanced p, places_of_not_mem hset, places_of_not_mem hpending]
  rfl

/-- A Client is removed and drained. -/
theorem references_balanced_of_spaced_client :
    ∃ s : PollThread Unit, Steps (Next Spaced) (init fun _ => 1)
        [.openFd () 5, .startAdd () .onlyRead, .insert () .onlyRead 5, .watch () 5,
          .startRemove (), .erase (), .retire (), .closeFd () 5,
          .wait [], .drain [()], .readFd, .delete, .release, .again] s ∧
      s.Quiet ∧ s.Balanced ∧ ∀ p, p ∉ s.pollSet → p ∉ s.pendingRemove → s.adds p = s.releases p := by
  obtain ⟨s, hrun, hquiet⟩ : ∃ s : PollThread Unit, Steps (Next Spaced) (init fun _ => 1)
      [.openFd () 5, .startAdd () .onlyRead, .insert () .onlyRead 5, .watch () 5,
        .startRemove (), .erase (), .retire (), .closeFd () 5,
        .wait [], .drain [()], .readFd, .delete, .release, .again] s ∧ s.Quiet := by
    -- the Client is added
    apply Steps.reach_cons ⟨⟨rfl, by simp [init]⟩, trivial, rfl⟩
    apply Steps.reach_cons ⟨⟨Nat.one_pos, rfl, rfl⟩, trivial, rfl⟩
    apply Steps.reach_cons ⟨List.mem_cons_self, trivial, rfl⟩
    apply Steps.reach_cons ⟨List.mem_cons_self, trivial, rfl⟩
    -- and removed
    apply Steps.reach_cons ⟨trivial, trivial, rfl⟩
    apply Steps.reach_cons ⟨⟨List.mem_cons_self, not_adding rfl⟩, trivial, rfl⟩
    apply Steps.reach_cons ⟨List.mem_cons_self, Finset.notMem_empty _, rfl⟩
    apply Steps.reach_cons ⟨⟨rfl, Finset.notMem_erase _ _, not_adding rfl⟩, trivial, rfl⟩
    -- and the poll thread drains it
    apply Steps.reach_cons ⟨⟨rfl, by simp⟩, trivial, rfl⟩
    apply Steps.reach_cons ⟨⟨rfl, List.nodup_singleton _,
      fun _ => iff_of_true List.mem_cons_self (Finset.mem_insert_self _ _)⟩, trivial, rfl⟩
    apply Steps.reach_cons ⟨⟨_, _, rfl⟩, trivial, rfl⟩
    apply Steps.reach_cons ⟨⟨_, _, _, rfl⟩, trivial, rfl⟩
    apply Steps.reach_cons ⟨⟨_, _, rfl⟩, trivial, rfl⟩
    apply Steps.reach_cons ⟨rfl, trivial, rfl⟩
    exact Steps.reach_nil ⟨rfl, rfl⟩
  exact ⟨s, hrun, hquiet, references_balanced_of_spaced _ _ s hrun hquiet⟩

/-- A Client that reconnects and is closed again before the poll thread drains: two references were
    taken, and one is released. -/
theorem lost_reference :
    ¬ ∀ (others : Unit → Nat) (ops : List (PollOp Unit)) (s : PollThread Unit),
      Steps (Next fun _ _ => True) (init others) ops s → s.Quiet → s.Balanced := by
  intro hclaim
  obtain ⟨s, hrun, hquiet, hadds, hreleases, hset, hpending⟩ : ∃ s : PollThread Unit,
      Steps (Next fun _ _ => True) (init fun _ => 1)
        [.openFd () 5, .startAdd () .onlyRead, .insert () .onlyRead 5, .watch () 5,
          .startRemove (), .erase (), .retire (), .closeFd () 5,
          .openFd () 5, .startAdd () .onlyRead, .insert () .onlyRead 5, .watch () 5,
          .startRemove (), .erase (), .retire (), .closeFd () 5,
          .wait [], .drain [()], .readFd, .delete, .release, .again] s ∧
      s.Quiet ∧ s.adds () = 2 ∧ s.releases () = 1 ∧ s.pollSet = ∅ ∧ s.pendingRemove = ∅ := by
    apply Steps.reach_cons ⟨⟨rfl, by simp [init]⟩, trivial, rfl⟩
    apply Steps.reach_cons ⟨⟨Nat.one_pos, rfl, rfl⟩, trivial, rfl⟩
    apply Steps.reach_cons ⟨List.mem_cons_self, trivial, rfl⟩
    apply Steps.reach_cons ⟨List.mem_cons_self, trivial, rfl⟩
    apply Steps.reach_cons ⟨trivial, trivial, rfl⟩
    apply Steps.reach_cons ⟨⟨List.mem_cons_self, not_adding rfl⟩, trivial, rfl⟩
    apply Steps.reach_cons ⟨List.mem_cons_self, trivial, rfl⟩
    apply Steps.reach_cons ⟨⟨rfl, Finset.notMem_erase _ _, not_adding rfl⟩, trivial, rfl⟩
    -- the same number again
    have hclosed : ∀ fd', Function.update (Function.update (fun _ : Nat => none) 5 (some ())) 5 none
        fd' ≠ some () := by simp
    apply Steps.reach_cons ⟨⟨rfl, hclosed⟩, trivial, rfl⟩
    apply Steps.reach_cons ⟨⟨Nat.one_pos, rfl, rfl⟩, trivial, rfl⟩
    apply Steps.reach_cons ⟨List.mem_cons_self, trivial, rfl⟩
    apply Steps.reach_cons ⟨List.mem_cons_self, trivial, rfl⟩
    apply Steps.reach_cons ⟨trivial, trivial, rfl⟩
    apply Steps.reach_cons ⟨⟨List.mem_cons_self, not_adding rfl⟩, trivial, rfl⟩
    apply Steps.reach_cons ⟨List.mem_cons_self, trivial, rfl⟩
    apply Steps.reach_cons ⟨⟨rfl, Finset.notMem_erase _ _, not_adding rfl⟩, trivial, rfl⟩
    -- one place in `pending_remove_`
    apply Steps.reach_cons ⟨⟨rfl, by simp⟩, trivial, rfl⟩
    apply Steps.reach_cons ⟨⟨rfl, List.nodup_singleton _,
      fun _ => iff_of_true List.mem_cons_self (Finset.mem_insert_self _ _)⟩, trivial, rfl⟩
    apply Steps.reach_cons ⟨⟨_, _, rfl⟩, trivial, rfl⟩
    apply Steps.reach_cons ⟨⟨_, _, _, rfl⟩, trivial, rfl⟩
    apply Steps.reach_cons ⟨⟨_, _, rfl⟩, trivial, rfl⟩
    apply Steps.reach_cons ⟨rfl, trivial, rfl⟩
    exact Steps.reach_nil ⟨⟨rfl, rfl⟩, rfl, rfl, rfl, rfl⟩
  have hbalanced := hclaim _ _ s hrun hquiet ()
  rw [hadds, hreleases, hset, hpending] at hbalanced
  simp at hbalanced

end PollThread

end SimpleRpc.Rpc
