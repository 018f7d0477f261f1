import SimpleRpc.Rpc.PollThread

/-!
# Sockets and Events of a PollThread

What `epoll` knows about sockets, and what the poll thread finds in `evlist`.

## Main results

- `Wired.watch`, `Wired.erased`, `Wired.closeFd`, `Wired.openFd`: what is registered is open, and under
  its own number
- `Covered.mono`: what `epoll` or `evlist` knows is registered, whatever everybody else does
-/

namespace SimpleRpc.Rpc

open SimpleRpc.Lib SimpleRpc.Base

namespace PollThread

variable {π : Type} [DecidableEq π]

/-! ## The sockets, step by step -/

section Wired

variable {s : PollThread π} (hI : s.Wired)

include hI

/-- Two Pollables of `poll_set_` have different numbers. -/
theorem Wired.fd_inj {p q : π} (hp : p ∈ s.pollSet) (hq : q ∈ s.pollSet)
    (h : s.fd q = s.fd p) : q = p := by
  have hpo := (hI.set_owner p hp).1
  have hqo := (hI.set_owner q hq).1
  rw [h, hpo] at hqo
  exact (Option.some.inj hqo).symm

/-- There is one `add` of a Pollable at a time. -/
theorem Wired.alone {p : π} {call other : PollCall π} (hcall : call ∈ s.calls)
    (hadds : call.adds p = true) (hother : other ∈ s.calls.erase call) : other.adds p ≠ true := by
  have hcount : (s.calls.erase call).countP (PollCall.adds p) = 0 := by
    have hsingle := hI.single p
    rw [(List.perm_cons_erase hcall).countP_eq, List.countP_cons, if_pos hadds] at hsingle
    omega
  exact List.countP_eq_zero.mp hcount other hother

theorem Wired.startAdd {p : π} {mode : Mode} (howner : s.owner (s.fd p) = some p)
    (hunused : s.unused p = true) :
    ({ s with refCnt := Function.update s.refCnt p (s.refCnt p + 1)
              adds := Function.update s.adds p (s.adds p + 1)
              unused := Function.update s.unused p false
              calls := .adding p mode (s.fd p) :: s.calls } : PollThread π).Wired := by
  obtain ⟨hset, hcount, hepoll⟩ := hI.unused p hunused
  -- an entry of `epoll` under this number would belong to the owner, who was never added
  have hfree : s.epoll (s.fd p) = none := by
    cases h : s.epoll (s.fd p) with
    | none => rfl
    | some q =>
      obtain rfl : q = p := by simpa [howner] using (hI.epoll_owner _ _ h).symm
      exact absurd h (hepoll _)
  refine ⟨hI.owner_fd, hI.set_owner, hI.mode_set, ?_, ?_, ?_, ?_, hI.epoll_owner⟩
  · -- calls in front of their first part: the new one, for a number that nobody has registered
    intro q m fd h
    obtain h | h := List.mem_cons.mp h
    · cases h
      exact ⟨howner, hset, hfree⟩
    · exact hI.adding q m fd h
  · -- calls behind it: as before
    intro q fd h
    obtain h | h := List.mem_cons.mp h
    · cases h
    · exact hI.watching q fd h
  · -- no other call adds the Pollable
    intro q
    have hsingle := hI.single q
    by_cases hq : q = p
    · subst hq
      simp [PollCall.adds, hcount]
    · simpa [List.countP_cons, PollCall.adds, Ne.symm hq] using hsingle
  · -- it is not unused any more
    intro q h
    have hq : q ≠ p := by
      rintro rfl
      simp at h
    have hold : s.unused q = true := by simpa [hq] using h
    simpa [List.countP_cons, PollCall.adds, Ne.symm hq] using hI.unused q hold

/-- The critical section of `add` passes its two verifications. -/
theorem Wired.insert_verifies {p : π} {mode : Mode} {fd : Nat}
    (hcall : .adding p mode fd ∈ s.calls) : p ∉ s.pollSet ∧ s.mode fd = none := by
  obtain ⟨howner, hset, -⟩ := hI.adding p mode fd hcall
  refine ⟨hset, ?_⟩
  by_contra hmode
  obtain ⟨q, hq, hfd⟩ := hI.mode_set fd hmode
  have hqo := (hI.set_owner q hq).1
  rw [hfd, howner] at hqo
  cases hqo
  exact hset hq

theorem Wired.insert {p : π} {mode : Mode} {fd : Nat} (hcall : .adding p mode fd ∈ s.calls) :
    ((s.inserted p mode fd).become (.adding p mode fd) [.watching p fd]).Wired := by
  obtain ⟨howner, -, hepoll⟩ := hI.adding p mode fd hcall
  have hfd := hI.owner_fd fd p howner
  -- the other calls add other Pollables
  have hne : ∀ {other : PollCall π}, other ∈ s.calls.erase (.adding p mode fd) → other.adds p ≠ true :=
    fun h => hI.alone hcall (by simp [PollCall.adds]) h
  have hcount : ∀ q, ((s.inserted p mode fd).become (.adding p mode fd) [.watching p fd]).calls.countP
      (PollCall.adds q) = s.calls.countP (PollCall.adds q) :=
    fun q => countP_become_eq (s := s) hcall (by simp [PollCall.adds, List.countP_cons])
  constructor
  · exact hI.owner_fd
  · -- every registered Pollable owns its number, which is a key of `mode_`
    intro q hq
    change s.owner (s.fd q) = some q ∧ Function.update s.mode fd (some mode) (s.fd q) ≠ none
    obtain rfl | hq := Finset.mem_insert.mp hq
    · simp [hfd, howner]
    · obtain ⟨ho, hm⟩ := hI.set_owner q hq
      refine ⟨ho, ?_⟩
      by_cases h : s.fd q = fd
      · simp [h]
      · simpa [h] using hm
  · -- every key of `mode_` is the number of one
    intro fd' hm
    by_cases h : fd' = fd
    · exact ⟨p, Finset.mem_insert_self _ _, hfd.trans h.symm⟩
    · have hold : s.mode fd' ≠ none := by simpa [inserted, become, h] using hm
      obtain ⟨q, hq, hqfd⟩ := hI.mode_set fd' hold
      exact ⟨q, Finset.mem_insert_of_mem hq, hqfd⟩
  · -- calls in front of their first part
    intro q m fd' h
    obtain h | h := List.mem_cons.mp h
    · cases h
    · obtain ⟨ho, hset, he⟩ := hI.adding q m fd' (List.mem_of_mem_erase h)
      have hqp : q ≠ p := by simpa [PollCall.adds] using hne h
      exact ⟨ho, by simp [inserted, become, hqp, hset], he⟩
  · -- calls behind it, this one among them
    intro q fd' h
    obtain h | h := List.mem_cons.mp h
    · cases h
      exact ⟨howner, Finset.mem_insert_self _ _, hepoll⟩
    · obtain ⟨ho, hset, he⟩ := hI.watching q fd' (List.mem_of_mem_erase h)
      exact ⟨ho, Finset.mem_insert_of_mem hset, he⟩
  · -- the number of calls that add is the same
    intro q
    rw [hcount q]
    exact hI.single q
  · -- who was never added is not the one that is inserted
    intro q h
    obtain ⟨hset, hzero, he⟩ := hI.unused q h
    have hqp : q ≠ p := by
      rintro rfl
      exact List.countP_eq_zero.mp hzero _ hcall (by simp [PollCall.adds])
    exact ⟨by simp [inserted, become, hqp, hset], (hcount q).trans hzero, he⟩
  · exact hI.epoll_owner

theorem Wired.watch {p : π} {fd : Nat} (hcall : .watching p fd ∈ s.calls) :
    ({ s with epoll := Function.update s.epoll fd (some p) }.become (.watching p fd) []).Wired := by
  obtain ⟨howner, hset, -⟩ := hI.watching p fd hcall
  have hcount : ∀ q, (({ s with epoll := Function.update s.epoll fd (some p) }.become
      (.watching p fd) []).calls).countP (PollCall.adds q) ≤ s.calls.countP (PollCall.adds q) :=
    fun q => countP_become_le (s := s) hcall (by simp)
  -- the number of another `add` is another number
  have hother : ∀ {other : PollCall π} {q : π} {fd' : Nat},
      other ∈ s.calls.erase (.watching p fd) → other.adds q = true → s.owner fd' = some q →
      s.epoll fd' = none → Function.update s.epoll fd (some p) fd' = none := by
    intro other q fd' hmem hadds ho he
    have hqp : q ≠ p := by
      rintro rfl
      exact hI.alone hcall (by simp [PollCall.adds]) hmem hadds
    have hfd : fd' ≠ fd := by
      rintro rfl
      rw [howner] at ho
      exact hqp (Option.some.inj ho).symm
    simpa [hfd] using he
  refine ⟨hI.owner_fd, hI.set_owner, hI.mode_set, ?_, ?_, ?_, ?_, ?_⟩
  · -- the other calls find their numbers still free
    intro q m fd' h
    obtain ⟨ho, hs, he⟩ := hI.adding q m fd' (List.mem_of_mem_erase h)
    exact ⟨ho, hs, hother h (by simp [PollCall.adds]) ho he⟩
  · intro q fd' h
    obtain ⟨ho, hs, he⟩ := hI.watching q fd' (List.mem_of_mem_erase h)
    exact ⟨ho, hs, hother h (by simp [PollCall.adds]) ho he⟩
  · intro q
    exact (hcount q).trans (hI.single q)
  · -- who was never added is in no entry, also not in the new one
    intro q h
    obtain ⟨hs, hzero, he⟩ := hI.unused q h
    refine ⟨hs, Nat.le_zero.mp ((hcount q).trans hzero.le), ?_⟩
    intro fd'
    change Function.update s.epoll fd (some p) fd' ≠ some q
    by_cases hfd : fd' = fd
    · have hpq : p ≠ q := by
        rintro rfl
        exact hs hset
      simpa [hfd] using hpq
    · simpa [hfd] using he fd'
  · -- whom an entry names owns its number
    intro fd' q h
    by_cases hfd : fd' = fd
    · subst hfd
      obtain rfl : p = q := by simpa [become] using h
      exact howner
    · exact hI.epoll_owner fd' q (by simpa [become, hfd] using h)

/-- Calls that do not add come and go. -/
theorem Wired.of_calls {calls : List (PollCall π)}
    (hmem : ∀ call ∈ calls, ∀ p, call.adds p = true → call ∈ s.calls)
    (hcount : ∀ p, calls.countP (PollCall.adds p) = s.calls.countP (PollCall.adds p)) :
    ({ s with calls := calls } : PollThread π).Wired where
  owner_fd := hI.owner_fd
  set_owner := hI.set_owner
  mode_set := hI.mode_set
  adding p mode fd h := hI.adding p mode fd (hmem _ h p (by simp [PollCall.adds]))
  watching p fd h := hI.watching p fd (hmem _ h p (by simp [PollCall.adds]))
  single p := by
    change calls.countP (PollCall.adds p) ≤ 1
    rw [hcount p]
    exact hI.single p
  unused p h := by
    change p ∉ s.pollSet ∧ calls.countP (PollCall.adds p) = 0 ∧ _
    rw [hcount p]
    exact hI.unused p h
  epoll_owner := hI.epoll_owner

/-- A call that is no `add` goes on as one that is none, or returns. -/
theorem Wired.become {call : PollCall π} {next : List (PollCall π)}
    (hcall : call ∈ s.calls) (hidle : ∀ p, call.adds p = false)
    (hnext : ∀ other ∈ next, ∀ p, other.adds p = false) : (s.become call next).Wired := by
  apply hI.of_calls
  · intro other hmem q hadds
    obtain hnew | hold := of_mem_become (s := s) hmem
    · simp [hnext other hnew q] at hadds
    · exact hold
  · intro q
    apply countP_become_eq (s := s) hcall
    rw [hidle q, List.countP_eq_zero.mpr (fun other hmem => by simp [hnext other hmem q])]
    rfl

/-- `poll_set_.erase(poll); mode_.erase(poll->fd());`, when no `add` is in progress. -/
theorem Wired.erased {p : π} (hset : p ∈ s.pollSet) (hidle : ¬ s.Adding p) :
    (s.erased p).Wired := by
  constructor
  · exact hI.owner_fd
  · -- who is left owns another number
    intro q hq
    obtain ⟨hqp, hq⟩ := Finset.mem_erase.mp hq
    obtain ⟨ho, hm⟩ := hI.set_owner q hq
    have hfd : s.fd q ≠ s.fd p := fun h => hqp (hI.fd_inj hset hq h)
    exact ⟨ho, by simpa [PollThread.erased, hfd] using hm⟩
  · -- and the keys that are left are the numbers of those
    intro fd hm
    have hfd : fd ≠ s.fd p := by
      rintro rfl
      simp [PollThread.erased] at hm
    have hold : s.mode fd ≠ none := by simpa [PollThread.erased, hfd] using hm
    obtain ⟨q, hq, hqfd⟩ := hI.mode_set fd hold
    have hqp : q ≠ p := by
      rintro rfl
      exact hfd hqfd.symm
    exact ⟨q, Finset.mem_erase.mpr ⟨hqp, hq⟩, hqfd⟩
  · -- calls in front of their first part
    intro q m fd h
    obtain ⟨ho, hs, he⟩ := hI.adding q m fd h
    exact ⟨ho, fun hmem => hs (Finset.mem_of_mem_erase hmem), he⟩
  · intro q fd h
    obtain ⟨ho, hs, he⟩ := hI.watching q fd h
    -- the one that is taken out is not between the two parts of an `add`
    have hqp : q ≠ p := by
      rintro rfl
      exact hidle ⟨_, h, .inr ⟨fd, rfl⟩⟩
    exact ⟨ho, Finset.mem_erase.mpr ⟨hqp, hs⟩, he⟩
  · exact hI.single
  · intro q h
    obtain ⟨hs, hzero, he⟩ := hI.unused q h
    exact ⟨fun hmem => hs (Finset.mem_of_mem_erase hmem), hzero, he⟩
  · exact hI.epoll_owner

/-- A Pollable without an open socket is not being added. -/
theorem Wired.countP_adds_of_closed {p : π} (hclosed : ∀ fd, s.owner fd ≠ some p) :
    s.calls.countP (PollCall.adds p) = 0 := by
  apply List.countP_eq_zero.mpr
  intro call hmem hadds
  cases call with
  | adding r m fd =>
    obtain rfl : r = p := by simpa [PollCall.adds] using hadds
    exact hclosed fd (hI.adding r m fd hmem).1
  | watching r fd =>
    obtain rfl : r = p := by simpa [PollCall.adds] using hadds
    exact hclosed fd (hI.watching r fd hmem).1
  | removing r => simp [PollCall.adds] at hadds
  | retiring r => simp [PollCall.adds] at hadds

/-- The kernel gives out a number that is not open. -/
theorem Wired.openFd {p : π} {fd : Nat} (hfree : s.owner fd = none)
    (hclosed : ∀ fd', s.owner fd' ≠ some p) :
    ({ s with owner := Function.update s.owner fd (some p), fd := Function.update s.fd p fd
              unused := Function.update s.unused p true } : PollThread π).Wired := by
  -- what belongs to another Pollable is another number
  have hkeep : ∀ {fd' : Nat} {q : π}, s.owner fd' = some q →
      q ≠ p ∧ Function.update s.owner fd (some p) fd' = some q := by
    intro fd' q h
    have hqp : q ≠ p := by
      rintro rfl
      exact hclosed fd' h
    have hfd : fd' ≠ fd := by
      rintro rfl
      simp [hfree] at h
    exact ⟨hqp, by simpa [hfd] using h⟩
  constructor
  · -- an owner knows its number, also the new one
    intro fd' q h
    by_cases hfd : fd' = fd
    · subst hfd
      obtain rfl : p = q := by simpa using h
      simp
    · have hold : s.owner fd' = some q := by simpa [hfd] using h
      simpa [(hkeep hold).1] using hI.owner_fd fd' q hold
  · -- the registered ones keep their keys
    intro q hq
    obtain ⟨ho, hm⟩ := hI.set_owner q hq
    obtain ⟨hqp, hnew⟩ := hkeep ho
    simpa [hqp] using And.intro hnew hm
  · intro fd' hm
    obtain ⟨q, hq, hqfd⟩ := hI.mode_set fd' hm
    have hqp := (hkeep (hI.set_owner q hq).1).1
    exact ⟨q, hq, by simpa [hqp] using hqfd⟩
  · intro q m fd' h
    obtain ⟨ho, hs, he⟩ := hI.adding q m fd' h
    exact ⟨(hkeep ho).2, hs, he⟩
  · intro q fd' h
    obtain ⟨ho, hs, he⟩ := hI.watching q fd' h
    exact ⟨(hkeep ho).2, hs, he⟩
  · exact hI.single
  · -- the owner of the new number was not added yet
    intro q h
    by_cases hqp : q = p
    · -- nothing is left of its last socket
      subst hqp
      refine ⟨fun hq => hclosed _ (hI.set_owner q hq).1, hI.countP_adds_of_closed hclosed, ?_⟩
      intro fd' he
      exact hclosed fd' (hI.epoll_owner fd' q he)
    · exact hI.unused q (by simpa [hqp] using h)
  · intro fd' q h
    exact (hkeep (hI.epoll_owner fd' q h)).2

/-- The owner closes a socket that is not registered, and the kernel forgets the number. -/
theorem Wired.closeFd {p : π} {fd : Nat} (howner : s.owner fd = some p) (hset : p ∉ s.pollSet)
    (hidle : ¬ s.Adding p) :
    ({ s with owner := Function.update s.owner fd none
              epoll := Function.update s.epoll fd none } : PollThread π).Wired := by
  -- the other Pollables keep their sockets
  have hkeep : ∀ {fd' : Nat} {q : π}, s.owner fd' = some q → q ≠ p →
      Function.update s.owner fd none fd' = some q := by
    intro fd' q h hqp
    have hfd : fd' ≠ fd := by
      rintro rfl
      rw [howner] at h
      exact hqp (Option.some.inj h).symm
    simpa [hfd] using h
  constructor
  · intro fd' q h
    exact hI.owner_fd fd' q (of_update_none h).1
  · -- the socket of a registered Pollable is another one
    intro q hq
    obtain ⟨ho, hm⟩ := hI.set_owner q hq
    refine ⟨hkeep ho ?_, hm⟩
    rintro rfl
    exact hset hq
  · exact hI.mode_set
  · -- as is the socket of one that is being added
    intro q m fd' h
    obtain ⟨ho, hs, he⟩ := hI.adding q m fd' h
    refine ⟨hkeep ho ?_, hs, update_none fd he⟩
    rintro rfl
    exact hidle ⟨_, h, .inl ⟨m, fd', rfl⟩⟩
  · intro q fd' h
    obtain ⟨ho, hs, he⟩ := hI.watching q fd' h
    refine ⟨hkeep ho ?_, hs, update_none fd he⟩
    rintro rfl
    exact hset hs
  · exact hI.single
  · intro q h
    obtain ⟨hs, hzero, he⟩ := hI.unused q h
    exact ⟨hs, hzero, fun fd' h' => he fd' (of_update_none h').1⟩
  · -- `epoll` has forgotten the number
    intro fd' q h
    obtain ⟨he, hfd⟩ := of_update_none h
    have ho := hI.epoll_owner fd' q he
    simpa [hfd] using ho

/-- A number is taken out of `epoll`. -/
theorem Wired.delete (fd : Nat) :
    ({ s with epoll := Function.update s.epoll fd none } : PollThread π).Wired where
  owner_fd := hI.owner_fd
  set_owner := hI.set_owner
  mode_set := hI.mode_set
  adding p mode fd' h :=
    have ⟨ho, hs, he⟩ := hI.adding p mode fd' h
    ⟨ho, hs, update_none fd he⟩
  watching p fd' h :=
    have ⟨ho, hs, he⟩ := hI.watching p fd' h
    ⟨ho, hs, update_none fd he⟩
  single := hI.single
  unused p h :=
    have ⟨hs, hzero, he⟩ := hI.unused p h
    ⟨hs, hzero, fun fd' h' => he fd' (of_update_none h').1⟩
  epoll_owner fd' p h := hI.epoll_owner fd' p (of_update_none h).1

end Wired

/-! ## The events, step by step -/

section Covered

variable {s : PollThread π} (hI : s.Covered)

include hI

omit [DecidableEq π] in
/-- Everybody else's steps: the Pollables stay registered, and `epoll` learns none that is not. -/
theorem Covered.mono {s' : PollThread π} (hloop : s'.loop = s.loop)
    (hreg : ∀ p, s.Registered p → s'.Registered p)
    (hepoll : ∀ fd p, s'.epoll fd = some p → s.epoll fd = some p ∨ s'.Registered p) :
    s'.Covered where
  known fd p h := by
    rw [hloop]
    obtain hold | hnew := hepoll fd p h
    · exact (hI.known fd p hold).imp_left (hreg p)
    · exact .inl hnew
  deleting p fd polls hl fd' h := by
    obtain hold | hnew := hepoll fd' p h
    · exact (hI.deleting p fd polls (hloop ▸ hl) fd' hold).imp_right (hreg p)
    · exact .inr hnew
  events p h := hreg p (hI.events p (hloop ▸ h))

omit [DecidableEq π] in
/-- Outside of the drain, what `epoll` knows is registered. -/
theorem Covered.wait {events : List π} (hpolling : s.loop = .polling)
    (hevents : ∀ p ∈ events, ∃ fd, s.epoll fd = some p) :
    ({ s with loop := .walking events } : PollThread π).Covered := by
  have hknown : ∀ fd p, s.epoll fd = some p → s.Registered p := by
    intro fd p h
    simpa [hpolling, LoopAt.undeleted] using hI.known fd p h
  refine ⟨fun fd p h => .inl (hknown fd p h), fun _ _ _ hl => (by cases hl), ?_⟩
  intro p h
  obtain ⟨fd, he⟩ := hevents p h
  exact hknown fd p he

omit [DecidableEq π] in
/-- The poll thread moves on, with no new events and nothing less to delete. -/
theorem Covered.advance {loop : LoopAt π} (hundeleted : ∀ p ∈ s.loop.undeleted, p ∈ loop.undeleted)
    (hdeleting : ∀ p fd polls, loop ≠ .deleting p fd polls)
    (hevents : ∀ p ∈ loop.events, p ∈ s.loop.events) :
    ({ s with loop := loop } : PollThread π).Covered where
  known fd p h := (hI.known fd p h).imp_right (hundeleted p)
  deleting p fd polls hl := absurd hl (hdeleting p fd polls)
  events p h := hI.events p (hevents p h)

omit [DecidableEq π] in
theorem Covered.drain {polls : List π} (hwalking : s.loop = .walking [])
    (hpolls : ∀ p, p ∈ polls ↔ p ∈ s.pendingRemove) :
    ({ s with pendingRemove := ∅, loop := .draining polls } : PollThread π).Covered := by
  refine ⟨?_, fun _ _ _ hl => (by cases hl), by simp [LoopAt.events]⟩
  intro fd p h
  obtain (hset | hpending | hretiring) | hundeleted := hI.known fd p h
  · exact .inl (.inl hset)
  · exact .inr ((hpolls p).mpr hpending)
  · exact .inl (.inr (.inr hretiring))
  · simp [hwalking, LoopAt.undeleted] at hundeleted

theorem Covered.readFd (hW : s.Wired) {p : π} {polls : List π}
    (hdraining : s.loop = .draining (p :: polls)) :
    ({ s with loop := .deleting p (s.fd p) polls } : PollThread π).Covered := by
  refine ⟨?_, ?_, by simp [LoopAt.events]⟩
  · intro fd q h
    have hknown := hI.known fd q h
    rwa [hdraining] at hknown
  · intro q fd polls' hl fd' h
    cases hl
    exact .inl (hW.owner_fd fd' p (hW.epoll_owner fd' p h)).symm

/-- The number is not deleted when `mode_` has it, and it is then the one of a registered Pollable
    after all. -/
theorem Covered.delete (hW : s.Wired) {p : π} {fd : Nat} {polls : List π}
    (hdeleting : s.loop = .deleting p fd polls) :
    (if s.mode fd = none then
      { s with epoll := Function.update s.epoll fd none, loop := .releasing p polls }
    else { s with loop := .releasing p polls } : PollThread π).Covered := by
  have hknown : ∀ fd' q, s.epoll fd' = some q → s.Registered q ∨ q = p ∨ q ∈ polls := by
    intro fd' q h
    simpa [hdeleting, LoopAt.undeleted] using hI.known fd' q h
  have hp := hI.deleting p fd polls hdeleting
  split
  case isTrue hmode =>
    refine ⟨?_, fun _ _ _ hl => (by cases hl), by simp [LoopAt.events]⟩
    -- who is left in `epoll` is there under another number
    intro fd' q h
    obtain ⟨hold, hfd⟩ := of_update_none h
    obtain hreg | rfl | hmem := hknown fd' q hold
    · exact .inl hreg
    · exact .inl ((hp fd' hold).resolve_left hfd)
    · exact .inr hmem
  case isFalse hmode =>
    refine ⟨?_, fun _ _ _ hl => (by cases hl), by simp [LoopAt.events]⟩
    intro fd' q h
    obtain hreg | rfl | hmem := hknown fd' q h
    · exact .inl hreg
    · obtain rfl | hreg := hp fd' h
      · -- whoever uses the number now is in `poll_set_`
        obtain ⟨r, hr, hrfd⟩ := hW.mode_set fd' hmode
        have howner := (hW.set_owner r hr).1
        rw [hrfd, hW.epoll_owner fd' q h] at howner
        cases howner
        exact .inl (.inl hr)
      · exact .inl hreg
    · exact .inr hmem

end Covered

end PollThread

end SimpleRpc.Rpc
