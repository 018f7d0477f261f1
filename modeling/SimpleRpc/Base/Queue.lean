import Mathlib.Data.List.Nodup
import SimpleRpc.Base.ThreadPool
import SimpleRpc.Lib.Monitor

/-!
# The Thread Safe Queue (`base/threading.h`)

`base::Queue` is a `std::deque` with a mutex and a condition variable. `push` signals that it is not
empty; `pop` waits for that, and looks again when it is woken.

## Layers

- **Code**: `Queue.monitor`, one statement between `Pthread_mutex_lock` and `Pthread_mutex_unlock`
  an action
- **Abstract**: `Queue.spec`, a queue whose operations happen at once

## Main results

- `Queue.linearizable`: in every interleaving the operations happen at once, in some order between
  their calls and their returns
- `Queue.no_lost_wakeup`: while a thread waits, as many threads are on their way to take something as
  there are elements
- `Queue.front_defined`: `front` and `pop_front` are never called on an empty deque
- `ThreadPool.queue_step`: the pool uses its queues as `Queue.spec` says

## Model

- `try_pop` gives `none` where the code returns `false` and leaves `*t` alone
- `T` is any type with `!=`
-/

namespace SimpleRpc.Base

open SimpleRpc.Lib

namespace Queue

/-- The calls. -/
inductive Op (α : Type) where
  | push (e : α)
  | tryPop
  | tryPopButIgnore (ignore : α)
  | pop

/-- What they return. -/
inductive Ret (α : Type) where
  | pushed
  | tried (t : Option α)
  | popped (e : α)

/-! ## The code -/

/-- The statements that are executed with the mutex. -/
inductive Point (α : Type) where
  /-- `q_.push_back(e)` -/
  | pushBack (e : α)
  /-- `Pthread_cond_signal(&not_empty_)` -/
  | notify
  | unlockPush
  /-- `if (!q_.empty())` -/
  | tryTest
  /-- `if (!q_.empty() && q_.front() != ignore)` -/
  | tryTestBut (ignore : α)
  /-- `*t = q_.front()` -/
  | tryFront
  /-- `q_.pop_front()` -/
  | tryPopFront (t : α)
  | unlockTry (ret : Option α)
  /-- `while (q_.empty())` -/
  | popTest
  /-- `T e = q_.front()` -/
  | popFront
  /-- `q_.pop_front()` -/
  | popPopFront (e : α)
  | unlockPop (e : α)

variable {α : Type}

/-- The first statement behind `Pthread_mutex_lock`. -/
def start : Op α → Point α
  | .push e => .pushBack e
  | .tryPop => .tryTest
  | .tryPopButIgnore ignore => .tryTestBut ignore
  | .pop => .popTest

variable [BEq α]

/-- What a statement does; `front` and `pop_front` are undefined on an empty deque. -/
def act : Point α → List α → Monitor.Act (Point α) (List α) (Ret α)
  | .pushBack e, q => .goto (q ++ [e]) .notify
  | .notify, _ => .signal .unlockPush
  | .unlockPush, _ => .leave .pushed
  | .tryTest, [] => .goto [] (.unlockTry none)
  | .tryTest, e :: q => .goto (e :: q) .tryFront
  | .tryTestBut _, [] => .goto [] (.unlockTry none)
  | .tryTestBut ignore, e :: q =>
    if e != ignore then .goto (e :: q) .tryFront else .goto (e :: q) (.unlockTry none)
  | .tryFront, [] => .crash
  | .tryFront, e :: q => .goto (e :: q) (.tryPopFront e)
  | .tryPopFront _, [] => .crash
  | .tryPopFront t, _ :: q => .goto q (.unlockTry (some t))
  | .unlockTry ret, _ => .leave (.tried ret)
  | .popTest, [] => .wait .popTest
  | .popTest, e :: q => .goto (e :: q) .popFront
  | .popFront, [] => .crash
  | .popFront, e :: q => .goto (e :: q) (.popPopFront e)
  | .popPopFront _, [] => .crash
  | .popPopFront e, _ :: q => .goto q (.unlockPop e)
  | .unlockPop e, _ => .leave (.popped e)

/-- `class Queue<T>` -/
def monitor : Monitor (Op α) (Point α) (List α) (Ret α) := ⟨start, act⟩

/-! ## The purpose -/

/-- A queue whose operations happen at once. `pop` waits for an element; `try_pop_but_ignore` leaves
    the element `ignore` where it is. -/
def spec : Object (Op α) (List α) (Ret α)
  | .push e, q => some (.pushed, q ++ [e])
  | .tryPop, q => some (.tried q.head?, q.tail)
  | .tryPopButIgnore ignore, q =>
    if q.head?.any (· != ignore) then some (.tried q.head?, q.tail) else some (.tried none, q)
  | .pop, [] => none
  | .pop, e :: q => some (.popped e, q)

/-- What holds at a statement, if the operation `o` has found the elements `q₀`. -/
def Holds (o : Op α) (q₀ : List α) : Point α → List α → Prop
  | .pushBack e, q => o = .push e ∧ q = q₀
  | .notify, q | .unlockPush, q => ∃ e, o = .push e ∧ q = q₀ ++ [e]
  | .tryTest, q => o = .tryPop ∧ q = q₀
  | .tryTestBut ignore, q => o = .tryPopButIgnore ignore ∧ q = q₀
  | .tryFront, q => q = q₀ ∧ ∃ e rest, q = e :: rest ∧ spec o q = some (.tried (some e), rest)
  | .tryPopFront e, q => q = q₀ ∧ ∃ rest, q = e :: rest ∧ spec o q = some (.tried (some e), rest)
  | .unlockTry ret, q => spec o q₀ = some (.tried ret, q)
  | .popTest, q => o = .pop ∧ q = q₀
  | .popFront, q => o = .pop ∧ q = q₀ ∧ q ≠ []
  | .popPopFront e, q => o = .pop ∧ q = q₀ ∧ ∃ rest, q = e :: rest
  | .unlockPop e, q => o = .pop ∧ q₀ = e :: q

theorem holds_start (o : Op α) (q : List α) : Holds o q (start o) q := by
  cases o with
  | push e => exact ⟨rfl, rfl⟩
  | tryPop => exact ⟨rfl, rfl⟩
  | tryPopButIgnore ignore => exact ⟨rfl, rfl⟩
  | pop => exact ⟨rfl, rfl⟩

theorem holds_goto {o : Op α} {q₀ q q' : List α} {p p' : Point α} (h : Holds o q₀ p q)
    (hact : act p q = .goto q' p') : Holds o q₀ p' q' := by
  cases p with
  | pushBack e =>
    cases hact
    -- `push_back`
    obtain ⟨rfl, rfl⟩ := h
    exact ⟨e, rfl, rfl⟩
  | tryTest =>
    -- the deque is tested
    obtain ⟨rfl, rfl⟩ := h
    cases q with
    | nil => cases hact; rfl
    | cons e q => cases hact; exact ⟨rfl, e, q, rfl, rfl⟩
  | tryTestBut ignore =>
    obtain ⟨rfl, rfl⟩ := h
    cases q with
    | nil => cases hact; rfl
    | cons e q =>
      -- the head is taken unless it is `ignore`
      rw [act] at hact
      split at hact
      · rename_i hne
        cases hact
        exact ⟨rfl, e, q, rfl, if_pos hne⟩
      · rename_i heq
        cases hact
        exact if_neg heq
  | tryFront =>
    obtain ⟨rfl, e, rest, rfl, hspec⟩ := h
    cases hact
    exact ⟨rfl, rest, rfl, hspec⟩
  | tryPopFront t =>
    obtain ⟨rfl, rest, rfl, hspec⟩ := h
    cases hact
    exact hspec
  | popTest =>
    obtain ⟨rfl, rfl⟩ := h
    -- `pop` waits while the deque is empty
    cases q with
    | nil => cases hact
    | cons e q => cases hact; exact ⟨rfl, rfl, List.cons_ne_nil e q⟩
  | popFront =>
    obtain ⟨rfl, rfl, hne⟩ := h
    -- the deque was not empty, and nobody else has touched it
    cases q with
    | nil => exact absurd rfl hne
    | cons e q => cases hact; exact ⟨rfl, rfl, q, rfl⟩
  | popPopFront e =>
    obtain ⟨rfl, rfl, rest, rfl⟩ := h
    cases hact
    exact ⟨rfl, rfl⟩
  | notify => cases hact
  | unlockPush => cases hact
  | unlockTry ret => cases hact
  | unlockPop e => cases hact

theorem act_eq_signal {p p' : Point α} {q : List α} (h : act p q = .signal p') :
    p = .notify ∧ p' = .unlockPush := by
  fun_cases act p q
  all_goals simp_all [act]

theorem act_eq_wait {p p' : Point α} {q : List α} (h : act p q = .wait p') :
    p = .popTest ∧ q = [] ∧ p' = .popTest := by
  fun_cases act p q
  all_goals simp_all [act]

theorem act_eq_crash {p : Point α} {q : List α} (h : act p q = .crash) :
    q = [] ∧ (p = .tryFront ∨ (∃ t, p = .tryPopFront t) ∨ p = .popFront ∨ ∃ e, p = .popPopFront e) := by
  fun_cases act p q
  all_goals simp_all [act]

theorem act_eq_leave {p : Point α} {q : List α} {r : Ret α} (h : act p q = .leave r) :
    p = .unlockPush ∧ r = .pushed ∨ (∃ ret, p = .unlockTry ret ∧ r = .tried ret) ∨
      ∃ e, p = .unlockPop e ∧ r = .popped e := by
  fun_cases act p q
  all_goals simp_all [act]

/-- The elements that `front` and `pop_front` need were found by the test before. -/
theorem Holds.safe {o : Op α} {q₀ q : List α} {p : Point α} (h : Holds o q₀ p q) :
    act p q ≠ .crash := by
  intro hact
  obtain ⟨rfl, hp⟩ := act_eq_crash hact
  obtain rfl | ⟨t, rfl⟩ | rfl | ⟨e, rfl⟩ := hp
  · obtain ⟨-, e, rest, hcons, -⟩ := h
    cases hcons
  · obtain ⟨-, rest, hcons, -⟩ := h
    cases hcons
  · exact h.2.2 rfl
  · obtain ⟨-, -, rest, hcons⟩ := h
    cases hcons

/-- The outline of the operations. -/
def outline : (monitor : Monitor (Op α) (Point α) (List α) (Ret α)).Outline spec where
  holds := Holds
  start := holds_start
  goto := holds_goto
  signal := by
    intro o q₀ p q p' h hact
    obtain ⟨rfl, rfl⟩ := act_eq_signal hact
    exact h
  wait := by
    intro o q₀ p q p' h hact
    obtain ⟨rfl, rfl, rfl⟩ := act_eq_wait hact
    obtain ⟨rfl, rfl⟩ := h
    exact ⟨rfl, rfl, fun _ => ⟨rfl, rfl⟩⟩
  leave := by
    intro o q₀ p q r h hact
    obtain ⟨rfl, rfl⟩ | ⟨ret, rfl, rfl⟩ | ⟨e, rfl, rfl⟩ := act_eq_leave hact
    · obtain ⟨e, rfl, rfl⟩ := h
      rfl
    · exact h
    · obtain ⟨rfl, rfl⟩ := h
      rfl
  safe := Holds.safe

/-- **Linearizability**: for every interleaving of any calls, with any spurious wakeups, there is a
    run with the same calls and returns in which each operation happens at once. -/
theorem linearizable {τ : Type} [DecidableEq τ] {es : List (Option (Visible τ (Op α) (Ret α)))}
    {c : Monitor.Config τ (Point α) (List α) (Ret α)}
    (hrun : Steps (Monitor.Step monitor) (Monitor.Config.init []) es c) :
    ∃ es' a, Steps (Object.Step spec) (Object.Config.init []) es' a ∧
      es'.reduceOption = es.reduceOption :=
  outline.refines hrun

/-- `front` and `pop_front` are never called on an empty deque. -/
theorem front_defined {τ : Type} [DecidableEq τ] {es : List (Option (Visible τ (Op α) (Ret α)))}
    {c : Monitor.Config τ (Point α) (List α) (Ret α)}
    (hrun : Steps (Monitor.Step monitor) (Monitor.Config.init []) es c) {t : τ} {p : Point α}
    (hplace : c.place t = .inside p) : act p c.data ≠ .crash :=
  outline.never_crashes hrun hplace

/-! ## Wakeups -/

section

variable {τ : Type} [DecidableEq τ]

/-- The thread will take an element, if there is one when it looks. -/
def OnItsWay : Monitor.Place (Point α) (Ret α) → Prop
  | .entering .popTest | .inside .popTest | .inside .popFront | .inside (.popPopFront _) => True
  | _ => False

/-- For every element a thread is on its way; one more may have been pushed and not signalled. -/
def Enough (c : Monitor.Config τ (Point α) (List α) (Ret α)) : Prop :=
  ∃ ts : List τ, ts.Nodup ∧ (∀ t ∈ ts, OnItsWay (c.place t)) ∧
    (c.data.length ≤ ts.length ∨
      c.data.length ≤ ts.length + 1 ∧ ∃ t, c.place t = .inside .notify)

/-- Threads wait in `pop` only, and then enough others are on their way. -/
structure Attended (c : Monitor.Config τ (Point α) (List α) (Ret α)) : Prop where
  exclusive : c.Exclusive
  waiting : ∀ t p, c.place t = .waiting p → p = .popTest
  enough : (∃ t p, c.place t = .waiting p) → Enough c

variable {c : Monitor.Config τ (Point α) (List α) (Ret α)}

omit [BEq α] in
/-- A thread moves, and is still on its way if it was. -/
theorem Enough.move (h : Enough c) {t : τ} {place : Monitor.Place (Point α) (Ret α)}
    (hway : OnItsWay (c.place t) → OnItsWay place) (hnotify : c.place t ≠ .inside .notify) :
    Enough (c.move t place) := by
  obtain ⟨ts, hnodup, hts, hle⟩ := h
  refine ⟨ts, hnodup, fun u hu => ?_, hle.imp_right fun ⟨hle, u, hplace⟩ => ⟨hle, u, ?_⟩⟩
  · by_cases hut : u = t
    · rw [hut, Monitor.Config.move_place_self]
      exact hway (hut ▸ hts u hu)
    · rw [Monitor.Config.move_place_of_ne c place hut]
      exact hts u hu
  · have hut : u ≠ t := by
      rintro rfl
      exact hnotify hplace
    rw [Monitor.Config.move_place_of_ne c place hut]
    exact hplace

omit [BEq α] in
/-- Whoever waits after a move has waited before, or has just begun. -/
theorem waiting_of_move {t : τ} {place : Monitor.Place (Point α) (Ret α)}
    (hout : ∀ p, place ≠ .waiting p) {u : τ} {p : Point α}
    (h : (c.move t place).place u = .waiting p) : c.place u = .waiting p := by
  by_cases hut : u = t
  · rw [hut, Monitor.Config.move_place_self] at h
    exact absurd h (hout p)
  · rwa [Monitor.Config.move_place_of_ne c place hut] at h

omit [BEq α] in
theorem Attended.move (h : Attended c) {t : τ} {place : Monitor.Place (Point α) (Ret α)}
    (hin : ∀ p, place ≠ .inside p) (hout : ∀ p, place ≠ .waiting p)
    (hway : OnItsWay (c.place t) → OnItsWay place) (hnotify : c.place t ≠ .inside .notify) :
    Attended (c.move t place) where
  exclusive := h.exclusive.move t hin
  waiting := fun u p hplace => h.waiting u p (waiting_of_move hout hplace)
  enough := fun ⟨u, p, hplace⟩ => (h.enough ⟨u, p, waiting_of_move hout hplace⟩).move hway hnotify

omit [BEq α] [DecidableEq τ] in
/-- Nobody else is at the signal while `t` is the owner. -/
theorem Enough.of_owner (h : Enough c) (hexclusive : c.Exclusive) {t : τ}
    (howner : c.owner = some t) (hnot : c.place t ≠ .inside .notify) :
    ∃ ts : List τ, ts.Nodup ∧ (∀ u ∈ ts, OnItsWay (c.place u)) ∧ c.data.length ≤ ts.length := by
  obtain ⟨ts, hnodup, hts, hle | ⟨-, u, hu⟩⟩ := h
  · exact ⟨ts, hnodup, hts, hle⟩
  · have hut := hexclusive u _ hu
    rw [howner] at hut
    cases hut
    exact absurd hu hnot

/-- A statement puts something into the deque, takes something a thread was on its way for, or leaves
    who is on its way as it is. -/
theorem act_eq_goto {p p' : Point α} {q q' : List α} (h : act p q = .goto q' p') :
    (∃ e, p = .pushBack e ∧ q' = q ++ [e] ∧ p' = .notify) ∨
      (∃ e e', p = .popPopFront e ∧ q = e' :: q' ∧ p' = .unlockPop e) ∨
      q'.length ≤ q.length ∧ p ≠ .notify ∧
        (OnItsWay (.inside p : Monitor.Place (Point α) (Ret α)) →
          OnItsWay (.inside p' : Monitor.Place (Point α) (Ret α))) := by
  fun_cases act p q
  all_goals simp_all [act, OnItsWay]
  all_goals grind

theorem Attended.goto (h : Attended c) {t : τ} {p p' : Point α} {q : List α}
    (howner : c.owner = some t) (hplace : c.place t = .inside p)
    (hact : act p c.data = .goto q p') (hexclusive : ((c.move t (.inside p')).store q).Exclusive) :
    Attended ((c.move t (.inside p')).store q) := by
  have hstays : ∀ {u r}, (c.move t (.inside p')).place u = .waiting r → c.place u = .waiting r := by
    intro u r hr
    have hinside : ∀ r, (.inside p' : Monitor.Place (Point α) (Ret α)) ≠ .waiting r := by simp
    exact waiting_of_move hinside hr
  refine ⟨hexclusive, fun u r hr => h.waiting u r (hstays hr), ?_⟩
  rintro ⟨u, r, hr⟩
  have henough := h.enough ⟨u, r, hstays hr⟩
  obtain ⟨e, rfl, rfl, rfl⟩ | ⟨e, e', rfl, hdata, rfl⟩ | ⟨hle, hne, hway⟩ := act_eq_goto hact
  · -- one more element, and the signal for it comes next
    obtain ⟨ts, hnodup, hts, hlen⟩ := henough.of_owner h.exclusive howner (by rw [hplace]; nofun)
    refine ⟨ts, hnodup, fun v hv => ?_, .inr ⟨?_, t, Monitor.Config.move_place_self ..⟩⟩
    · -- the owner of the mutex is not on its way
      have hvt : v ≠ t := by
        rintro rfl
        have hway := hts v hv
        rw [hplace] at hway
        exact hway
      rw [Monitor.Config.store_place, Monitor.Config.move_place_of_ne c _ hvt]
      exact hts v hv
    · rw [Monitor.Config.store_data, List.length_append, List.length_singleton]
      omega
  · -- one element less, and `t` has it
    obtain ⟨ts, hnodup, hts, hlen⟩ := henough.of_owner h.exclusive howner (by rw [hplace]; nofun)
    refine ⟨ts.erase t, hnodup.erase t, fun v hv => ?_, .inl ?_⟩
    · obtain ⟨hvt, hv⟩ := (hnodup.mem_erase_iff).mp hv
      rw [Monitor.Config.store_place, Monitor.Config.move_place_of_ne c _ hvt]
      exact hts v hv
    · have herase : ts.length - 1 ≤ (ts.erase t).length := List.le_length_erase
      rw [hdata, List.length_cons] at hlen
      rw [Monitor.Config.store_data]
      omega
  · -- the deque did not grow
    have hmoved : Enough (c.move t (.inside p')) :=
      henough.move (by rw [hplace]; exact hway) (by rw [hplace]; simpa using hne)
    obtain ⟨ts, hnodup, hts, hle'⟩ := hmoved
    exact ⟨ts, hnodup, hts, hle'.imp (Nat.le_trans hle) fun h => ⟨Nat.le_trans hle h.1, h.2⟩⟩

omit [BEq α] in
/-- The signal that was missing wakes one more. -/
theorem Attended.signal (h : Attended c) {t : τ} (howner : c.owner = some t)
    (hplace : c.place t = .inside .notify) {ts : List τ}
    (hwaiting : ∀ u ∈ ts, ∃ p, c.place u = .waiting p)
    (hsome : (∃ u p, c.place u = .waiting p) → ts ≠ [])
    (hexclusive : ((c.move t (.inside .unlockPush)).wake ts).Exclusive) :
    Attended ((c.move t (.inside .unlockPush)).wake ts) := by
  -- whoever still waits was waiting before
  have hstays : ∀ {u r}, ((c.move t (.inside .unlockPush)).wake ts).place u = .waiting r →
      c.place u = .waiting r := by
    intro u r hr
    rw [Monitor.Config.wake_place] at hr
    split at hr
    · cases hw : (c.move t (.inside .unlockPush)).place u with
      | _ => simp [hw, Monitor.Place.woken] at hr
    · exact waiting_of_move (by simp) hr
  refine ⟨hexclusive, fun u r hr => h.waiting u r (hstays hr), ?_⟩
  rintro ⟨u, r, hr⟩
  have hwaits : ∃ u p, c.place u = .waiting p := ⟨u, r, hstays hr⟩
  obtain ⟨us, hnodup, hus, hle⟩ := h.enough hwaits
  -- one of the threads that are woken was not on its way
  obtain ⟨v, hv⟩ := List.exists_mem_of_ne_nil ts (hsome hwaits)
  obtain ⟨p, hp⟩ := hwaiting v hv
  obtain rfl := h.waiting v p hp
  have hvt : v ≠ t := by
    rintro rfl
    rw [hplace] at hp
    cases hp
  have hvus : v ∉ us := by
    intro hin
    have hway := hus v hin
    rw [hp] at hway
    exact hway
  refine ⟨v :: us, List.nodup_cons.mpr ⟨hvus, hnodup⟩, fun w hw => ?_, .inl ?_⟩
  · rw [Monitor.Config.wake_place]
    -- the one that is woken
    obtain rfl | hw := List.mem_cons.mp hw
    · rw [if_pos hv, Monitor.Config.move_place_of_ne c _ hvt, hp]
      trivial
    · -- those that were on their way already
      have hway := hus w hw
      have hwt : w ≠ t := by
        rintro rfl
        rw [hplace] at hway
        exact hway
      have hnot : w ∉ ts := by
        intro hin
        obtain ⟨q, hq⟩ := hwaiting w hin
        rw [hq] at hway
        exact hway
      rw [if_neg hnot, Monitor.Config.move_place_of_ne c _ hwt]
      exact hway
  · rw [List.length_cons, Monitor.Config.wake_data, Monitor.Config.move_data]
    omega

theorem Attended.step (h : Attended c) {c' : Monitor.Config τ (Point α) (List α) (Ret α)}
    {e : Option (Visible τ (Op α) (Ret α))} (hstep : Monitor.Step monitor c e c') :
    Attended c' := by
  have hexclusive := Monitor.exclusive_step h.exclusive hstep
  cases hstep with
  | call o hidle => exact h.move nofun nofun (by rw [hidle]; exact False.elim) (by rw [hidle]; nofun)
  | @lock t p hplace hfree =>
    -- who gets the mutex stays on its way
    refine ⟨hexclusive, fun u r hr => h.waiting u r (waiting_of_move (by simp) hr), ?_⟩
    rintro ⟨u, r, hr⟩
    have henough := h.enough ⟨u, r, waiting_of_move (by simp) hr⟩
    refine henough.move (fun hway => ?_) (by rw [hplace]; nofun)
    rw [hplace] at hway
    cases p with
    | popTest => trivial
    | _ => exact hway.elim
  | goto howner hplace hact => exact h.goto howner hplace hact hexclusive
  | signal howner hplace hact ts hwaiting hsome =>
    obtain ⟨rfl, rfl⟩ := act_eq_signal hact
    exact h.signal howner hplace hwaiting hsome hexclusive
  | @wait t p q howner hplace hact =>
    -- it waits because the deque is empty
    obtain ⟨rfl, hdata, rfl⟩ := act_eq_wait hact
    refine ⟨hexclusive, fun u r hr => ?_, fun _ => ⟨[], List.nodup_nil, nofun, .inl ?_⟩⟩
    · -- the thread that waits now
      by_cases hut : u = t
      · rw [hut, Monitor.Config.own_place, Monitor.Config.move_place_self] at hr
        cases hr
        rfl
      · -- those that waited before
        rw [Monitor.Config.own_place, Monitor.Config.move_place_of_ne c _ hut] at hr
        exact h.waiting u r hr
    · rw [Monitor.Config.own_data, Monitor.Config.move_data, hdata]
      exact Nat.le_refl 0
  | @leave t p r howner hplace hact =>
    refine ⟨hexclusive, fun u q hq => h.waiting u q (waiting_of_move (by simp) hq), ?_⟩
    -- nobody on its way leaves
    rintro ⟨u, q, hq⟩
    have henough := h.enough ⟨u, q, waiting_of_move (by simp) hq⟩
    obtain ⟨rfl, -⟩ | ⟨ret, rfl, -⟩ | ⟨e, rfl, -⟩ := act_eq_leave hact
    all_goals exact henough.move (by rw [hplace]; exact False.elim) (by rw [hplace]; nofun)
  | @wake t p hplace =>
    -- a spurious wakeup
    obtain rfl := h.waiting t p hplace
    exact h.move nofun nofun (fun _ => trivial) (by rw [hplace]; nofun)
  | ret hdone => exact h.move nofun nofun (by rw [hdone]; exact False.elim) (by rw [hdone]; nofun)

omit [BEq α] [DecidableEq τ] in
theorem attended_init :
    Attended (Monitor.Config.init [] : Monitor.Config τ (Point α) (List α) (Ret α)) where
  exclusive := fun _ _ hp => by cases hp
  waiting := fun _ _ hp => by cases hp
  enough := fun ⟨_, _, hp⟩ => by cases hp

/-- **No lost wakeup**: while a thread waits in `pop` and nobody has the mutex, as many threads have
    been woken, or called, to take something as there are elements. -/
theorem no_lost_wakeup {es : List (Option (Visible τ (Op α) (Ret α)))}
    (hrun : Steps (Monitor.Step monitor) (Monitor.Config.init []) es c) (hfree : c.owner = none)
    {t : τ} {p : Point α} (hwait : c.place t = .waiting p) :
    ∃ ts : List τ, ts.Nodup ∧ (∀ u ∈ ts, c.place u = .entering .popTest) ∧
      c.data.length ≤ ts.length := by
  have hc : Attended c := hrun.invariant (fun _ _ _ h hstep => h.step hstep) attended_init
  -- nobody is inside, so that whoever is on its way has not tested yet
  have hout : ∀ u q, c.place u ≠ .inside q := by
    intro u q hq
    have hu := hc.exclusive u q hq
    rw [hfree] at hu
    cases hu
  obtain ⟨ts, hnodup, hts, hle⟩ := hc.enough ⟨t, p, hwait⟩
  refine ⟨ts, hnodup, fun u hu => ?_, hle.resolve_right fun ⟨_, v, hv⟩ => hout v _ hv⟩
  have hway := hts u hu
  cases hplace : c.place u with
  | inside q => exact absurd hplace (hout u q)
  | entering q =>
    rw [hplace] at hway
    cases q with
    | popTest => rfl
    | _ => exact hway.elim
  | _ =>
    rw [hplace] at hway
    exact hway.elim

end

/-- A `pop` that has been woken and finds an element returns it. -/
theorem pop_returns {τ α : Type} [DecidableEq τ] [BEq α]
    {c : Monitor.Config τ (Point α) (List α) (Ret α)} {t : τ} {e : α} {q : List α}
    (hfree : c.owner = none) (hplace : c.place t = .entering .popTest) (hdata : c.data = e :: q) :
    ∃ es c', Steps (Monitor.Step monitor) c es c' ∧
      es.reduceOption = [.ret t (.popped e)] ∧ c'.data = q := by
  have htest : (monitor (α := α)).act .popTest c.data = .goto (e :: q) .popFront := by
    rw [hdata]
    rfl
  refine ⟨_, _, .cons (.lock hplace hfree) <| .cons (.goto rfl (Function.update_self ..) htest) <|
    -- `front`, `pop_front`, and out of the mutex
    .cons (.goto rfl (Function.update_self ..) rfl) <|
    .cons (.goto rfl (Function.update_self ..) rfl) <|
    .cons (.leave rfl (Function.update_self ..) rfl) <|
    .cons (.ret (Function.update_self ..)) <| .nil _, rfl, rfl⟩

/-! ### Two consumers -/

/-- Two threads wait in `pop`, a third pushes `7`, and the signal wakes one of the two. -/
theorem consumers : ∃ (es : List (Option (Visible (Fin 3) (Op Nat) (Ret Nat))))
    (c : Monitor.Config (Fin 3) (Point Nat) (List Nat) (Ret Nat)),
    Steps (Monitor.Step monitor) (Monitor.Config.init []) es c ∧ c.owner = none ∧
      c.data = [7] ∧ c.place 0 = .entering .popTest ∧ c.place 1 = .waiting .popTest ∧
      es.reduceOption = [.call 0 .pop, .call 1 .pop, .call 2 (.push 7), .ret 2 .pushed] :=
  ⟨_, _, .cons (.call (t := 0) .pop rfl) <| .cons (.call (t := 1) .pop rfl) <|
    .cons (.call (t := 2) (.push 7) rfl) <|
    .cons (.lock (t := 0) rfl rfl) <| .cons (.wait (t := 0) rfl rfl rfl) <|
    .cons (.lock (t := 1) rfl rfl) <| .cons (.wait (t := 1) rfl rfl rfl) <|
    .cons (.lock (t := 2) rfl rfl) <| .cons (.goto (t := 2) rfl rfl rfl) <|
    .cons (.signal (t := 2) rfl rfl rfl [0] (fun u hu => ⟨.popTest, by
      rw [List.mem_singleton.mp hu]
      rfl⟩) fun _ => List.cons_ne_nil _ _) <|
    .cons (.leave (t := 2) rfl rfl rfl) <| .cons (.ret (t := 2) rfl) <| .nil _,
    rfl, rfl, rfl, rfl, rfl⟩

/-- The one that was woken gets the element. -/
theorem linearizable_consumers :
    ∃ (es es' : List (Option (Visible (Fin 3) (Op Nat) (Ret Nat)))) (c : _)
      (a : Object.Config (Fin 3) (Op Nat) (List Nat) (Ret Nat)),
      Steps (Monitor.Step monitor) (Monitor.Config.init []) es c ∧
        es.reduceOption = [.call 0 .pop, .call 1 .pop, .call 2 (.push 7), .ret 2 .pushed,
          .ret 0 (.popped 7)] ∧
        Steps (Object.Step spec) (Object.Config.init []) es' a ∧
        es'.reduceOption = es.reduceOption := by
  obtain ⟨es₁, c₁, hrun₁, hfree, hdata, hwoken, -, hseen₁⟩ := consumers
  obtain ⟨es₂, c, hrun₂, hseen₂, -⟩ := pop_returns hfree hwoken hdata
  have hrun := hrun₁.append hrun₂
  obtain ⟨es', a, hrun', hseen⟩ := linearizable hrun
  refine ⟨es₁ ++ es₂, es', c, a, hrun, ?_, hrun', hseen⟩
  rw [List.reduceOption_append, hseen₁, hseen₂]
  rfl

theorem no_lost_wakeup_consumers :
    ∃ (c : Monitor.Config (Fin 3) (Point Nat) (List Nat) (Ret Nat)) (ts : List (Fin 3)),
      c.data = [7] ∧ c.place 1 = .waiting .popTest ∧ ts.Nodup ∧
        (∀ u ∈ ts, c.place u = .entering .popTest) ∧ c.data.length ≤ ts.length := by
  obtain ⟨es, c, hrun, hfree, hdata, -, hwait, -⟩ := consumers
  obtain ⟨ts, hnodup, hts, hle⟩ := no_lost_wakeup hrun hfree hwait
  exact ⟨c, ts, hdata, hwait, hnodup, hts, hle⟩

end Queue

/-! ## The queues of the thread pool -/

/-- The element that a call has returned. -/
def Queue.Ret.element {α : Type} : Queue.Ret α → Option α
  | .pushed => none
  | .tried t => t
  | .popped e => some e

namespace ThreadPool

variable {n : Nat} {ι : Type} [DecidableEq ι]

omit [DecidableEq ι] in
/-- The queue operation that a step of the pool calls. -/
def queueCall (s : ThreadPool n ι) : Op n ι → Option (Fin n × Queue.Op (Option ι))
  | .call c =>
    match s.call c with
    | .chosen j => some (j, .push (some c))
    | _ => none
  | .worker i =>
    match s.thread i with
    | .stage0 | .stage2 => some (i, .tryPop)
    | .stage3 (j :: _) => if j = i then none else some (j, .tryPopButIgnore none)
    | .stage4 => some (i, .pop)
    | _ => none
  | .destructor =>
    match s.dtor with
    | .pushing i => if h : i < n then some (⟨i, h⟩, .push none) else none
    | .draining i => if h : i < n then some (⟨i, h⟩, .tryPop) else none
    | _ => none

/-- One queue changes as the operation says, and what it returns is `job`; or none changes. -/
def QueueStep (q q' : Fin n → List (Option ι)) :
    Option (Fin n × Queue.Op (Option ι)) → Option (Option ι) → Prop
  | none, _ => q' = q
  | some (j, o), job =>
    ∃ r, Queue.spec o (q j) = some (r, q' j) ∧ r.element = job ∧ ∀ k, k ≠ j → q' k = q k

theorem queueStep_push (s : ThreadPool n ι) (j : Fin n) (x : Option ι) :
    QueueStep s.q (s.push j x).q (some (j, .push x)) none := by
  refine ⟨.pushed, ?_, rfl, fun k hk => Function.update_of_ne hk ..⟩
  simp [Queue.spec, push]

/-- The front of a queue is taken, by an operation that may take it. -/
theorem queueStep_take {q : Fin n → List (Option ι)} {j : Fin n} {o : Queue.Op (Option ι)}
    {r : Queue.Ret (Option ι)} {rest : List (Option ι)} (hspec : Queue.spec o (q j) = some (r, rest)) :
    QueueStep q (Function.update q j rest) (some (j, o)) r.element := by
  refine ⟨r, ?_, rfl, fun k hk => Function.update_of_ne hk ..⟩
  rw [hspec, Function.update_self]

/-- An operation that finds nothing it may take. -/
theorem queueStep_miss {q : Fin n → List (Option ι)} {j : Fin n} {o : Queue.Op (Option ι)}
    (hspec : Queue.spec o (q j) = some (.tried none, q j)) : QueueStep q q (some (j, o)) none :=
  ⟨.tried none, hspec, rfl, fun _ _ => rfl⟩

theorem queueStep_runAsync [NeZero n] (channel : ι → Int) (s : ThreadPool n ι) (c : ι) :
    QueueStep s.q (s.runAsync channel c).q (s.queueCall (.call c)) none := by
  rw [runAsync, queueCall]
  cases s.call c with
  | called =>
    dsimp only
    split
    · rfl
    · rfl
  | passed =>
    dsimp only
    split
    · rfl
    · rfl
  | chosen j => exact queueStep_push s j (some c)
  | _ => rfl

omit [DecidableEq ι] in
@[simp] theorem goto_thread (s : ThreadPool n ι) (i : Fin n) (pc : RunThread n ι) :
    (s.goto i pc).thread i = pc := Function.update_self ..

theorem queueStep_tryPop (s : ThreadPool n ι) (i : Fin n) {next : RunThread n ι}
    (hnext : next.hand = none) :
    QueueStep s.q (s.tryPop i next).q (some (i, .tryPop)) ((s.tryPop i next).thread i).hand := by
  rw [tryPop]
  split
  · rename_i x rest heq
    rw [goto_thread]
    exact queueStep_take (r := .tried (some x)) (by rw [heq]; rfl)
  · rename_i heq
    rw [goto_thread, hnext]
    exact queueStep_miss (by rw [heq]; rfl)

theorem queueStep_runThread (order : Fin n → List (Fin n)) (s : ThreadPool n ι) {i : Fin n}
    (hwait : s.thread i = .stage4 → s.q i ≠ []) :
    QueueStep s.q (s.runThread order i).q (s.queueCall (.worker i))
      ((s.runThread order i).thread i).hand := by
  rw [runThread, queueCall]
  cases hstage : s.thread i with
  | stage0 => exact queueStep_tryPop s i rfl
  | stage1 => rfl
  | stage2 => exact queueStep_tryPop s i rfl
  | stage3 steals =>
    cases steals with
    | nil => rfl
    | cons j rest =>
      dsimp only
      split
      · -- its own queue is left out
        rfl
      · -- a null pointer in front is left to the owner of the queue
        split
        · rename_i c tail heq
          rw [goto_thread]
          exact queueStep_take (r := .tried (some (some c))) (by rw [heq]; rfl)
        · rename_i hnone
          rw [goto_thread]
          refine queueStep_miss ?_
          cases heq : s.q j with
          | nil => rfl
          | cons x tail =>
            cases x with
            | none => rfl
            | some c => exact absurd heq (hnone c tail)
  | stage4 =>
    dsimp only
    rw [tryPop]
    split
    · -- the queue is not empty, or `pop` would wait
      rename_i x rest heq
      rw [goto_thread]
      exact queueStep_take (r := .popped x) (by rw [heq]; rfl)
    · rename_i heq
      exact absurd heq (hwait hstage)
  | popped job =>
    dsimp only
    rw [execute]
    split
    · rfl
    · rfl
  | stopped => rfl

theorem queueStep_destroy (s : ThreadPool n ι) :
    QueueStep s.q s.destroy.q (s.queueCall .destructor) s.destroy.dtor.hand := by
  rw [destroy, queueCall]
  cases s.dtor with
  | alive => rfl
  | pushing i =>
    dsimp only
    split
    · -- a death pill is pushed
      exact queueStep_push s _ none
    · rfl
  | joining i =>
    dsimp only
    split
    · rfl
    · rfl
  | draining i =>
    dsimp only
    split
    · split
      · -- the destructor takes what is left
        rename_i x rest heq
        exact queueStep_take (r := .tried (some x)) (by rw [heq]; rfl)
      · -- and finds the queue empty
        rename_i heq
        exact queueStep_miss (by rw [heq]; rfl)
    · rfl
  | popped i job =>
    dsimp only
    rw [execute]
    split
    · rfl
    · rfl
  | returned => rfl

/-- The job that is in the hand of whoever has taken the step. -/
def jobOf (s : ThreadPool n ι) : Op n ι → Option (Option ι)
  | .call _ => none
  | .worker i => s.hand (.worker i)
  | .destructor => s.hand .destructor

/-- **The pool and its queues**: each step of the pool is one operation of a queue that happens at
    once, and takes over what the operation returns; or it leaves the queues alone. -/
theorem queue_step [NeZero n] {channel : ι → Int} {order : Fin n → List (Fin n)}
    {s s' : ThreadPool n ι} {op : Op n ι} (hnext : Next channel order s op s') :
    QueueStep s.q s'.q (s.queueCall op) (s'.jobOf op) := by
  obtain ⟨hguard, rfl⟩ := hnext
  cases op with
  | call c => exact queueStep_runAsync channel s c
  | worker i => exact queueStep_runThread order s hguard.2
  | destructor => exact queueStep_destroy s

end ThreadPool

end SimpleRpc.Base
