import Mathlib.Data.List.ReduceOption
import Mathlib.Logic.Function.Basic
import SimpleRpc.Lib.Machine

/-!
# Monitors

Operations on data that one lock protects, with one condition variable. Each operation is a program
of single actions; any number of threads run them, and their actions interleave.

An `Object` is what such a monitor is for: an operation takes effect in one step, at some time
between its call and its return, or waits until it can. The proof that a monitor implements an
object is an outline: what holds at each point of an operation since it took the lock.

## Main results

- `Monitor.Outline.refines`: every run of the monitor has a run of the object with the same calls
  and returns
- `Monitor.Outline.never_crashes`: no operation runs into undefined behaviour
- `Monitor.exclusive`: no two threads hold the lock

## Model

- a signal wakes some of those who wait, at least one if there are any; others may wake without one
- who has been woken has to take the lock again
-/

namespace SimpleRpc.Lib

/-- **Simulation rule**, for machines with internal steps: a run of the one is a run of the other
    with the same visible labels. -/
theorem Steps.simulate {σ τ α : Type*} {step : σ → Option α → σ → Prop}
    {astep : τ → Option α → τ → Prop} {R : σ → τ → Prop}
    (hstep : ∀ s a s' t, R s t → step s a s' →
      ∃ t', (astep t a t' ∨ a = none ∧ t' = t) ∧ R s' t')
    {s s' : σ} {as : List (Option α)} {t : τ} (hrun : Steps step s as s') (h : R s t) :
    ∃ bs t', Steps astep t bs t' ∧ bs.reduceOption = as.reduceOption ∧ R s' t' := by
  induction hrun generalizing t with
  | nil => exact ⟨[], t, .nil t, rfl, h⟩
  | @cons _ _ _ a _ hfirst _ ih =>
    obtain ⟨t₁, hfirst', h₁⟩ := hstep _ _ _ _ h hfirst
    obtain ⟨bs, t', hrest, hbs, h'⟩ := ih h₁
    obtain hmove | ⟨rfl, rfl⟩ := hfirst'
    · refine ⟨a :: bs, t', .cons hmove hrest, ?_, h'⟩
      cases a with
      | none => rw [List.reduceOption_cons_of_none, List.reduceOption_cons_of_none, hbs]
      | some a => rw [List.reduceOption_cons_of_some, List.reduceOption_cons_of_some, hbs]
    · exact ⟨bs, t', hrest, by rw [List.reduceOption_cons_of_none, hbs], h'⟩

/-- What can be seen of a thread from outside. -/
inductive Visible (τ ο ρ : Type*) where
  | call (t : τ) (o : ο)
  | ret (t : τ) (r : ρ)

/-! ## Objects -/

/-- What an operation does to the data, and what it returns; `none` if it has to wait. -/
abbrev Object (ο σ ρ : Type*) := ο → σ → Option (ρ × σ)

namespace Object

variable {τ ο σ ρ : Type*}

/-- Where a thread is. -/
inductive Place (ο ρ : Type*) where
  | idle
  | called (o : ο)
  | done (r : ρ)

/-- The data and the threads. -/
structure Config (τ ο σ ρ : Type*) where
  data : σ
  place : τ → Place ο ρ

def Config.init (s : σ) : Config τ ο σ ρ := ⟨s, fun _ => .idle⟩

variable [DecidableEq τ]

/-- The operations take effect one at a time. -/
inductive Step (spec : Object ο σ ρ) :
    Config τ ο σ ρ → Option (Visible τ ο ρ) → Config τ ο σ ρ → Prop
  | call {c : Config τ ο σ ρ} {t : τ} (o : ο) (hidle : c.place t = .idle) :
      Step spec c (some (.call t o)) { c with place := Function.update c.place t (.called o) }
  | effect {c : Config τ ο σ ρ} {t : τ} {o : ο} {r : ρ} {s : σ} (hcalled : c.place t = .called o)
      (hspec : spec o c.data = some (r, s)) :
      Step spec c none ⟨s, Function.update c.place t (.done r)⟩
  | ret {c : Config τ ο σ ρ} {t : τ} {r : ρ} (hdone : c.place t = .done r) :
      Step spec c (some (.ret t r)) { c with place := Function.update c.place t .idle }

end Object

/-! ## Monitors -/

namespace Monitor

/-- What a thread that holds the lock does at a program point. -/
inductive Act (π σ ρ : Type*) where
  /-- the data become `s` -/
  | goto (s : σ) (next : π)
  | signal (next : π)
  /-- gives the lock back and waits for a signal -/
  | wait (next : π)
  /-- gives the lock back and returns -/
  | leave (r : ρ)
  /-- undefined behaviour -/
  | crash

end Monitor

/-- The operations: where each one starts when it has taken the lock, and the actions at the
    program points. -/
structure Monitor (ο π σ ρ : Type*) where
  start : ο → π
  act : π → σ → Monitor.Act π σ ρ

namespace Monitor

variable {τ ο π σ ρ : Type*}

/-- Where a thread is. -/
inductive Place (π ρ : Type*) where
  | idle
  /-- it goes on at `p` when it has the lock -/
  | entering (p : π)
  /-- it has the lock -/
  | inside (p : π)
  | waiting (p : π)
  | done (r : ρ)

/-- A thread that is woken has to take the lock. -/
def Place.woken : Place π ρ → Place π ρ
  | .waiting p => .entering p
  | place => place

/-- The data, who holds the lock, and the threads. -/
structure Config (τ π σ ρ : Type*) where
  data : σ
  owner : Option τ
  place : τ → Place π ρ

/-- Nobody has called. -/
def Config.init (s : σ) : Config τ π σ ρ := ⟨s, none, fun _ => .idle⟩

variable [DecidableEq τ]

def Config.move (c : Config τ π σ ρ) (t : τ) (p : Place π ρ) : Config τ π σ ρ :=
  { c with place := Function.update c.place t p }

omit [DecidableEq τ] in
def Config.own (c : Config τ π σ ρ) (owner : Option τ) : Config τ π σ ρ := { c with owner }

omit [DecidableEq τ] in
def Config.store (c : Config τ π σ ρ) (s : σ) : Config τ π σ ρ := { c with data := s }

def Config.wake (c : Config τ π σ ρ) (ts : List τ) : Config τ π σ ρ :=
  { c with place := fun t => if t ∈ ts then (c.place t).woken else c.place t }

@[simp] theorem Config.move_data (c : Config τ π σ ρ) (t : τ) (p : Place π ρ) :
    (c.move t p).data = c.data := rfl

@[simp] theorem Config.move_owner (c : Config τ π σ ρ) (t : τ) (p : Place π ρ) :
    (c.move t p).owner = c.owner := rfl

@[simp] theorem Config.move_place_self (c : Config τ π σ ρ) (t : τ) (p : Place π ρ) :
    (c.move t p).place t = p := Function.update_self ..

theorem Config.move_place_of_ne (c : Config τ π σ ρ) {t u : τ} (p : Place π ρ) (hne : u ≠ t) :
    (c.move t p).place u = c.place u := Function.update_of_ne hne ..

omit [DecidableEq τ] in
@[simp] theorem Config.own_place (c : Config τ π σ ρ) (owner : Option τ) :
    (c.own owner).place = c.place := rfl

omit [DecidableEq τ] in
@[simp] theorem Config.own_data (c : Config τ π σ ρ) (owner : Option τ) :
    (c.own owner).data = c.data := rfl

omit [DecidableEq τ] in
@[simp] theorem Config.store_place (c : Config τ π σ ρ) (s : σ) : (c.store s).place = c.place := rfl

omit [DecidableEq τ] in
@[simp] theorem Config.store_data (c : Config τ π σ ρ) (s : σ) : (c.store s).data = s := rfl

omit [DecidableEq τ] in
@[simp] theorem Config.store_owner (c : Config τ π σ ρ) (s : σ) : (c.store s).owner = c.owner := rfl

@[simp] theorem Config.wake_data (c : Config τ π σ ρ) (ts : List τ) :
    (c.wake ts).data = c.data := rfl

@[simp] theorem Config.wake_owner (c : Config τ π σ ρ) (ts : List τ) :
    (c.wake ts).owner = c.owner := rfl

/-- One action of a thread; calls and returns can be seen. -/
inductive Step (M : Monitor ο π σ ρ) :
    Config τ π σ ρ → Option (Visible τ ο ρ) → Config τ π σ ρ → Prop
  | call {c : Config τ π σ ρ} {t : τ} (o : ο) (hidle : c.place t = .idle) :
      Step M c (some (.call t o)) (c.move t (.entering (M.start o)))
  | lock {c : Config τ π σ ρ} {t : τ} {p : π} (hplace : c.place t = .entering p)
      (hfree : c.owner = none) : Step M c none ((c.move t (.inside p)).own (some t))
  | goto {c : Config τ π σ ρ} {t : τ} {p q : π} {s : σ} (howner : c.owner = some t)
      (hplace : c.place t = .inside p) (hact : M.act p c.data = .goto s q) :
      Step M c none ((c.move t (.inside q)).store s)
  | signal {c : Config τ π σ ρ} {t : τ} {p q : π} (howner : c.owner = some t)
      (hplace : c.place t = .inside p) (hact : M.act p c.data = .signal q) (ts : List τ)
      (hwaiting : ∀ u ∈ ts, ∃ p, c.place u = .waiting p)
      (hsome : (∃ u p, c.place u = .waiting p) → ts ≠ []) :
      Step M c none ((c.move t (.inside q)).wake ts)
  | wait {c : Config τ π σ ρ} {t : τ} {p q : π} (howner : c.owner = some t)
      (hplace : c.place t = .inside p) (hact : M.act p c.data = .wait q) :
      Step M c none ((c.move t (.waiting q)).own none)
  | leave {c : Config τ π σ ρ} {t : τ} {p : π} {r : ρ} (howner : c.owner = some t)
      (hplace : c.place t = .inside p) (hact : M.act p c.data = .leave r) :
      Step M c none ((c.move t (.done r)).own none)
  | wake {c : Config τ π σ ρ} {t : τ} {p : π} (hplace : c.place t = .waiting p) :
      Step M c none (c.move t (.entering p))
  | ret {c : Config τ π σ ρ} {t : τ} {r : ρ} (hdone : c.place t = .done r) :
      Step M c (some (.ret t r)) (c.move t .idle)

/-! ### The lock -/

/-- Whoever is inside holds the lock. -/
def Config.Exclusive (c : Config τ π σ ρ) : Prop := ∀ t p, c.place t = .inside p → c.owner = some t

theorem Config.Exclusive.move {c : Config τ π σ ρ} (h : c.Exclusive) (t : τ) {p : Place π ρ}
    (hout : ∀ q, p ≠ .inside q) : (c.move t p).Exclusive := by
  intro u q hplace
  by_cases hu : u = t
  · rw [hu, move_place_self] at hplace
    exact absurd hplace (hout q)
  · rw [move_place_of_ne c p hu] at hplace
    exact h u q hplace

/-- The owner has moved, and nobody else is inside. -/
theorem Config.Exclusive.moved {c : Config τ π σ ρ} (h : c.Exclusive) {t : τ}
    (howner : c.owner = some t ∨ c.owner = none) {p : Place π ρ} {u : τ} {q : π}
    (hplace : (c.move t p).place u = .inside q) : u = t := by
  by_contra hu
  rw [move_place_of_ne c p hu] at hplace
  obtain ho | ho := howner
  · rw [h u q hplace] at ho
    exact hu (Option.some.inj ho)
  · rw [h u q hplace] at ho
    cases ho

theorem Place.woken_eq_inside {place : Place π ρ} {q : π} :
    place.woken = .inside q ↔ place = .inside q := by
  cases place <;> simp [woken]

theorem Config.wake_place (c : Config τ π σ ρ) (ts : List τ) (u : τ) :
    (c.wake ts).place u = if u ∈ ts then (c.place u).woken else c.place u := rfl

theorem Config.wake_inside {c : Config τ π σ ρ} {ts : List τ} {u : τ} {q : π} :
    (c.wake ts).place u = .inside q ↔ c.place u = .inside q := by
  rw [wake_place]
  split
  · exact Place.woken_eq_inside
  · exact Iff.rfl

theorem exclusive_step {M : Monitor ο π σ ρ} {c c' : Config τ π σ ρ} {e : Option (Visible τ ο ρ)}
    (h : c.Exclusive) (hstep : Step M c e c') : c'.Exclusive := by
  cases hstep with
  -- who calls is outside
  | call o hidle => exact h.move _ nofun
  -- the lock was free
  | lock hplace hfree => exact fun u q hq => congrArg some (h.moved (.inr hfree) hq).symm
  | @goto t p q s howner hplace hact =>
    -- the owner moves on
    intro u q hq
    rw [h.moved (.inl howner) hq]
    exact howner
  | @signal t p q howner hplace hact ts hwaiting hsome =>
    intro u q hq
    rw [h.moved (.inl howner) (Config.wake_inside.mp hq)]
    exact howner
  | @wait t p q howner hplace hact =>
    -- the owner has left
    intro u r hr
    obtain rfl := h.moved (.inl howner) hr
    rw [Config.own_place, Config.move_place_self] at hr
    cases hr
  | @leave t p r howner hplace hact =>
    intro u q hq
    obtain rfl := h.moved (.inl howner) hq
    rw [Config.own_place, Config.move_place_self] at hq
    cases hq
  | wake hplace => exact h.move _ nofun
  | ret hdone => exact h.move _ nofun

/-- **Mutual exclusion**: no two threads hold the lock. -/
theorem exclusive {M : Monitor ο π σ ρ} {s : σ} {es : List (Option (Visible τ ο ρ))}
    {c : Config τ π σ ρ} (hrun : Steps (Step M) (Config.init s) es c) {t u : τ} {p q : π}
    (ht : c.place t = .inside p) (hu : c.place u = .inside q) : t = u := by
  have hc : c.Exclusive := by
    apply hrun.invariant fun _ _ _ h hstep => exclusive_step h hstep
    intro t p hplace
    cases hplace
  have howner := hc t p ht
  rw [hc u q hu] at howner
  exact (Option.some.inj howner).symm

/-! ### Outlines -/

/-- What holds at the points of the operations, from the data that they have found when they took
    the lock. An operation that waits must have changed nothing, and may find anything when it is
    back. -/
structure Outline (M : Monitor ο π σ ρ) (spec : Object ο σ ρ) where
  /-- the operation has found the data `s₀` and is at a point with the data `s` -/
  holds : ο → σ → π → σ → Prop
  start : ∀ o s, holds o s (M.start o) s
  goto : ∀ {o s₀ p s s' q}, holds o s₀ p s → M.act p s = .goto s' q → holds o s₀ q s'
  signal : ∀ {o s₀ p s q}, holds o s₀ p s → M.act p s = .signal q → holds o s₀ q s
  wait : ∀ {o s₀ p s q}, holds o s₀ p s → M.act p s = .wait q →
    s = s₀ ∧ spec o s₀ = none ∧ ∀ s₁, holds o s₁ q s₁
  leave : ∀ {o s₀ p s r}, holds o s₀ p s → M.act p s = .leave r → spec o s₀ = some (r, s)
  safe : ∀ {o s₀ p s}, holds o s₀ p s → M.act p s ≠ .crash

namespace Outline

variable {M : Monitor ο π σ ρ} {spec : Object ο σ ρ} (K : Outline M spec)

/-- A thread of the monitor, and the thread of the object: `s₀` are the data of the object, `s`
    those of the monitor. -/
def Related (s₀ s : σ) : Place π ρ → Object.Place ο ρ → Prop
  | .idle, q => q = .idle
  | .entering p, q | .waiting p, q => ∃ o, q = .called o ∧ ∀ s₁, K.holds o s₁ p s₁
  | .inside p, q => ∃ o, q = .called o ∧ K.holds o s₀ p s
  | .done r, q => q = .done r

/-- Who is not inside does not see the data. -/
theorem Related.data {s₀ s : σ} {p : Place π ρ} {q : Object.Place ο ρ} (h : K.Related s₀ s p q)
    (hout : ∀ p', p ≠ .inside p') (s₀' s' : σ) : K.Related s₀' s' p q := by
  cases p with
  | inside p => exact absurd rfl (hout p)
  | _ => exact h

theorem Related.woken {s₀ s : σ} {p : Place π ρ} {q : Object.Place ο ρ}
    (h : K.Related s₀ s p q) : K.Related s₀ s p.woken q := by
  cases p with
  | waiting p => exact h
  | _ => exact h

/-- While the lock is held, the object has the data that its owner has found. -/
structure Simulates (c : Config τ π σ ρ) (a : Object.Config τ ο σ ρ) : Prop where
  exclusive : c.Exclusive
  free : c.owner = none → c.data = a.data
  related : ∀ t, K.Related a.data c.data (c.place t) (a.place t)

variable {K} {c : Config τ π σ ρ} {a : Object.Config τ ο σ ρ}

/-- A thread moves in both machines. -/
theorem related_update {t : τ} {p : Place π ρ} {q : Object.Place ο ρ}
    {s₀ s : σ} (hnew : K.Related s₀ s p q)
    (hother : ∀ u, u ≠ t → K.Related s₀ s (c.place u) (a.place u)) (u : τ) :
    K.Related s₀ s ((c.move t p).place u) (Function.update a.place t q u) := by
  by_cases hu : u = t
  · rw [hu, Config.move_place_self, Function.update_self]
    exact hnew
  · rw [Config.move_place_of_ne c p hu, Function.update_of_ne hu]
    exact hother u hu

theorem related_stay {t : τ} {p : Place π ρ} {s₀ s : σ} (hnew : K.Related s₀ s p (a.place t))
    (hother : ∀ u, u ≠ t → K.Related s₀ s (c.place u) (a.place u)) (u : τ) :
    K.Related s₀ s ((c.move t p).place u) (a.place u) := by
  have hall := related_update hnew hother u
  rwa [Function.update_eq_self] at hall

omit [DecidableEq τ] in
/-- The others are not inside while `t` is the owner. -/
theorem Simulates.others (h : K.Simulates c a) {t : τ} (howner : c.owner = some t ∨ c.owner = none)
    (s₀ s : σ) (u : τ) (hu : u ≠ t) : K.Related s₀ s (c.place u) (a.place u) := by
  refine (h.related u).data K (fun p hp => hu ?_) s₀ s
  rw [h.exclusive u p hp] at howner
  obtain ho | ho := howner
  · exact Option.some.inj ho
  · cases ho

/-- A thread that is not inside moves, and stays outside. -/
theorem Simulates.outside (h : K.Simulates c a) {t : τ} {p : Place π ρ} {q : Object.Place ο ρ}
    (hnew : ∀ s₀ s, K.Related s₀ s p q) (hout : ∀ p', p ≠ .inside p') :
    K.Simulates (c.move t p) { a with place := Function.update a.place t q } where
  exclusive := h.exclusive.move t hout
  free := h.free
  related := related_update (hnew _ _) fun u _ => h.related u

/-- **Step**: every step of the monitor is a step of the object, or none. -/
theorem Simulates.step (h : K.Simulates c a) {c' : Config τ π σ ρ} {e : Option (Visible τ ο ρ)}
    (hstep : Step M c e c') :
    ∃ a', (Object.Step spec a e a' ∨ e = none ∧ a' = a) ∧ K.Simulates c' a' := by
  have hexclusive := exclusive_step h.exclusive hstep
  cases hstep with
  | @call t o hidle =>
    -- the call is a step of the object
    have hthread := h.related t
    rw [hidle] at hthread
    exact ⟨_, .inl (.call o hthread), h.outside (fun _ _ => ⟨o, rfl, K.start o⟩) nofun⟩
  | @lock t p hplace hfree =>
    -- the owner finds the data of the object
    have hthread := h.related t
    rw [hplace] at hthread
    obtain ⟨o, hcalled, hentry⟩ := hthread
    have hinside : K.Related a.data c.data (.inside p) (a.place t) :=
      ⟨o, hcalled, h.free hfree ▸ hentry c.data⟩
    exact ⟨a, .inr ⟨rfl, rfl⟩, hexclusive, nofun, related_stay hinside fun u _ => h.related u⟩
  | @goto t p q s howner hplace hact =>
    -- the owner works on, the object does not move
    have hthread := h.related t
    rw [hplace] at hthread
    obtain ⟨o, hcalled, hholds⟩ := hthread
    have hinside : K.Related a.data s (.inside q) (a.place t) := ⟨o, hcalled, K.goto hholds hact⟩
    refine ⟨a, .inr ⟨rfl, rfl⟩, hexclusive, fun hfree => ?_,
      related_stay hinside (h.others (.inl howner) a.data s)⟩
    rw [Config.store_owner, Config.move_owner, howner] at hfree
    cases hfree
  | @signal t p q howner hplace hact ts hwaiting hsome =>
    have hthread := h.related t
    rw [hplace] at hthread
    obtain ⟨o, hcalled, hholds⟩ := hthread
    have hinside : K.Related a.data c.data (.inside q) (a.place t) :=
      ⟨o, hcalled, K.signal hholds hact⟩
    refine ⟨a, .inr ⟨rfl, rfl⟩, hexclusive, fun hfree => ?_, fun u => ?_⟩
    · rw [Config.wake_owner, Config.move_owner, howner] at hfree
      cases hfree
    · -- who is woken goes on in front of the lock
      have hall := related_stay hinside (fun u _ => h.related u) u
      rw [Config.wake_place]
      split
      · exact hall.woken
      · exact hall
  | @wait t p q howner hplace hact =>
    -- the lock is given up with the data of the object
    have hthread := h.related t
    rw [hplace] at hthread
    obtain ⟨o, hcalled, hholds⟩ := hthread
    obtain ⟨hdata, -, hback⟩ := K.wait hholds hact
    have hwaits : K.Related a.data c.data (.waiting q) (a.place t) := ⟨o, hcalled, hback⟩
    exact ⟨a, .inr ⟨rfl, rfl⟩, hexclusive, fun _ => hdata,
      related_stay hwaits fun u _ => h.related u⟩
  | @leave t p r howner hplace hact =>
    -- here the operation takes effect
    have hthread := h.related t
    rw [hplace] at hthread
    obtain ⟨o, hcalled, hholds⟩ := hthread
    refine ⟨_, .inl (.effect hcalled (K.leave hholds hact)), hexclusive, fun _ => rfl, ?_⟩
    exact related_update rfl (h.others (.inl howner) c.data c.data)
  | @wake t p hplace =>
    -- a thread that wakes up asks for the lock again
    have hthread := h.related t
    rw [hplace] at hthread
    have hentering : K.Related a.data c.data (.entering p) (a.place t) := hthread
    exact ⟨a, .inr ⟨rfl, rfl⟩, hexclusive, h.free,
      related_stay hentering fun u _ => h.related u⟩
  | @ret t r hdone =>
    -- the return is a step of the object
    have hthread := h.related t
    rw [hdone] at hthread
    exact ⟨_, .inl (.ret hthread), h.outside (fun _ _ => rfl) nofun⟩

omit [DecidableEq τ] in
theorem simulates_init (s : σ) :
    K.Simulates (Config.init s : Config τ π σ ρ) (Object.Config.init s) where
  exclusive := fun t p hplace => by cases hplace
  free := fun _ => rfl
  related := fun _ => rfl

variable (K)

theorem simulates {s : σ} {es : List (Option (Visible τ ο ρ))} {c : Config τ π σ ρ}
    (hrun : Steps (Step M) (Config.init s) es c) :
    ∃ es' a, Steps (Object.Step spec) (Object.Config.init s) es' a ∧
      es'.reduceOption = es.reduceOption ∧ K.Simulates c a :=
  hrun.simulate (fun _ _ _ _ h hstep => h.step hstep) (simulates_init s)

/-- **Refinement**: for every run of the monitor there is a run of the object with the same calls
    and returns. -/
theorem refines (K : Outline M spec) {s : σ} {es : List (Option (Visible τ ο ρ))} {c : Config τ π σ ρ}
    (hrun : Steps (Step M) (Config.init s) es c) :
    ∃ es' a, Steps (Object.Step spec) (Object.Config.init s) es' a ∧
      es'.reduceOption = es.reduceOption := by
  obtain ⟨es', a, hrun', hseen, -⟩ := K.simulates hrun
  exact ⟨es', a, hrun', hseen⟩

/-- No operation runs into undefined behaviour. -/
theorem never_crashes (K : Outline M spec) {s : σ} {es : List (Option (Visible τ ο ρ))} {c : Config τ π σ ρ}
    (hrun : Steps (Step M) (Config.init s) es c) {t : τ} {p : π} (hplace : c.place t = .inside p) :
    M.act p c.data ≠ .crash := by
  obtain ⟨es', a, -, -, h⟩ := K.simulates hrun
  have hthread := h.related t
  rw [hplace] at hthread
  obtain ⟨o, -, hholds⟩ := hthread
  exact K.safe hholds

end Outline

end Monitor

end SimpleRpc.Lib
