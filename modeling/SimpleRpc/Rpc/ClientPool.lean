import SimpleRpc.Lib.Machine
import SimpleRpc.Rpc.Sockets
import Mathlib.Data.List.Basic
import Mathlib.Data.List.Nodup
import Mathlib.Data.Nat.Find
import Mathlib.Logic.Function.Basic

/-!
# `ClientPool`

A pool keeps `parallel_connections_` Clients for each address that was asked for. `get_client`
makes all of them or none: if one cannot connect, those made so far are closed and released again.

## Layers

- **Objects**: `PoolClient`, a Client with its reference count, and what the poll thread does to it
- **Code**: `getClient` with its two loops, and `destroy`
- **Invariant**: `Inv`, every array in `cache_` has `parallel_connections_` Clients, and the pool has
  a reference to these and to no others

## Main results

- `createLoop_connects`, `createLoop_breaks`, `cleanup_eq`: the two loops
- `getClient_found`, `getClient_fails`, `getClient_adds`: the three outcomes of a call
- `get_client_atomic`: these in every state that calls and the poll thread can reach
- `destroy_eq`: the destructor releases every Client once

## Model

- `l_` is held over the whole of `get_client`, so that a call is a step; what the poll thread does
  in the meantime is part of the call
- a slot of `new Client*[n]` has no value before it is assigned, and the methods of a deleted Client
  must not be called: both are `none`, as is a `verify` that fails
-/

namespace SimpleRpc.Rpc

open SimpleRpc.Lib

/-! ## Clients as objects -/

/-- `class Client`, as far as its owners are concerned. -/
structure PoolClient where
  status : ClientStatus
  /-- `refcnt_`; the Client is deleted at 0 -/
  refcnt : Nat
  /-- the PollMgr has a reference -/
  polled : Bool
  /-- it is in `pending_remove_` of its PollThread -/
  removing : Bool
  /-- ghost: the pool has a reference -/
  held : Bool
  /-- ghost: the poll thread has closed it -/
  hungUp : Bool
  deriving DecidableEq

namespace PoolClient

/-- `new Client(pollmgr)` -/
def init : PoolClient := ⟨.new, 1, false, false, true, false⟩

/-- What there is before a Client is allocated. -/
def absent : PoolClient := ⟨.new, 0, false, false, false, false⟩

/-- `close()`, with `pollmgr_->remove(this)` -/
def close (c : PoolClient) : PoolClient :=
  { c with removing := c.removing || c.status = .connected, status := .closed }

/-- `connect(addr)`, if it returns 0, with `pollmgr_->add(this)` -/
def connected (c : PoolClient) : PoolClient :=
  { c with status := .connected, refcnt := c.refcnt + 1, polled := true }

/-- `close_and_release()` by the pool -/
def closeAndRelease (c : PoolClient) : PoolClient :=
  { c.close with refcnt := c.refcnt - 1, held := false }

/-- `handle_error()` -/
def handleError (c : PoolClient) : PoolClient := { c.close with hungUp := true }

/-- The poll thread releases a Pollable that was removed. -/
def reap (c : PoolClient) : PoolClient :=
  { c with refcnt := c.refcnt - 1, polled := false, removing := false }

/-- Every reference is somebody's. -/
def Counted (c : PoolClient) : Prop := c.refcnt = c.held.toNat + c.polled.toNat

/-- It was connected, and nobody but the poll thread has closed it. -/
def Up (c : PoolClient) : Prop := c.status = .connected ∨ c.hungUp = true

instance (c : PoolClient) : Decidable c.Up := inferInstanceAs (Decidable (_ ∨ _))

end PoolClient

/-- What the poll thread does to a Client that it watches. -/
inductive PollEvent where
  | handleError (k : Nat)
  | reap (k : Nat)

/-- What a pool calls. -/
inductive PoolCall where
  | connect (k : Nat) (ok : Bool)
  | closeAndRelease (k : Nat)
  deriving DecidableEq

/-! ## The code -/

/-- `const string& addr` -/
abbrev Address := List UInt8

/-- `class ClientPool`, and the Clients it has made. A `Client*` is the number of the Client. -/
structure ClientPool where
  /-- `verify(parallel_connections_ > 0)` -/
  parallelConnections : { n : Nat // 0 < n }
  /-- `map<string, Client**> cache_` -/
  cache : List (Address × List (Option Nat))
  clients : Nat → PoolClient
  /-- how many Clients were allocated -/
  next : Nat
  /-- ghost -/
  log : List PoolCall

/-- What a call of `get_client` meets. -/
structure PoolEnv where
  /-- whether the connect of the `i`-th Client returns 0 -/
  ok : Nat → Bool
  /-- what the poll thread does before that -/
  polls : Nat → List PollEvent
  /-- what the poll thread does before the `i`-th Client is closed again -/
  pollsBack : Nat → List PollEvent
  /-- `rand_()` -/
  rand : Nat

namespace ClientPool

/-- `ClientPool(pollmgr, parallel_connections)` -/
def create (parallelConnections : { n : Nat // 0 < n }) : ClientPool :=
  ⟨parallelConnections, [], fun _ => .absent, 0, []⟩

/-- One Client changes. -/
def modify (s : ClientPool) (k : Nat) (f : PoolClient → PoolClient) : ClientPool :=
  { s with clients := Function.update s.clients k (f (s.clients k)) }

/-- The poll thread only looks at Clients that were added and not yet released. -/
def poll (s : ClientPool) : PollEvent → ClientPool
  | .handleError k => if (s.clients k).polled then s.modify k .handleError else s
  | .reap k =>
    if (s.clients k).polled ∧ (s.clients k).removing then s.modify k .reap else s

/-- `new Client(this->pollmgr_)` -/
def newClient (s : ClientPool) : ClientPool :=
  { s.modify s.next (fun _ => .init) with next := s.next + 1 }

/-- `parallel_clients[i]->connect(addr.c_str())` -/
def connect (s : ClientPool) (k : Nat) (ok : Bool) : Option ClientPool :=
  if 0 < (s.clients k).refcnt ∧ (s.clients k).status ≠ .connected then
    some { s.modify k (fun c => if ok then c.connected else c) with
      log := s.log ++ [.connect k ok] }
  else none

/-- `parallel_clients[i]->close_and_release()` -/
def closeAndRelease (s : ClientPool) (k : Nat) : Option ClientPool :=
  if 0 < (s.clients k).refcnt then
    some { s.modify k .closeAndRelease with log := s.log ++ [.closeAndRelease k] }
  else none

/-- `parallel_clients[i]` -/
def slot (slots : List (Option Nat)) (i : Nat) : Option Nat := slots[i]?.join

/-- The loop that makes the Clients `i`, `i + 1`, ..., of which there are `n`; it returns the array,
    `i` and `ok`. -/
def createLoop (s : ClientPool) (env : PoolEnv) (slots : List (Option Nat)) :
    Nat → Nat → Option (ClientPool × List (Option Nat) × Nat × Bool)
  | 0, i => some (s, slots, i, true)
  | n + 1, i => do
    let slots := slots.set i (some s.next)
    let s' ← ((env.polls i).foldl poll s.newClient).connect s.next (env.ok i)
    if env.ok i then createLoop s' env slots n (i + 1)
    else some (s', slots, i, false)

/-- `while (i >= 0)`: close connections. The argument is `i + 1`. -/
def cleanup (s : ClientPool) (env : PoolEnv) (slots : List (Option Nat)) :
    Nat → Option ClientPool
  | 0 => some s
  | i + 1 => do
    let k ← slot slots i
    let s' ← ((env.pollsBack i).foldl poll s).closeAndRelease k
    cleanup s' env slots i

/-- `insert_into_map(cache_, addr, parallel_clients)` does not replace an entry. -/
def insertIntoMap (cache : List (Address × List (Option Nat))) (addr : Address)
    (slots : List (Option Nat)) : List (Address × List (Option Nat)) :=
  match cache.lookup addr with
  | some _ => cache
  | none => cache ++ [(addr, slots)]

/-- `get_client(addr)` -/
def getClient (s : ClientPool) (addr : Address) (env : PoolEnv) :
    Option (ClientPool × Option Nat) := do
  let n := s.parallelConnections.val
  match s.cache.lookup addr with
  | some slots =>
    let k ← slot slots (env.rand % n)
    some (s, some k)
  | none =>
    let (s', slots, i, ok) ← s.createLoop env (List.replicate n none) n 0
    if ok then
      let k ← slot slots (env.rand % n)
      some ({ s' with cache := insertIntoMap s'.cache addr slots }, some k)
    else
      let s' ← s'.cleanup env slots (i + 1)
      some (s', none)

/-- The loops of `~ClientPool()`. -/
def destroy (s : ClientPool) : Option ClientPool :=
  (s.cache.flatMap fun e => (List.range s.parallelConnections.val).map (slot e.2)).foldlM
    (fun s k => k.bind s.closeAndRelease) s

/-! ## The poll thread -/

/-- The references are counted, and there is nothing behind the last Client. -/
structure Wf (s : ClientPool) : Prop where
  counted : ∀ k, (s.clients k).Counted
  fresh : ∀ k, s.next ≤ k → s.clients k = .absent

/-- What the poll thread leaves as it is. -/
structure Keeps (s s' : ClientPool) : Prop where
  parallel : s'.parallelConnections = s.parallelConnections
  cache : s'.cache = s.cache
  next : s'.next = s.next
  log : s'.log = s.log
  wf : s'.Wf
  held : ∀ k, (s'.clients k).held = (s.clients k).held
  up : ∀ k, (s.clients k).Up → (s'.clients k).Up
  unpolled : ∀ k, (s.clients k).polled = false → s'.clients k = s.clients k

theorem Keeps.refl {s : ClientPool} (hwf : s.Wf) : Keeps s s :=
  ⟨rfl, rfl, rfl, rfl, hwf, fun _ => rfl, fun _ h => h, fun _ _ => rfl⟩

theorem Keeps.trans {s s' s'' : ClientPool} (h : Keeps s s') (h' : Keeps s' s'') : Keeps s s'' where
  parallel := h'.parallel.trans h.parallel
  cache := h'.cache.trans h.cache
  next := h'.next.trans h.next
  log := h'.log.trans h.log
  wf := h'.wf
  held k := (h'.held k).trans (h.held k)
  up k hk := h'.up k (h.up k hk)
  unpolled k hk := by
    have heq := h.unpolled k hk
    rw [h'.unpolled k (by rw [heq, hk]), heq]

/-- A change of one watched Client that keeps the reference of the pool. -/
theorem Wf.keeps_modify {s : ClientPool} (hwf : s.Wf) {k : Nat} {f : PoolClient → PoolClient}
    (hpolled : (s.clients k).polled = true) (hcounted : (f (s.clients k)).Counted)
    (hheld : (f (s.clients k)).held = (s.clients k).held)
    (hup : (s.clients k).Up → (f (s.clients k)).Up) : Keeps s (s.modify k f) := by
  have hlt : k < s.next := by
    refine Nat.lt_of_not_le fun hle => ?_
    rw [hwf.fresh k hle] at hpolled
    cases hpolled
  have hother : ∀ j, j ≠ k → (s.modify k f).clients j = s.clients j :=
    fun j hj => Function.update_of_ne hj ..
  have hself : (s.modify k f).clients k = f (s.clients k) := Function.update_self ..
  refine ⟨rfl, rfl, rfl, rfl, ⟨fun j => ?_, fun j hj => ?_⟩, fun j => ?_, fun j hj => ?_,
    fun j hj => hother j fun hjk => ?_⟩
  · by_cases hjk : j = k
    · rw [hjk, hself]
      exact hcounted
    · rw [hother j hjk]
      exact hwf.counted j
  · have hle : s.next ≤ j := hj
    rw [hother j (by omega), hwf.fresh j hle]
  · by_cases hjk : j = k
    · rw [hjk, hself, hheld]
    · rw [hother j hjk]
  · by_cases hjk : j = k
    · rw [hjk, hself]
      exact hup (hjk ▸ hj)
    · rwa [hother j hjk]
  · rw [hjk, hpolled] at hj
    cases hj

/-- **Poll thread**: one event. -/
theorem Wf.keeps_poll {s : ClientPool} (hwf : s.Wf) (e : PollEvent) : Keeps s (s.poll e) := by
  cases e with
  | handleError k =>
    rw [poll]
    split
    · rename_i hpolled
      exact hwf.keeps_modify hpolled (hwf.counted k) rfl fun _ => .inr rfl
    · exact .refl hwf
  | reap k =>
    rw [poll]
    split
    · rename_i hpolled
      have hcounted := hwf.counted k
      rw [PoolClient.Counted, hpolled.1] at hcounted
      refine hwf.keeps_modify hpolled.1 ?_ rfl fun hup => hup
      simp only [PoolClient.Counted, PoolClient.reap, hcounted, Bool.toNat_true, Bool.toNat_false]
      omega
    · exact .refl hwf

theorem Wf.keeps_polls {s : ClientPool} (hwf : s.Wf) (es : List PollEvent) :
    Keeps s (es.foldl poll s) := by
  induction es generalizing s with
  | nil => exact .refl hwf
  | cons e es ih => exact (hwf.keeps_poll e).trans (ih (hwf.keeps_poll e).wf)

/-! ## The loops of `get_client` -/

/-- `m` Clients were made, and the pool has a reference to each of them. -/
structure Made (s s' : ClientPool) (m : Nat) : Prop where
  parallel : s'.parallelConnections = s.parallelConnections
  cache : s'.cache = s.cache
  next : s'.next = s.next + m
  wf : s'.Wf
  held : ∀ k, (s'.clients k).held = true ↔
    (s.clients k).held = true ∨ s.next ≤ k ∧ k < s.next + m
  up : ∀ k, (s.clients k).Up → (s'.clients k).Up

theorem Made.zero {s : ClientPool} (hwf : s.Wf) : Made s s 0 :=
  ⟨rfl, rfl, rfl, hwf, fun _ => ⟨.inl, fun h => h.resolve_right (by omega)⟩, fun _ h => h⟩

theorem Made.trans {s s' s'' : ClientPool} {m m' : Nat} (h : Made s s' m) (h' : Made s' s'' m') :
    Made s s'' (m + m') where
  parallel := h'.parallel.trans h.parallel
  cache := h'.cache.trans h.cache
  next := by rw [h'.next, h.next, Nat.add_assoc]
  wf := h'.wf
  held k := by
    rw [h'.held, h.held, h.next, or_assoc]
    refine or_congr_right ?_
    omega
  up k hk := h'.up k (h.up k hk)

/-- **One Client** is made and connected, or not. -/
theorem Wf.makes_one {s : ClientPool} (hwf : s.Wf) (es : List PollEvent) (ok : Bool) :
    ∃ s', (es.foldl poll s.newClient).connect s.next ok = some s' ∧ Made s s' 1 ∧
      s'.log = s.log ++ [.connect s.next ok] ∧ (ok = true → (s'.clients s.next).Up) := by
  have hself : s.newClient.clients s.next = .init := Function.update_self ..
  have hother : ∀ k, k ≠ s.next → s.newClient.clients k = s.clients k :=
    fun k hk => Function.update_of_ne hk ..
  have habsent := hwf.fresh s.next (Nat.le_refl _)
  have hwf' : s.newClient.Wf := by
    refine ⟨fun k => ?_, fun k hk => ?_⟩
    · by_cases hk : k = s.next
      · rw [hk, hself]
        rfl
      · rw [hother k hk]
        exact hwf.counted k
    · have hle : s.next + 1 ≤ k := hk
      rw [hother k (by omega), hwf.fresh k (by omega)]
  have hkeeps := hwf'.keeps_polls es
  -- the poll thread does not know the new Client yet
  have hnew : (es.foldl poll s.newClient).clients s.next = .init := by
    rw [hkeeps.unpolled s.next (by rw [hself]; rfl), hself]
  generalize es.foldl poll s.newClient = t at hkeeps hnew
  have hnext : t.next = s.next + 1 := hkeeps.next
  have hlog : t.log = s.log := hkeeps.log
  refine ⟨_, if_pos ⟨by rw [hnew]; decide, by rw [hnew]; decide⟩, ?_, by rw [← hlog], ?_⟩
  · refine ⟨hkeeps.parallel, hkeeps.cache, hnext, ⟨fun k => ?_, fun k hk => ?_⟩, fun k => ?_,
      fun k hk => ?_⟩
    all_goals simp only [modify]
    · by_cases hk : k = s.next
      · rw [hk, Function.update_self, hnew]
        cases ok <;> rfl
      · rw [Function.update_of_ne hk]
        exact hkeeps.wf.counted k
    · have hle : s.next + 1 ≤ k := hnext ▸ hk
      rw [Function.update_of_ne (by omega)]
      exact hkeeps.wf.fresh k hk
    · by_cases hk : k = s.next
      · rw [hk, Function.update_self, hnew]
        cases ok <;> simp [PoolClient.init, PoolClient.connected]
      · rw [Function.update_of_ne hk, hkeeps.held, hother k hk]
        exact ⟨.inl, fun h => h.resolve_right (by omega)⟩
    · have hne : k ≠ s.next := by
        rintro rfl
        rw [habsent] at hk
        exact absurd hk (by decide)
      rw [Function.update_of_ne hne]
      exact hkeeps.up k (by rwa [hother k hne])
  · intro hok
    simp only [modify, Function.update_self, hok, if_true]
    exact .inl rfl

/-- The array after the Clients from `first` on were put into the slots `i`, ..., `i + m - 1`. -/
structure Filled (slots slots' : List (Option Nat)) (i m first : Nat) : Prop where
  length : slots'.length = slots.length
  before : ∀ j, j < i → slot slots' j = slot slots j
  filled : ∀ j, j < m → slot slots' (i + j) = some (first + j)

theorem Filled.zero (slots : List (Option Nat)) (i first : Nat) : Filled slots slots i 0 first :=
  ⟨rfl, fun _ _ => rfl, fun j hj => absurd hj (Nat.not_lt_zero j)⟩

/-- One more slot in front. -/
theorem Filled.cons {slots slots' : List (Option Nat)} {i m first : Nat} (hi : i < slots.length)
    (h : Filled (slots.set i (some first)) slots' (i + 1) m (first + 1)) :
    Filled slots slots' i (m + 1) first where
  length := by rw [h.length, List.length_set]
  before j hj := by
    rw [h.before j (by omega), slot, slot, List.getElem?_set_ne (by omega)]
  filled j hj := by
    cases j with
    | zero =>
      rw [Nat.add_zero, h.before i (Nat.lt_succ_self i), slot, List.getElem?_set_self hi]
      rfl
    | succ j =>
      have hnext := h.filled j (by omega)
      rw [show i + (j + 1) = i + 1 + j by omega, hnext]
      congr 1
      omega

/-- The calls of `connect` that returned 0. -/
def connects (first m : Nat) : List PoolCall :=
  (List.range m).map fun j => .connect (first + j) true

theorem connects_succ (first m : Nat) :
    connects first (m + 1) = .connect first true :: connects (first + 1) m := by
  rw [connects, List.range_succ_eq_map, List.map_cons, List.map_map, connects]
  congr 1
  apply List.map_congr_left
  intro j _
  simp only [Function.comp_apply, Nat.succ_eq_add_one]
  congr 1
  omega

/-- One round of the loop. -/
theorem createLoop_succ {env : PoolEnv} {i : Nat} {s s₁ : ClientPool}
    (heq : ((env.polls i).foldl poll s.newClient).connect s.next (env.ok i) = some s₁)
    (slots : List (Option Nat)) (n : Nat) :
    s.createLoop env slots (n + 1) i =
      if env.ok i then s₁.createLoop env (slots.set i (some s.next)) n (i + 1)
      else some (s₁, slots.set i (some s.next), i, false) := by
  rw [createLoop]
  simp only [heq, Option.bind_eq_bind, Option.bind_some]

/-- **The loop**, if every connect returns 0. -/
theorem createLoop_connects (env : PoolEnv) (n : Nat) {s : ClientPool} (hwf : s.Wf)
    (slots : List (Option Nat)) (i : Nat) (hlen : i + n ≤ slots.length)
    (hok : ∀ j, j < n → env.ok (i + j) = true) :
    ∃ s' slots', s.createLoop env slots n i = some (s', slots', i + n, true) ∧ Made s s' n ∧
      Filled slots slots' i n s.next ∧ s'.log = s.log ++ connects s.next n ∧
      ∀ j, j < n → (s'.clients (s.next + j)).Up := by
  induction n generalizing s slots i with
  | zero => exact ⟨s, slots, rfl, .zero hwf, .zero .., by simp [connects], by omega⟩
  | succ n ih =>
    obtain ⟨s₁, heq, hmade, hlog, hup⟩ := hwf.makes_one (env.polls i) (env.ok i)
    have hi : env.ok i = true := hok 0 (Nat.succ_pos n)
    obtain ⟨s', slots', hrest, hmade', hfilled, hlog', hup'⟩ :=
      ih hmade.wf (slots.set i (some s.next)) (i + 1)
        (by rw [List.length_set]; omega)
        fun j hj => by rw [← hok (j + 1) (by omega)]; congr 1; omega
    rw [hmade.next] at hfilled hlog' hup'
    refine ⟨s', slots', ?_, ?_, hfilled.cons (by omega), ?_, fun j hj => ?_⟩
    · rw [createLoop_succ heq, if_pos hi, hrest, Nat.add_assoc, Nat.add_comm 1]
    · rw [Nat.add_comm n 1]
      exact hmade.trans hmade'
    · rw [hlog', hlog, hi, connects_succ, List.append_assoc, List.singleton_append]
    · cases j with
      | zero => exact hmade'.up _ (hup hi)
      | succ j =>
        have := hup' j (by omega)
        rwa [show s.next + (j + 1) = s.next + 1 + j by omega]

/-- **The loop**, if the `m`-th connect from here on does not return 0. -/
theorem createLoop_breaks (env : PoolEnv) {n m : Nat} (hm : m < n) {s : ClientPool} (hwf : s.Wf)
    (slots : List (Option Nat)) (i : Nat) (hlen : i + n ≤ slots.length)
    (hok : ∀ j, j < m → env.ok (i + j) = true) (hbreak : env.ok (i + m) = false) :
    ∃ s' slots', s.createLoop env slots n i = some (s', slots', i + m, false) ∧
      Made s s' (m + 1) ∧ Filled slots slots' i (m + 1) s.next ∧
      s'.log = s.log ++ connects s.next m ++ [.connect (s.next + m) false] := by
  induction m generalizing n s slots i with
  | zero =>
    obtain ⟨n, rfl⟩ : ∃ n', n = n' + 1 := ⟨n - 1, by omega⟩
    obtain ⟨s', heq, hmade, hlog, -⟩ := hwf.makes_one (env.polls i) (env.ok i)
    rw [Nat.add_zero] at hbreak ⊢
    refine ⟨s', slots.set i (some s.next), ?_, hmade, (Filled.zero ..).cons (by omega), ?_⟩
    · rw [createLoop_succ heq, if_neg (by simp [hbreak])]
      rfl
    · rw [hlog, hbreak]
      simp [connects]
  | succ m ih =>
    obtain ⟨n, rfl⟩ : ∃ n', n = n' + 1 := ⟨n - 1, by omega⟩
    obtain ⟨s₁, heq, hmade, hlog, -⟩ := hwf.makes_one (env.polls i) (env.ok i)
    have hi : env.ok i = true := hok 0 (Nat.succ_pos m)
    obtain ⟨s', slots', hrest, hmade', hfilled, hlog'⟩ :=
      ih (n := n) (by omega) hmade.wf (slots.set i (some s.next)) (i + 1)
        (by rw [List.length_set]; omega)
        (fun j hj => by rw [← hok (j + 1) (by omega)]; congr 1; omega)
        (by rw [← hbreak]; congr 1; omega)
    rw [hmade.next] at hfilled hlog'
    refine ⟨s', slots', ?_, ?_, hfilled.cons (by omega), ?_⟩
    · rw [createLoop_succ heq, if_pos hi, hrest, Nat.add_assoc, Nat.add_comm 1]
    · rw [Nat.add_comm (m + 1) 1]
      exact hmade.trans hmade'
    · rw [hlog', hlog, hi, connects_succ, show s.next + 1 + m = s.next + (m + 1) by omega]
      simp

/-- The pool has given back its references to the Clients from `first` on. -/
structure Released (s s' : ClientPool) (first m : Nat) : Prop where
  parallel : s'.parallelConnections = s.parallelConnections
  cache : s'.cache = s.cache
  next : s'.next = s.next
  wf : s'.Wf
  held : ∀ k, (s'.clients k).held = true ↔
    (s.clients k).held = true ∧ ¬ (first ≤ k ∧ k < first + m)
  up : ∀ k, ¬ (first ≤ k ∧ k < first + m) → (s.clients k).Up → (s'.clients k).Up

/-- **One Client** of the pool is closed and released. -/
theorem Wf.closes_one {s : ClientPool} (hwf : s.Wf) (es : List PollEvent) {k : Nat}
    (hheld : (s.clients k).held = true) :
    ∃ s', (es.foldl poll s).closeAndRelease k = some s' ∧ Released s s' k 1 ∧
      s'.log = s.log ++ [.closeAndRelease k] := by
  have hkeeps := hwf.keeps_polls es
  rw [← hkeeps.held] at hheld
  generalize es.foldl poll s = t at hkeeps hheld
  have hcounted := hkeeps.wf.counted k
  rw [PoolClient.Counted, hheld, Bool.toNat_true] at hcounted
  have hlt : k < t.next := by
    refine Nat.lt_of_not_le fun hle => ?_
    rw [hkeeps.wf.fresh k hle] at hheld
    cases hheld
  refine ⟨_, if_pos (by omega), ?_, by rw [← hkeeps.log]⟩
  refine ⟨hkeeps.parallel, hkeeps.cache, hkeeps.next, ⟨fun j => ?_, fun j hj => ?_⟩, fun j => ?_,
    fun j hj hup => ?_⟩
  all_goals simp only [modify]
  · by_cases hjk : j = k
    · rw [hjk, Function.update_self]
      simp only [PoolClient.Counted, PoolClient.closeAndRelease, PoolClient.close, Bool.toNat_false]
      omega
    · rw [Function.update_of_ne hjk]
      exact hkeeps.wf.counted j
  · have hle : t.next ≤ j := hj
    rw [Function.update_of_ne (by omega)]
    exact hkeeps.wf.fresh j hle
  · by_cases hjk : j = k
    · rw [hjk, Function.update_self]
      simp [PoolClient.closeAndRelease]
    · rw [Function.update_of_ne hjk, hkeeps.held]
      exact ⟨fun h => ⟨h, by omega⟩, And.left⟩
  · rw [Function.update_of_ne (by omega)]
    exact hkeeps.up j hup

/-- The calls of `close_and_release` in the loop, the last Client first. -/
def closes (first m : Nat) : List PoolCall :=
  (List.range m).reverse.map fun j => .closeAndRelease (first + j)

theorem closes_succ (first m : Nat) :
    closes first (m + 1) = .closeAndRelease (first + m) :: closes first m := by
  simp [closes, List.range_succ]

/-- **The cleanup loop** closes what the other loop has made. -/
theorem cleanup_eq (env : PoolEnv) {slots : List (Option Nat)} {first m : Nat}
    (hslots : ∀ j, j < m → slot slots j = some (first + j)) {s : ClientPool} (hwf : s.Wf)
    (hheld : ∀ j, j < m → (s.clients (first + j)).held = true) :
    ∃ s', s.cleanup env slots m = some s' ∧ Released s s' first m ∧
      s'.log = s.log ++ closes first m := by
  induction m generalizing s with
  | zero =>
    refine ⟨s, rfl, ⟨rfl, rfl, rfl, hwf, fun k => ?_, fun _ _ h => h⟩, by simp [closes]⟩
    exact ⟨fun h => ⟨h, by omega⟩, And.left⟩
  | succ m ih =>
    obtain ⟨s₁, heq, hrel, hlog⟩ := hwf.closes_one (env.pollsBack m) (hheld m (Nat.lt_succ_self m))
    obtain ⟨s', hrest, hrel', hlog'⟩ := ih (fun j hj => hslots j (by omega)) hrel.wf
      fun j hj => (hrel.held _).mpr ⟨hheld j (by omega), by omega⟩
    refine ⟨s', ?_, ⟨hrel'.parallel.trans hrel.parallel, hrel'.cache.trans hrel.cache,
      hrel'.next.trans hrel.next, hrel'.wf, fun k => ?_, fun k hk hup => ?_⟩, ?_⟩
    · -- the loop goes on with the Clients before
      rw [cleanup, hslots m (Nat.lt_succ_self m)]
      simp only [Option.bind_eq_bind, Option.bind_some, heq, hrest]
    · -- one after the other is closed
      rw [hrel'.held, hrel.held, and_assoc]
      refine and_congr_right fun _ => ?_
      omega
    · exact hrel'.up k (by omega) (hrel.up k (by omega) hup)
    · rw [hlog', hlog, closes_succ, List.append_assoc, List.singleton_append]

/-! ## The invariant -/

/-- The Clients in `cache_`. -/
def cached (s : ClientPool) : List Nat := s.cache.flatMap fun e => e.2.filterMap id

/-- Every array in `cache_` has `parallel_connections_` Clients, which are all different, and the
    pool has a reference to these and to no others. -/
structure Inv (s : ClientPool) : Prop where
  wf : s.Wf
  slots : ∀ e ∈ s.cache, ∃ ks : List Nat, e.2 = ks.map some ∧
    ks.length = s.parallelConnections.val
  keys : (s.cache.map Prod.fst).Nodup
  distinct : s.cached.Nodup
  held : ∀ k, (s.clients k).held = true ↔ k ∈ s.cached
  up : ∀ k ∈ s.cached, (s.clients k).Up

theorem inv_create (n : { n : Nat // 0 < n }) : (create n).Inv where
  wf := ⟨fun _ => rfl, fun _ _ => rfl⟩
  slots _ he := by cases he
  keys := List.nodup_nil
  distinct := List.nodup_nil
  held k := by simp [create, cached, PoolClient.absent]
  up _ hk := by cases hk

theorem Inv.cached_lt {s : ClientPool} (hI : s.Inv) {k : Nat} (hk : k ∈ s.cached) : k < s.next := by
  refine Nat.lt_of_not_le fun hle => ?_
  have hheld := (hI.held k).mpr hk
  rw [hI.wf.fresh k hle] at hheld
  cases hheld

/-- A Client in `cache_` is not deleted. -/
theorem Inv.live {s : ClientPool} (hI : s.Inv) {k : Nat} (hk : k ∈ s.cached) :
    0 < (s.clients k).refcnt := by
  have hcounted := hI.wf.counted k
  rw [PoolClient.Counted, (hI.held k).mpr hk, Bool.toNat_true] at hcounted
  omega

/-- What the poll thread does is no concern of the pool. -/
theorem Inv.keeps {s s' : ClientPool} (hI : s.Inv) (h : Keeps s s') : s'.Inv := by
  have hcached : s'.cached = s.cached := by rw [cached, cached, h.cache]
  refine ⟨h.wf, ?_, ?_, ?_, fun k => ?_, fun k hk => ?_⟩
  · rw [h.cache, h.parallel]
    exact hI.slots
  · rw [h.cache]
    exact hI.keys
  · rw [hcached]
    exact hI.distinct
  · rw [h.held, hcached]
    exact hI.held k
  · rw [hcached] at hk
    exact h.up k (hI.up k hk)

/-! ## The three outcomes of `get_client` -/

/-- A call that returns one of the Clients in `cache_`. -/
structure Found (s : ClientPool) (addr : Address) (s' : ClientPool) (ret : Option Nat) : Prop where
  entry : ∃ ks : List Nat, s.cache.lookup addr = some (ks.map some) ∧
    ks.length = s.parallelConnections.val ∧ ∃ k ∈ ks, ret = some k
  same : s' = s

/-- A call in which the connect of the `i`-th Client fails. -/
structure Fails (s : ClientPool) (addr : Address) (i : Nat) (s' : ClientPool) (ret : Option Nat) :
    Prop where
  missing : s.cache.lookup addr = none
  nullptr : ret = none
  cache : s'.cache = s.cache
  next : s'.next = s.next + (i + 1)
  log : s'.log = s.log ++ connects s.next i ++ [.connect (s.next + i) false] ++
    closes s.next (i + 1)
  held : ∀ k, (s'.clients k).held = (s.clients k).held

/-- A call that makes an entry of `cache_`. -/
structure Adds (s : ClientPool) (addr : Address) (s' : ClientPool) (ret : Option Nat) : Prop where
  missing : s.cache.lookup addr = none
  one : ∃ j, j < s.parallelConnections.val ∧ ret = some (s.next + j)
  cache : s'.cache = s.cache ++
    [(addr, (List.range s.parallelConnections.val).map fun j => some (s.next + j))]
  next : s'.next = s.next + s.parallelConnections.val
  log : s'.log = s.log ++ connects s.next s.parallelConnections.val
  up : ∀ j, j < s.parallelConnections.val → (s'.clients (s.next + j)).Up

theorem slot_map_some {ks : List Nat} {i : Nat} (hi : i < ks.length) :
    slot (ks.map some) i = some ks[i] := by
  simp [slot, hi]

theorem rand_lt (s : ClientPool) (rand : Nat) :
    rand % s.parallelConnections.val < s.parallelConnections.val :=
  Nat.mod_lt _ s.parallelConnections.property

theorem mem_of_lookup {cache : List (Address × List (Option Nat))} {addr : Address}
    {slots : List (Option Nat)} (h : cache.lookup addr = some slots) : (addr, slots) ∈ cache := by
  induction cache with
  | nil => cases h
  | cons e rest ih =>
    obtain ⟨key, value⟩ := e
    rw [List.lookup_cons] at h
    split at h
    · rename_i heq
      obtain rfl : addr = key := by simpa using heq
      obtain rfl := Option.some.inj h
      exact List.mem_cons_self
    · exact List.mem_cons_of_mem _ (ih h)

/-- **A later call** returns a Client of the entry, and does nothing else. -/
theorem Inv.getClient_found {s : ClientPool} (hI : s.Inv) {addr : Address}
    {slots : List (Option Nat)} (hlookup : s.cache.lookup addr = some slots) (env : PoolEnv) :
    ∃ ret, s.getClient addr env = some (s, ret) ∧ Found s addr s ret := by
  obtain ⟨ks, rfl, hlen⟩ := hI.slots _ (mem_of_lookup hlookup)
  have hi : env.rand % s.parallelConnections.val < ks.length := hlen ▸ s.rand_lt env.rand
  refine ⟨some ks[env.rand % s.parallelConnections.val], ?_,
    ⟨ks, hlookup, hlen, _, List.getElem_mem hi, rfl⟩, rfl⟩
  rw [getClient]
  simp only [hlookup, slot_map_some hi, Option.bind_eq_bind, Option.bind_some]

/-- **A call that fails** leaves `cache_` as it is and gives back every Client it has made. -/
theorem Inv.getClient_fails {s : ClientPool} (hI : s.Inv) {addr : Address}
    (hlookup : s.cache.lookup addr = none) (env : PoolEnv) {i : Nat}
    (hi : i < s.parallelConnections.val) (hok : ∀ j, j < i → env.ok j = true)
    (hbreak : env.ok i = false) :
    ∃ s' ret, s.getClient addr env = some (s', ret) ∧ Fails s addr i s' ret ∧ s'.Inv ∧
      s'.parallelConnections = s.parallelConnections := by
  obtain ⟨s₁, slots, hloop, hmade, hfilled, hlog⟩ :=
    createLoop_breaks env hi hI.wf (List.replicate s.parallelConnections.val none) 0 (by simp)
      (by simpa using hok) (by simpa using hbreak)
  rw [Nat.zero_add] at hloop
  have hslots : ∀ j, j < i + 1 → slot slots j = some (s.next + j) := fun j hj => by
    simpa using hfilled.filled j hj
  -- the Clients that were made are those that are closed
  obtain ⟨s', hclean, hrel, hlog'⟩ := cleanup_eq env hslots hmade.wf fun j hj =>
    (hmade.held _).mpr (.inr ⟨by omega, by omega⟩)
  -- of the new Clients none is held any more
  have hheld : ∀ k, (s'.clients k).held = true ↔ (s.clients k).held = true := by
    intro k
    rw [hrel.held, hmade.held]
    refine ⟨fun h => h.1.resolve_right h.2, fun h => ⟨.inl h, fun hnew => ?_⟩⟩
    have hlt := hI.cached_lt ((hI.held k).mp h)
    omega
  have hcache : s'.cache = s.cache := hrel.cache.trans hmade.cache
  have hcached : s'.cached = s.cached := by rw [cached, cached, hcache]
  have hparallel := hrel.parallel.trans hmade.parallel
  refine ⟨s', none, ?_, ⟨hlookup, rfl, hcache, hrel.next.trans hmade.next, by rw [hlog', hlog],
    fun k => Bool.eq_iff_iff.mpr (hheld k)⟩, ⟨hrel.wf, ?_, ?_, ?_, fun k => ?_, fun k hk => ?_⟩,
    hparallel⟩
  · -- the loop breaks, and the cleanup follows
    rw [getClient]
    simp only [hlookup, hloop, Option.bind_eq_bind, Option.bind_some, Bool.false_eq_true, if_false,
      hclean]
  · -- `cache_` was not touched
    rw [hcache, hparallel]
    exact hI.slots
  · rw [hcache]
    exact hI.keys
  · rw [hcached]
    exact hI.distinct
  · rw [hheld, hcached]
    exact hI.held k
  · -- the Clients in it are still connected
    rw [hcached] at hk
    have hlt := hI.cached_lt hk
    exact hrel.up k (by omega) (hmade.up k (hI.up k hk))

/-- A full array is the list of its Clients. -/
theorem Filled.eq_map {slots : List (Option Nat)} {n first : Nat}
    (h : Filled (List.replicate n none) slots 0 n first) :
    slots = (List.range n).map fun j => some (first + j) := by
  have hlen : slots.length = n := by rw [h.length, List.length_replicate]
  apply List.ext_getElem
  · rw [hlen, List.length_map, List.length_range]
  · intro j hj _
    have hslot := h.filled j (hlen ▸ hj)
    rw [Nat.zero_add, slot, List.getElem?_eq_getElem hj] at hslot
    rw [List.getElem_map, List.getElem_range]
    exact hslot

/-- **A call that succeeds** makes an entry of connected Clients. -/
theorem Inv.getClient_adds {s : ClientPool} (hI : s.Inv) {addr : Address}
    (hlookup : s.cache.lookup addr = none) (env : PoolEnv)
    (hok : ∀ j, j < s.parallelConnections.val → env.ok j = true) :
    ∃ s' ret, s.getClient addr env = some (s', ret) ∧ Adds s addr s' ret ∧ s'.Inv ∧
      s'.parallelConnections = s.parallelConnections := by
  obtain ⟨s₁, slots, hloop, hmade, hfilled, hlog, hup⟩ :=
    createLoop_connects env s.parallelConnections.val hI.wf
      (List.replicate s.parallelConnections.val none) 0 (by simp) (by simpa using hok)
  have hrand := s.rand_lt env.rand
  have hslot : slot slots (env.rand % s.parallelConnections.val) =
      some (s.next + env.rand % s.parallelConnections.val) := by
    simpa using hfilled.filled _ hrand
  have hslots := hfilled.eq_map
  subst hslots
  have hcache : insertIntoMap s₁.cache addr
        ((List.range s.parallelConnections.val).map fun j => some (s.next + j)) =
      s.cache ++ [(addr, (List.range s.parallelConnections.val).map fun j => some (s.next + j))] := by
    rw [insertIntoMap, hmade.cache, hlookup]
  set s' : ClientPool := { s₁ with cache := s.cache ++
    [(addr, (List.range s.parallelConnections.val).map fun j => some (s.next + j))] } with hs'
  have hcached : s'.cached =
      s.cached ++ (List.range s.parallelConnections.val).map fun j => s.next + j := by
    simp [cached, hs', List.flatMap_append, List.filterMap_map]
  -- the new Clients are the next ones
  have hnew : ∀ k, k ∈ (List.range s.parallelConnections.val).map (fun j => s.next + j) ↔
      s.next ≤ k ∧ k < s.next + s.parallelConnections.val := by
    intro k
    simp only [List.mem_map, List.mem_range]
    exact ⟨fun ⟨j, hj, heq⟩ => by omega, fun h => ⟨k - s.next, by omega, by omega⟩⟩
  refine ⟨s', some (s.next + env.rand % s.parallelConnections.val), ?_,
    ⟨hlookup, ⟨_, hrand, rfl⟩, rfl, hmade.next, hlog, hup⟩,
    ⟨⟨hmade.wf.counted, hmade.wf.fresh⟩, fun e he => ?_, ?_, ?_, fun k => ?_, fun k hk => ?_⟩,
    hmade.parallel⟩
  · rw [getClient]
    simp only [hlookup, hloop, Option.bind_eq_bind, Option.bind_some, if_true, hslot, hcache, hs']
  · -- every entry is full
    rw [show s'.parallelConnections = s.parallelConnections from hmade.parallel]
    rcases List.mem_append.mp he with he | he
    · exact hI.slots e he
    · obtain rfl := List.mem_singleton.mp he
      exact ⟨(List.range s.parallelConnections.val).map fun j => s.next + j,
        by simp [Function.comp_def], by simp⟩
  · -- no address has two entries
    rw [show s'.cache = s.cache ++ [(addr, _)] from rfl, List.map_append, List.map_singleton,
      List.nodup_append]
    refine ⟨hI.keys, by simp, fun key hkey key' hkey' heq => ?_⟩
    obtain ⟨e, he, rfl⟩ := List.mem_map.mp hkey
    have hne := List.lookup_eq_none_iff.mp hlookup e he
    simp [heq, List.mem_singleton.mp hkey'] at hne
  · -- no Client is in two places
    rw [hcached, List.nodup_append]
    refine ⟨hI.distinct, List.nodup_range.map fun a b h => ?_, fun k hk k' hk' heq => ?_⟩
    · exact Nat.add_left_cancel h
    · have hlt := hI.cached_lt hk
      have hge := (hnew k').mp hk'
      omega
  · -- the Clients that are held are those in `cache_`
    rw [hcached, List.mem_append, hnew, ← hI.held]
    exact hmade.held k
  · -- and all of them are connected
    rw [hcached, List.mem_append, hnew] at hk
    rcases hk with hk | hk
    · exact hmade.up k (hI.up k hk)
    · have := hup (k - s.next) (by omega)
      rwa [show s.next + (k - s.next) = k by omega] at this

/-- What a call of `get_client` does and returns. -/
def Outcome (s : ClientPool) (addr : Address) (env : PoolEnv) (s' : ClientPool)
    (ret : Option Nat) : Prop :=
  Found s addr s' ret ∨
  (∃ i, i < s.parallelConnections.val ∧ (∀ j, j < i → env.ok j = true) ∧ env.ok i = false ∧
    Fails s addr i s' ret) ∨
  (∀ j, j < s.parallelConnections.val → env.ok j = true) ∧ Adds s addr s' ret

/-- **Every call** returns, with one of the three outcomes, and keeps the invariant. -/
theorem Inv.getClient {s : ClientPool} (hI : s.Inv) (addr : Address) (env : PoolEnv) :
    ∃ s' ret, s.getClient addr env = some (s', ret) ∧ Outcome s addr env s' ret ∧ s'.Inv ∧
      s'.parallelConnections = s.parallelConnections := by
  cases hlookup : s.cache.lookup addr with
  | some slots =>
    obtain ⟨ret, heq, hfound⟩ := hI.getClient_found hlookup env
    exact ⟨s, ret, heq, .inl hfound, hI, rfl⟩
  | none =>
    by_cases hok : ∀ j, j < s.parallelConnections.val → env.ok j = true
    · obtain ⟨s', ret, heq, hadds, hrest⟩ := hI.getClient_adds hlookup env hok
      exact ⟨s', ret, heq, .inr (.inr ⟨hok, hadds⟩), hrest⟩
    · -- the first connect that fails
      have hex : ∃ i, i < s.parallelConnections.val ∧ env.ok i = false := by
        simpa using hok
      obtain ⟨hi, hbreak⟩ := Nat.find_spec hex
      have hmin : ∀ j, j < Nat.find hex → env.ok j = true := by
        intro j hj
        have hnot := Nat.find_min hex hj
        rw [not_and, Bool.not_eq_false] at hnot
        exact hnot (by omega)
      obtain ⟨s', ret, heq, hfails, hrest⟩ := hI.getClient_fails hlookup env hi hmin hbreak
      exact ⟨s', ret, heq, .inr (.inl ⟨_, hi, hmin, hbreak, hfails⟩), hrest⟩

/-! ## Whole runs -/

/-- A call, or a step of the poll thread between two calls. -/
inductive Op where
  | getClient (addr : Address) (env : PoolEnv)
  | poll (e : PollEvent)

/-- One step. -/
def Next (s : ClientPool) : Op → ClientPool → Prop
  | .getClient addr env, s' => ∃ ret, s.getClient addr env = some (s', ret)
  | .poll e, s' => s' = s.poll e

/-- An entry is never replaced or taken out. -/
theorem Outcome.lookup {s s' : ClientPool} {addr addr' : Address} {env : PoolEnv} {ret : Option Nat}
    (h : Outcome s addr env s' ret) {slots : List (Option Nat)}
    (hlookup : s.cache.lookup addr' = some slots) : s'.cache.lookup addr' = some slots := by
  rcases h with hfound | ⟨i, -, -, -, hfails⟩ | ⟨-, hadds⟩
  · rw [hfound.same]
    exact hlookup
  · rw [hfails.cache]
    exact hlookup
  · rw [hadds.cache, List.lookup_append, hlookup]
    rfl

/-- **Step**: the invariant, and an entry, are kept. -/
theorem Inv.next {s s' : ClientPool} (hI : s.Inv) {op : Op} (hstep : Next s op s') :
    s'.Inv ∧ s'.parallelConnections = s.parallelConnections ∧
      ∀ addr slots, s.cache.lookup addr = some slots → s'.cache.lookup addr = some slots := by
  cases op with
  | getClient addr env =>
    obtain ⟨ret, heq⟩ := hstep
    obtain ⟨s₁, ret₁, heq₁, houtcome, hI', hparallel⟩ := hI.getClient addr env
    obtain ⟨rfl, rfl⟩ : s₁ = s' ∧ ret₁ = ret := by simpa using heq₁.symm.trans heq
    exact ⟨hI', hparallel, fun _ _ => houtcome.lookup⟩
  | poll e =>
    obtain rfl : s' = s.poll e := hstep
    have hkeeps := hI.wf.keeps_poll e
    exact ⟨hI.keeps hkeeps, hkeeps.parallel, fun _ _ h => by rwa [hkeeps.cache]⟩

/-- **Run**: so they are in every state that is reached. -/
theorem Inv.steps {s s' : ClientPool} (hI : s.Inv) {ops : List Op} (hrun : Steps Next s ops s') :
    s'.Inv ∧ s'.parallelConnections = s.parallelConnections ∧
      ∀ addr slots, s.cache.lookup addr = some slots → s'.cache.lookup addr = some slots := by
  refine Steps.invariant (P := fun t => t.Inv ∧ t.parallelConnections = s.parallelConnections ∧
    ∀ addr slots, s.cache.lookup addr = some slots → t.cache.lookup addr = some slots) ?_ hrun
    ⟨hI, rfl, fun _ _ h => h⟩
  rintro t op t' ⟨hI, hparallel, hkept⟩ hstep
  obtain ⟨hI', hparallel', hkept'⟩ := hI.next hstep
  exact ⟨hI', hparallel'.trans hparallel, fun addr slots h => hkept' _ _ (hkept _ _ h)⟩

/-! ## The destructor -/

theorem closeAll_eq (ks : List Nat) (hnodup : ks.Nodup) {s : ClientPool} (hwf : s.Wf)
    (hheld : ∀ k ∈ ks, (s.clients k).held = true) :
    ∃ s', (ks.map some).foldlM (fun (s : ClientPool) k => k.bind s.closeAndRelease) s = some s' ∧
      (∀ k, (s'.clients k).held = true ↔ (s.clients k).held = true ∧ k ∉ ks) ∧
      s'.log = s.log ++ ks.map .closeAndRelease := by
  induction ks generalizing s with
  | nil => exact ⟨s, rfl, fun k => by simp, by simp⟩
  | cons k ks ih =>
    obtain ⟨hk, hks⟩ := List.nodup_cons.mp hnodup
    obtain ⟨s₁, heq, hrel, hlog⟩ := hwf.closes_one [] (hheld k List.mem_cons_self)
    rw [List.foldl_nil] at heq
    -- the others are still held
    have hother : ∀ j, (s₁.clients j).held = true ↔ (s.clients j).held = true ∧ j ≠ k := by
      intro j
      rw [hrel.held]
      refine and_congr_right fun _ => ?_
      omega
    obtain ⟨s', hrest, hheld', hlog'⟩ := ih hks hrel.wf fun j hj =>
      (hother j).mpr ⟨hheld j (List.mem_cons_of_mem k hj), fun h => hk (h ▸ hj)⟩
    refine ⟨s', ?_, fun j => ?_, ?_⟩
    · -- the first one is closed, then the rest
      rw [List.map_cons, List.foldlM_cons]
      simp only [Option.bind_some, heq, Option.bind_eq_bind, hrest]
    · rw [hheld', hother, List.mem_cons, not_or, and_assoc]
    · rw [hlog', hlog, List.map_cons, List.append_assoc, List.singleton_append]

/-- **The destructor** closes and releases every Client in `cache_` once. -/
theorem Inv.destroy {s : ClientPool} (hI : s.Inv) :
    ∃ s', s.destroy = some s' ∧ (∀ k, (s'.clients k).held = false) ∧
      s'.log = s.log ++ s.cached.map .closeAndRelease := by
  obtain ⟨s', heq, hheld, hlog⟩ := closeAll_eq s.cached hI.distinct hI.wf fun k hk =>
    (hI.held k).mpr hk
  -- the two loops go over all Clients in `cache_`
  have hslots : (s.cache.flatMap fun e =>
      (List.range s.parallelConnections.val).map (slot e.2)) = s.cached.map some := by
    rw [cached, List.map_flatMap]
    apply List.flatMap_congr
    intro e he
    obtain ⟨ks, hks, hlen⟩ := hI.slots e he
    rw [hks, ← hlen]
    apply List.ext_getElem
    · simp
    · intro j hj _
      have hjk : j < ks.length := by simpa using hj
      simp [slot_map_some hjk]
  refine ⟨s', ?_, fun k => ?_, hlog⟩
  · -- they are the Clients that are closed
    rw [ClientPool.destroy, hslots, heq]
  · -- and no other one was held
    refine Bool.eq_false_iff.mpr fun hk => ?_
    obtain ⟨hk', hnot⟩ := (hheld k).mp hk
    exact hnot ((hI.held k).mp hk')

/-- **`get_client` is atomic** in every state that calls and the poll thread can reach: the arrays in
    `cache_` are full of live Clients, and a call returns one of them, or fails without a trace, or
    adds an entry, one of whose Clients it returns and from which all later calls are served. -/
theorem get_client_atomic (n : { n : Nat // 0 < n }) (ops : List Op) (s : ClientPool)
    (hrun : Steps Next (create n) ops s) :
    (∀ e ∈ s.cache, ∃ ks : List Nat, e.2 = ks.map some ∧ ks.length = n.val ∧
      ∀ k ∈ ks, 0 < (s.clients k).refcnt ∧ (s.clients k).Up) ∧
    (∀ addr env, ∃ s' ret, s.getClient addr env = some (s', ret) ∧ Outcome s addr env s' ret ∧
      (Adds s addr s' ret → ∀ ops' s'', Steps Next s' ops' s'' → ∀ env', ∃ j, j < n.val ∧
        s''.getClient addr env' = some (s'', some (s.next + j)))) ∧
    ∃ s', s.destroy = some s' ∧ (∀ k, (s'.clients k).held = false) ∧
      s'.log = s.log ++ s.cached.map .closeAndRelease := by
  obtain ⟨hI, hn, -⟩ := (inv_create n).steps hrun
  have hn : s.parallelConnections = n := hn
  refine ⟨fun e he => ?_, fun addr env => ?_, hI.destroy⟩
  · -- the entries are full of live Clients
    obtain ⟨ks, hks, hlen⟩ := hI.slots e he
    refine ⟨ks, hks, by rw [hlen, hn], fun k hk => ?_⟩
    have hmem : k ∈ s.cached := List.mem_flatMap.mpr ⟨e, he, by simpa [hks] using hk⟩
    exact ⟨hI.live hmem, hI.up k hmem⟩
  · -- a call, and all later ones
    obtain ⟨s', ret, heq, houtcome, hI', hparallel⟩ := hI.getClient addr env
    refine ⟨s', ret, heq, houtcome, fun hadds ops' s'' hrun' env' => ?_⟩
    obtain ⟨hI'', -, hkept⟩ := hI'.steps hrun'
    -- the entry that was made stays
    have hentry : s'.cache.lookup addr =
        some ((List.range s.parallelConnections.val).map fun j => some (s.next + j)) := by
      rw [hadds.cache, List.lookup_append, hadds.missing]
      simp
    have hlookup := hkept _ _ hentry
    obtain ⟨ret', heq', hfound⟩ := hI''.getClient_found hlookup env'
    obtain ⟨ks, hlookup', -, k, hk, hret⟩ := hfound.entry
    rw [hlookup, Option.some.injEq] at hlookup'
    have hmem : some k ∈ (List.range s.parallelConnections.val).map fun j => some (s.next + j) := by
      rw [hlookup']
      exact List.mem_map_of_mem hk
    obtain ⟨j, hj, hjk⟩ := List.mem_map.mp hmem
    obtain rfl : s.next + j = k := Option.some.inj hjk
    exact ⟨j, by rw [← hn]; exact List.mem_range.mp hj, by rw [heq', hret]⟩

/-- Two connections an address: the second connect of the first call fails, the second call
    succeeds, and the third one gets a Client of the second. -/
theorem get_client_after_failure :
    let two : { n : Nat // 0 < n } := ⟨2, by decide⟩
    let broken : PoolEnv := ⟨fun i => i = 0, fun _ => [], fun _ => [.handleError 0], 0⟩
    let fine : PoolEnv := ⟨fun _ => true, fun _ => [.reap 0, .handleError 2], fun _ => [], 7⟩
    ∃ s₁ s₂, (create two).getClient [104] broken = some (s₁, none) ∧ s₁.cache = [] ∧
      s₁.log = [.connect 0 true, .connect 1 false, .closeAndRelease 1, .closeAndRelease 0] ∧
      (∃ j, j < 2 ∧ s₁.getClient [104] fine = some (s₂, some (2 + j))) ∧
      ∃ j, j < 2 ∧ s₂.getClient [104] broken = some (s₂, some (2 + j)) := by
  intro two broken fine
  obtain ⟨s₁, ret₁, heq₁, hout₁, -⟩ :=
    (get_client_atomic two [] (create two) (.nil _)).2.1 [104] broken
  obtain ⟨i, hi, hok, hbreak, hfails⟩ : ∃ i, i < 2 ∧ (∀ j, j < i → broken.ok j = true) ∧
      broken.ok i = false ∧ Fails (create two) [104] i s₁ ret₁ := by
    rcases hout₁ with hfound | hfails | ⟨hok, -⟩
    · -- there is no entry yet
      obtain ⟨ks, hlookup, -⟩ := hfound.entry
      cases hlookup
    · exact hfails
    · -- the second connect fails
      exact absurd (hok 1 (by decide)) (by decide)
  obtain rfl : i = 1 := by
    have hne : i ≠ 0 := fun h => by simp [h, broken] at hbreak
    omega
  have hrun : Steps Next (create two) [.getClient [104] broken] s₁ :=
    .cons ⟨ret₁, heq₁⟩ (.nil _)
  obtain ⟨s₂, ret₂, heq₂, hout₂, hlater⟩ :=
    (get_client_atomic two _ s₁ hrun).2.1 [104] fine
  have hadds : Adds s₁ [104] s₂ ret₂ := by
    rcases hout₂ with hfound | ⟨i, -, -, hbreak, -⟩ | ⟨-, hadds⟩
    · -- the first call has left no entry
      obtain ⟨ks, hlookup, -⟩ := hfound.entry
      rw [hfails.cache] at hlookup
      cases hlookup
    · cases hbreak
    · exact hadds
  have hnext : s₁.next = 2 := hfails.next
  have htwo : s₁.parallelConnections.val = 2 := by
    obtain ⟨-, hparallel, -⟩ := (inv_create two).steps hrun
    rw [hparallel]
    rfl
  obtain ⟨j, hj, hret⟩ := hadds.one
  refine ⟨s₁, s₂, by rw [heq₁, hfails.nullptr], hfails.cache, hfails.log, ⟨j, by omega, ?_⟩, ?_⟩
  · rw [heq₂, hret, hnext]
  · have hagain := hlater hadds [] s₂ (.nil _) broken
    rwa [hnext] at hagain

end ClientPool

end SimpleRpc.Rpc
