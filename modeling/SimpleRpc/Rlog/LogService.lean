import Mathlib.Data.List.Sort
import Mathlib.Data.List.Infix
import Mathlib.Data.List.Range
import Mathlib.Logic.Function.Basic

/-!
# The Log Server (`rlog/log_service_impl.cc`, `rlog/rlog.cc`)

Every client numbers its messages. The calls of `log` run in a thread pool, so that they arrive
in any order; the server keeps what came too early in a sorted buffer, one for each source, and
prints a message when the one before it was printed.

## Layers

- **Code**: `RLog.logV` on the client, `RLogServiceImpl.log` on the server
- **Abstract**: `Reorder`, the buffer of one source alone, and `of_run`: the server is one
  `Reorder` for each source
- **Invariant**: `Reorder.Inv`, what has arrived is printed up to the mark and buffered behind it

## Main results

- `nothing_lost`: after any prefix of the arrivals, and at the end
- `printed_in_order_iff`: the order in which a source is printed

## Model

- `l_` is held over the whole body of `log`, so a call is one step; the time in front of a
  printed line is left out
- a `std::set` ordered by `msg_id` is a sorted list; inserting an equal `msg_id` does nothing
- `msg_id` and `done` are `Int`: `done + 1` stays below 2^63 for fewer messages than that
-/

namespace SimpleRpc.Rlog

/-- `std::string source` -/
abbrev Source := List UInt8

/-- `struct log_piece` -/
structure LogPiece where
  msgId : Int
  level : Int32
  message : List UInt8
  deriving DecidableEq

/-! ## The client -/

namespace RLog

/-- `log_v` with a connection, as far as the server is concerned: `msg_counter_s` and the arguments
    of `async_log` after the calls `msgs`. -/
def logV (counter : Int) : List (Int32 × List UInt8) → List LogPiece
  | [] => []
  | (level, message) :: msgs => ⟨counter, level, message⟩ :: logV (counter + 1) msgs

/-- What a client sends since `init`, which resets `msg_counter_s`. -/
def sent (msgs : List (Int32 × List UInt8)) : List LogPiece := logV 0 msgs

theorem logV_ids (counter : Int) (msgs : List (Int32 × List UInt8)) :
    (logV counter msgs).map LogPiece.msgId =
      (List.range msgs.length).map fun k : Nat => counter + k := by
  induction msgs generalizing counter with
  | nil => rfl
  | cons msg msgs ih =>
    rw [List.length_cons, List.range_succ_eq_map, logV, List.map_cons, ih, List.map_cons,
      List.map_map]
    congr 1
    · exact (Int.add_zero counter).symm
    · apply List.map_congr_left
      intro k _
      show counter + 1 + (k : Int) = counter + (k.succ : Nat)
      omega

/-- The messages of a source are numbered from zero. -/
theorem sent_ids (msgs : List (Int32 × List UInt8)) :
    (sent msgs).map LogPiece.msgId = (List.range msgs.length).map fun k : Nat => (k : Int) := by
  simpa [sent] using logV_ids 0 msgs

theorem sent_ids_nodup (msgs : List (Int32 × List UInt8)) :
    ((sent msgs).map LogPiece.msgId).Nodup := by
  rw [sent_ids]
  exact List.nodup_range.map fun _ _ h => Int.ofNat.inj h

theorem mem_sent_ids {msgs : List (Int32 × List UInt8)} {i : Int} :
    i ∈ (sent msgs).map LogPiece.msgId ↔ 0 ≤ i ∧ i < msgs.length := by
  rw [sent_ids, List.mem_map]
  constructor
  · rintro ⟨k, hk, rfl⟩
    have hlt := List.mem_range.mp hk
    omega
  · rintro ⟨h0, hn⟩
    exact ⟨i.toNat, List.mem_range.mpr (by omega), by omega⟩

end RLog

/-! ## The server -/

/-- `buffer.insert(piece)` -/
def insertPiece (piece : LogPiece) (buffer : List LogPiece) : List LogPiece :=
  if buffer.any fun p => p.msgId = piece.msgId then buffer
  else buffer.orderedInsert (fun p q => p.msgId ≤ q.msgId) piece

/-- `while (!buffer.empty() && buffer.begin()->msg_id <= done + 1)`: the mark and the buffer after
    the loop, and what it has printed. -/
def release (done : Int) : List LogPiece → Int × List LogPiece × List LogPiece
  | [] => (done, [], [])
  | p :: rest =>
    if p.msgId ≤ done + 1 then
      let (done, buffer, out) := release (max done p.msgId) rest
      (done, buffer, p :: out)
    else (done, p :: rest, [])

/-- `class RLogServiceImpl`; what is missing in one of its maps is made when it is asked for. -/
structure RLogServiceImpl where
  done : Source → Int
  buffer : Source → List LogPiece
  /-- ghost: the calls of `LOG_INFO` -/
  printed : List (Source × LogPiece)

namespace RLogServiceImpl

/-- No message has arrived. -/
def init : RLogServiceImpl := ⟨fun _ => 0, fun _ => [], []⟩

/-- `RLogServiceImpl::log` -/
def log (s : RLogServiceImpl) (level : Int32) (source : Source) (msgId : Int)
    (message : List UInt8) : RLogServiceImpl :=
  let piece : LogPiece := ⟨msgId, level, message⟩
  let buffer := insertPiece piece (s.buffer source)
  let (done, buffer, out) := release (s.done source) buffer
  { done := Function.update s.done source done
    buffer := Function.update s.buffer source buffer
    printed := s.printed ++ out.map fun p => (source, p) }

/-- The calls of `log` in the order in which they take `l_`. -/
def run (arrivals : List (Source × LogPiece)) : RLogServiceImpl :=
  arrivals.foldl (fun s a => s.log a.2.level a.1 a.2.msgId a.2.message) init

end RLogServiceImpl

/-- The pieces of one source. -/
def piecesOf (source : Source) (pieces : List (Source × LogPiece)) : List LogPiece :=
  (pieces.filter fun a => a.1 = source).map Prod.snd

@[simp] theorem piecesOf_append (source : Source) (as bs : List (Source × LogPiece)) :
    piecesOf source (as ++ bs) = piecesOf source as ++ piecesOf source bs := by
  simp [piecesOf]

theorem piecesOf_map (source source' : Source) (ps : List LogPiece) :
    piecesOf source (ps.map fun p => (source', p)) = if source' = source then ps else [] := by
  by_cases h : source' = source
  · simp [piecesOf, h, List.filter_map, Function.comp_def]
  · simp [piecesOf, h, List.filter_map, Function.comp_def]

/-! ## One source -/

/-- The mark, the buffer and the printed messages of one source. -/
structure Reorder where
  done : Int
  buffer : List LogPiece
  out : List LogPiece

namespace Reorder

/-- Nothing has arrived from this source. -/
def init : Reorder := ⟨0, [], []⟩

/-- A piece arrives. -/
def arrive (r : Reorder) (piece : LogPiece) : Reorder :=
  let (done, buffer, out) := release r.done (insertPiece piece r.buffer)
  ⟨done, buffer, r.out ++ out⟩

end Reorder

/-- What the server has of one source. -/
def RLogServiceImpl.of (s : RLogServiceImpl) (source : Source) : Reorder :=
  ⟨s.done source, s.buffer source, piecesOf source s.printed⟩

/-- A call of `log` is an arrival for its source, and nothing for the others. -/
theorem RLogServiceImpl.of_log (s : RLogServiceImpl) (level : Int32) (source' source : Source)
    (msgId : Int) (message : List UInt8) :
    (s.log level source' msgId message).of source =
      if source' = source then (s.of source).arrive ⟨msgId, level, message⟩ else s.of source := by
  by_cases h : source' = source
  · subst h
    simp [RLogServiceImpl.log, RLogServiceImpl.of, Reorder.arrive, piecesOf_map]
  · rw [if_neg h]
    simp [RLogServiceImpl.log, RLogServiceImpl.of, piecesOf_map, h,
      Function.update_of_ne (Ne.symm h)]

/-- **One buffer for each source**: what the server has of a source depends on the arrivals from
    this source alone. -/
theorem RLogServiceImpl.of_run (arrivals : List (Source × LogPiece)) (source : Source) :
    (run arrivals).of source = (piecesOf source arrivals).foldl Reorder.arrive Reorder.init := by
  induction arrivals using List.reverseRecOn with
  | nil => rfl
  | append_singleton arrivals a ih =>
    rw [run, List.foldl_append, List.foldl_cons, List.foldl_nil, ← run, of_log, ih,
      piecesOf_append, List.foldl_append]
    by_cases h : a.1 = source
    · simp [piecesOf, h]
    · simp [piecesOf, h]

/-! ## The loop -/

/-- A piece with a new `msg_id` is inserted. -/
theorem insertPiece_perm {piece : LogPiece} {buffer : List LogPiece}
    (hnew : ∀ p ∈ buffer, p.msgId ≠ piece.msgId) :
    (insertPiece piece buffer).Perm (piece :: buffer) := by
  have hnone : ¬ (buffer.any fun p => p.msgId = piece.msgId) = true := by
    simpa using hnew
  rw [insertPiece, if_neg hnone]
  exact List.perm_orderedInsert _ _ _

/-- The pieces of a `std::set`, from the least on. -/
def Ascending (ps : List LogPiece) : Prop := ps.Pairwise fun p q => p.msgId < q.msgId

private theorem orderedInsert_ascending {piece : LogPiece} {buffer : List LogPiece}
    (hasc : Ascending buffer) (hnew : ∀ p ∈ buffer, p.msgId ≠ piece.msgId) :
    Ascending (buffer.orderedInsert (fun p q => p.msgId ≤ q.msgId) piece) := by
  induction buffer with
  | nil => exact List.pairwise_singleton _ _
  | cons q rest ih =>
    obtain ⟨hq, hrest⟩ := List.pairwise_cons.mp hasc
    have hqne : q.msgId ≠ piece.msgId := hnew q (.head _)
    rw [List.orderedInsert_cons]
    by_cases hle : piece.msgId ≤ q.msgId
    · -- in front of the first larger piece
      rw [if_pos hle]
      refine List.pairwise_cons.mpr ⟨fun p hp => ?_, hasc⟩
      rcases List.mem_cons.mp hp with rfl | hp
      · omega
      · have := hq p hp
        omega
    · -- further behind
      rw [if_neg hle]
      refine List.pairwise_cons.mpr ⟨fun p hp => ?_, ih hrest fun p hp => hnew p (.tail _ hp)⟩
      rcases (List.mem_orderedInsert _).mp hp with rfl | hp
      · omega
      · exact hq p hp

theorem insertPiece_ascending (piece : LogPiece) {buffer : List LogPiece}
    (hasc : Ascending buffer) : Ascending (insertPiece piece buffer) := by
  rw [insertPiece]
  by_cases hany : (buffer.any fun p => p.msgId = piece.msgId) = true
  · rw [if_pos hany]
    exact hasc
  · rw [if_neg hany]
    exact orderedInsert_ascending hasc (by simpa using hany)

/-- What the loop does: it prints a front part of the buffer, moves the mark over it without a
    gap, and stops at a piece behind the next number. -/
structure Released (done : Int) (buffer : List LogPiece) (done' : Int)
    (buffer' out : List LogPiece) : Prop where
  split : out ++ buffer' = buffer
  mark_le : done ≤ done'
  printed : ∀ p ∈ out, p.msgId ≤ done'
  filled : ∀ i, done < i → i ≤ done' → ∃ p ∈ out, p.msgId = i
  behind : ∀ p ∈ buffer', done' + 1 < p.msgId

theorem release_spec {buffer : List LogPiece} (hasc : Ascending buffer) (done : Int) :
    Released done buffer (release done buffer).1 (release done buffer).2.1
      (release done buffer).2.2 := by
  induction buffer generalizing done with
  | nil => exact ⟨rfl, le_refl _, by simp [release], fun i h h' => absurd h (not_lt.mpr h'), by
      simp [release]⟩
  | cons p rest ih =>
    obtain ⟨hp, hrest⟩ := List.pairwise_cons.mp hasc
    rw [release]
    -- the piece is printed, and the loop goes on behind it
    by_cases hle : p.msgId ≤ done + 1
    · rw [if_pos hle]
      obtain ⟨hsplit, hmark, hprinted, hfilled, hbehind⟩ := ih hrest (max done p.msgId)
      generalize release (max done p.msgId) rest = res at *
      obtain ⟨done', buffer', out⟩ := res
      simp only at *
      refine ⟨by rw [List.cons_append, hsplit], by omega, ?_, ?_, hbehind⟩
      · -- what is printed lies up to the mark
        intro q hq
        rcases List.mem_cons.mp hq with rfl | hq
        · omega
        · exact hprinted q hq
      · -- every number in between was printed
        intro i hlo hhi
        by_cases hnext : i = p.msgId
        · exact ⟨p, .head _, hnext.symm⟩
        · -- the mark has moved by one at most
          obtain ⟨q, hq, hqi⟩ := hfilled i (by omega) hhi
          exact ⟨q, .tail _ hq, hqi⟩
    · -- there is a gap, and the loop ends
      rw [if_neg hle]
      refine ⟨rfl, le_refl _, by simp, fun i h h' => absurd h (not_lt.mpr h'), fun q hq => ?_⟩
      rcases List.mem_cons.mp hq with rfl | hq
      · show done + 1 < q.msgId
        omega
      · have := hp q hq
        show done + 1 < q.msgId
        omega

/-! ## The invariant -/

namespace Reorder

/-- The pieces `arrived`, in this order, have led to `r`. -/
structure Inv (arrived : List LogPiece) (r : Reorder) : Prop where
  ascending : Ascending r.buffer
  perm : (r.out ++ r.buffer).Perm arrived
  printed : ∀ p ∈ r.out, p.msgId ≤ r.done
  behind : ∀ p ∈ r.buffer, r.done + 1 < p.msgId
  nonneg : 0 ≤ r.done
  filled : ∀ i, 1 ≤ i → i ≤ r.done → ∃ p ∈ r.out, p.msgId = i

theorem inv_init : init.Inv [] :=
  ⟨List.Pairwise.nil, .refl _, by simp [init], by simp [init], le_refl _, fun i h h' => by
    have : i ≤ 0 := h'
    omega⟩

section Arrive

variable {arrived : List LogPiece} {r : Reorder} (hI : r.Inv arrived) {piece : LogPiece}
  (hnew : piece.msgId ∉ arrived.map LogPiece.msgId)

include hI hnew

theorem Inv.fresh : ∀ p ∈ r.buffer, p.msgId ≠ piece.msgId := by
  intro p hp heq
  exact hnew (heq ▸ List.mem_map_of_mem (hI.perm.subset (List.mem_append_right _ hp)))

/-- **One arrival** of a piece with a new number preserves the invariant. -/
theorem Inv.arrive : (r.arrive piece).Inv (arrived ++ [piece]) := by
  have hfresh := hI.fresh hnew
  have hasc := insertPiece_ascending piece hI.ascending
  obtain ⟨hsplit, hmark, hprinted, hfilled, hbehind⟩ := release_spec hasc r.done
  rw [Reorder.arrive]
  generalize release r.done (insertPiece piece r.buffer) = res at *
  obtain ⟨done, buffer, out⟩ := res
  simp only at *
  refine ⟨?_, ?_, ?_, hbehind, hI.nonneg.trans hmark, ?_⟩
  · -- the buffer is sorted
    exact (List.pairwise_append.mp (hsplit ▸ hasc)).2.1
  · -- the new piece is in the buffer before the loop, which only moves pieces
    calc r.out ++ out ++ buffer = r.out ++ insertPiece piece r.buffer := by
          rw [List.append_assoc, hsplit]
      _ |>.Perm (r.out ++ piece :: r.buffer) := (insertPiece_perm hfresh).append_left _
      _ |>.Perm (piece :: (r.out ++ r.buffer)) := List.perm_middle
      _ |>.Perm (piece :: arrived) := hI.perm.cons _
      _ |>.Perm (arrived ++ [piece]) := (List.perm_append_singleton _ _).symm
  · -- what is printed lies up to the mark
    intro p hp
    rcases List.mem_append.mp hp with hp | hp
    · exact (hI.printed p hp).trans hmark
    · exact hprinted p hp
  · -- all numbers up to the mark were printed
    intro i h1 hi
    by_cases hold : i ≤ r.done
    · obtain ⟨p, hp, hpi⟩ := hI.filled i h1 hold
      exact ⟨p, List.mem_append_left _ hp, hpi⟩
    · obtain ⟨p, hp, hpi⟩ := hfilled i (by omega) hi
      exact ⟨p, List.mem_append_right _ hp, hpi⟩

end Arrive

/-- Pieces with different numbers, in any order, keep the invariant. -/
theorem inv_of_arrivals {arrived : List LogPiece} (hnodup : (arrived.map LogPiece.msgId).Nodup) :
    (arrived.foldl arrive init).Inv arrived := by
  induction arrived using List.reverseRecOn with
  | nil => exact inv_init
  | append_singleton arrived piece ih =>
    rw [List.map_append, List.map_singleton, List.nodup_append] at hnodup
    obtain ⟨hrest, -, hdisj⟩ := hnodup
    rw [List.foldl_append, List.foldl_cons, List.foldl_nil]
    refine (ih hrest).arrive fun hmem => ?_
    exact hdisj _ hmem _ (List.mem_singleton.mpr rfl) rfl

section Arrived

variable {arrived : List LogPiece} {r : Reorder} (hI : r.Inv arrived)

include hI

/-- The buffer holds what has arrived behind the next number. -/
theorem Inv.buffer_perm : r.buffer.Perm (arrived.filter fun p => r.done + 1 < p.msgId) := by
  have hout : r.out.filter (fun p => r.done + 1 < p.msgId) = [] := by
    rw [List.filter_eq_nil_iff]
    intro p hp
    have := hI.printed p hp
    simp only [decide_eq_true_eq]
    omega
  have hbuffer : r.buffer.filter (fun p => r.done + 1 < p.msgId) = r.buffer :=
    List.filter_eq_self.mpr fun p hp => decide_eq_true (hI.behind p hp)
  have hperm := hI.perm.filter fun p => decide (r.done + 1 < p.msgId)
  rwa [List.filter_append, hout, hbuffer, List.nil_append] at hperm

/-- Everything else that has arrived is printed. -/
theorem Inv.out_perm : r.out.Perm (arrived.filter fun p => p.msgId ≤ r.done + 1) := by
  have hout : r.out.filter (fun p => p.msgId ≤ r.done + 1) = r.out :=
    List.filter_eq_self.mpr fun p hp => decide_eq_true (by
      have := hI.printed p hp
      omega)
  have hbuffer : r.buffer.filter (fun p => p.msgId ≤ r.done + 1) = [] := by
    rw [List.filter_eq_nil_iff]
    intro p hp
    have := hI.behind p hp
    simp only [decide_eq_true_eq]
    omega
  have hperm := hI.perm.filter fun p => decide (p.msgId ≤ r.done + 1)
  rwa [List.filter_append, hout, hbuffer, List.append_nil] at hperm

/-- A number that has arrived is printed, or it is behind the next one. -/
theorem Inv.printed_or_behind {i : Int} (hi : i ∈ arrived.map LogPiece.msgId) :
    (i ≤ r.done ∧ i ∈ r.out.map LogPiece.msgId) ∨ r.done + 1 < i := by
  obtain ⟨p, hp, rfl⟩ := List.mem_map.mp hi
  rcases List.mem_append.mp (hI.perm.symm.subset hp) with hp | hp
  · exact .inl ⟨hI.printed p hp, List.mem_map_of_mem hp⟩
  · exact .inr (hI.behind p hp)

/-- Once all numbers below `n` have arrived, nothing is buffered. -/
theorem Inv.complete {n : Nat} (hids : ∀ i, i ∈ arrived.map LogPiece.msgId ↔ 0 ≤ i ∧ i < n) :
    r.buffer = [] ∧ (1 ≤ n → r.done = n - 1) := by
  have hnonneg := hI.nonneg
  have hall : (n : Int) ≤ r.done + 1 := by
    by_contra hlt
    -- the number next to the mark has arrived, so the loop would not have stopped
    rcases hI.printed_or_behind ((hids (r.done + 1)).mpr ⟨by omega, by omega⟩) with ⟨hle, -⟩ | hgt
    · omega
    · omega
  constructor
  · rw [List.eq_nil_iff_forall_not_mem]
    intro p hp
    have hbehind := hI.behind p hp
    have hlt := ((hids p.msgId).mp
      (List.mem_map_of_mem (hI.perm.subset (List.mem_append_right _ hp)))).2
    omega
  · intro hn
    by_cases h0 : r.done = 0
    · omega
    · obtain ⟨p, hp, hpi⟩ := hI.filled r.done (by omega) (le_refl _)
      have hlt := ((hids p.msgId).mp
        (List.mem_map_of_mem (hI.perm.subset (List.mem_append_left _ hp)))).2
      omega

end Arrived

/-! ## The order of the printed messages -/

/-- While `1` does not arrive before `0`, a message is printed behind those with smaller numbers. -/
theorem out_ascending {arrived : List LogPiece} (hnodup : (arrived.map LogPiece.msgId).Nodup)
    (hnonneg : ∀ p ∈ arrived, 0 ≤ p.msgId)
    (hfirst : ∀ pre, pre <+: arrived → 1 ∈ pre.map LogPiece.msgId → 0 ∈ pre.map LogPiece.msgId) :
    Ascending (arrived.foldl arrive init).out := by
  induction arrived using List.reverseRecOn with
  | nil => exact List.Pairwise.nil
  | append_singleton arrived piece ih =>
    have hI := inv_of_arrivals (hnodup.sublist (by simp) :
      (arrived.map LogPiece.msgId).Nodup)
    have hnew : piece.msgId ∉ arrived.map LogPiece.msgId := by
      rw [List.map_append, List.map_singleton, List.nodup_append] at hnodup
      exact fun hmem => hnodup.2.2 _ hmem _ (List.mem_singleton.mpr rfl) rfl
    have hout := ih (hnodup.sublist (by simp)) (fun p hp => hnonneg p (List.mem_append_left _ hp))
      fun pre hpre => hfirst pre (hpre.trans (List.prefix_append _ _))
    rw [List.foldl_append, List.foldl_cons, List.foldl_nil]
    generalize arrived.foldl arrive init = r at *
    have hasc := insertPiece_ascending piece hI.ascending
    have hsplit := (release_spec hasc r.done).split
    rw [arrive]
    refine List.pairwise_append.mpr ⟨hout, ?_, fun p hp q hq => ?_⟩
    · -- what is printed now was sorted in the buffer
      exact (List.pairwise_append.mp (hsplit ▸ hasc)).1
    · -- `q` is released now, so it is `piece` or was in the buffer
      have hq' : q ∈ insertPiece piece r.buffer := hsplit ▸ List.mem_append_left _ hq
      have hple := hI.printed p hp
      rcases List.mem_cons.mp ((insertPiece_perm (hI.fresh hnew)).subset hq') with rfl | hq'
      · by_contra hge
        -- the numbers from `1` up to the mark have arrived, so `q` is the first message
        have hq0 : q.msgId = 0 := by
          have h0 : 0 ≤ q.msgId := hnonneg q (by simp)
          by_contra hne
          obtain ⟨p', hp', heq⟩ := hI.filled q.msgId (by omega) (by omega)
          exact hnew (heq ▸ List.mem_map_of_mem (hI.perm.subset (List.mem_append_left _ hp')))
        have hparr : p ∈ arrived := hI.perm.subset (List.mem_append_left _ hp)
        have hp0 : 0 ≤ p.msgId := hnonneg p (List.mem_append_left _ hparr)
        have hpne : p.msgId ≠ 0 := fun h0 => hnew (by
          rw [hq0, ← h0]
          exact List.mem_map_of_mem hparr)
        obtain ⟨p₁, hp₁, heq₁⟩ := hI.filled 1 (le_refl _) (by omega)
        have h1 : 1 ∈ arrived.map LogPiece.msgId :=
          heq₁ ▸ List.mem_map_of_mem (hI.perm.subset (List.mem_append_left _ hp₁))
        exact hnew (hq0 ▸ hfirst arrived (List.prefix_append _ _) h1)
      · -- it was in the buffer, so it lies behind the mark
        have := hI.behind q hq'
        omega

/-- Arrivals only add to what is printed. -/
theorem out_prefix (pre rest : List LogPiece) :
    (pre.foldl arrive init).out <+: ((pre ++ rest).foldl arrive init).out := by
  rw [List.foldl_append]
  generalize pre.foldl arrive init = r
  induction rest generalizing r with
  | nil => exact List.prefix_rfl
  | cons piece rest ih => exact (List.prefix_append _ _).trans (ih (r.arrive piece))

/-- If `1` arrives before `0`, it is printed before `0`. -/
theorem first_of_ascending {arrived pre : List LogPiece}
    (hnodup : (arrived.map LogPiece.msgId).Nodup) (hzero : 0 ∈ arrived.map LogPiece.msgId)
    (hasc : Ascending (arrived.foldl arrive init).out) (hpre : pre <+: arrived)
    (hone : 1 ∈ pre.map LogPiece.msgId) : 0 ∈ pre.map LogPiece.msgId := by
  by_contra hnot
  obtain ⟨rest, rfl⟩ := hpre
  have hIpre := inv_of_arrivals (hnodup.sublist (by simp) : (pre.map LogPiece.msgId).Nodup)
  have hI := inv_of_arrivals hnodup
  have hnonneg := hIpre.nonneg
  have hnonneg' := hI.nonneg
  obtain ⟨out, hout⟩ := out_prefix pre rest
  -- `1` is printed or buffered before `0` arrives
  rcases hIpre.printed_or_behind hone with ⟨-, hone⟩ | hbehind
  · rcases hI.printed_or_behind hzero with ⟨-, hzero⟩ | hbehind
    · obtain ⟨p, hp, hp1⟩ := List.mem_map.mp hone
      obtain ⟨q, hq, hq0⟩ := List.mem_map.mp hzero
      rw [← hout] at hasc hq
      rcases List.mem_append.mp hq with hq | hq
      · -- what is printed has arrived
        exact hnot (hq0 ▸ List.mem_map_of_mem (hIpre.perm.subset (List.mem_append_left _ hq)))
      · -- then `1` stands in front of `0`
        have hlt := (List.pairwise_append.mp hasc).2.2 p hp q hq
        omega
    · omega
  · omega

end Reorder

/-! ## The server, for one source among any others -/

section Source

variable {arrivals pre : List (Source × LogPiece)} {source : Source}
  {msgs : List (Int32 × List UInt8)}

theorem piecesOf_isPrefix (hpre : pre <+: arrivals) :
    piecesOf source pre <+: piecesOf source arrivals := by
  obtain ⟨rest, rfl⟩ := hpre
  rw [piecesOf_append]
  exact List.prefix_append _ _

variable (hsent : (piecesOf source arrivals).Perm (RLog.sent msgs))

include hsent

/-- Messages of a client arrive with different numbers. -/
theorem ids_nodup (hpre : pre <+: arrivals) :
    ((piecesOf source pre).map LogPiece.msgId).Nodup := by
  have hall : ((piecesOf source arrivals).map LogPiece.msgId).Nodup :=
    (hsent.map LogPiece.msgId).nodup_iff.mpr (RLog.sent_ids_nodup msgs)
  exact hall.sublist ((piecesOf_isPrefix hpre).sublist.map _)

theorem inv_of_prefix (hpre : pre <+: arrivals) :
    ((RLogServiceImpl.run pre).of source).Inv (piecesOf source pre) := by
  rw [RLogServiceImpl.of_run]
  exact Reorder.inv_of_arrivals (ids_nodup hsent hpre)

theorem mem_arrived_ids {i : Int} :
    i ∈ (piecesOf source arrivals).map LogPiece.msgId ↔ 0 ≤ i ∧ i < msgs.length := by
  rw [(hsent.map LogPiece.msgId).mem_iff, RLog.mem_sent_ids]

end Source

/-- **Nothing is lost**: whatever the order in which the messages of a client arrive among those
    of other sources, after any prefix of the arrivals the server has buffered what arrived behind
    the next number and printed the rest, and after the last one it has printed every message
    once. -/
theorem nothing_lost (arrivals : List (Source × LogPiece)) (source : Source)
    (msgs : List (Int32 × List UInt8))
    (hsent : (piecesOf source arrivals).Perm (RLog.sent msgs)) :
    (∀ pre, pre <+: arrivals →
      let s := RLogServiceImpl.run pre
      (s.buffer source).Perm
        ((piecesOf source pre).filter fun p => s.done source + 1 < p.msgId) ∧
      (piecesOf source s.printed).Perm
        ((piecesOf source pre).filter fun p => p.msgId ≤ s.done source + 1) ∧
      (piecesOf source s.printed ++ s.buffer source).Nodup) ∧
    let s := RLogServiceImpl.run arrivals
    (piecesOf source s.printed).Perm (RLog.sent msgs) ∧ s.buffer source = [] ∧
      (1 ≤ msgs.length → s.done source = msgs.length - 1) := by
  constructor
  · -- after each prefix
    intro pre hpre
    have hI := inv_of_prefix hsent hpre
    exact ⟨hI.buffer_perm, hI.out_perm,
      hI.perm.nodup_iff.mpr (List.Nodup.of_map _ (ids_nodup hsent hpre))⟩
  · -- after the last arrival
    have hI := inv_of_prefix hsent (List.prefix_refl arrivals)
    obtain ⟨hempty, hdone⟩ := hI.complete fun i => mem_arrived_ids hsent
    refine ⟨?_, hempty, hdone⟩
    have hperm := hI.perm
    rw [hempty, List.append_nil] at hperm
    exact hperm.trans hsent

/-- Three messages of one client that overtake each other, and one of another source. -/
theorem nothing_lost_three :
    (RLogServiceImpl.run
      [([65], ⟨2, 0, []⟩), ([66], ⟨0, 0, []⟩), ([65], ⟨0, 0, []⟩), ([65], ⟨1, 0, []⟩)]).done [65] =
      2 :=
  (nothing_lost _ [65] [(0, []), (0, []), (0, [])] (by decide)).2.2.2 (by decide)

/-- **The order of the printed messages**: the messages of a client are printed in the order of
    their numbers if and only if `1` does not arrive before `0`: the mark of a new source is `0`, as
    if that message had been printed. -/
theorem printed_in_order_iff (arrivals : List (Source × LogPiece)) (source : Source)
    (msgs : List (Int32 × List UInt8))
    (hsent : (piecesOf source arrivals).Perm (RLog.sent msgs)) :
    Ascending (piecesOf source (RLogServiceImpl.run arrivals).printed) ↔
      ∀ pre, pre <+: piecesOf source arrivals →
        1 ∈ pre.map LogPiece.msgId → 0 ∈ pre.map LogPiece.msgId := by
  have hnodup := ids_nodup hsent (List.prefix_refl arrivals)
  have hprinted : piecesOf source (RLogServiceImpl.run arrivals).printed =
      ((piecesOf source arrivals).foldl Reorder.arrive Reorder.init).out := by
    rw [← RLogServiceImpl.of_run]
    rfl
  rw [hprinted]
  constructor
  · intro hasc pre hpre hone
    have hlen := (mem_arrived_ids hsent).mp ((hpre.sublist.map _).subset hone)
    exact Reorder.first_of_ascending hnodup ((mem_arrived_ids hsent).mpr ⟨le_refl _, by omega⟩) hasc
      hpre hone
  · intro hfirst
    refine Reorder.out_ascending hnodup (fun p hp => ?_) hfirst
    exact ((mem_arrived_ids hsent).mp (List.mem_map_of_mem hp)).1

/-- Three messages, the first one in front of the second. -/
theorem printed_in_order_three :
    Ascending (piecesOf [65] (RLogServiceImpl.run
      [([65], ⟨2, 0, []⟩), ([65], ⟨0, 0, []⟩), ([65], ⟨1, 0, []⟩)]).printed) := by
  refine (printed_in_order_iff _ [65] [(0, []), (0, []), (0, [])] (by decide)).mpr ?_
  intro pre hpre
  rw [← List.mem_inits] at hpre
  revert pre
  decide

/-- **Two messages that overtake each other**: they are printed in the order of their arrival. -/
theorem second_printed_first :
    (piecesOf [65] [([65], ⟨1, 0, []⟩), ([65], ⟨0, 0, []⟩)]).Perm
        (RLog.sent [(0, []), (0, [])]) ∧
      ¬ Ascending (piecesOf [65] (RLogServiceImpl.run
        [([65], ⟨1, 0, []⟩), ([65], ⟨0, 0, []⟩)]).printed) := by
  refine ⟨by decide, fun hasc => ?_⟩
  have hlt := List.pairwise_cons.mp hasc
  exact absurd (hlt.1 ⟨0, 0, []⟩ (by decide)) (by decide)

end SimpleRpc.Rlog
