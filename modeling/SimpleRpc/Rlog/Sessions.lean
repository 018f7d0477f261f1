import SimpleRpc.Rlog.Client

/-!
# Sessions at the Log Server (`rlog/log_service_impl.cc`, `rlog/rlog.cc`)

A client that calls `init` again under the same name starts at zero again, while the server keeps
the mark of that name. What is printed of a later session depends on the longest one before it.

## Layers

- **Code**: `RLogServiceImpl.run` of the server, `RLogStatic.run` of the clients
- **Abstract**: `Session`, the messages of one session in the order of their arrival
- **Invariant**: `Reorder.During`, what one session has done to the buffer

## Main results

- `arrivals_conserved`: whatever arrives is printed, waits, or is dropped beside a waiting message with its
  number
- `session_printed`: the order in which the messages of a session are printed
- `later_session_unordered`: a session that is no longer than an earlier one is not ordered at all
- `clients_printed`: the log from the clients to the screen

## Model

- all messages of a session arrive before the first one of the next under the same name; the
  sessions of other names may overlap with them in any way
-/

namespace SimpleRpc.Rlog

namespace Reorder

/-! ## Any arrivals -/

/-- The pieces that `buffer.insert` drops: a piece with the same number is waiting. -/
def dropped (r : Reorder) : List LogPiece → List LogPiece
  | [] => []
  | piece :: rest =>
    if r.buffer.any fun p => p.msgId = piece.msgId then piece :: dropped (r.arrive piece) rest
    else dropped (r.arrive piece) rest

/-- What the buffer is whenever nobody holds `l_`. -/
structure Waiting (r : Reorder) : Prop where
  ascending : Ascending r.buffer
  behind : ∀ p ∈ r.buffer, r.done + 1 < p.msgId

theorem Waiting.arrive {r : Reorder} (h : r.Waiting) (piece : LogPiece) :
    (r.arrive piece).Waiting := by
  have hasc := insertPiece_ascending piece h.ascending
  have hreleased := release_spec hasc r.done
  exact ⟨(List.pairwise_append.mp (hreleased.split ▸ hasc)).2.1, hreleased.behind⟩

/-- The loop only moves pieces. -/
theorem arrive_out_buffer {r : Reorder} (h : r.Waiting) (piece : LogPiece) :
    (r.arrive piece).out ++ (r.arrive piece).buffer = r.out ++ insertPiece piece r.buffer := by
  have hasc := insertPiece_ascending piece h.ascending
  have hsplit := (release_spec hasc r.done).split
  calc (r.arrive piece).out ++ (r.arrive piece).buffer
      = r.out ++ (release r.done (insertPiece piece r.buffer)).2.2 ++
          (release r.done (insertPiece piece r.buffer)).2.1 := rfl
    _ = r.out ++ insertPiece piece r.buffer := by rw [List.append_assoc, hsplit]

/-- **Conservation**: what has arrived is printed, waits, or was dropped. -/
theorem conserved {r : Reorder} (h : r.Waiting) (arrived : List LogPiece) :
    ((arrived.foldl arrive r).out ++ (arrived.foldl arrive r).buffer ++ dropped r arrived).Perm
      (r.out ++ r.buffer ++ arrived) := by
  induction arrived generalizing r with
  | nil => exact .refl _
  | cons piece rest ih =>
    have hrest := ih (h.arrive piece)
    rw [arrive_out_buffer h] at hrest
    rw [List.foldl_cons, dropped]
    by_cases hany : (r.buffer.any fun p => p.msgId = piece.msgId) = true
    · -- the set does not change
      rw [insertPiece, if_pos hany] at hrest
      rw [if_pos hany]
      exact List.perm_middle.trans ((hrest.cons piece).trans List.perm_middle.symm)
    · -- the set grows by the piece
      have hinsert : (insertPiece piece r.buffer).Perm (piece :: r.buffer) :=
        insertPiece_perm (by simpa using hany)
      rw [if_neg hany]
      refine hrest.trans ?_
      calc r.out ++ insertPiece piece r.buffer ++ rest
          |>.Perm (r.out ++ piece :: r.buffer ++ rest) := (hinsert.append_left _).append_right _
        _ |>.Perm (piece :: (r.out ++ r.buffer) ++ rest) := List.perm_middle.append_right _
        _ |>.Perm (r.out ++ r.buffer ++ piece :: rest) := List.perm_middle.symm

theorem waiting_init : init.Waiting := ⟨List.Pairwise.nil, nofun⟩

theorem Waiting.arrivals {r : Reorder} (h : r.Waiting) (arrived : List LogPiece) :
    (arrived.foldl Reorder.arrive r).Waiting := by
  induction arrived generalizing r with
  | nil => exact h
  | cons piece rest ih => exact ih (h.arrive piece)

end Reorder

/-- **Nothing else is lost**: whatever is sent by whomever under a name, and in whatever order, the
    server has printed each arrival once, keeps it behind a gap, or has dropped it because another
    one with its number was waiting. -/
theorem arrivals_conserved (arrivals : List (Source × LogPiece)) (source : Source) :
    let s := RLogServiceImpl.run arrivals
    (piecesOf source s.printed ++ s.buffer source ++
        Reorder.dropped .init (piecesOf source arrivals)).Perm (piecesOf source arrivals) ∧
      Ascending (s.buffer source) ∧ ∀ p ∈ s.buffer source, s.done source + 1 < p.msgId := by
  have hconserved := Reorder.conserved Reorder.waiting_init (piecesOf source arrivals)
  have hwaiting := Reorder.waiting_init.arrivals (piecesOf source arrivals)
  rw [← RLogServiceImpl.of_run] at hconserved hwaiting
  exact ⟨hconserved, hwaiting.ascending, hwaiting.behind⟩

/-! ## One session -/

/-- The messages of a session, and the order in which they arrive. -/
structure Session where
  msgs : List (Int32 × List UInt8)
  arrived : List LogPiece
  perm : arrived.Perm (RLog.sent msgs)

/-- The mark after these sessions. -/
def markOf (sessions : List Session) : Int :=
  sessions.foldl (fun mark session => max mark (session.msgs.length - 1)) 0

theorem RLog.sent_ascending (msgs : List (Int32 × List UInt8)) : Ascending (RLog.sent msgs) := by
  have hids : ((RLog.sent msgs).map LogPiece.msgId).Pairwise (· < ·) := by
    rw [RLog.sent_ids, List.pairwise_map]
    exact List.pairwise_lt_range.imp Int.ofNat_lt.mpr
  exact List.pairwise_map.mp hids

namespace Session

variable (session : Session)

theorem ids_nodup : (session.arrived.map LogPiece.msgId).Nodup :=
  (session.perm.map LogPiece.msgId).nodup_iff.mpr (RLog.sent_ids_nodup session.msgs)

theorem mem_ids {i : Int} :
    i ∈ session.arrived.map LogPiece.msgId ↔ 0 ≤ i ∧ i < session.msgs.length := by
  rw [(session.perm.map LogPiece.msgId).mem_iff, RLog.mem_sent_ids]

end Session

/-- A piece in front of all others. -/
theorem insertPiece_front {piece : LogPiece} {buffer : List LogPiece}
    (hlt : ∀ p ∈ buffer, piece.msgId < p.msgId) : insertPiece piece buffer = piece :: buffer := by
  have hnone : ¬ (buffer.any fun p => p.msgId = piece.msgId) = true := by
    simp only [List.any_eq_true, not_exists, not_and, decide_eq_true_eq]
    intro p hp heq
    have := hlt p hp
    omega
  rw [insertPiece, if_neg hnone]
  cases buffer with
  | nil => rfl
  | cons p rest => rw [List.orderedInsert_cons, if_pos (Int.le_of_lt (hlt p (.head _)))]

/-- Nothing in the buffer is next. -/
theorem release_behind {done : Int} {buffer : List LogPiece}
    (hbehind : ∀ p ∈ buffer, done + 1 < p.msgId) : release done buffer = (done, buffer, []) := by
  cases buffer with
  | nil => rfl
  | cons p rest =>
    have hlt := hbehind p (.head _)
    rw [release, if_neg (by omega)]

namespace Reorder

/-- The mark was `mark` when the session began, `out` was printed since then, and `pre` has
    arrived. -/
structure During (mark : Int) (pre out : List LogPiece) (r : Reorder) : Prop where
  waiting : r.Waiting
  mark_le : mark ≤ r.done
  perm : (out ++ r.buffer).Perm pre
  printed : ∀ p ∈ out, p.msgId ≤ r.done
  filled : ∀ i, mark < i → i ≤ r.done → ∃ p ∈ out, p.msgId = i
  /-- numbers up to the mark are not ordered -/
  low : out.filter (fun p => p.msgId ≤ mark) = pre.filter fun p => p.msgId ≤ mark
  high : Ascending (out.filter fun p => mark < p.msgId)

theorem during_start {mark : Int} {out : List LogPiece} : During mark [] [] ⟨mark, [], out⟩ where
  waiting := ⟨List.Pairwise.nil, nofun⟩
  mark_le := le_refl _
  perm := .refl _
  printed := nofun
  filled := fun _ hlt hle => absurd hlt (not_lt.mpr hle)
  low := rfl
  high := List.Pairwise.nil

section Arrive

variable {mark : Int} {pre out : List LogPiece} {r : Reorder} (h : During mark pre out r)
  {piece : LogPiece}

include h

/-- A number up to the mark is printed at once. -/
theorem During.arrive_low (hlow : piece.msgId ≤ mark) :
    r.arrive piece = ⟨r.done, r.buffer, r.out ++ [piece]⟩ ∧
      During mark (pre ++ [piece]) (out ++ [piece]) (r.arrive piece) := by
  have hmark := h.mark_le
  -- nothing in the buffer has a smaller number
  have hfront : insertPiece piece r.buffer = piece :: r.buffer := by
    apply insertPiece_front
    intro p hp
    have hbehind := h.waiting.behind p hp
    omega
  -- the loop prints the piece and stops in front of the buffer
  have hrelease : release r.done (piece :: r.buffer) = (r.done, r.buffer, [piece]) := by
    rw [release, if_pos (by omega), max_eq_left (by omega), release_behind h.waiting.behind]
  have harrive : r.arrive piece = ⟨r.done, r.buffer, r.out ++ [piece]⟩ := by
    rw [Reorder.arrive, hfront, hrelease]
  refine ⟨harrive, ?_⟩
  rw [harrive]
  constructor
  case waiting => exact ⟨h.waiting.ascending, h.waiting.behind⟩
  case mark_le => exact hmark
  case perm =>
    calc out ++ [piece] ++ r.buffer
        |>.Perm (piece :: (out ++ r.buffer)) := by
          rw [List.append_assoc, List.singleton_append]
          exact List.perm_middle
      _ |>.Perm (piece :: pre) := h.perm.cons piece
      _ |>.Perm (pre ++ [piece]) := (List.perm_append_singleton _ _).symm
  case printed =>
    intro p hp
    obtain hp | hp := List.mem_append.mp hp
    · exact h.printed p hp
    · rw [List.mem_singleton.mp hp]
      exact hlow.trans hmark
  case filled =>
    intro i hlt hle
    obtain ⟨p, hp, hpi⟩ := h.filled i hlt hle
    exact ⟨p, List.mem_append_left _ hp, hpi⟩
  case low => rw [List.filter_append, List.filter_append, h.low]
  case high =>
    have hnot : [piece].filter (fun p => mark < p.msgId) = [] := by simp [hlow]
    rw [List.filter_append, hnot, List.append_nil]
    exact h.high

/-- A number above the mark is printed behind those with smaller numbers. -/
theorem During.arrive_high (hhigh : mark < piece.msgId) (hnew : piece.msgId ∉ pre.map LogPiece.msgId) :
    ∃ more, (r.arrive piece).out = r.out ++ more ∧
      During mark (pre ++ [piece]) (out ++ more) (r.arrive piece) := by
  have hmark := h.mark_le
  have hasc := insertPiece_ascending piece h.waiting.ascending
  have hfresh : ∀ p ∈ r.buffer, p.msgId ≠ piece.msgId := by
    intro p hp heq
    exact hnew (heq ▸ List.mem_map_of_mem (h.perm.subset (List.mem_append_right _ hp)))
  obtain ⟨hsplit, hmove, hprinted, hfilled, hbehind⟩ := release_spec hasc r.done
  have harrive : r.arrive piece = ⟨(release r.done (insertPiece piece r.buffer)).1,
      (release r.done (insertPiece piece r.buffer)).2.1,
      r.out ++ (release r.done (insertPiece piece r.buffer)).2.2⟩ := rfl
  generalize release r.done (insertPiece piece r.buffer) = res at *
  obtain ⟨done, buffer, more⟩ := res
  simp only at *
  -- what is printed is the piece, or was in the buffer
  have hmem : ∀ p ∈ more, p = piece ∨ r.done + 1 < p.msgId := by
    intro p hp
    have hp' : p ∈ insertPiece piece r.buffer := hsplit ▸ List.mem_append_left _ hp
    obtain rfl | hp' := List.mem_cons.mp ((insertPiece_perm hfresh).subset hp')
    · exact .inl rfl
    · exact .inr (h.waiting.behind p hp')
  have hmore : ∀ p ∈ more, mark < p.msgId := by
    intro p hp
    obtain rfl | hp := hmem p hp
    · exact hhigh
    · omega
  have hlast : r.done < piece.msgId := by
    -- up to the mark of the server every number was printed
    by_contra hle
    obtain ⟨p, hp, heq⟩ := h.filled piece.msgId hhigh (by omega)
    exact hnew (heq ▸ List.mem_map_of_mem (h.perm.subset (List.mem_append_left _ hp)))
  refine ⟨more, by rw [harrive], ?_⟩
  rw [harrive]
  constructor
  case waiting => exact ⟨(List.pairwise_append.mp (hsplit ▸ hasc)).2.1, hbehind⟩
  case mark_le => exact hmark.trans hmove
  case perm =>
    calc out ++ more ++ buffer
        |>.Perm (out ++ insertPiece piece r.buffer) := by rw [List.append_assoc, hsplit]
      _ |>.Perm (out ++ piece :: r.buffer) := (insertPiece_perm hfresh).append_left _
      _ |>.Perm (piece :: (out ++ r.buffer)) := List.perm_middle
      _ |>.Perm (piece :: pre) := h.perm.cons _
      _ |>.Perm (pre ++ [piece]) := (List.perm_append_singleton _ _).symm
  case printed =>
    intro p hp
    obtain hp | hp := List.mem_append.mp hp
    · exact (h.printed p hp).trans hmove
    · exact hprinted p hp
  case filled =>
    intro i hlt hle
    by_cases hold : i ≤ r.done
    · obtain ⟨p, hp, hpi⟩ := h.filled i hlt hold
      exact ⟨p, List.mem_append_left _ hp, hpi⟩
    · obtain ⟨p, hp, hpi⟩ := hfilled i (by omega) hle
      exact ⟨p, List.mem_append_right _ hp, hpi⟩
  case low =>
    have hnone : more.filter (fun p => p.msgId ≤ mark) = [] := by
      rw [List.filter_eq_nil_iff]
      intro p hp
      simpa using hmore p hp
    have hpiece : [piece].filter (fun p => p.msgId ≤ mark) = [] := by simp [hhigh]
    rw [List.filter_append, List.filter_append, hnone, hpiece, h.low]
  case high =>
    have hall : more.filter (fun p => mark < p.msgId) = more :=
      List.filter_eq_self.mpr fun p hp => decide_eq_true (hmore p hp)
    rw [List.filter_append, hall]
    refine List.pairwise_append.mpr ⟨h.high, (List.pairwise_append.mp (hsplit ▸ hasc)).1, ?_⟩
    intro p hp q hq
    have hple := h.printed p (List.mem_filter.mp hp).1
    obtain rfl | hq := hmem q hq
    · omega
    · omega

/-- **One arrival** of a session. -/
theorem During.arrive (hnew : piece.msgId ∉ pre.map LogPiece.msgId) :
    ∃ more, (r.arrive piece).out = r.out ++ more ∧
      During mark (pre ++ [piece]) (out ++ more) (r.arrive piece) := by
  by_cases hle : piece.msgId ≤ mark
  · obtain ⟨harrive, hduring⟩ := h.arrive_low hle
    exact ⟨[piece], by rw [harrive], hduring⟩
  · exact h.arrive_high (by omega) hnew

end Arrive

/-- The arrivals of a session, one after the other. -/
theorem during_arrivals (mark : Int) (start : List LogPiece) {pre : List LogPiece}
    (hnodup : (pre.map LogPiece.msgId).Nodup) :
    ∃ out, (pre.foldl arrive ⟨mark, [], start⟩).out = start ++ out ∧
      During mark pre out (pre.foldl arrive ⟨mark, [], start⟩) := by
  induction pre using List.reverseRecOn with
  | nil => exact ⟨[], (List.append_nil _).symm, during_start⟩
  | append_singleton pre piece ih =>
    rw [List.map_append, List.map_singleton, List.nodup_append] at hnodup
    obtain ⟨hrest, -, hdisj⟩ := hnodup
    obtain ⟨out, hout, hduring⟩ := ih hrest
    have hnew : piece.msgId ∉ pre.map LogPiece.msgId := by
      intro hmem
      exact hdisj _ hmem _ (List.mem_singleton.mpr rfl) rfl
    obtain ⟨more, hmore, hafter⟩ := hduring.arrive hnew
    rw [List.foldl_append, List.foldl_cons, List.foldl_nil]
    exact ⟨out ++ more, by rw [hmore, hout, List.append_assoc], hafter⟩

/-- What a whole session does to a buffer that is empty. -/
structure After (mark : Int) (session : Session) (start out : List LogPiece) (r : Reorder) :
    Prop where
  eq : r = ⟨max mark (session.msgs.length - 1), [], start ++ out⟩
  perm : out.Perm session.arrived
  low : out.filter (fun p => p.msgId ≤ mark) = session.arrived.filter fun p => p.msgId ≤ mark
  high : out.filter (fun p => mark < p.msgId) =
    (RLog.sent session.msgs).filter fun p => mark < p.msgId

section Complete

variable {mark : Int} {session : Session} {out : List LogPiece} {r : Reorder}
  (h : During mark session.arrived out r)

include h

/-- A number of the session is printed, or it is behind the next one. -/
theorem During.printed_or_behind {i : Int} (hi : 0 ≤ i ∧ i < session.msgs.length) :
    i ≤ r.done ∨ r.done + 1 < i := by
  obtain ⟨p, hp, rfl⟩ := List.mem_map.mp (session.mem_ids.mpr hi)
  obtain hp | hp := List.mem_append.mp (h.perm.symm.subset hp)
  · exact .inl (h.printed p hp)
  · exact .inr (h.waiting.behind p hp)

theorem During.in_session {p : LogPiece} (hp : p ∈ out ++ r.buffer) :
    p.msgId < session.msgs.length :=
  (session.mem_ids.mp (List.mem_map_of_mem (h.perm.subset hp))).2

variable (hmark : 0 ≤ mark)

include hmark

/-- All numbers of the session are below the next one. -/
theorem During.length_le : (session.msgs.length : Int) ≤ r.done + 1 := by
  have hle := h.mark_le
  by_contra hlt
  obtain hin | hin := h.printed_or_behind (i := r.done + 1) ⟨by omega, by omega⟩
  · omega
  · omega

theorem During.buffer_eq : r.buffer = [] := by
  rw [List.eq_nil_iff_forall_not_mem]
  intro p hp
  have hbehind := h.waiting.behind p hp
  have hlt := h.in_session (List.mem_append_right _ hp)
  have hlength := h.length_le hmark
  omega

theorem During.done_eq : r.done = max mark (session.msgs.length - 1) := by
  have hle := h.mark_le
  have hlength := h.length_le hmark
  by_cases heq : r.done = mark
  · omega
  · -- the mark has moved to a number that was printed
    obtain ⟨p, hp, hpi⟩ := h.filled r.done (by omega) (le_refl _)
    have hlt := h.in_session (List.mem_append_left _ hp)
    omega

theorem During.after {start : List LogPiece} (hout : r.out = start ++ out) :
    After mark session start out r := by
  have hbuffer := h.buffer_eq hmark
  have hperm : out.Perm session.arrived := by simpa [hbuffer] using h.perm
  refine ⟨?_, hperm, h.low, ?_⟩
  · rw [← h.done_eq hmark, ← hout, ← hbuffer]
  · have hsent := (RLog.sent_ascending session.msgs).filter fun p => decide (mark < p.msgId)
    refine ((hperm.trans session.perm).filter _).eq_of_pairwise ?_ h.high hsent
    intro p q _ _ hpq hqp
    exact absurd hpq (not_lt.mpr (Int.le_of_lt hqp))

end Complete

/-- **One session** from an empty buffer. -/
theorem after_session {mark : Int} (hmark : 0 ≤ mark) (session : Session) (start : List LogPiece) :
    ∃ out, After mark session start out (session.arrived.foldl arrive ⟨mark, [], start⟩) := by
  obtain ⟨out, hout, hduring⟩ := during_arrivals mark start session.ids_nodup
  exact ⟨out, hduring.after hmark hout⟩

theorem markOf_concat (sessions : List Session) (session : Session) :
    markOf (sessions ++ [session]) = max (markOf sessions) (session.msgs.length - 1) := by
  rw [markOf, List.foldl_append, List.foldl_cons, List.foldl_nil, ← markOf]

theorem markOf_nonneg (sessions : List Session) : 0 ≤ markOf sessions := by
  induction sessions using List.reverseRecOn with
  | nil => exact le_refl _
  | append_singleton sessions session ih =>
    rw [markOf_concat]
    omega

/-- A session leaves the mark behind its last message. -/
theorem length_le_markOf {sessions : List Session} {session : Session} (h : session ∈ sessions) :
    (session.msgs.length : Int) - 1 ≤ markOf sessions := by
  induction sessions using List.reverseRecOn with
  | nil => cases h
  | append_singleton sessions last ih =>
    rw [markOf_concat]
    obtain h | h := List.mem_append.mp h
    · have hle := ih h
      omega
    · rw [List.mem_singleton.mp h]
      omega

/-- **Sessions, one after the other**: all are printed, and the mark is behind the longest. -/
theorem after_sessions (sessions : List Session) :
    ∃ out, (sessions.flatMap Session.arrived).foldl arrive init = ⟨markOf sessions, [], out⟩ ∧
      out.Perm (sessions.flatMap Session.arrived) := by
  induction sessions using List.reverseRecOn with
  | nil => exact ⟨[], rfl, .refl _⟩
  | append_singleton sessions session ih =>
    obtain ⟨start, hstart, hperm⟩ := ih
    obtain ⟨out, hafter⟩ := after_session (markOf_nonneg sessions) session start
    rw [List.flatMap_append, List.flatMap_singleton, List.foldl_append, hstart, markOf_concat]
    exact ⟨start ++ out, hafter.eq, hperm.append hafter.perm⟩

end Reorder

/-- The server before and after a session. -/
theorem RLogServiceImpl.of_run_session {earlier : List Session} {session : Session}
    {before after : List (Source × LogPiece)} {source : Source}
    (hbefore : piecesOf source before = earlier.flatMap Session.arrived)
    (hafter : piecesOf source after = session.arrived) :
    ∃ out, Reorder.After (markOf earlier) session (piecesOf source (run before).printed) out
      ((run (before ++ after)).of source) := by
  obtain ⟨start, hstart, -⟩ := Reorder.after_sessions earlier
  obtain ⟨out, hout⟩ := Reorder.after_session (Reorder.markOf_nonneg earlier) session start
  have hof := of_run before source
  rw [hbefore, hstart] at hof
  have hprinted : piecesOf source (run before).printed = start := congrArg Reorder.out hof
  rw [hprinted, of_run, piecesOf_append, List.foldl_append, hbefore, hafter, hstart]
  exact ⟨out, hout⟩

/-- **A session in a name**: after the earlier sessions, whatever the order of its messages and
    whatever arrives from other sources in between, each message is printed once; those with
    numbers up to the longest earlier session in the order of their arrival, the others in the order
    of their numbers. -/
theorem session_printed (earlier : List Session) (session : Session)
    (before after : List (Source × LogPiece)) (source : Source)
    (hbefore : piecesOf source before = earlier.flatMap Session.arrived)
    (hafter : piecesOf source after = session.arrived) :
    ∃ out, piecesOf source (RLogServiceImpl.run (before ++ after)).printed =
        piecesOf source (RLogServiceImpl.run before).printed ++ out ∧
      out.Perm (RLog.sent session.msgs) ∧
      out.filter (fun p => p.msgId ≤ markOf earlier) =
        session.arrived.filter (fun p => p.msgId ≤ markOf earlier) ∧
      out.filter (fun p => markOf earlier < p.msgId) =
        (RLog.sent session.msgs).filter (fun p => markOf earlier < p.msgId) ∧
      (RLogServiceImpl.run (before ++ after)).buffer source = [] := by
  obtain ⟨out, hout⟩ := RLogServiceImpl.of_run_session hbefore hafter
  refine ⟨out, congrArg Reorder.out hout.eq, hout.perm.trans session.perm, hout.low, hout.high, ?_⟩
  exact congrArg Reorder.buffer hout.eq

/-- **The buffer serves one session**: a session with at most as many messages as an earlier one
    under its name is printed in the order in which it arrives. -/
theorem later_session_unordered (earlier : List Session) (session : Session)
    (before after : List (Source × LogPiece)) (source : Source)
    (hbefore : piecesOf source before = earlier.flatMap Session.arrived)
    (hafter : piecesOf source after = session.arrived)
    (hlonger : ∃ σ ∈ earlier, session.msgs.length ≤ σ.msgs.length) :
    piecesOf source (RLogServiceImpl.run (before ++ after)).printed =
      piecesOf source (RLogServiceImpl.run before).printed ++ session.arrived := by
  obtain ⟨out, hout⟩ := RLogServiceImpl.of_run_session hbefore hafter
  obtain ⟨σ, hσ, hlength⟩ := hlonger
  have hmark := Reorder.length_le_markOf hσ
  have hlow : ∀ p ∈ session.arrived, p.msgId ≤ markOf earlier := by
    intro p hp
    have hid := session.mem_ids.mp (List.mem_map_of_mem hp)
    omega
  have harrived : session.arrived.filter (fun p => p.msgId ≤ markOf earlier) = session.arrived :=
    List.filter_eq_self.mpr fun p hp => decide_eq_true (hlow p hp)
  have hall : out.filter (fun p => p.msgId ≤ markOf earlier) = out :=
    List.filter_eq_self.mpr fun p hp => decide_eq_true (hlow p (hout.perm.subset hp))
  have heq : out = session.arrived := by rw [← hall, hout.low, harrived]
  rw [← heq]
  exact congrArg Reorder.out hout.eq

/-- A session of two messages, and one of four that arrives backwards. -/
theorem session_printed_four :
    ∃ out, piecesOf [65] (RLogServiceImpl.run (([⟨0, 0, []⟩, ⟨1, 0, []⟩, ⟨3, 0, []⟩, ⟨2, 0, []⟩,
        ⟨1, 0, []⟩, ⟨0, 0, []⟩] : List LogPiece).map fun p => ([65], p))).printed =
          [⟨0, 0, []⟩, ⟨1, 0, []⟩] ++ out ∧
      out.filter (fun p => 1 < p.msgId) = [⟨2, 0, []⟩, ⟨3, 0, []⟩] := by
  obtain ⟨out, hprinted, -, -, hhigh, -⟩ := session_printed
    [⟨[(0, []), (0, [])], [⟨0, 0, []⟩, ⟨1, 0, []⟩], by decide⟩]
    ⟨[(0, []), (0, []), (0, []), (0, [])], [⟨3, 0, []⟩, ⟨2, 0, []⟩, ⟨1, 0, []⟩, ⟨0, 0, []⟩],
      by decide⟩
    [([65], ⟨0, 0, []⟩), ([65], ⟨1, 0, []⟩)]
    [([65], ⟨3, 0, []⟩), ([65], ⟨2, 0, []⟩), ([65], ⟨1, 0, []⟩), ([65], ⟨0, 0, []⟩)] [65]
    (by decide) (by decide)
  exact ⟨out, hprinted, hhigh⟩

/-- Two messages, and two that overtake each other. -/
example :
    piecesOf [65] (RLogServiceImpl.run [([65], ⟨0, 0, []⟩), ([65], ⟨1, 0, []⟩), ([65], ⟨1, 0, []⟩),
      ([65], ⟨0, 0, []⟩)]).printed = [⟨0, 0, []⟩, ⟨1, 0, []⟩, ⟨1, 0, []⟩, ⟨0, 0, []⟩] :=
  later_session_unordered [⟨[(0, []), (0, [])], [⟨0, 0, []⟩, ⟨1, 0, []⟩], by decide⟩]
    ⟨[(0, []), (0, [])], [⟨1, 0, []⟩, ⟨0, 0, []⟩], by decide⟩
    [([65], ⟨0, 0, []⟩), ([65], ⟨1, 0, []⟩)] [([65], ⟨1, 0, []⟩), ([65], ⟨0, 0, []⟩)] [65]
    (by decide) (by decide) ⟨_, .head _, by decide⟩

/-! ## From the clients to the screen -/

/-- What a client has sent under a name is a session. -/
theorem Session.of_client {calls : List RLogCall} {c : Nat} {source : Source}
    {arrived : List LogPiece}
    (h : (arrived.map fun p => (some source, p)).Perm ((RLogStatic.run calls).sentBy c)) :
    ∃ session : Session, session.arrived = arrived := by
  obtain ⟨ident, msgs, hsent, -⟩ := (RLogStatic.inv_run calls).sessions c
  have hpieces := h.map Prod.snd
  rw [hsent, List.map_map, List.map_map] at hpieces
  exact ⟨⟨msgs, arrived, by simpa [Function.comp_def] using hpieces⟩, rfl⟩

theorem Session.of_clients {calls : List RLogCall} {source : Source}
    (clients : List (Nat × List LogPiece))
    (h : ∀ σ ∈ clients,
      (σ.2.map fun p => (some source, p)).Perm ((RLogStatic.run calls).sentBy σ.1)) :
    ∃ sessions : List Session,
      sessions.flatMap Session.arrived = clients.flatMap Prod.snd := by
  induction clients with
  | nil => exact ⟨[], rfl⟩
  | cons σ clients ih =>
    obtain ⟨sessions, hsessions⟩ := ih fun σ hσ => h σ (.tail _ hσ)
    obtain ⟨session, hsession⟩ := of_client (h σ (.head _))
    refine ⟨session :: sessions, ?_⟩
    rw [List.flatMap_cons, List.flatMap_cons, hsession, hsessions]

/-- **From `log` to the screen**: whatever calls a program makes of the log client, if what its
    clients have sent under a name arrives, one session after the other and each in any order, the
    server prints all of it once and keeps nothing. -/
theorem clients_printed (calls : List RLogCall) (source : Source)
    (clients : List (Nat × List LogPiece)) (arrivals : List (Source × LogPiece))
    (hsent : ∀ σ ∈ clients,
      (σ.2.map fun p => (some source, p)).Perm ((RLogStatic.run calls).sentBy σ.1))
    (harrived : piecesOf source arrivals = clients.flatMap Prod.snd) :
    let s := RLogServiceImpl.run arrivals
    (piecesOf source s.printed).Perm (clients.flatMap Prod.snd) ∧ s.buffer source = [] := by
  obtain ⟨sessions, hsessions⟩ := Session.of_clients clients hsent
  obtain ⟨out, hout, hperm⟩ := Reorder.after_sessions sessions
  have hof := RLogServiceImpl.of_run arrivals source
  rw [harrived, ← hsessions, hout] at hof
  have hprinted : piecesOf source (RLogServiceImpl.run arrivals).printed = out :=
    congrArg Reorder.out hof
  refine ⟨?_, congrArg Reorder.buffer hof⟩
  rw [hprinted, ← hsessions]
  exact hperm

/-- Two sessions under one name, the second in the wrong order. -/
theorem clients_printed_twice :
    (RLogServiceImpl.run [([65], ⟨1, 3, [2]⟩), ([65], ⟨0, 3, [1]⟩), ([65], ⟨0, 3, [3]⟩)]).buffer [65] =
      [] :=
  (clients_printed [.init [65] true, .logV 3 [1] true, .logV 3 [2] true, .finalize, .init [65] true,
      .logV 3 [3] true] [65] [(0, [⟨1, 3, [2]⟩, ⟨0, 3, [1]⟩]), (1, [⟨0, 3, [3]⟩])] _
    (by decide) (by decide)).2

end SimpleRpc.Rlog
