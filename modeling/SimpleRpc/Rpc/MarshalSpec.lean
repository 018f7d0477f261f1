import SimpleRpc.Rpc.Marshal

/-!
# What the Marshal Operations Do to the Queued Cells

One specification for each operation of `SimpleRpc.Rpc.Marshal`, in terms of the list of
chunks behind `head_` and of the heap cells they still have to deliver.

## Structure

- `ChunksOk`: the representation invariant on the list of chunks
- `Grows`: the effect of an operation that fills cells behind `tail_`
- `Drops`: the effect of an operation that consumes from `head_`
- `Moves`: the effect of `read_from_marshal`, which does both
- `Marshal.Ok`: a Marshal that represents a list of chunks with a correct size

Cells, not bytes, are what the specifications talk about: a byte of one Marshal changes only
when somebody stores into its cell, so the sharing of arrays is visible here and is resolved
in `SimpleRpc.Rpc.World`.
-/

namespace SimpleRpc.Rpc

open SimpleRpc.Lib

/-! ## Lists of chunks -/

/-- The cells still to be delivered, from `head_` on. -/
def cells (cs : List Chunk) : List Cell := cs.flatMap Chunk.cells

/-- The cells behind the window of the last chunk. -/
def room (h : Heap) (cs : List Chunk) : List Cell :=
  match cs.getLast? with
  | none => []
  | some t => t.room h

/-- Cells that an append may fill: the room of the last chunk and arrays still to be made. -/
def Free (h : Heap) (cs : List Chunk) (c : Cell) : Prop := c ∈ room h cs ∨ h.next ≤ c.1

/-- The representation invariant: every chunk is a proper window and not fully read, and all
    but the last are fully written. -/
structure ChunksOk (h : Heap) (cs : List Chunk) : Prop where
  ok : ∀ c ∈ cs, c.Ok h
  full : ∀ c ∈ cs.dropLast, c.fullyWritten h

@[simp] theorem cells_nil : cells [] = [] := rfl

@[simp] theorem cells_cons (c : Chunk) (cs : List Chunk) : cells (c :: cs) = c.cells ++ cells cs := by
  simp [cells]

@[simp] theorem cells_append (cs ds : List Chunk) : cells (cs ++ ds) = cells cs ++ cells ds := by
  simp [cells]

@[simp] theorem room_nil (h : Heap) : room h [] = [] := rfl

@[simp] theorem room_concat (h : Heap) (cs : List Chunk) (t : Chunk) :
    room h (cs ++ [t]) = t.room h := by
  simp [room]

theorem room_cons_cons (h : Heap) (c d : Chunk) (cs : List Chunk) :
    room h (c :: d :: cs) = room h (d :: cs) := by
  simp [room, List.getLast?_cons_cons]

theorem chunksOk_nil (h : Heap) : ChunksOk h [] := ⟨by simp, by simp⟩

theorem chunksOk_concat {h : Heap} {cs : List Chunk} {t : Chunk} :
    ChunksOk h (cs ++ [t]) ↔ (∀ c ∈ cs, c.Ok h ∧ c.fullyWritten h) ∧ t.Ok h := by
  constructor
  · intro hok
    refine ⟨fun c hc => ⟨hok.ok c (List.mem_append_left _ hc), hok.full c ?_⟩, hok.ok t (by simp)⟩
    rwa [List.dropLast_concat]
  · rintro ⟨hcs, ht⟩
    refine ⟨fun c hc => ?_, fun c hc => ?_⟩
    · rcases List.mem_append.mp hc with hc | hc
      · exact (hcs c hc).1
      · rw [List.mem_singleton.mp hc]
        exact ht
    · rw [List.dropLast_concat] at hc
      exact (hcs c hc).2

/-- When the last chunk is full, all chunks are. -/
theorem ChunksOk.full_of_tail {h : Heap} {cs : List Chunk} {t : Chunk} (hok : ChunksOk h (cs ++ [t]))
    (ht : t.fullyWritten h) : ∀ c ∈ cs ++ [t], c.fullyWritten h := by
  intro c hc
  rcases List.mem_append.mp hc with hc | hc
  · exact ((chunksOk_concat.mp hok).1 c hc).2
  · rw [List.mem_singleton.mp hc]
    exact ht

theorem ChunksOk.tail {h : Heap} {c : Chunk} {cs : List Chunk} (hok : ChunksOk h (c :: cs)) :
    ChunksOk h cs := by
  refine ⟨fun d hd => hok.ok d (List.mem_cons_of_mem _ hd), fun d hd => hok.full d ?_⟩
  cases cs with
  | nil => simp at hd
  | cons e cs =>
    rw [List.dropLast_cons_cons]
    exact List.mem_cons_of_mem _ hd

theorem ChunksOk.head_full {h : Heap} {c d : Chunk} {cs : List Chunk}
    (hok : ChunksOk h (c :: d :: cs)) : c.fullyWritten h :=
  hok.full c (by rw [List.dropLast_cons_cons]; exact List.mem_cons_self ..)

theorem ChunksOk.replace_head {h : Heap} {c c' : Chunk} {cs : List Chunk}
    (hok : ChunksOk h (c :: cs)) (hc' : c'.Ok h) (hfull : c.fullyWritten h → c'.fullyWritten h) :
    ChunksOk h (c' :: cs) := by
  refine ⟨fun d hd => ?_, fun d hd => ?_⟩
  · rcases List.mem_cons.mp hd with rfl | hd
    · exact hc'
    · exact hok.tail.ok d hd
  · cases cs with
    | nil => simp at hd
    | cons e cs =>
      rw [List.dropLast_cons_cons] at hd
      rcases List.mem_cons.mp hd with rfl | hd
      · exact hfull hok.head_full
      · exact hok.full d (by rw [List.dropLast_cons_cons]; exact List.mem_cons_of_mem _ hd)

/-- The invariant only depends on the sizes of the arrays. -/
theorem ChunksOk.mono {h h' : Heap} {cs : List Chunk} {ds : List Cell} {p : List UInt8}
    (hok : ChunksOk h cs) (hs : h.Stores h' ds p) : ChunksOk h' cs := by
  refine ⟨fun c hc => (hok.ok c hc).mono hs, fun c hc => ?_⟩
  have hmem : c ∈ cs := List.mem_of_mem_dropLast hc
  rw [Chunk.fullyWritten, hs.size_eq c.data (hok.ok c hmem).alloc]
  exact hok.full c hc

theorem ChunksOk.room_eq {h h' : Heap} {cs : List Chunk} {ds : List Cell} {p : List UInt8}
    (hok : ChunksOk h cs) (hs : h.Stores h' ds p) : room h' cs = room h cs := by
  cases cs using List.reverseRecOn with
  | nil => rfl
  | append_singleton cs t =>
    rw [room_concat, room_concat, Chunk.room, Chunk.room,
      hs.size_eq t.data (hok.ok t (by simp)).alloc]

theorem ChunksOk.cell_lt {h : Heap} {cs : List Chunk} (hok : ChunksOk h cs) {c : Cell}
    (hc : c ∈ cells cs) : c.1 < h.next := by
  obtain ⟨d, hd, hc⟩ := List.mem_flatMap.mp hc
  rw [Chunk.cells, mem_cellsAt] at hc
  rw [hc.1]
  exact (hok.ok d hd).alloc

theorem ChunksOk.room_lt {h : Heap} {cs : List Chunk} (hok : ChunksOk h cs) {c : Cell}
    (hc : c ∈ room h cs) : c.1 < h.next := by
  cases cs using List.reverseRecOn with
  | nil => simp at hc
  | append_singleton cs t =>
    rw [room_concat, Chunk.room, mem_cellsAt] at hc
    rw [hc.1]
    exact (hok.ok t (by simp)).alloc

/-- Only the last chunk can be empty. -/
theorem ChunksOk.nil_of_empty_head {h : Heap} {c : Chunk} {cs : List Chunk}
    (hok : ChunksOk h (c :: cs)) (hempty : c.contentSize = 0) : cs = [] := by
  cases cs with
  | nil => rfl
  | cons d cs =>
    have hfull : c.writeIdx = h.size c.data := hok.head_full
    have hread := (hok.ok c (List.mem_cons_self ..)).not_read
    unfold Chunk.contentSize at hempty
    omega

/-! ## Growing at the tail -/

/-- `cs'` is `cs` with the cells `new` appended, into which the bytes `p` were stored. The
    new cells come from the room of `cs` or from new arrays, and so does the room left. -/
structure Grows (h : Heap) (cs : List Chunk) (h' : Heap) (cs' : List Chunk) (new : List Cell)
    (p : List UInt8) : Prop where
  ok : ChunksOk h' cs'
  stores : h.Stores h' new p
  cells_eq : cells cs' = cells cs ++ new
  nodup : new.Nodup
  origin : ∀ c ∈ new, Free h cs c
  room_sub : ∀ c ∈ room h' cs', Free h cs c ∧ c ∉ new

theorem Grows.refl {h : Heap} {cs : List Chunk} (hok : ChunksOk h cs) : Grows h cs h cs [] [] where
  ok := hok
  stores := Heap.Stores.refl h
  cells_eq := by simp
  nodup := List.nodup_nil
  origin := fun _ hc => nomatch hc
  room_sub := fun _ hc => ⟨.inl hc, by simp⟩

theorem Grows.new_lt {h h' : Heap} {cs cs' : List Chunk} {new : List Cell} {p : List UInt8}
    (hg : Grows h cs h' cs' new p) {c : Cell} (hc : c ∈ new) : c.1 < h'.next :=
  hg.ok.cell_lt (by rw [hg.cells_eq]; exact List.mem_append_right _ hc)

theorem Grows.length_eq {h h' : Heap} {cs cs' : List Chunk} {new : List Cell} {p : List UInt8}
    (hg : Grows h cs h' cs' new p) : new.length = p.length := by
  rw [← hg.stores.stored, List.length_map]

theorem Grows.free_mono {h h' : Heap} {cs cs' : List Chunk} {new : List Cell} {p : List UInt8}
    (hg : Grows h cs h' cs' new p) {c : Cell} (hc : Free h' cs' c) : Free h cs c ∧ c ∉ new := by
  rcases hc with hc | hc
  · exact hg.room_sub c hc
  · exact ⟨.inr (Nat.le_trans hg.stores.next_le hc),
      fun hmem => Nat.not_lt.mpr hc (hg.new_lt hmem)⟩

theorem Grows.trans {h h' h'' : Heap} {cs cs' cs'' : List Chunk} {new new' : List Cell}
    {p p' : List UInt8} (h₁ : Grows h cs h' cs' new p) (h₂ : Grows h' cs' h'' cs'' new' p') :
    Grows h cs h'' cs'' (new ++ new') (p ++ p') := by
  have hdisj : new.Disjoint new' := fun c hc hc' => (h₁.free_mono (h₂.origin c hc')).2 hc
  refine ⟨h₂.ok, h₁.stores.trans h₂.stores hdisj, ?_, ?_, ?_, ?_⟩
  · rw [h₂.cells_eq, h₁.cells_eq, List.append_assoc]
  · exact List.nodup_append.mpr ⟨h₁.nodup, h₂.nodup, fun a ha b hb hab => hdisj ha (hab ▸ hb)⟩
  · intro c hc
    rcases List.mem_append.mp hc with hc | hc
    · exact h₁.origin c hc
    · exact (h₁.free_mono (h₂.origin c hc)).1
  · intro c hc
    obtain ⟨hfree, hnot⟩ := h₂.room_sub c hc
    obtain ⟨hfree', hnot'⟩ := h₁.free_mono hfree
    exact ⟨hfree', by simp [hnot, hnot']⟩

/-- A new, empty array behind fully written chunks. -/
theorem grows_new {h : Heap} {cs : List Chunk} (hok : ChunksOk h cs)
    (hfull : ∀ c ∈ cs, c.fullyWritten h) :
    Grows h cs (Chunk.new h).1 (cs ++ [(Chunk.new h).2]) [] [] := by
  have hs : h.Stores (Chunk.new h).1 [] [] := h.rawBytes_stores minSize
  have hsize : (Chunk.new h).1.size h.next = minSize := by simp [Chunk.new, Heap.rawBytes]
  refine ⟨chunksOk_concat.mpr ⟨fun c hc => ⟨(hok.ok c hc).mono hs, ?_⟩, ?_⟩, hs, ?_,
    List.nodup_nil, by simp, ?_⟩
  · rw [Chunk.fullyWritten, hs.size_eq c.data (hok.ok c hc).alloc]
    exact hfull c hc
  · refine ⟨Nat.le_refl _, Nat.zero_le _, ?_, Nat.lt_succ_self _⟩
    rw [show (Chunk.new h).2.data = h.next from rfl, hsize]
    exact minSize_pos
  · simp [Chunk.new, Chunk.cells]
  · intro c hc
    rw [room_concat, Chunk.room, mem_cellsAt] at hc
    exact ⟨.inr (Nat.le_of_eq hc.1.symm), by simp⟩

/-- A new array that already holds bytes, behind fully written chunks. -/
theorem grows_ofBytes {h : Heap} {cs : List Chunk} (hok : ChunksOk h cs)
    (hfull : ∀ c ∈ cs, c.fullyWritten h) (p : List UInt8) :
    Grows h cs (Chunk.ofBytes h p).1 (cs ++ [(Chunk.ofBytes h p).2]) (cellsAt h.next 0 p.length) p := by
  have hs : h.Stores (Chunk.ofBytes h p).1 (cellsAt h.next 0 p.length) p :=
    (h.rawBytes_stores p.length).trans ((h.rawBytes p.length).1.memcpy_stores h.next 0 p) (by simp)
  have hsize : (Chunk.ofBytes h p).1.size h.next = max p.length minSize := by
    simp [Chunk.ofBytes, Heap.rawBytesOf, Heap.rawBytes, Heap.memcpy]
  refine ⟨chunksOk_concat.mpr ⟨fun c hc => ⟨(hok.ok c hc).mono hs, ?_⟩, ?_⟩, hs, ?_,
    cellsAt_nodup .., ?_, ?_⟩
  · -- the chunks before are full
    rw [Chunk.fullyWritten, hs.size_eq c.data (hok.ok c hc).alloc]
    exact hfull c hc
  · -- the new chunk is well formed
    have hdata : (Chunk.ofBytes h p).2.data = h.next := rfl
    refine ⟨Nat.zero_le _, ?_, ?_, Nat.lt_succ_self _⟩
    · rw [hdata, hsize]
      exact Nat.le_max_left ..
    · rw [hdata, hsize]
      exact Nat.lt_of_lt_of_le minSize_pos (Nat.le_max_right ..)
  · -- its cells go behind the others
    rw [cells_append]
    simp [Chunk.ofBytes, Heap.rawBytesOf, Heap.rawBytes, Chunk.cells]
  · -- they are new
    intro c hc
    rw [mem_cellsAt] at hc
    exact .inr (Nat.le_of_eq hc.1.symm)
  · -- what is left of the array is room
    intro c hc
    rw [room_concat, Chunk.room, mem_cellsAt] at hc
    refine ⟨.inr (Nat.le_of_eq hc.1.symm), ?_⟩
    rw [mem_cellsAt]
    rintro ⟨-, -, hlt⟩
    have hge : p.length ≤ c.2 := hc.2.1
    omega

/-- The last chunk takes `n` more cells, into which `p` was stored; when nothing was stored
    yet (a bookmark), `p` is what these cells happen to hold. -/
theorem grows_extend {h h' : Heap} {cs : List Chunk} {t : Chunk} (hok : ChunksOk h (cs ++ [t]))
    {n : Nat} (hn : n ≤ h.size t.data - t.writeIdx) {p : List UInt8}
    (hs : h.Stores h' ((t.room h).take n) p) :
    Grows h (cs ++ [t]) h' (cs ++ [{ t with writeIdx := t.writeIdx + n }]) ((t.room h).take n) p := by
  obtain ⟨hcs, ht⟩ := chunksOk_concat.mp hok
  have hsize := hs.size_eq t.data ht.alloc
  have hw := ht.write_le
  have hr := ht.read_le
  refine ⟨chunksOk_concat.mpr ⟨fun c hc => ⟨(hcs c hc).1.mono hs, ?_⟩, ?_⟩, hs, ?_, ?_, ?_, ?_⟩
  · rw [Chunk.fullyWritten, hs.size_eq c.data (hcs c hc).1.alloc]
    exact (hcs c hc).2
  · refine ⟨?_, ?_, hsize ▸ ht.not_read, Nat.lt_of_lt_of_le ht.alloc hs.next_le⟩
    · simp only
      omega
    · simp only [hsize]
      omega
  · simp [t.cells_extend ht hn]
  · exact (cellsAt_nodup ..).sublist (List.take_sublist ..)
  · intro c hc
    exact .inl (by rw [room_concat]; exact List.mem_of_mem_take hc)
  · intro c hc
    rw [room_concat, Chunk.room, hsize, ← Chunk.room, t.room_extend hn] at hc
    refine ⟨.inl (by rw [room_concat]; exact List.mem_of_mem_drop hc), fun hmem => ?_⟩
    exact List.disjoint_take_drop (cellsAt_nodup ..) (Nat.le_refl n) hmem hc

/-! ## Consuming at the head -/

/-- `cs'` is `cs` without its first `n` cells; the room is the same or was given up. -/
structure Drops (h : Heap) (cs cs' : List Chunk) (n : Nat) : Prop where
  ok : ChunksOk h cs'
  cells_eq : cells cs' = (cells cs).drop n
  room_sub : ∀ c ∈ room h cs', c ∈ room h cs

theorem Drops.refl {h : Heap} {cs : List Chunk} (hok : ChunksOk h cs) : Drops h cs cs 0 :=
  ⟨hok, by simp, fun _ hc => hc⟩

theorem Drops.trans {h : Heap} {cs cs' cs'' : List Chunk} {m n : Nat} (h₁ : Drops h cs cs' m)
    (h₂ : Drops h cs' cs'' n) : Drops h cs cs'' (m + n) :=
  ⟨h₂.ok, by rw [h₂.cells_eq, h₁.cells_eq, List.drop_drop],
    fun c hc => h₁.room_sub c (h₂.room_sub c hc)⟩

theorem Drops.mono {h h' : Heap} {cs cs' : List Chunk} {n : Nat} {ds : List Cell} {p : List UInt8}
    (hd : Drops h cs cs' n) (hok : ChunksOk h cs) (hs : h.Stores h' ds p) : Drops h' cs cs' n := by
  refine ⟨hd.ok.mono hs, hd.cells_eq, fun c hc => ?_⟩
  rw [hd.ok.room_eq hs] at hc
  rw [hok.room_eq hs]
  exact hd.room_sub c hc

/-- Giving up the head chunk once everything in it is consumed, or keeping it advanced. -/
theorem advanceHead_spec {h : Heap} {q : LinkedQueue Chunk} {c : Chunk} {cs : List Chunk}
    (hq : q.Rep (c :: cs)) (hok : ChunksOk h (c :: cs)) {n : Nat} (hn : n ≤ c.contentSize) :
    ∃ q' cs', Marshal.advanceHead h q { c with readIdx := c.readIdx + n } = .ok q' ∧
      q'.Rep cs' ∧ Drops h (c :: cs) cs' n := by
  have hc := hok.ok c (List.mem_cons_self ..)
  have hread := hc.read_le
  have hwrite := hc.write_le
  obtain ⟨q₁, hset, hq₁⟩ := hq.setHead { c with readIdx := c.readIdx + n }
  unfold Chunk.contentSize at hn
  by_cases hfull : c.readIdx + n = h.size c.data
  · -- the chunk is fully read, hence fully written and fully consumed
    obtain ⟨q₂, hpop, hq₂⟩ := hq₁.popHead
    refine ⟨q₂, cs, ?_, hq₂, hok.tail, ?_, ?_⟩
    · rw [Marshal.advanceHead, hset, deref_some, ok_bind, if_pos, hpop, deref_some]
      exact hfull
    · have hlen : c.cells.length = n := by
        rw [c.cells_length, Chunk.contentSize]
        omega
      rw [cells_cons, List.drop_append_of_le_length (by omega), List.drop_of_length_le (by omega),
        List.nil_append]
    · intro d hd
      cases cs with
      | nil => simp at hd
      | cons e cs => rwa [room_cons_cons]
  · -- the chunk stays, its reading index moves on
    refine ⟨q₁, _, ?_, hq₁, hok.replace_head ⟨?_, hwrite, ?_, hc.alloc⟩ id, ?_, ?_⟩
    · simp [Marshal.advanceHead, hset, Chunk.fullyRead, hfull]
    · simp only
      omega
    · simp only
      omega
    · -- its first `n` cells are dropped
      rw [cells_cons, cells_cons, c.cells_advance hn,
        List.drop_append_of_le_length (by rw [c.cells_length]; exact hn)]
    · -- its room is as before
      intro d hd
      cases cs with
      | nil => exact hd
      | cons e cs => rwa [room_cons_cons] at hd ⊢

theorem readLoop_spec {h : Heap} (n : Nat) (fuel : Nat) {q : LinkedQueue Chunk} {cs : List Chunk}
    (out : List UInt8) (hq : q.Rep cs) (hok : ChunksOk h cs) (hfuel : n - out.length < fuel) :
    ∃ q' cs', Marshal.readLoop h n fuel q out =
        .ok (q', out ++ ((cells cs).take (n - out.length)).map h.byte) ∧
      q'.Rep cs' ∧ Drops h cs cs' (n - out.length) := by
  induction fuel generalizing q cs out with
  | zero => omega
  | succ fuel ih =>
    by_cases hlt : out.length < n
    · cases cs with
      | nil =>
        -- null `head_`: the loop ends
        have hhead : q.head = none := hq.head_eq_none.mpr rfl
        refine ⟨q, [], by simp [Marshal.readLoop, hhead], hq, hok, by simp, by simp⟩
      | cons c cs =>
        have hhead : q.head ≠ none := by simp [hq.head_eq_none]
        by_cases hpos : 0 < c.contentSize
        · -- the head chunk delivers `k` bytes, the rest of the loop the other ones
          generalize hk : min (n - out.length) (c.writeIdx - c.readIdx) = k
          have hkle : k ≤ c.contentSize := by
            unfold Chunk.contentSize
            omega
          have hkpos : 0 < k := by
            unfold Chunk.contentSize at hpos
            omega
          obtain ⟨q₁, cs₁, hadv, hq₁, hdrop⟩ := advanceHead_spec hq hok hkle
          have hbytes : c.bytesAt h k = ((cells (c :: cs)).take k).map h.byte := by
            rw [c.bytesAt_eq h hkle, cells_cons,
              List.take_append_of_le_length (by rw [c.cells_length]; exact hkle)]
          have hlen : (c.bytesAt h k).length = k := by simp [Chunk.bytesAt]
          obtain ⟨q₂, cs₂, hrec, hq₂, hdrop₂⟩ :=
            ih (out ++ c.bytesAt h k) hq₁ hdrop.ok (by rw [List.length_append]; omega)
          have hleft : n - (out ++ c.bytesAt h k).length = n - out.length - k := by
            rw [List.length_append, hlen]
            omega
          have hsum : k + (n - out.length - k) = n - out.length := by omega
          rw [hleft] at hrec hdrop₂
          refine ⟨q₂, cs₂, ?_, hq₂, hsum ▸ hdrop.trans hdrop₂⟩
          simp only [Marshal.readLoop, hlt, hhead, ne_eq, not_false_eq_true, and_self, if_true,
            hq.headVal, deref_some, ok_bind, hpos, Chunk.read, hk, hadv, hlen,
            Nat.ne_of_gt hkpos, if_false, hrec]
          rw [hdrop.cells_eq, hbytes, List.append_assoc, ← List.map_append, ← List.take_add, hsum]
        · -- an empty head chunk is the only one
          obtain rfl := hok.nil_of_empty_head (Nat.eq_zero_of_not_pos hpos)
          have hnil : cells [c] = [] := by
            rw [← List.length_eq_zero_iff, cells_cons, cells_nil, List.append_nil, c.cells_length]
            omega
          exact ⟨q, [c], by simp [Marshal.readLoop, hlt, hhead, hq.headVal, hpos, hnil], hq, hok,
            by simp [hnil], fun _ hc => hc⟩
    · -- the loop has what it was asked for
      have hzero : n - out.length = 0 := by omega
      refine ⟨q, cs, by simp [Marshal.readLoop, hlt, hzero], hq, ?_⟩
      rw [hzero]
      exact Drops.refl hok

theorem peekLoop_spec {h : Heap} (n : Nat) {cs : List Chunk} (out : List UInt8)
    (hok : ChunksOk h cs) :
    Marshal.peekLoop h n cs out = out ++ ((cells cs).take (n - out.length)).map h.byte := by
  induction cs generalizing out with
  | nil => simp [Marshal.peekLoop]
  | cons c cs ih =>
    by_cases hpos : 0 < n - out.length
    · generalize hk : min (n - out.length) (c.writeIdx - c.readIdx) = k
      have hkle : k ≤ c.contentSize := by
        unfold Chunk.contentSize
        omega
      have hlen : (c.bytesAt h k).length = k := by simp [Chunk.bytesAt]
      by_cases hzero : k = 0
      · -- an empty chunk is the last one, so that leaving the loop skips nothing
        have hempty : c.contentSize = 0 := by
          unfold Chunk.contentSize
          omega
        obtain rfl := hok.nil_of_empty_head hempty
        have hnil : c.cells = [] := List.length_eq_zero_iff.mp (by rw [c.cells_length, hempty])
        simp [Marshal.peekLoop, hpos, Chunk.peek, hk, hzero, Chunk.bytesAt, hnil]
      · -- the chunk delivers `k` bytes and the loop goes on
        have hleft : n - (out ++ c.bytesAt h k).length = n - out.length - k := by
          rw [List.length_append, hlen]
          omega
        simp only [Marshal.peekLoop, hpos, if_true, Chunk.peek, hk, hlen, hzero, if_false]
        rw [ih _ hok.tail, hleft, c.bytesAt_eq h hkle, List.append_assoc, ← List.map_append,
          cells_cons, List.take_append, c.cells_length]
        congr 3
        · -- what is asked for ends in this chunk, or covers it
          rcases Nat.le_total (n - out.length) c.contentSize with hle | hle
          · rw [show k = n - out.length by unfold Chunk.contentSize at hle; omega]
          · rw [List.take_of_length_le (by rw [c.cells_length]; unfold Chunk.contentSize at hle ⊢; omega),
              List.take_of_length_le (by rw [c.cells_length]; exact hle)]
        · unfold Chunk.contentSize
          congr 1
          omega
    · -- nothing more is asked for
      have hzero : n - out.length = 0 := by omega
      simp [Marshal.peekLoop, hzero]

/-- The first chunk of a Marshal that is not empty is not empty. -/
theorem ChunksOk.head_pos {h : Heap} {c : Chunk} {cs : List Chunk} (hok : ChunksOk h (c :: cs))
    (hne : cells (c :: cs) ≠ []) : 0 < c.contentSize := by
  cases cs with
  | nil =>
    rw [cells_cons, cells_nil, List.append_nil] at hne
    rw [← c.cells_length]
    exact List.length_pos_iff.mpr hne
  | cons d cs =>
    -- another chunk follows, so that this one is fully written
    have hfull : c.writeIdx = h.size c.data := hok.full c (by simp)
    have hread := (hok.ok c (by simp)).not_read
    unfold Chunk.contentSize
    omega

theorem writeToFdLoop_spec {h : Heap} (resps : List Nat) {m : Marshal} {cs : List Chunk}
    (out : List UInt8) (hq : m.chunks.Rep cs) (hok : ChunksOk h cs)
    (hsize : m.contentSize = (cells cs).length) :
    ∃ q' cs' k, Marshal.writeToFdLoop h resps m out =
        .ok ({ m with chunks := q', contentSize := m.contentSize - k },
          out ++ ((cells cs).take k).map h.byte) ∧
      q'.Rep cs' ∧ Drops h cs cs' k ∧ k ≤ (cells cs).length ∧
      (∀ resp ∈ resps.head?, 0 < resp → cells cs ≠ [] → 0 < k) := by
  induction resps generalizing m cs out with
  | nil =>
    -- no further `::write` is made
    by_cases hzero : m.contentSize = 0
    · refine ⟨m.chunks, cs, 0, ?_, hq, Drops.refl hok, by simp, by simp⟩
      rw [Marshal.writeToFdLoop, if_pos hzero]
      simp
    · obtain ⟨c, cs, rfl⟩ := List.exists_cons_of_ne_nil
        (show cs ≠ [] by rintro rfl; exact hzero (by simpa using hsize))
      obtain ⟨q', cs', hadv, hq', hdrop⟩ := advanceHead_spec hq hok (Nat.zero_le c.contentSize)
      refine ⟨q', cs', 0, ?_, hq', hdrop, by simp, by simp⟩
      rw [Marshal.writeToFdLoop, if_neg hzero, hq.headVal, deref_some, ok_bind]
      simp only [Nat.add_zero] at hadv
      simp [hadv]
  | cons resp resps ih =>
    by_cases hzero : m.contentSize = 0
    · -- nothing is queued: the loop does not start
      refine ⟨m.chunks, cs, 0, ?_, hq, Drops.refl hok, by simp, ?_⟩
      · rw [Marshal.writeToFdLoop, if_pos hzero]
        simp
      · intro _ _ _ hne
        rw [hzero] at hsize
        exact absurd (List.length_eq_zero_iff.mp hsize.symm) hne
    · obtain ⟨c, cs, rfl⟩ := List.exists_cons_of_ne_nil
        (show cs ≠ [] by rintro rfl; exact hzero (by simpa using hsize))
      generalize hk : min (min resp Chunk.maxRwCount) (c.writeIdx - c.readIdx) = k
      have hkle : k ≤ c.contentSize := by
        unfold Chunk.contentSize
        omega
      have hlen : (c.bytesAt h k).length = k := by simp [Chunk.bytesAt]
      have hkcells : k ≤ (cells (c :: cs)).length := by
        rw [cells_cons, List.length_append, c.cells_length]
        omega
      obtain ⟨q₁, cs₁, hadv, hq₁, hdrop⟩ := advanceHead_spec hq hok hkle
      by_cases hkz : k = 0
      · -- `::write` took nothing: the loop ends
        refine ⟨q₁, cs₁, 0, ?_, hq₁, hkz ▸ hdrop, by simp, ?_⟩
        · rw [Marshal.writeToFdLoop, if_neg hzero, hq.headVal, deref_some, ok_bind]
          simp only [Chunk.writeToFd, hk, hadv, ok_bind, hlen, if_pos hkz]
          simp
        · intro resp' hresp hpos hne
          -- the kernel was ready, so that the head chunk was empty
          obtain rfl : resp = resp' := by simpa using hresp
          have hhead := hok.head_pos hne
          have hmax : 0 < Chunk.maxRwCount := by decide
          unfold Chunk.contentSize at hhead
          omega
      · -- the next `::write` starts behind the `k` bytes
        have hsize₁ : m.contentSize - k = (cells cs₁).length := by
          rw [hdrop.cells_eq, List.length_drop, hsize]
        obtain ⟨q₂, cs₂, l, hrec, hq₂, hdrop₂, hl, -⟩ :=
          ih (m := { m with chunks := q₁, contentSize := m.contentSize - k })
            (out ++ c.bytesAt h k) hq₁ hdrop.ok hsize₁
        refine ⟨q₂, cs₂, k + l, ?_, hq₂, hdrop.trans hdrop₂, ?_, fun _ _ _ _ => by omega⟩
        · rw [Marshal.writeToFdLoop, if_neg hzero, hq.headVal, deref_some, ok_bind]
          simp only [Chunk.writeToFd, hk, hadv, ok_bind, hlen, hkz, if_false, hrec, Nat.sub_sub]
          rw [hdrop.cells_eq, List.take_add, List.map_append, ← List.append_assoc,
            c.bytesAt_eq h hkle, cells_cons,
            List.take_append_of_le_length (by rw [c.cells_length]; exact hkle)]
        · rw [hdrop.cells_eq, List.length_drop] at hl
          omega

/-! ## Filling behind the tail -/

theorem ensureTail_spec {h : Heap} {q : LinkedQueue Chunk} {cs : List Chunk} (hq : q.Rep cs)
    (hok : ChunksOk h cs) :
    ∃ h' q' cs' t, Marshal.ensureTail h q = .ok (h', q') ∧ q'.Rep (cs' ++ [t]) ∧
      Grows h cs h' (cs' ++ [t]) [] [] ∧ ¬ t.fullyWritten h' := by
  have hroom : ¬ (Chunk.new h).2.fullyWritten (Chunk.new h).1 := by
    simp only [Chunk.fullyWritten, Chunk.new, Heap.rawBytes, Function.update_self]
    exact Nat.ne_of_lt (Nat.lt_of_lt_of_le minSize_pos (Nat.le_max_left ..))
  cases cs using List.reverseRecOn with
  | nil =>
    have hhead : q.head = none := hq.head_eq_none.mpr rfl
    exact ⟨(Chunk.new h).1, q.pushFirst (Chunk.new h).2, [], (Chunk.new h).2,
      by rw [Marshal.ensureTail, if_pos hhead], LinkedQueue.Rep.pushFirst _,
      grows_new hok (by simp), hroom⟩
  | append_singleton cs t =>
    have hhead : q.head ≠ none := by simp [hq.head_eq_none]
    by_cases hfull : t.fullyWritten h
    · obtain ⟨q', hpush, hq'⟩ := hq.pushBack (Chunk.new h).2
      refine ⟨(Chunk.new h).1, q', cs ++ [t], (Chunk.new h).2, ?_, hq',
        grows_new hok (hok.full_of_tail hfull), hroom⟩
      simp [Marshal.ensureTail, hhead, hq.tailVal, hfull, hpush]
    · exact ⟨h, q, cs, t, by simp [Marshal.ensureTail, hhead, hq.tailVal, hfull], hq,
        Grows.refl hok, hfull⟩

/-- The loop takes bytes from the kernel, in order, and all of them if no `::read` comes back
    empty before. -/
theorem readFromFdLoop_spec (resps : List Nat) {h : Heap} {q : LinkedQueue Chunk}
    {cs : List Chunk} (avail got : List UInt8) (hq : q.Rep cs) (hok : ChunksOk h cs) :
    ∃ h' q' cs' new k, Marshal.readFromFdLoop resps h q avail got =
        .ok (h', q', avail.drop k, got ++ avail.take k) ∧
      q'.Rep cs' ∧ Grows h cs h' cs' new (avail.take k) ∧ k ≤ avail.length ∧
      ((∀ resp ∈ resps, 0 < resp) → avail.length ≤ resps.length → k = avail.length) ∧
      (∀ resp ∈ resps.head?, 0 < resp → avail ≠ [] → 0 < k) := by
  induction resps generalizing h q cs avail got with
  | nil =>
    -- no further `::read` is made
    obtain ⟨h₁, q₁, cs₁, t, hens, hq₁, hg₁, -⟩ := ensureTail_spec hq hok
    refine ⟨h₁, q₁, _, [], 0, ?_, hq₁, hg₁, by simp, ?_, by simp⟩
    · rw [Marshal.readFromFdLoop, hens, ok_bind]
      simp
    · intro _ hall
      exact (Nat.le_zero.mp hall).symm
  | cons resp resps ih =>
    obtain ⟨h₁, q₁, cs₁, t, hens, hq₁, hg₁, hroom⟩ := ensureTail_spec hq hok
    generalize hk : min (min resp Chunk.maxRwCount) (min avail.length (h₁.size t.data - t.writeIdx))
      = k
    have hkroom : k ≤ h₁.size t.data - t.writeIdx := by omega
    have hkavail : k ≤ avail.length := by omega
    have hlen : (avail.take k).length = k := by simp [hkavail]
    -- there is room, so `::read` comes back empty only if the kernel has nothing
    have hempty : 0 < resp → k = 0 → avail.length = 0 := by
      intro hresp hkz
      have hw := (chunksOk_concat.mp hg₁.ok).2.write_le
      have hmax : 0 < Chunk.maxRwCount := by decide
      unfold Chunk.fullyWritten at hroom
      omega
    have hs : h₁.Stores (h₁.memcpy t.data t.writeIdx (avail.take k)) ((t.room h₁).take k)
        (avail.take k) := by
      have := h₁.memcpy_stores t.data t.writeIdx (avail.take k)
      rwa [hlen, ← take_cellsAt _ _ hkroom] at this
    have hg₂ := hg₁.trans (grows_extend hg₁.ok hkroom hs)
    obtain ⟨q₂, hset, hq₂⟩ := hq₁.setTail { t with writeIdx := t.writeIdx + k }
    by_cases hkz : k = 0
    · -- `::read` came back empty: the loop ends
      refine ⟨h₁.memcpy t.data t.writeIdx (avail.take k), q₂, _, [], 0, ?_, hq₂, ?_, by simp, ?_, ?_⟩
      · rw [Marshal.readFromFdLoop, hens, ok_bind]
        simp only [hq₁.tailVal, deref_some, ok_bind, Chunk.readFromFd, hk, hset, hlen, if_pos hkz]
        simp
      · simpa [hkz] using hg₂
      · intro hpos _
        exact (hempty (hpos resp (by simp)) hkz).symm
      · intro resp' hresp hpos hne
        obtain rfl : resp = resp' := by simpa using hresp
        exact absurd (List.length_eq_zero_iff.mp (hempty hpos hkz)) hne
    · -- the next `::read` goes on behind the `k` bytes
      obtain ⟨h₃, q₃, cs₃, new, l, hrec, hq₃, hg₃, hl, hall, -⟩ :=
        ih (avail.drop k) (got ++ avail.take k) hq₂ hg₂.ok
      rw [List.length_drop] at hl hall
      refine ⟨h₃, q₃, cs₃, [] ++ (t.room h₁).take k ++ new, k + l, ?_, hq₃, ?_, ?_, ?_,
        fun _ _ _ _ => by omega⟩
      · rw [Marshal.readFromFdLoop, hens, ok_bind]
        simp only [hq₁.tailVal, deref_some, ok_bind, Chunk.readFromFd, hk, hset, hlen, hkz, if_false,
          hrec]
        rw [List.drop_drop, List.append_assoc, ← List.take_add]
      · have hg := hg₂.trans hg₃
        rwa [List.nil_append (avail.take k), ← List.take_add] at hg
      · omega
      · intro hpos hlen'
        rw [List.length_cons] at hlen'
        have hrest := hall (fun r hr => hpos r (List.mem_cons_of_mem _ hr)) (by omega)
        omega

theorem setBookmarkLoop_spec (n : Nat) {h : Heap} {q : LinkedQueue Chunk} {cs : List Chunk}
    (bm : Bookmark) (hq : q.Rep cs) (hok : ChunksOk h cs) :
    ∃ h' q' cs' new, Marshal.setBookmarkLoop n h q bm = .ok (h', q', bm ++ new) ∧
      q'.Rep cs' ∧ Grows h cs h' cs' new (new.map h'.byte) ∧ new.length = n := by
  induction n generalizing h q cs bm with
  | zero => exact ⟨h, q, cs, [], by simp [Marshal.setBookmarkLoop], hq, Grows.refl hok, rfl⟩
  | succ n ih =>
    obtain ⟨h₁, q₁, cs₁, t, hens, hq₁, hg₁, hroom⟩ := ensureTail_spec hq hok
    have ht := (chunksOk_concat.mp hg₁.ok).2
    have hone : 1 ≤ h₁.size t.data - t.writeIdx := by
      have hw := ht.write_le
      unfold Chunk.fullyWritten at hroom
      omega
    have hcell : (t.room h₁).take 1 = [(t.data, t.writeIdx)] := by
      rw [Chunk.room, take_cellsAt _ _ hone]
      rfl
    have hs : h₁.Stores h₁ ((t.room h₁).take 1) (((t.room h₁).take 1).map h₁.byte) :=
      ⟨Nat.le_refl _, fun _ _ => rfl, rfl, fun _ _ => rfl⟩
    have hg₂ := hg₁.trans (grows_extend hg₁.ok hone hs)
    rw [hcell, List.nil_append, List.nil_append] at hg₂
    obtain ⟨q₂, hset, hq₂⟩ := hq₁.setTail { t with writeIdx := t.writeIdx + 1 }
    obtain ⟨h₃, q₃, cs₃, new, hrec, hq₃, hg₃, hlen⟩ := ih (bm ++ [(t.data, t.writeIdx)]) hq₂ hg₂.ok
    refine ⟨h₃, q₃, cs₃, (t.data, t.writeIdx) :: new, ?_, hq₃, ?_, by simp [hlen]⟩
    · simp only [Marshal.setBookmarkLoop, hens, ok_bind, hq₁.tailVal, deref_some, Chunk.setBookmark,
        hset, hrec, List.append_assoc, List.singleton_append]
    · have hg := hg₂.trans hg₃
      -- later reservations do not store into the first cell
      have hfst : h₃.byte (t.data, t.writeIdx) = h₁.byte (t.data, t.writeIdx) := by
        apply hg₃.stores.frame
        intro hmem
        exact (hg₂.free_mono (hg₃.origin _ hmem)).2 (by simp)
      simpa [hfst] using hg

/-- Bytes that fit into the room of the last chunk go there. -/
theorem write_fits {h : Heap} {m : Marshal} {cs : List Chunk} {t : Chunk}
    (hq : m.chunks.Rep (cs ++ [t])) (hok : ChunksOk h (cs ++ [t])) (hfull : ¬ t.fullyWritten h)
    (p : List UInt8) (hp : p.length ≤ h.size t.data - t.writeIdx) :
    ∃ q', m.write h p = .ok (h.memcpy t.data t.writeIdx p,
        { chunks := q', writeCnt := m.writeCnt + Int32.ofNat p.length,
          contentSize := m.contentSize + p.length }) ∧
      q'.Rep (cs ++ [{ t with writeIdx := t.writeIdx + p.length }]) ∧
      Grows h (cs ++ [t]) (h.memcpy t.data t.writeIdx p)
        (cs ++ [{ t with writeIdx := t.writeIdx + p.length }]) ((t.room h).take p.length) p := by
  have hhead : m.chunks.head ≠ none := by simp [hq.head_eq_none]
  have hs := h.memcpy_stores t.data t.writeIdx p
  rw [← take_cellsAt _ _ hp] at hs
  obtain ⟨q', hset, hq'⟩ := hq.setTail { t with writeIdx := t.writeIdx + p.length }
  refine ⟨q', ?_, hq', grows_extend hok hp hs⟩
  simp only [Marshal.write, hhead, if_false, hq.tailVal, deref_some, ok_bind, hfull, Chunk.write,
    Nat.min_eq_left hp, hset, Nat.lt_irrefl, List.take_length, pure_eq_ok]

/-- The chunk part of `Marshal::write`. -/
theorem write_chunks_spec {h : Heap} {m : Marshal} {cs : List Chunk} (hq : m.chunks.Rep cs)
    (hok : ChunksOk h cs) (p : List UInt8) :
    ∃ h' q' cs' new,
      m.write h p = .ok (h', { chunks := q', writeCnt := m.writeCnt + Int32.ofNat p.length,
                               contentSize := m.contentSize + p.length }) ∧
      q'.Rep cs' ∧ Grows h cs h' cs' new p := by
  cases cs using List.reverseRecOn with
  | nil =>
    -- the first chunk of an empty Marshal
    have hhead : m.chunks.head = none := hq.head_eq_none.mpr rfl
    refine ⟨_, m.chunks.pushFirst (Chunk.ofBytes h p).2, _, _, ?_, LinkedQueue.Rep.pushFirst _,
      grows_ofBytes hok (by simp) p⟩
    simp [Marshal.write, hhead]
  | append_singleton cs t =>
    have hhead : m.chunks.head ≠ none := by simp [hq.head_eq_none]
    obtain ⟨hcs, ht⟩ := chunksOk_concat.mp hok
    by_cases hfull : t.fullyWritten h
    · -- `tail_` is full: the bytes get a chunk of their own
      obtain ⟨q', hpush, hq'⟩ := hq.pushBack (Chunk.ofBytes h p).2
      refine ⟨_, q', _, _, ?_, hq', grows_ofBytes hok (hok.full_of_tail hfull) p⟩
      simp [Marshal.write, hhead, hq.tailVal, hfull, hpush]
    · -- fill the room of the last chunk first
      generalize hk : min p.length (h.size t.data - t.writeIdx) = k
      have hkroom : k ≤ h.size t.data - t.writeIdx := by omega
      have hkp : k ≤ p.length := by omega
      have hlen : (p.take k).length = k := by simp [hkp]
      have hs : h.Stores (h.memcpy t.data t.writeIdx (p.take k)) ((t.room h).take k) (p.take k) := by
        have := h.memcpy_stores t.data t.writeIdx (p.take k)
        rwa [hlen, ← take_cellsAt _ _ hkroom] at this
      have hg := grows_extend hok hkroom hs
      by_cases hlt : k < p.length
      · -- the rest goes into a chunk of its own
        obtain ⟨q₁, hset, hq₁⟩ := hq.setTail { t with writeIdx := t.writeIdx + k }
        obtain ⟨q₂, hpush, hq₂⟩ :=
          hq₁.pushBack (Chunk.ofBytes (h.memcpy t.data t.writeIdx (p.take k)) (p.drop k)).2
        have hsize := hs.size_eq t.data ht.alloc
        have hg₂ := hg.trans (grows_ofBytes hg.ok (fun c hc => ?_) (p.drop k))
        · rw [List.take_append_drop] at hg₂
          refine ⟨_, q₂, _, _, ?_, hq₂, hg₂⟩
          simp only [Marshal.write, hhead, if_false, hq.tailVal, deref_some, ok_bind, hfull,
            Chunk.write, hk, hset, hlt, if_true, hpush, pure_eq_ok]
        · rcases List.mem_append.mp hc with hc | hc
          · rw [Chunk.fullyWritten, hs.size_eq c.data (hcs c hc).1.alloc]
            exact (hcs c hc).2
          · rw [List.mem_singleton.mp hc, Chunk.fullyWritten, hsize]
            simp only
            have hw := ht.write_le
            omega
      · -- they fit into the room of `tail_`
        obtain ⟨q', hw, hq', hg'⟩ := write_fits hq hok hfull p (by omega)
        exact ⟨_, q', _, _, hw, hq', hg'⟩

/-! ## Sharing arrays -/

/-- A shared copy trimmed to its first `k` cells. -/
def Chunk.slice (c : Chunk) (k : Nat) : Chunk := { c with writeIdx := c.readIdx + k }

theorem Chunk.slice_contentSize (c : Chunk) (k : Nat) : (c.slice k).contentSize = k := by
  simp [slice, contentSize]

theorem Chunk.cells_slice (c : Chunk) {k : Nat} (hk : k ≤ c.contentSize) :
    (c.slice k).cells = c.cells.take k := by
  rw [cells, cells, take_cellsAt _ _ (show k ≤ c.writeIdx - c.readIdx from hk)]
  simp [slice]

/-- Behind a slice lie the other cells of the window and then the room. -/
theorem Chunk.room_slice {h : Heap} (c : Chunk) (hc : c.Ok h) {k : Nat} (hk : k ≤ c.contentSize) :
    (c.slice k).room h = c.cells.drop k ++ c.room h := by
  have hr := hc.read_le
  have hw := hc.write_le
  unfold contentSize at hk
  rw [room, room, cells, drop_cellsAt _ _ hk]
  simp only [slice]
  rw [show h.size c.data - (c.readIdx + k)
      = (c.writeIdx - c.readIdx - k) + (h.size c.data - c.writeIdx) by omega, cellsAt_add]
  congr 2
  omega

theorem Chunk.slice_ok {h : Heap} (c : Chunk) (hc : c.Ok h) {k : Nat} (hk : k ≤ c.contentSize) :
    (c.slice k).Ok h := by
  have hr := hc.read_le
  have hw := hc.write_le
  unfold contentSize at hk
  refine ⟨Nat.le_add_right .., ?_, hc.not_read, hc.alloc⟩
  simp only [slice]
  omega

/-- "only fetch enough bytes we need" -/
theorem Chunk.trim_sharedCopy (c : Chunk) (hr : c.readIdx ≤ c.writeIdx) {n nFetch : Nat}
    (hlt : nFetch < n) :
    (if nFetch + c.sharedCopy.contentSize > n then
      { c.sharedCopy with writeIdx :=
          c.sharedCopy.writeIdx - (nFetch + c.sharedCopy.contentSize - n) }
      else c.sharedCopy) = c.slice (min (n - nFetch) c.contentSize) := by
  by_cases hgt : nFetch + c.sharedCopy.contentSize > n
  · rw [if_pos hgt]
    simp only [sharedCopy, contentSize, slice, Chunk.mk.injEq, true_and] at hgt ⊢
    omega
  · rw [if_neg hgt]
    simp only [sharedCopy, contentSize, slice, Chunk.mk.injEq, true_and] at hgt ⊢
    omega

theorem Chunk.discard_of_le (c : Chunk) {k : Nat} (hk : k ≤ c.contentSize) :
    c.discard k = ({ c with readIdx := c.readIdx + k }, k) := by
  unfold contentSize at hk
  simp [discard, Nat.min_eq_left hk]

/-- Only the last chunk has room. -/
theorem ChunksOk.head_room {h : Heap} {c : Chunk} {cs : List Chunk} (hok : ChunksOk h (c :: cs))
    {x : Cell} (hx : x ∈ c.room h) : x ∈ room h (c :: cs) := by
  cases cs with
  | nil => rwa [← List.nil_append [c], room_concat]
  | cons d cs =>
    rw [Chunk.room, show c.writeIdx = h.size c.data from hok.head_full, Nat.sub_self] at hx
    simp at hx

theorem link_spec {q : LinkedQueue Chunk} {cs : List Chunk} (hq : q.Rep cs) (d : Chunk) :
    ∃ q', Marshal.link q d = .ok q' ∧ q'.Rep (cs ++ [d]) := by
  cases cs using List.reverseRecOn with
  | nil => exact ⟨_, if_pos (hq.head_eq_none.mpr rfl), LinkedQueue.Rep.pushFirst d⟩
  | append_singleton cs t =>
    obtain ⟨q', hpush, hrep⟩ := hq.pushBack d
    exact ⟨q', by rw [Marshal.link, if_neg (by simp [hq.head_eq_none]), hpush, deref_some], hrep⟩

/-- The pointer-copying loop moves the first `n - nFetch` cells of the source behind the
    destination. What the last shared chunk could still fill is left over in the source. -/
theorem shareLoop_spec {h : Heap} (n : Nat) (fuel : Nat) {dst src : LinkedQueue Chunk}
    {ds ss : List Chunk} (nFetch : Nat) (hdst : dst.Rep ds) (hsrc : src.Rep ss)
    (hds : ChunksOk h ds) (hss : ChunksOk h ss) (hle : nFetch ≤ n)
    (hn : n - nFetch ≤ (cells ss).length) (hfuel : n - nFetch < fuel)
    (hfull : nFetch < n → ∀ c ∈ ds, c.fullyWritten h) :
    ∃ dst' src' ds' ss', Marshal.shareLoop h n fuel dst src nFetch = .ok (dst', src', n) ∧
      dst'.Rep ds' ∧ src'.Rep ss' ∧ ChunksOk h ds' ∧ Drops h ss ss' (n - nFetch) ∧
      cells ds' = cells ds ++ (cells ss).take (n - nFetch) ∧
      ∀ c ∈ room h ds', c ∈ room h ds ∨ c ∈ room h ss ∨ c ∈ (cells ss).drop (n - nFetch) := by
  induction fuel generalizing dst src ds ss nFetch with
  | zero => omega
  | succ fuel ih =>
    by_cases hlt : nFetch < n
    · obtain ⟨c, ss, rfl⟩ := List.exists_cons_of_ne_nil
        (show ss ≠ [] by rintro rfl; simp at hn; omega)
      have hc := hss.ok c (List.mem_cons_self ..)
      have hlen : (cells (c :: ss)).length = c.contentSize + (cells ss).length := by
        rw [cells_cons, List.length_append, c.cells_length]
      have hlast : ss = [] → n - nFetch ≤ c.contentSize := by
        rintro rfl
        rwa [hlen, cells_nil, List.length_nil, Nat.add_zero] at hn
      have hpos : c.contentSize ≠ 0 := fun hz => by
        have := hlast (hss.nil_of_empty_head hz)
        omega
      -- this iteration moves `k` cells as one shared chunk
      have htrim := c.trim_sharedCopy hc.read_le hlt
      generalize hk : min (n - nFetch) c.contentSize = k at htrim
      have hkle : k ≤ c.contentSize := by omega
      have hleft : n - (nFetch + k) = n - nFetch - k := by omega
      have hsum : k + (n - nFetch - k) = n - nFetch := by omega
      obtain ⟨dst₁, hlink, hdst₁⟩ := link_spec hdst (c.slice k)
      obtain ⟨src₁, ss₁, hadv, hsrc₁, hdrop⟩ := advanceHead_spec hsrc hss hkle
      -- more is needed only when the whole head chunk was moved, and then it is full
      have hdfull : nFetch + k < n → (c.slice k).fullyWritten h := by
        intro hmore
        obtain ⟨e, ss, rfl⟩ := List.exists_cons_of_ne_nil
          (show ss ≠ [] from fun hnil => by have := hlast hnil; omega)
        have hcfull : c.writeIdx = h.size c.data := hss.head_full
        have hread := hc.read_le
        simp only [Chunk.fullyWritten, Chunk.slice]
        unfold Chunk.contentSize at hk
        omega
      obtain ⟨dst₂, src₂, ds₂, ss₂, hrec, hdst₂, hsrc₂, hok₂, hdrop₂, hcells₂, hroom₂⟩ :=
        ih (nFetch + k) hdst₁ hsrc₁
          (chunksOk_concat.mpr ⟨fun x hx => ⟨hds.ok x hx, hfull hlt x hx⟩, c.slice_ok hc hkle⟩)
          hdrop.ok (by omega) (by rw [hdrop.cells_eq, List.length_drop]; omega) (by omega)
          (fun hmore x hx => by
            rcases List.mem_append.mp hx with hx | hx
            · exact hfull hlt x hx
            · rw [List.mem_singleton.mp hx]
              exact hdfull hmore)
      rw [hleft] at hdrop₂ hcells₂ hroom₂
      refine ⟨dst₂, src₂, ds₂, ss₂, ?_, hdst₂, hsrc₂, hok₂, hsum ▸ hdrop.trans hdrop₂, ?_, ?_⟩
      · -- no `verify` of the iteration fails
        rw [Marshal.shareLoop, if_pos hlt, hsrc.headVal, deref_some, ok_bind]
        simp only [htrim, Chunk.slice_contentSize, if_neg (show k ≠ 0 by omega),
          c.discard_of_le hkle, verify_of, ok_bind, hlink, hadv, hrec]
      · -- the moved cells: those of this chunk, then those of the other ones
        have hsplit := List.take_add (l := cells (c :: ss)) (i := k) (j := n - nFetch - k)
        have hfirst : (cells (c :: ss)).take k = (c.slice k).cells := by
          rw [c.cells_slice hkle, cells_cons,
            List.take_append_of_le_length (by rw [c.cells_length]; exact hkle)]
        rw [hsum, hfirst] at hsplit
        rw [hcells₂, hdrop.cells_eq, cells_append, hsplit]
        simp
      · -- the room afterwards: of either side, or of what is left over
        intro x hx
        rcases hroom₂ x hx with hx | hx | hx
        · rw [room_concat] at hx
          rcases Nat.lt_or_ge (nFetch + k) n with hmore | hdone
          · -- a full chunk has no room
            rw [Chunk.room, show (c.slice k).writeIdx = _ from hdfull hmore, Nat.sub_self] at hx
            simp at hx
          · rw [c.room_slice hc hkle, List.mem_append] at hx
            rcases hx with hx | hx
            · refine .inr (.inr ?_)
              rw [show n - nFetch = k by omega, cells_cons,
                List.drop_append_of_le_length (by rw [c.cells_length]; exact hkle)]
              exact List.mem_append_left _ hx
            · exact .inr (.inl (hss.head_room hx))
        · exact .inr (.inl (hdrop.room_sub x hx))
        · rw [hdrop.cells_eq, List.drop_drop, hsum] at hx
          exact .inr (.inr hx)
    · -- everything was fetched
      obtain rfl : nFetch = n := by omega
      rw [Nat.sub_self]
      exact ⟨dst, src, ds, ss, by rw [Marshal.shareLoop, if_neg hlt]; rfl, hdst, hsrc, hds,
        Drops.refl hss, by simp, fun x hx => .inl hx⟩

/-- Asked for more than the source holds, the pointer-copying loop never returns. -/
theorem shareLoop_fails {h : Heap} (n : Nat) (fuel : Nat) {dst src : LinkedQueue Chunk}
    {ds ss : List Chunk} (nFetch : Nat) (hdst : dst.Rep ds) (hsrc : src.Rep ss)
    (hss : ChunksOk h ss) (hn : (cells ss).length < n - nFetch) :
    ∃ e, Marshal.shareLoop h n fuel dst src nFetch = .error e := by
  induction fuel generalizing dst src ds ss nFetch with
  | zero => exact ⟨_, rfl⟩
  | succ fuel ih =>
    have hlt : nFetch < n := by omega
    cases ss with
    | nil =>
      -- `head_` is null
      have hnull : src.headVal = none := by
        rw [LinkedQueue.headVal, hsrc.head_eq_none.mpr rfl]
        rfl
      refine ⟨.badPointer, ?_⟩
      rw [Marshal.shareLoop, if_pos hlt, hnull]
      rfl
    | cons c ss =>
      have hc := hss.ok c (List.mem_cons_self ..)
      have htrim := c.trim_sharedCopy hc.read_le hlt
      generalize hk : min (n - nFetch) c.contentSize = k at htrim
      have hkle : k ≤ c.contentSize := by omega
      by_cases hkz : k = 0
      · -- an empty head chunk is never given up
        refine ⟨.noProgress, ?_⟩
        rw [Marshal.shareLoop, if_pos hlt, hsrc.headVal, deref_some, ok_bind]
        simp only [htrim, Chunk.slice_contentSize, if_pos hkz]
      · -- the head chunk gives `k` bytes, which is too few
        obtain ⟨dst₁, hlink, hdst₁⟩ := link_spec hdst (c.slice k)
        obtain ⟨src₁, ss₁, hadv, hsrc₁, hdrop⟩ := advanceHead_spec hsrc hss hkle
        have hlen : (cells ss₁).length < n - (nFetch + k) := by
          rw [hdrop.cells_eq, List.length_drop]
          rw [cells_cons, List.length_append, c.cells_length] at hn ⊢
          omega
        obtain ⟨e, he⟩ := ih (nFetch + k) hdst₁ hsrc₁ hdrop.ok hlen
        refine ⟨e, ?_⟩
        rw [Marshal.shareLoop, if_pos hlt, hsrc.headVal, deref_some, ok_bind]
        simp only [htrim, Chunk.slice_contentSize, if_neg hkz, c.discard_of_le hkle, verify_of,
          ok_bind, hlink, hadv, he]

end SimpleRpc.Rpc
