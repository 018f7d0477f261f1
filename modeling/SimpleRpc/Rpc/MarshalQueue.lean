import SimpleRpc.Rpc.MarshalSpec

/-!
# One Specification for Each Marshal Operation

The chunk-level facts of `SimpleRpc.Rpc.MarshalSpec`, stated for a whole `Marshal` object.

## Structure

- `Marshal.Ok`: the representation invariant, `content_size_` included
- `Appends`, `Consumes`, `Moves`: the three kinds of effects
- one `..._spec` theorem for each operation: from an `Ok` Marshal it returns, without a fault,
  with the effect of its kind
- `readFromMarshal_fails`: asking for more than the source holds never returns
-/

namespace SimpleRpc.Rpc

open SimpleRpc.Lib

namespace Marshal

/-- The chunks from `head_`. -/
def chunkList (m : Marshal) : List Chunk := m.chunks.toList

/-- The cells still to be delivered. -/
def cells (m : Marshal) : List Cell := Rpc.cells m.chunkList

/-- The cells behind `tail_->write_idx`. -/
def room (h : Heap) (m : Marshal) : List Cell := Rpc.room h m.chunkList

/-- The bytes of `[read_idx, write_idx)` of the chunks from `head_`. -/
def content (h : Heap) (m : Marshal) : List UInt8 := m.cells.map h.byte

/-- The representation invariant of a Marshal. -/
structure Ok (h : Heap) (m : Marshal) : Prop where
  rep : m.chunks.Rep m.chunkList
  chunks_ok : ChunksOk h m.chunkList
  size_eq : m.contentSize = m.cells.length

theorem ok_of_rep {h : Heap} {m : Marshal} {cs : List Chunk} (hq : m.chunks.Rep cs)
    (hok : ChunksOk h cs) (hsize : m.contentSize = (Rpc.cells cs).length) : m.Ok h := by
  have hlist : m.chunkList = cs := hq.toList_eq
  exact ⟨hlist ▸ hq, hlist ▸ hok, by rw [cells, hlist, hsize]⟩

theorem ok_empty (h : Heap) : empty.Ok h :=
  ok_of_rep LinkedQueue.rep_empty (chunksOk_nil h) rfl

@[simp] theorem cells_empty : empty.cells = [] := rfl

@[simp] theorem room_empty (h : Heap) : empty.room h = [] := rfl

@[simp] theorem content_length (h : Heap) (m : Marshal) : (m.content h).length = m.cells.length := by
  simp [content]

theorem Ok.contentSize_eq {h : Heap} {m : Marshal} (hm : m.Ok h) :
    m.contentSize = (m.content h).length := by
  rw [hm.size_eq, content_length]

theorem Ok.cell_lt {h : Heap} {m : Marshal} (hm : m.Ok h) {c : Cell} (hc : c ∈ m.cells) :
    c.1 < h.next :=
  hm.chunks_ok.cell_lt hc

theorem Ok.room_lt {h : Heap} {m : Marshal} (hm : m.Ok h) {c : Cell} (hc : c ∈ m.room h) :
    c.1 < h.next :=
  hm.chunks_ok.room_lt hc

/-- The invariant of a Marshal survives whatever is stored by others. -/
theorem Ok.mono {h h' : Heap} {m : Marshal} {ds : List Cell} {p : List UInt8} (hm : m.Ok h)
    (hs : h.Stores h' ds p) : m.Ok h' :=
  ⟨hm.rep, hm.chunks_ok.mono hs, hm.size_eq⟩

theorem Ok.room_eq {h h' : Heap} {m : Marshal} {ds : List Cell} {p : List UInt8} (hm : m.Ok h)
    (hs : h.Stores h' ds p) : m.room h' = m.room h :=
  hm.chunks_ok.room_eq hs

/-- The invariant does not depend on the contents of the arrays. -/
theorem Ok.of_sizes {h h' : Heap} {m : Marshal} (hm : m.Ok h) (hsize : h'.size = h.size)
    (hnext : h'.next = h.next) : m.Ok h' := by
  refine ⟨hm.rep, ⟨fun c hc => ?_, fun c hc => ?_⟩, hm.size_eq⟩
  · obtain ⟨hread, hwrite, hnot, halloc⟩ := hm.chunks_ok.ok c hc
    exact ⟨hread, hsize ▸ hwrite, hsize ▸ hnot, hnext ▸ halloc⟩
  · rw [Chunk.fullyWritten, hsize]
    exact hm.chunks_ok.full c hc

/-- Cells an append of `m` may fill. -/
def CanFill (h : Heap) (m : Marshal) (c : Cell) : Prop := c ∈ m.room h ∨ h.next ≤ c.1

/-! ## Effects -/

/-- `m'` is `m` with the cells `new` appended, into which `p` was stored. -/
structure Appends (h : Heap) (m : Marshal) (h' : Heap) (m' : Marshal) (new : List Cell)
    (p : List UInt8) : Prop where
  ok : m'.Ok h'
  stores : h.Stores h' new p
  cells_eq : m'.cells = m.cells ++ new
  nodup : new.Nodup
  origin : ∀ c ∈ new, m.CanFill h c
  room_sub : ∀ c ∈ m'.room h', m.CanFill h c ∧ c ∉ new

/-- `m'` is `m` without its first `n` cells. -/
structure Consumes (h : Heap) (m m' : Marshal) (n : Nat) : Prop where
  ok : m'.Ok h
  cells_eq : m'.cells = m.cells.drop n
  room_sub : ∀ c ∈ m'.room h, c ∈ m.room h

/-- The first `n` cells of `src` move behind `dst`: the bytes of the first ones are copied
    into the cells `new`, the other cells are shared. -/
structure Moves (h : Heap) (dst src : Marshal) (h' : Heap) (dst' src' : Marshal) (n : Nat)
    (new : List Cell) : Prop where
  ok : dst'.Ok h'
  stores : h.Stores h' new ((src.cells.take new.length).map h.byte)
  length_le : new.length ≤ n
  cells_eq : dst'.cells = dst.cells ++ new ++ (src.cells.drop new.length).take (n - new.length)
  nodup : new.Nodup
  origin : ∀ c ∈ new, dst.CanFill h c
  room_sub : ∀ c ∈ dst'.room h',
    (dst.CanFill h c ∧ c ∉ new) ∨ c ∈ src.room h ∨ c ∈ src.cells.drop n
  consumes : Consumes h' src src' n
  fresh : dst.chunkList = [] → new = []

theorem Appends.refl {h : Heap} {m : Marshal} (hm : m.Ok h) : Appends h m h m [] [] :=
  ⟨hm, Heap.Stores.refl h, by simp, List.nodup_nil, by simp, fun _ hc => ⟨.inl hc, by simp⟩⟩

theorem Consumes.refl {h : Heap} {m : Marshal} (hm : m.Ok h) : Consumes h m m 0 :=
  ⟨hm, by simp, fun _ hc => hc⟩

theorem Appends.canFill {h h' : Heap} {m m' : Marshal} {new : List Cell} {p : List UInt8}
    (ha : Appends h m h' m' new p) {c : Cell} (hc : m'.CanFill h' c) : m.CanFill h c ∧ c ∉ new := by
  rcases hc with hc | hc
  · exact ha.room_sub c hc
  · refine ⟨.inr (Nat.le_trans ha.stores.next_le hc), fun hmem => ?_⟩
    have hcell : c ∈ m'.cells := by
      rw [ha.cells_eq]
      exact List.mem_append_right _ hmem
    exact Nat.not_lt.mpr hc (ha.ok.cell_lt hcell)

/-- Appending twice is appending once. -/
theorem Appends.trans {h h' h'' : Heap} {m m' m'' : Marshal} {new new' : List Cell}
    {p p' : List UInt8} (h₁ : Appends h m h' m' new p) (h₂ : Appends h' m' h'' m'' new' p') :
    Appends h m h'' m'' (new ++ new') (p ++ p') := by
  have hdisj : new.Disjoint new' := fun c hc hc' => (h₁.canFill (h₂.origin c hc')).2 hc
  refine ⟨h₂.ok, h₁.stores.trans h₂.stores hdisj, ?_, ?_, fun c hc => ?_, fun c hc => ?_⟩
  · rw [h₂.cells_eq, h₁.cells_eq, List.append_assoc]
  · exact List.nodup_append.mpr ⟨h₁.nodup, h₂.nodup, fun a ha b hb hab => hdisj ha (hab ▸ hb)⟩
  · rcases List.mem_append.mp hc with hc | hc
    · exact h₁.origin c hc
    · exact (h₁.canFill (h₂.origin c hc)).1
  · obtain ⟨hfill, hnot⟩ := h₂.room_sub c hc
    obtain ⟨hfill', hnot'⟩ := h₁.canFill hfill
    exact ⟨hfill', by simp [hnot, hnot']⟩

/-- Nothing that `m` would fill is still queued in it. -/
def SelfExclusive (h : Heap) (m : Marshal) : Prop := (m.room h).Disjoint m.cells

/-- Appended bytes stand behind the bytes that were queued before. -/
theorem Appends.content_eq {h h' : Heap} {m m' : Marshal} {new : List Cell} {p : List UInt8}
    (ha : Appends h m h' m' new p) (hm : m.Ok h) (hex : m.SelfExclusive h) :
    m'.content h' = m.content h ++ p := by
  have hdisj : new.Disjoint m.cells := by
    intro c hc hmem
    rcases ha.origin c hc with hc | hc
    · exact hex hc hmem
    · exact Nat.not_lt.mpr hc (hm.cell_lt hmem)
  rw [content, ha.cells_eq, List.map_append, ha.stores.stored, ha.stores.map_byte hdisj]
  rfl

theorem Appends.length_eq {h h' : Heap} {m m' : Marshal} {new : List Cell} {p : List UInt8}
    (ha : Appends h m h' m' new p) : new.length = p.length := by
  rw [← ha.stores.stored, List.length_map]

private theorem appends_of_grows {h h' : Heap} {m m' : Marshal} {cs' : List Chunk}
    {new : List Cell} {p : List UInt8} (hm : m.Ok h) (hq' : m'.chunks.Rep cs')
    (hg : Grows h m.chunkList h' cs' new p) (hsize : m'.contentSize = m.contentSize + p.length) :
    Appends h m h' m' new p := by
  have hlist : m'.chunkList = cs' := hq'.toList_eq
  refine ⟨ok_of_rep hq' hg.ok ?_, hg.stores, ?_, hg.nodup, hg.origin, ?_⟩
  · rw [hsize, hg.cells_eq, List.length_append, hg.length_eq, hm.size_eq, cells]
  · rw [cells, hlist]
    exact hg.cells_eq
  · rw [room, hlist]
    exact hg.room_sub

private theorem consumes_of_drops {h : Heap} {m m' : Marshal} {cs' : List Chunk} {n : Nat}
    (hm : m.Ok h) (hq' : m'.chunks.Rep cs') (hd : Drops h m.chunkList cs' n)
    (hsize : m'.contentSize = m.contentSize - n) : Consumes h m m' n := by
  have hlist : m'.chunkList = cs' := hq'.toList_eq
  refine ⟨ok_of_rep hq' hd.ok ?_, ?_, ?_⟩
  · rw [hsize, hd.cells_eq, List.length_drop, hm.size_eq, cells]
  · rw [cells, hlist]
    exact hd.cells_eq
  · rw [room, hlist]
    exact hd.room_sub

theorem Consumes.content_eq {h : Heap} {m m' : Marshal} {n : Nat} (hc : Consumes h m m' n) :
    m'.content h = (m.content h).drop n := by
  rw [content, hc.cells_eq, List.map_drop]
  rfl

theorem Consumes.mono {h h' : Heap} {m m' : Marshal} {n : Nat} {ds : List Cell} {p : List UInt8}
    (hc : Consumes h m m' n) (hm : m.Ok h) (hs : h.Stores h' ds p) : Consumes h' m m' n := by
  refine ⟨hc.ok.mono hs, hc.cells_eq, fun c hmem => ?_⟩
  rw [hc.ok.room_eq hs] at hmem
  rw [hm.room_eq hs]
  exact hc.room_sub c hmem

theorem Consumes.trans {h : Heap} {m m' m'' : Marshal} {k n : Nat} (h₁ : Consumes h m m' k)
    (h₂ : Consumes h m' m'' n) : Consumes h m m'' (k + n) :=
  ⟨h₂.ok, by rw [h₂.cells_eq, h₁.cells_eq, List.drop_drop],
    fun c hc => h₁.room_sub c (h₂.room_sub c hc)⟩

/-! ## Writing and reading -/

theorem write_spec {h : Heap} {m : Marshal} (hm : m.Ok h) (p : List UInt8) :
    ∃ h' m' new, m.write h p = .ok (h', m') ∧ Appends h m h' m' new p ∧
      m'.writeCnt = m.writeCnt + Int32.ofNat p.length := by
  obtain ⟨h', q', cs', new, hw, hq', hg⟩ := write_chunks_spec hm.rep hm.chunks_ok p
  exact ⟨h', _, new, hw, appends_of_grows hm hq' hg rfl, rfl⟩

theorem read_spec {h : Heap} {m : Marshal} (hm : m.Ok h) (n : Nat) :
    ∃ m', m.read h n = .ok (m', (m.content h).take n) ∧ Consumes h m m' n ∧
      m'.writeCnt = m.writeCnt := by
  obtain ⟨q', cs', hloop, hq', hd⟩ := readLoop_spec n (n + 1) [] hm.rep hm.chunks_ok (by simp)
  rw [List.length_nil, Nat.sub_zero] at hloop hd
  have hout : ((m.content h).take n).length = min n m.cells.length := by simp [content]
  refine ⟨{ m with chunks := q', contentSize := m.contentSize - ((m.content h).take n).length }, ?_,
    consumes_of_drops hm hq' hd ?_, rfl⟩
  · simp [read, hloop, content, cells, List.map_take]
  · simp only [hout, hm.size_eq]
    omega

theorem peek_spec {h : Heap} {m : Marshal} (hm : m.Ok h) (n : Nat) :
    m.peek h n = (m.content h).take n := by
  have hloop := peekLoop_spec n [] hm.chunks_ok
  rw [List.nil_append, List.length_nil, Nat.sub_zero, List.map_take] at hloop
  exact hloop

/-! ## Transfers from and to a file descriptor -/

theorem readFromFd_spec {h : Heap} {m : Marshal} (hm : m.Ok h) (avail : List UInt8)
    (resps : List Nat) :
    ∃ h' m' new k, m.readFromFd h avail resps = .ok (h', m', avail.drop k, avail.take k) ∧
      Appends h m h' m' new (avail.take k) ∧ k ≤ avail.length ∧
      m'.writeCnt = m.writeCnt + Int32.ofNat (avail.take k).length := by
  obtain ⟨h', q', cs', new, k, hloop, hq', hg, hk, -⟩ :=
    readFromFdLoop_spec resps avail [] hm.rep hm.chunks_ok
  refine ⟨h', ⟨q', m.writeCnt + Int32.ofNat (avail.take k).length,
    m.contentSize + (avail.take k).length⟩, new, k, ?_, appends_of_grows hm hq' hg rfl, hk, rfl⟩
  simp [readFromFd, hloop]

/-- If no `::read` comes back empty before, `read_from_fd` takes all that the kernel has. -/
theorem readFromFd_all {h : Heap} {m : Marshal} (hm : m.Ok h) {avail : List UInt8}
    {resps : List Nat} (hpos : ∀ resp ∈ resps, 0 < resp) (hlen : avail.length ≤ resps.length) :
    ∃ h' m', m.readFromFd h avail resps = .ok (h', m', [], avail) := by
  obtain ⟨h', q', cs', new, k, hloop, -, -, -, hall, -⟩ :=
    readFromFdLoop_spec resps avail [] hm.rep hm.chunks_ok
  rw [hall hpos hlen] at hloop
  simp [readFromFd, hloop]

/-- A `::read` that may hand out bytes takes some of those that the kernel has. -/
theorem readFromFd_ne_nil {h : Heap} {m : Marshal} (hm : m.Ok h) {avail got rest : List UInt8}
    {resp : Nat} {resps : List Nat} {h' : Heap} {m' : Marshal} (hne : avail ≠ []) (hpos : 0 < resp)
    (heq : m.readFromFd h avail (resp :: resps) = .ok (h', m', rest, got)) : got ≠ [] := by
  obtain ⟨h'', q', cs', new, k, hloop, -, -, -, -, hk⟩ :=
    readFromFdLoop_spec (resp :: resps) avail [] hm.rep hm.chunks_ok
  have hgot : avail.take k = got := by
    simp only [readFromFd, hloop, ok_bind, pure_eq_ok, List.nil_append, Except.ok.injEq,
      Prod.mk.injEq] at heq
    exact heq.2.2.2
  have hkpos := hk resp rfl hpos hne
  rw [← hgot, Ne, List.take_eq_nil_iff]
  simp only [hne, or_false]
  omega

theorem writeToFd_spec {h : Heap} {m : Marshal} (hm : m.Ok h) (resps : List Nat) :
    ∃ m' k, m.writeToFd h resps = .ok (m', (m.content h).take k) ∧ Consumes h m m' k ∧
      k ≤ m.cells.length ∧ m'.writeCnt = m.writeCnt ∧
      (∀ resp ∈ resps.head?, 0 < resp → m.cells ≠ [] → 0 < k) := by
  obtain ⟨q', cs', k, hloop, hq', hd, hk, hpos⟩ :=
    writeToFdLoop_spec resps [] hm.rep hm.chunks_ok hm.size_eq
  refine ⟨⟨q', m.writeCnt, m.contentSize - k⟩, k, ?_, consumes_of_drops hm hq' hd rfl, hk, rfl,
    hpos⟩
  rw [List.nil_append, List.map_take] at hloop
  exact hloop

/-! ## Transfers between Marshals -/

theorem shareFrom_spec {h : Heap} {dst src : Marshal} (hd : dst.Ok h) (hs : src.Ok h) {n : Nat}
    (hn : n ≤ src.cells.length) (hfull : ∀ c ∈ dst.chunkList, c.fullyWritten h) :
    ∃ dst' src', shareFrom h dst src n = .ok (dst', src', n) ∧ dst'.Ok h ∧
      dst'.cells = dst.cells ++ src.cells.take n ∧
      (∀ c ∈ dst'.room h, c ∈ dst.room h ∨ c ∈ src.room h ∨ c ∈ src.cells.drop n) ∧
      Consumes h src src' n ∧ dst'.writeCnt = dst.writeCnt + Int32.ofNat n ∧
      src'.writeCnt = src.writeCnt := by
  obtain ⟨d', s', ds', ss', hloop, hd', hs', hok, hdrop, hcells, hroom⟩ :=
    shareLoop_spec n (n + 1) 0 hd.rep hs.rep hd.chunks_ok hs.chunks_ok (Nat.zero_le n) hn
      (by omega) (fun _ => hfull)
  rw [Nat.sub_zero] at hdrop hcells hroom
  have hlist : d'.toList = ds' := hd'.toList_eq
  refine ⟨⟨d', dst.writeCnt + Int32.ofNat n, dst.contentSize + n⟩,
    { src with chunks := s', contentSize := src.contentSize - n }, ?_, ok_of_rep hd' hok ?_, ?_, ?_,
    consumes_of_drops hs hs' hdrop rfl, rfl, rfl⟩
  · simp [shareFrom, hloop, verify_of (show n ≤ src.contentSize from hs.size_eq ▸ hn)]
  · rw [hcells, List.length_append, List.length_take, hd.size_eq,
      Nat.min_eq_left (show n ≤ (Rpc.cells src.chunkList).length from hn), cells]
  · rw [cells, chunkList, hlist]
    exact hcells
  · rw [room, chunkList, hlist]
    exact hroom

private theorem writeCnt_split (w : Int32) {k n : Nat} (hk : k ≤ n) :
    w + Int32.ofNat k + Int32.ofNat (n - k) = w + Int32.ofNat n := by
  rw [Int32.add_assoc, ← Int32.ofNat_add, Nat.add_sub_cancel' hk]

/-- What the copying path has done when it turns to sharing: `k` bytes of `src` are copied into
    the cells `new`, the room of `tail_`. -/
private structure Copied (h : Heap) (dst src : Marshal) (h' : Heap) (dst' src' : Marshal) (k : Nat)
    (new : List Cell) : Prop where
  appends : Appends h dst h' dst' new ((src.content h).take k)
  consumes : Consumes h src src' k
  length_eq : new.length = k
  writeCnt : dst'.writeCnt = dst.writeCnt + Int32.ofNat k
  writeCnt' : src'.writeCnt = src.writeCnt

private theorem Copied.stores {h h' : Heap} {dst src dst' src' : Marshal} {k : Nat}
    {new : List Cell} (hc : Copied h dst src h' dst' src' k new) :
    h.Stores h' new ((src.cells.take new.length).map h.byte) := by
  rw [hc.length_eq, List.map_take]
  exact hc.appends.stores

/-- The first part of the copying path. Bytes are left to move only when `tail_` is full. -/
private theorem copy_spec {h : Heap} {dst src : Marshal} (hd : dst.Ok h) (hs : src.Ok h)
    {n : Nat} (hn : n ≤ src.cells.length) {cs : List Chunk} {t : Chunk}
    (hlist : dst.chunkList = cs.concat t) (hfull : ¬ t.fullyWritten h) :
    ∃ k h₁ dst₁ src₁ new t₁, k ≤ n ∧ Copied h dst src h₁ dst₁ src₁ k new ∧
      readFromMarshal h dst src n = (if 0 < n - k then do
          let t ← deref dst₁.chunks.tailVal
          verify (t.fullyWritten h₁)
          let moved ← shareFrom h₁ dst₁ src₁ (n - k)
          pure (h₁, moved.1, moved.2.1, k + moved.2.2)
        else pure (h₁, dst₁, src₁, k)) ∧
      dst₁.chunkList = cs ++ [t₁] ∧ (0 < n - k → t₁.fullyWritten h₁) := by
  have hrep := hd.rep
  -- `dst` ends in a chunk `t` with room
  have hchunks := hd.chunks_ok
  rw [hlist, List.concat_eq_append] at hrep hchunks
  have hhead : dst.chunks.head ≠ none := by simp [hrep.head_eq_none]
  -- `k` is what fits in `t`
  obtain ⟨k, hk⟩ : ∃ k, min (h.size t.data - t.writeIdx) n = k := ⟨_, rfl⟩
  -- the bytes are read from `src` and written to `t`
  obtain ⟨src₁, hread, hcons, hcnt₁⟩ := read_spec hs k
  have hbuf : ((src.content h).take k).length = k := by
    rw [List.length_take, content_length]
    omega
  obtain ⟨q', hwrite, hq', hg⟩ := write_fits hrep hchunks hfull ((src.content h).take k) (by omega)
  rw [hbuf] at hwrite hq' hg
  -- `h₁`, `dst₁` are the state after the copy
  generalize hdst₁ : Marshal.mk q' (dst.writeCnt + Int32.ofNat k) (dst.contentSize + k) = dst₁
    at hwrite
  generalize h.memcpy t.data t.writeIdx ((src.content h).take k) = h₁ at hwrite hg
  have hlist₁ : dst₁.chunkList = cs ++ [{ t with writeIdx := t.writeIdx + k }] := by
    rw [chunkList, ← hdst₁, hq'.toList_eq]
  have happ : Appends h dst h₁ dst₁ ((t.room h).take k) ((src.content h).take k) := by
    have hrep₁ : dst₁.chunks.Rep (cs ++ [{ t with writeIdx := t.writeIdx + k }]) := by
      rw [← hdst₁]
      exact hq'
    refine appends_of_grows hd hrep₁ ?_ ?_
    · rw [hlist, List.concat_eq_append]
      exact hg
    · rw [← hdst₁, hbuf]
  refine ⟨k, h₁, dst₁, src₁, (t.room h).take k, { t with writeIdx := t.writeIdx + k }, by omega,
    ⟨happ, hcons, by rw [happ.length_eq, hbuf], by rw [← hdst₁], hcnt₁⟩, ?_, hlist₁, fun hleft => ?_⟩
  · -- the verify of the copied length passes
    simp only [readFromMarshal, hhead, false_and, if_false, hrep.tailVal, deref_some, ok_bind, hfull,
      hk, hread, hbuf, verify_of, hwrite]
  · -- bytes are left only when `t` is full
    have ht := (chunksOk_concat.mp hchunks).2
    have hw := ht.write_le
    rw [Chunk.fullyWritten, happ.stores.size_eq _ ht.alloc]
    simp only
    omega

/-- The copying path: fill the room of `tail_` with copied bytes, then share the rest. -/
private theorem readFromMarshal_copy {h : Heap} {dst src : Marshal} (hd : dst.Ok h) (hs : src.Ok h)
    {n : Nat} (hn : n ≤ src.cells.length) {cs : List Chunk} {t : Chunk}
    (hlist : dst.chunkList = cs.concat t) (hfull : ¬ t.fullyWritten h) :
    ∃ h' dst' src' new, readFromMarshal h dst src n = .ok (h', dst', src', n) ∧
      Moves h dst src h' dst' src' n new ∧ dst'.writeCnt = dst.writeCnt + Int32.ofNat n ∧
      src'.writeCnt = src.writeCnt := by
  obtain ⟨k, h₁, dst₁, src₁, new, t₁, hkn, hcopied, hstart, hlist₁, htail⟩ :=
    copy_spec hd hs hn hlist hfull
  have happ := hcopied.appends
  have hcells₁ := hcopied.consumes.cells_eq
  have hcons₁ : Consumes h₁ src src₁ k := hcopied.consumes.mono hs happ.stores
  have hlen := hcopied.length_eq
  have hne : dst.chunkList ≠ [] := by simp [hlist]
  by_cases hleft : 0 < n - k
  · -- the copy has filled the tail, the rest is shared
    have hrep₁ := happ.ok.rep
    have hchunks₁ := happ.ok.chunks_ok
    rw [hlist₁] at hrep₁ hchunks₁
    have hfull₁ := hchunks₁.full_of_tail (htail hleft)
    rw [← hlist₁] at hfull₁
    obtain ⟨dst₂, src₂, hshare, hok₂, hcells₂, hroom₂, hcons₂, hcnt₂, hcnt₂'⟩ :=
      shareFrom_spec (n := n - k) happ.ok hcons₁.ok
        (by rw [hcells₁, List.length_drop]; omega) hfull₁
    have hsum : k + (n - k) = n := by omega
    refine ⟨h₁, dst₂, src₂, new, ?_, ⟨hok₂, hcopied.stores, by omega, ?_, happ.nodup, happ.origin,
      ?_, hsum ▸ hcons₁.trans hcons₂, fun hnil => absurd hnil hne⟩, ?_,
      hcnt₂'.trans hcopied.writeCnt'⟩
    · -- both verify pass
      rw [hstart, if_pos hleft, hrep₁.tailVal, deref_some, ok_bind, verify_of (htail hleft), ok_bind,
        hshare, ok_bind]
      simp only [hsum, pure_eq_ok]
    · -- copied cells, then shared ones
      rw [hcells₂, happ.cells_eq, hcells₁, hlen]
    · -- room of the new tail: what was room before, or cells that were shared
      intro c hc
      rcases hroom₂ c hc with hc | hc | hc
      · exact .inl (happ.room_sub c hc)
      · exact .inr (.inl (hs.room_eq happ.stores ▸ hcons₁.room_sub c hc))
      · rw [hcells₁, List.drop_drop, hsum] at hc
        exact .inr (.inr hc)
    · rw [hcnt₂, hcopied.writeCnt]
      exact writeCnt_split _ hkn
  · -- everything fitted in the tail chunk
    obtain rfl : k = n := by omega
    refine ⟨h₁, dst₁, src₁, new, by rw [hstart, if_neg hleft]; rfl, ⟨happ.ok, hcopied.stores,
      by omega, ?_, happ.nodup, happ.origin, fun c hc => .inl (happ.room_sub c hc), hcons₁,
      fun hnil => absurd hnil hne⟩, hcopied.writeCnt, hcopied.writeCnt'⟩
    rw [happ.cells_eq, hlen, Nat.sub_self, List.take_zero, List.append_nil]

/-- The three paths of `read_from_marshal` have the same effect; they differ in how many of
    the moved bytes are copied. -/
theorem readFromMarshal_spec {h : Heap} {dst src : Marshal} (hd : dst.Ok h) (hs : src.Ok h)
    {n : Nat} (hn : n ≤ src.cells.length) :
    ∃ h' dst' src' new, readFromMarshal h dst src n = .ok (h', dst', src', n) ∧
      Moves h dst src h' dst' src' n new ∧ dst'.writeCnt = dst.writeCnt + Int32.ofNat n ∧
      src'.writeCnt = src.writeCnt := by
  -- both pointer-copying paths, which copy no byte
  have hshare : (∀ c ∈ dst.chunkList, c.fullyWritten h) →
      ∃ dst' src', shareFrom h dst src n = .ok (dst', src', n) ∧
        Moves h dst src h dst' src' n [] ∧ dst'.writeCnt = dst.writeCnt + Int32.ofNat n ∧
        src'.writeCnt = src.writeCnt := by
    intro hfull
    obtain ⟨dst', src', heq, hok, hcells, hroom, hcons, hcnt, hcnt'⟩ := shareFrom_spec hd hs hn hfull
    refine ⟨dst', src', heq, ?_, hcnt, hcnt'⟩
    refine ⟨hok, Heap.Stores.refl h, Nat.zero_le n, by simpa using hcells, List.nodup_nil, by simp,
      ?_, hcons, fun _ => rfl⟩
    intro c hc
    rcases hroom c hc with hc | hc
    · exact .inl ⟨.inl hc, by simp⟩
    · exact .inr hc
  rcases List.eq_nil_or_concat dst.chunkList with hnil | ⟨cs, t, hlist⟩
  · -- `dst` is empty, so nothing is copied
    have hhead : dst.chunks.head = none := hd.rep.head_eq_none.mpr hnil
    have htail : dst.chunks.tail = none := hd.rep.tail_eq_none.mpr hhead
    obtain ⟨dst', src', heq, hmove, hcnt⟩ := hshare (by simp [hnil])
    exact ⟨h, dst', src', [], by simp [readFromMarshal, hhead, htail, heq], hmove, hcnt⟩
  · have hrep := hd.rep
    have hchunks := hd.chunks_ok
    rw [hlist, List.concat_eq_append] at hrep hchunks
    have hhead : dst.chunks.head ≠ none := by simp [hrep.head_eq_none]
    by_cases hfull : t.fullyWritten h
    · -- every chunk of `dst` is full, so nothing is copied
      have hfulls := hchunks.full_of_tail hfull
      rw [← List.concat_eq_append, ← hlist] at hfulls
      obtain ⟨dst', src', heq, hmove, hcnt⟩ := hshare hfulls
      exact ⟨h, dst', src', [], by simp [readFromMarshal, hhead, hrep.tailVal, hfull, heq], hmove,
        hcnt⟩
    · exact readFromMarshal_copy hd hs hn hlist hfull

/-- Cutting more than the source holds into an empty Marshal never returns: the loop follows
    a null `head_` or repeats on an empty chunk. -/
theorem readFromMarshal_fails {h : Heap} {dst src : Marshal} (hd : dst.Ok h)
    (hempty : dst.chunkList = []) (hs : src.Ok h) {n : Nat} (hn : src.cells.length < n) :
    ∃ e, readFromMarshal h dst src n = .error e := by
  have hhead : dst.chunks.head = none := hd.rep.head_eq_none.mpr hempty
  have htail : dst.chunks.tail = none := hd.rep.tail_eq_none.mpr hhead
  obtain ⟨e, he⟩ := shareLoop_fails n (n + 1) 0 hd.rep hs.rep hs.chunks_ok (show _ < n - 0 from hn)
  exact ⟨e, by simp [readFromMarshal, hhead, htail, shareFrom, he]⟩

/-! ## Bookmarks -/

/-- `set_bookmark` appends cells with unspecified contents. -/
theorem setBookmark_spec {h : Heap} {m : Marshal} (hm : m.Ok h) (hcnt : m.writeCnt = 0) (n : Nat) :
    ∃ h' m' new, m.setBookmark h n = .ok (h', m', new) ∧
      Appends h m h' m' new (new.map h'.byte) ∧ new.length = n ∧ m'.writeCnt = 0 := by
  obtain ⟨h', q', cs', new, hloop, hq', hg, hlen⟩ := setBookmarkLoop_spec n [] hm.rep hm.chunks_ok
  refine ⟨h', { m with chunks := q', contentSize := m.contentSize + n }, new, ?_,
    appends_of_grows hm hq' hg (by simp [hlen]), hlen, hcnt⟩
  simp [setBookmark, verify_of hcnt, hloop]

theorem getAndResetWriteCnt_spec {h : Heap} {m : Marshal} (hm : m.Ok h) :
    Consumes h m m.getAndResetWriteCnt.1 0 :=
  ⟨⟨hm.rep, hm.chunks_ok, hm.size_eq⟩, by rw [List.drop_zero]; rfl, fun _ hc => hc⟩

end Marshal

end SimpleRpc.Rpc
