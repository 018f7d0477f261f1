import SimpleRpc.Lib.Assertions
import SimpleRpc.Rpc.Process

/-!
# The Assertions of a Debug Build (`rpc/buffer.h`, `rpc/buffer.cc`, `rpc/marshal.cc`)

`SimpleRpc.Rpc.Buffer` and `SimpleRpc.Rpc.Marshal` model the default build, in which `assert` is
compiled out. Here are the same operations with every `assert` where the source has it.

## Layers

- **Code**: the operations of `Debug`, for a chunk, for a Marshal and, in `Proc.debugStep`, for
  the Marshals of a process
- **Erasure**: on well-formed Marshals an operation of `Debug` is the operation of the default build,
  unless an assertion fails, and it is said which one (`Debug.write_eq`, `Debug.readFromMarshal_eq`
  and their siblings)

## Main results

- `asserts_hold_iff`: in every state that a debug build can reach, the operations that fail an
  assertion are the empty writes and transfers behind a chunk with room, and the transfers of more
  than the source holds

## Model

- a failed `assert` ends the process as a failed `verify` does, with an error of its own
- the arguments of `write_bookmark` are never null
-/

namespace SimpleRpc.Rpc

open SimpleRpc.Lib

namespace Debug

open Checked (assert lift)

/-! ## Chunks -/

section Chunks

variable (h : Heap) (c : Chunk)

/-- `assert(write_idx <= data->size); assert(read_idx <= write_idx);` -/
def indices : Checked Fault Unit := do
  assert (c.writeIdx ≤ h.size c.data)
  assert (c.readIdx ≤ c.writeIdx)

/-- `chunk::shared_copy`; the constructor has the assertions. -/
def sharedCopy : Checked Fault Chunk := do
  let copy := c.sharedCopy
  indices h copy
  pure copy

/-- `chunk::content_size` -/
def contentSize : Checked Fault Nat := do
  indices h c
  pure c.contentSize

/-- `chunk::set_bookmark` -/
def chunkSetBookmark : Checked Fault (Chunk × Cell) := do
  indices h c
  let r := c.setBookmark
  indices h r.1
  pure r

/-- `chunk::write` -/
def chunkWrite (p : List UInt8) : Checked Fault (Heap × Chunk × Nat) := do
  indices h c
  let r := c.write h p
  indices r.1 r.2.1
  pure r

/-- `chunk::read` -/
def chunkRead (n : Nat) : Checked Fault (Chunk × List UInt8) := do
  indices h c
  let r := c.read h n
  indices h r.1
  pure r

/-- `chunk::peek` -/
def chunkPeek (n : Nat) : Checked Fault (List UInt8) := do
  indices h c
  pure (c.peek h n)

/-- `chunk::discard` -/
def discard (n : Nat) : Checked Fault (Chunk × Nat) := do
  indices h c
  let r := c.discard n
  indices h r.1
  pure r

/-- `chunk::write_to_fd` -/
def chunkWriteToFd (resp : Nat) : Checked Fault (Chunk × List UInt8) := do
  assert (c.writeIdx ≤ h.size c.data)
  let r := c.writeToFd h resp
  assert (r.1.writeIdx ≤ h.size r.1.data)
  pure r

/-- `chunk::read_from_fd` -/
def chunkReadFromFd (avail : List UInt8) (resp : Nat) :
    Checked Fault (Heap × Chunk × List UInt8) := do
  indices h c
  let r := c.readFromFd h avail resp
  indices r.1 r.2.1
  pure r

/-- `chunk::fully_written` -/
def fullyWritten : Checked Fault Bool := do
  indices h c
  pure (decide (c.fullyWritten h))

/-- `chunk::fully_read` -/
def fullyRead : Checked Fault Bool := do
  indices h c
  pure (decide (c.fullyRead h))

end Chunks

/-! ## What a Marshal asserts of itself -/

/-- `assert(tail_ == nullptr || tail_->next == nullptr)` -/
def tailIsLast (q : LinkedQueue Chunk) : Checked Fault Unit :=
  if q.tail = none then pure () else do
    let next ← lift (deref q.tailNext)
    assert (next = none)

/-- `Marshal::content_size_slow` -/
def contentSizeSlow (h : Heap) (q : LinkedQueue Chunk) : Checked Fault Nat := do
  tailIsLast q
  q.toList.foldlM (fun sz chnk => do
    let n ← contentSize h chnk
    pure (sz + n)) 0

/-- `assert(content_size_ == content_size_slow())` -/
def sizeIsRight (h : Heap) (m : Marshal) : Checked Fault Unit := do
  let sz ← contentSizeSlow h m.chunks
  assert (m.contentSize = sz)

/-- `Marshal::empty` -/
def isEmpty (h : Heap) (m : Marshal) : Checked Fault Bool := do
  sizeIsRight h m
  pure (decide (m.contentSize = 0))

/-- `assert(empty() || (head_ != nullptr && !head_->fully_read()))` -/
def headIsNotRead (h : Heap) (m : Marshal) : Checked Fault Unit := do
  let empty ← isEmpty h m
  if empty then pure () else do
    assert (m.chunks.head ≠ none)
    let head ← lift (deref m.chunks.headVal)
    let read ← fullyRead h head
    assert (read = false)

/-! ## The operations of a Marshal -/

/-- `Marshal.ensureTail` -/
def ensureTail (h : Heap) (q : LinkedQueue Chunk) : Checked Fault (Heap × LinkedQueue Chunk) :=
  if q.head = none then
    let (h, c) := Chunk.new h
    pure (h, q.pushFirst c)
  else do
    let t ← lift (deref q.tailVal)
    if ← fullyWritten h t then do
      let (h, c) := Chunk.new h
      let q ← lift (deref (q.pushBack c))
      pure (h, q)
    else
      pure (h, q)

/-- `Marshal.advanceHead` -/
def advanceHead (h : Heap) (q : LinkedQueue Chunk) (c : Chunk) :
    Checked Fault (LinkedQueue Chunk) := do
  let q ← lift (deref (q.setHead c))
  if ← fullyRead h c then lift (deref q.popHead) else pure q

/-- The chunks after `Marshal::write`. -/
def writeChunks (h : Heap) (q : LinkedQueue Chunk) (p : List UInt8) :
    Checked Fault (Heap × LinkedQueue Chunk) :=
  if q.head = none then do
    assert (q.tail = none)
    let (h, c) := Chunk.ofBytes h p
    pure (h, q.pushFirst c)
  else do
    let t ← lift (deref q.tailVal)
    if ← fullyWritten h t then do
      let (h, c) := Chunk.ofBytes h p
      let q ← lift (deref (q.pushBack c))
      pure (h, q)
    else do
      let (h, t, nWrite) ← chunkWrite h t p
      -- otherwise the above fully_written() should have returned true
      assert (0 < nWrite)
      let q ← lift (deref (q.setTail t))
      if nWrite < p.length then do
        let (h, c) := Chunk.ofBytes h (p.drop nWrite)
        let q ← lift (deref (q.pushBack c))
        pure (h, q)
      else
        pure (h, q)

/-- `Marshal::write` -/
def write (h : Heap) (m : Marshal) (p : List UInt8) : Checked Fault (Heap × Marshal) := do
  tailIsLast m.chunks
  let (h, q) ← writeChunks h m.chunks p
  let m : Marshal := { chunks := q, writeCnt := m.writeCnt + Int32.ofNat p.length,
                       contentSize := m.contentSize + p.length }
  sizeIsRight h m
  pure (h, m)

/-- The loop of `Marshal::read`. -/
def readLoop (h : Heap) (n : Nat) :
    Nat → LinkedQueue Chunk → List UInt8 → Checked Fault (LinkedQueue Chunk × List UInt8)
  | 0, _, _ => .error (.fault .noProgress)
  | fuel + 1, q, out =>
    if out.length < n ∧ q.head ≠ none then do
      let c ← lift (deref q.headVal)
      let size ← contentSize h c
      if 0 < size then do
        let (c, bytes) ← chunkRead h c (n - out.length)
        let q ← advanceHead h q c
        if bytes.length = 0 then pure (q, out)
        else readLoop h n fuel q (out ++ bytes)
      else pure (q, out)
    else pure (q, out)

/-- `Marshal::read` -/
def read (h : Heap) (m : Marshal) (n : Nat) : Checked Fault (Marshal × List UInt8) := do
  tailIsLast m.chunks
  headIsNotRead h m
  let (q, out) ← readLoop h n (n + 1) m.chunks []
  assert (out.length ≤ m.contentSize)
  let m := { m with chunks := q, contentSize := m.contentSize - out.length }
  sizeIsRight h m
  assert (out.length ≤ n)
  tailIsLast m.chunks
  headIsNotRead h m
  pure (m, out)

/-- The loop of `Marshal::peek`. -/
def peekLoop (h : Heap) (n : Nat) : List Chunk → List UInt8 → Checked Fault (List UInt8)
  | [], out => pure out
  | c :: cs, out =>
    if 0 < n - out.length then do
      let bytes ← chunkPeek h c (n - out.length)
      if bytes.length = 0 then pure out else peekLoop h n cs (out ++ bytes)
    else pure out

/-- `Marshal::peek` -/
def peek (h : Heap) (m : Marshal) (n : Nat) : Checked Fault (List UInt8) := do
  tailIsLast m.chunks
  headIsNotRead h m
  let out ← peekLoop h n m.chunks.toList []
  assert (out.length ≤ n)
  tailIsLast m.chunks
  headIsNotRead h m
  pure out

/-- The loop of `Marshal::read_from_fd`. -/
def readFromFdLoop : List Nat → Heap → LinkedQueue Chunk → List UInt8 → List UInt8 →
    Checked Fault (Heap × LinkedQueue Chunk × List UInt8 × List UInt8)
  | resps, h, q, avail, got => do
    let (h, q) ← ensureTail h q
    match resps with
    | [] => pure (h, q, avail, got)
    | resp :: resps => do
      let t ← lift (deref q.tailVal)
      let (h, t, bytes) ← chunkReadFromFd h t avail resp
      let q ← lift (deref (q.setTail t))
      if bytes.length = 0 then pure (h, q, avail, got)
      else readFromFdLoop resps h q (avail.drop bytes.length) (got ++ bytes)

/-- `Marshal::read_from_fd` -/
def readFromFd (h : Heap) (m : Marshal) (avail : List UInt8) (resps : List Nat) :
    Checked Fault (Heap × Marshal × List UInt8 × List UInt8) := do
  headIsNotRead h m
  let (h, q, avail, got) ← readFromFdLoop resps h m.chunks avail []
  let m : Marshal := { chunks := q, writeCnt := m.writeCnt + Int32.ofNat got.length,
                       contentSize := m.contentSize + got.length }
  sizeIsRight h m
  headIsNotRead h m
  pure (h, m, avail, got)

/-- The loop of `Marshal::write_to_fd`. -/
def writeToFdLoop (h : Heap) : List Nat → Marshal → List UInt8 →
    Checked Fault (Marshal × List UInt8)
  | resps, m, out => do
    let empty ← isEmpty h m
    if empty then pure (m, out)
    else do
      let c ← lift (deref m.chunks.headVal)
      match resps with
      | [] => do
        -- `::write` fails
        assert (c.writeIdx ≤ h.size c.data)
        let q ← advanceHead h m.chunks c
        pure ({ m with chunks := q }, out)
      | resp :: resps => do
        let (c, bytes) ← chunkWriteToFd h c resp
        let q ← advanceHead h m.chunks c
        if bytes.length = 0 then pure ({ m with chunks := q }, out)
        else do
          assert (bytes.length ≤ m.contentSize)
          writeToFdLoop h resps
            { m with chunks := q, contentSize := m.contentSize - bytes.length } (out ++ bytes)

/-- `Marshal::write_to_fd` -/
def writeToFd (h : Heap) (m : Marshal) (resps : List Nat) :
    Checked Fault (Marshal × List UInt8) := do
  let (m, out) ← writeToFdLoop h resps m []
  sizeIsRight h m
  pure (m, out)

/-- The pointer-copying loop of `Marshal::read_from_marshal`. -/
def shareLoop (h : Heap) (n : Nat) : Nat → LinkedQueue Chunk → LinkedQueue Chunk → Nat →
    Checked Fault (LinkedQueue Chunk × LinkedQueue Chunk × Nat)
  | 0, _, _, _ => .error (.fault .noProgress)
  | fuel + 1, dst, src, nFetch =>
    if nFetch < n then do
      let head ← lift (deref src.headVal)
      let chnk ← sharedCopy h head
      let size ← contentSize h chnk
      let chnk :=
        if nFetch + size > n then { chnk with writeIdx := chnk.writeIdx - (nFetch + size - n) }
        else chnk
      let cnt ← contentSize h chnk
      assert (0 < cnt)
      let (head, discarded) ← discard h head cnt
      lift (verify (discarded = cnt))
      let dst ← lift (Marshal.link dst chnk)
      let src ← advanceHead h src head
      shareLoop h n fuel dst src (nFetch + cnt)
    else pure (dst, src, nFetch)

/-- The first branch of `Marshal::read_from_marshal`. -/
def shareFrom (h : Heap) (dst src : Marshal) (n : Nat) :
    Checked Fault (Marshal × Marshal × Nat) := do
  let (d, s, nFetch) ← shareLoop h n (n + 1) dst.chunks src.chunks 0
  lift (verify (nFetch ≤ src.contentSize))
  pure ({ chunks := d, writeCnt := dst.writeCnt + Int32.ofNat nFetch,
          contentSize := dst.contentSize + nFetch },
        { src with chunks := s, contentSize := src.contentSize - nFetch }, nFetch)

/-- What `Marshal::read_from_marshal` asserts at its beginning. -/
def transferBegins (h : Heap) (src : Marshal) (n : Nat) : Checked Fault Unit := do
  sizeIsRight h src
  assert (n ≤ src.contentSize)

/-- What it asserts at its end. -/
def transferEnds (h : Heap) (dst : Marshal) (n nFetch : Nat) : Checked Fault Unit := do
  assert (nFetch = n)
  sizeIsRight h dst

/-- `Marshal::read_from_marshal`, called by itself: the first branch is taken. -/
def readFromMarshalAgain (h : Heap) (dst src : Marshal) (n : Nat) :
    Checked Fault (Marshal × Marshal × Nat) := do
  transferBegins h src n
  let (dst, src, nFetch) ← shareFrom h dst src n
  transferEnds h dst n nFetch
  pure (dst, src, nFetch)

/-- The branches of `dst.read_from_marshal(src, n)`. -/
def transfer (h : Heap) (dst src : Marshal) (n : Nat) :
    Checked Fault (Heap × Marshal × Marshal × Nat) :=
  if dst.chunks.head = none ∧ dst.chunks.tail = none then do
    let (dst, src, nFetch) ← shareFrom h dst src n
    pure (h, dst, src, nFetch)
  else do
    let t ← lift (deref dst.chunks.tailVal)
    if ← fullyWritten h t then do
      let (dst, src, nFetch) ← shareFrom h dst src n
      pure (h, dst, src, nFetch)
    else do
      let copyN := min (h.size t.data - t.writeIdx) n
      let (src, buf) ← read h src copyN
      lift (verify (buf.length = copyN))
      let (h, dst) ← write h dst buf
      let leftover := n - copyN
      if 0 < leftover then do
        let t ← lift (deref dst.chunks.tailVal)
        let full ← fullyWritten h t
        lift (verify (full = true))
        let (dst, src, nFetch) ← readFromMarshalAgain h dst src leftover
        pure (h, dst, src, buf.length + nFetch)
      else
        pure (h, dst, src, buf.length)

/-- `dst.read_from_marshal(src, n)` -/
def readFromMarshal (h : Heap) (dst src : Marshal) (n : Nat) :
    Checked Fault (Heap × Marshal × Marshal × Nat) := do
  transferBegins h src n
  let (h, dst, src, nFetch) ← transfer h dst src n
  transferEnds h dst n nFetch
  pure (h, dst, src, nFetch)

/-- The loop of `Marshal::set_bookmark`. -/
def setBookmarkLoop : Nat → Heap → LinkedQueue Chunk → Bookmark →
    Checked Fault (Heap × LinkedQueue Chunk × Bookmark)
  | 0, h, q, bm => pure (h, q, bm)
  | n + 1, h, q, bm => do
    let (h, q) ← ensureTail h q
    let t ← lift (deref q.tailVal)
    let (t, cell) ← chunkSetBookmark h t
    let q ← lift (deref (q.setTail t))
    setBookmarkLoop n h q (bm ++ [cell])

/-- `Marshal::set_bookmark` -/
def setBookmark (h : Heap) (m : Marshal) (n : Nat) :
    Checked Fault (Heap × Marshal × Bookmark) := do
  lift (verify (m.writeCnt = 0))
  let (h, q, bm) ← setBookmarkLoop n h m.chunks []
  let m := { m with chunks := q, contentSize := m.contentSize + n }
  sizeIsRight h m
  pure (h, m, bm)

/-! ## Assertions that hold -/

open Checked (assert_bind assert_of returned_bind lift_bind)

/-- The indices of a chunk are where its assertions want them. -/
def InBounds (h : Heap) (c : Chunk) : Prop := c.writeIdx ≤ h.size c.data ∧ c.readIdx ≤ c.writeIdx

theorem inBounds_of_ok {h : Heap} {c : Chunk} (hc : c.Ok h) : InBounds h c :=
  ⟨hc.write_le, hc.read_le⟩

section Chunks

variable {h : Heap} {c : Chunk} (hc : InBounds h c)

include hc

theorem indices_of : indices h c = .ok () := by
  rw [indices, assert_bind hc.1, assert_of hc.2]

theorem sharedCopy_eq : sharedCopy h c = .ok c.sharedCopy := by
  have hcopy : InBounds h c.sharedCopy := hc
  rw [sharedCopy, returned_bind (indices_of hcopy)]
  rfl

theorem contentSize_eq : contentSize h c = .ok c.contentSize := by
  rw [contentSize, returned_bind (indices_of hc)]
  rfl

theorem fullyWritten_eq : fullyWritten h c = .ok (decide (c.fullyWritten h)) := by
  rw [fullyWritten, returned_bind (indices_of hc)]
  rfl

theorem fullyRead_eq : fullyRead h c = .ok (decide (c.fullyRead h)) := by
  rw [fullyRead, returned_bind (indices_of hc)]
  rfl

theorem chunkSetBookmark_eq (hroom : ¬ c.fullyWritten h) :
    chunkSetBookmark h c = .ok c.setBookmark := by
  have hafter : InBounds h c.setBookmark.1 := by
    obtain ⟨hw, hr⟩ := hc
    unfold Chunk.fullyWritten at hroom
    constructor
    · show c.writeIdx + 1 ≤ h.size c.data
      omega
    · show c.readIdx ≤ c.writeIdx + 1
      omega
  rw [chunkSetBookmark, returned_bind (indices_of hc), returned_bind (indices_of hafter)]
  rfl

theorem chunkWrite_eq (p : List UInt8) : chunkWrite h c p = .ok (c.write h p) := by
  have hafter : InBounds (c.write h p).1 (c.write h p).2.1 := by
    obtain ⟨hw, hr⟩ := hc
    constructor
    · show c.writeIdx + min p.length (h.size c.data - c.writeIdx) ≤ h.size c.data
      omega
    · show c.readIdx ≤ c.writeIdx + min p.length (h.size c.data - c.writeIdx)
      omega
  rw [chunkWrite, returned_bind (indices_of hc), returned_bind (indices_of hafter)]
  rfl

theorem chunkRead_eq (n : Nat) : chunkRead h c n = .ok (c.read h n) := by
  have hafter : InBounds h (c.read h n).1 := by
    obtain ⟨hw, hr⟩ := hc
    refine ⟨hw, ?_⟩
    show c.readIdx + min n (c.writeIdx - c.readIdx) ≤ c.writeIdx
    omega
  rw [chunkRead, returned_bind (indices_of hc), returned_bind (indices_of hafter)]
  rfl

theorem chunkPeek_eq (n : Nat) : chunkPeek h c n = .ok (c.peek h n) := by
  rw [chunkPeek, returned_bind (indices_of hc)]
  rfl

theorem discard_eq (n : Nat) : discard h c n = .ok (c.discard n) := by
  have hafter : InBounds h (c.discard n).1 := by
    obtain ⟨hw, hr⟩ := hc
    refine ⟨hw, ?_⟩
    show c.readIdx + min n (c.writeIdx - c.readIdx) ≤ c.writeIdx
    omega
  rw [discard, returned_bind (indices_of hc), returned_bind (indices_of hafter)]
  rfl

theorem chunkWriteToFd_eq (resp : Nat) : chunkWriteToFd h c resp = .ok (c.writeToFd h resp) := by
  have hafter : (c.writeToFd h resp).1.writeIdx ≤ h.size (c.writeToFd h resp).1.data := hc.1
  rw [chunkWriteToFd, assert_bind hc.1, assert_bind hafter]
  rfl

theorem chunkReadFromFd_eq (avail : List UInt8) (resp : Nat) :
    chunkReadFromFd h c avail resp = .ok (c.readFromFd h avail resp) := by
  have hafter : InBounds (c.readFromFd h avail resp).1 (c.readFromFd h avail resp).2.1 := by
    obtain ⟨hw, hr⟩ := hc
    constructor
    · show c.writeIdx + min (min resp Chunk.maxRwCount) (min avail.length (h.size c.data - c.writeIdx))
        ≤ h.size c.data
      omega
    · show c.readIdx ≤ c.writeIdx +
        min (min resp Chunk.maxRwCount) (min avail.length (h.size c.data - c.writeIdx))
      omega
  rw [chunkReadFromFd, returned_bind (indices_of hc), returned_bind (indices_of hafter)]
  rfl

omit hc in
theorem inBounds_advance (hc : InBounds h c) {k : Nat} (hk : k ≤ c.contentSize) :
    InBounds h { c with readIdx := c.readIdx + k } := by
  obtain ⟨hw, hr⟩ := hc
  refine ⟨hw, ?_⟩
  unfold Chunk.contentSize at hk
  show c.readIdx + k ≤ c.writeIdx
  omega

theorem advanceHead_eq {q : LinkedQueue Chunk} :
    advanceHead h q c = lift (Marshal.advanceHead h q c) := by
  refine lift_bind rfl fun q' _ => ?_
  rw [returned_bind (fullyRead_eq hc)]
  by_cases hfull : c.fullyRead h
  · rw [if_pos (decide_eq_true hfull), if_pos hfull]
  · rw [if_neg (by simpa using hfull), if_neg hfull]
    rfl

end Chunks

section Queues

variable {h : Heap} {q : LinkedQueue Chunk} {cs : List Chunk} (hq : q.Rep cs)

include hq

theorem tailIsLast_of : tailIsLast q = .ok () := by
  rw [tailIsLast]
  by_cases htail : q.tail = none
  · rw [if_pos htail]
    rfl
  · rw [if_neg htail]
    cases cs using List.reverseRecOn with
    | nil => exact absurd (hq.tail_eq_none.mpr (hq.head_eq_none.mpr rfl)) htail
    | append_singleton cs t =>
      rw [hq.tailNext, deref_some, Checked.lift_ok, returned_bind rfl]
      exact assert_of rfl

theorem contentSizeSlow_of (hok : ChunksOk h cs) :
    contentSizeSlow h q = .ok (cells cs).length := by
  have hsum : ∀ (cs : List Chunk) (sz : Nat), (∀ c ∈ cs, InBounds h c) →
      cs.foldlM (fun sz chnk => do
        let n ← contentSize h chnk
        pure (sz + n)) sz = (.ok (sz + (cells cs).length) : Checked Fault Nat) := by
    intro cs
    induction cs with
    | nil => exact fun sz _ => rfl
    | cons c cs ih =>
      intro sz hcs
      rw [List.foldlM_cons, returned_bind (contentSize_eq (hcs c (.head _)))]
      have hrest := ih (sz + c.contentSize) fun d hd => hcs d (.tail _ hd)
      refine hrest.trans ?_
      rw [cells_cons, List.length_append, c.cells_length, Nat.add_assoc]
  rw [contentSizeSlow, returned_bind (tailIsLast_of hq), hq.toList_eq,
    hsum cs 0 fun c hc => inBounds_of_ok (hok.ok c hc), Nat.zero_add]

end Queues

section Marshals

variable {h : Heap} {m : Marshal} (hm : m.Ok h)

include hm

theorem sizeIsRight_of : sizeIsRight h m = .ok () := by
  rw [sizeIsRight, returned_bind (contentSizeSlow_of hm.rep hm.chunks_ok)]
  exact assert_of hm.size_eq

theorem isEmpty_eq : isEmpty h m = .ok (decide (m.contentSize = 0)) := by
  rw [isEmpty, returned_bind (sizeIsRight_of hm)]
  rfl

theorem headIsNotRead_of : headIsNotRead h m = .ok () := by
  rw [headIsNotRead, returned_bind (isEmpty_eq hm)]
  by_cases hzero : m.contentSize = 0
  · rw [if_pos (decide_eq_true hzero)]
    rfl
  · rw [if_neg (by simpa using hzero)]
    -- a Marshal that is not empty has a first chunk
    have hsize := hm.size_eq
    have hrep := hm.rep
    have hchunks := hm.chunks_ok
    rw [Marshal.cells] at hsize
    generalize m.chunkList = cs at hsize hrep hchunks
    cases cs with
    | nil => exact absurd hsize hzero
    | cons c cs =>
      have hc := hchunks.ok c (.head _)
      have hhead : m.chunks.head ≠ none := by simp [hrep.head_eq_none]
      rw [assert_bind hhead, hrep.headVal, deref_some, Checked.lift_ok, returned_bind rfl,
        returned_bind (fullyRead_eq (inBounds_of_ok hc))]
      exact assert_of (decide_eq_false hc.not_fullyRead)

end Marshals

/-! ## Erasure of the assertions -/

theorem ensureTail_eq {h : Heap} {q : LinkedQueue Chunk} {cs : List Chunk} (hq : q.Rep cs)
    (hok : ChunksOk h cs) : ensureTail h q = lift (Marshal.ensureTail h q) := by
  rw [ensureTail, Marshal.ensureTail]
  by_cases hhead : q.head = none
  · -- an empty queue gets a chunk
    rw [if_pos hhead, if_pos hhead]
    rfl
  · rw [if_neg hhead, if_neg hhead]
    cases cs using List.reverseRecOn with
    | nil => exact absurd (hq.head_eq_none.mpr rfl) hhead
    | append_singleton cs t =>
      have ht := (chunksOk_concat.mp hok).2
      refine lift_bind rfl fun t' ht' => ?_
      obtain rfl : t = t' := by simpa [hq.tailVal] using ht'
      rw [returned_bind (fullyWritten_eq (inBounds_of_ok ht))]
      -- a full last chunk is followed by a new one
      by_cases hfull : t.fullyWritten h
      · rw [if_pos (decide_eq_true hfull), if_pos hfull]
        exact lift_bind rfl fun _ _ => rfl
      · -- otherwise it is used as it is
        rw [if_neg (by simpa using hfull), if_neg hfull]
        rfl

/-- The assertion behind `chunk::write` fails if nothing is to be written into a chunk with room. -/
def Fits (h : Heap) (cs : List Chunk) (p : List UInt8) : Prop :=
  p = [] → ∀ t ∈ cs.getLast?, t.fullyWritten h

/-- `writeChunks` of the default build. -/
def plainWriteChunks (h : Heap) (q : LinkedQueue Chunk) (p : List UInt8) :
    Except Fault (Heap × LinkedQueue Chunk) :=
  if q.head = none then
    let (h, c) := Chunk.ofBytes h p
    pure (h, q.pushFirst c)
  else do
    let t ← deref q.tailVal
    if t.fullyWritten h then do
      let (h, c) := Chunk.ofBytes h p
      let q ← deref (q.pushBack c)
      pure (h, q)
    else do
      let (h, t, nWrite) := t.write h p
      let q ← deref (q.setTail t)
      if nWrite < p.length then do
        let (h, c) := Chunk.ofBytes h (p.drop nWrite)
        let q ← deref (q.pushBack c)
        pure (h, q)
      else
        pure (h, q)

theorem write_eq_plain (h : Heap) (m : Marshal) (p : List UInt8) :
    m.write h p = plainWriteChunks h m.chunks p >>= fun r =>
      pure (r.1, { chunks := r.2, writeCnt := m.writeCnt + Int32.ofNat p.length,
                   contentSize := m.contentSize + p.length }) := by
  rw [Marshal.write, plainWriteChunks]
  by_cases hhead : m.chunks.head = none
  · -- an empty queue
    rw [if_pos hhead, if_pos hhead]
  · rw [if_neg hhead, if_neg hhead]
    cases deref m.chunks.tailVal with
    | error e => rfl
    | ok t =>
      simp only [ok_bind]
      by_cases hfull : t.fullyWritten h
      · -- a full last chunk
        rw [if_pos hfull, if_pos hfull]
        cases deref (m.chunks.pushBack (Chunk.ofBytes h p).2) <;> rfl
      · -- a last chunk with room
        rw [if_neg hfull, if_neg hfull]
        cases deref (m.chunks.setTail (t.write h p).2.1) with
        | error e => rfl
        | ok q =>
          simp only [ok_bind]
          by_cases hlt : (t.write h p).2.2 < p.length
          · -- what does not fit goes into a new chunk
            rw [if_pos hlt, if_pos hlt]
            generalize deref (q.pushBack _) = back
            cases back <;> rfl
          · rw [if_neg hlt, if_neg hlt]

theorem writeChunks_eq {h : Heap} {m : Marshal} {cs : List Chunk} (hq : m.chunks.Rep cs)
    (hok : ChunksOk h cs) {p : List UInt8} (hfits : Fits h cs p) :
    writeChunks h m.chunks p = lift (plainWriteChunks h m.chunks p) := by
  rw [writeChunks, plainWriteChunks]
  by_cases hhead : m.chunks.head = none
  · -- an empty queue has no tail either
    rw [if_pos hhead, if_pos hhead, assert_bind (hq.tail_eq_none.mpr hhead)]
    rfl
  · rw [if_neg hhead, if_neg hhead]
    cases cs using List.reverseRecOn with
    | nil => exact absurd (hq.head_eq_none.mpr rfl) hhead
    | append_singleton cs t =>
      have ht := inBounds_of_ok (chunksOk_concat.mp hok).2
      refine lift_bind rfl fun t' ht' => ?_
      obtain rfl : t = t' := by simpa [hq.tailVal] using ht'
      rw [returned_bind (fullyWritten_eq ht)]
      by_cases hfull : t.fullyWritten h
      · -- nothing is written into a full chunk
        rw [if_pos (decide_eq_true hfull), if_pos hfull]
        exact lift_bind rfl fun _ _ => rfl
      · rw [if_neg (by simpa using hfull), if_neg hfull, returned_bind (chunkWrite_eq ht p)]
        -- there is room, and there is something to write
        have hwritten : 0 < (t.write h p).2.2 := by
          have hne : p ≠ [] := fun hp => hfull (hfits hp t (by simp))
          have hlen := List.length_pos_iff.mpr hne
          have hw := ht.1
          unfold Chunk.fullyWritten at hfull
          show 0 < min p.length (h.size t.data - t.writeIdx)
          omega
        simp only
        rw [assert_bind hwritten]
        refine lift_bind rfl fun q' _ => ?_
        by_cases hlt : (t.write h p).2.2 < p.length
        · -- the rest goes into a chunk of its own
          rw [if_pos hlt, if_pos hlt]
          exact lift_bind rfl fun _ _ => rfl
        · rw [if_neg hlt, if_neg hlt]
          rfl

section Marshals

variable {h : Heap} {m : Marshal} (hm : m.Ok h)

include hm

/-- **`write`** -/
theorem write_eq {p : List UInt8} (hfits : Fits h m.chunkList p) :
    write h m p = lift (m.write h p) := by
  obtain ⟨h', m', new, hspec, happ, -⟩ := Marshal.write_spec hm p
  rw [write, write_eq_plain, returned_bind (tailIsLast_of hm.rep)]
  refine lift_bind (writeChunks_eq hm.rep hm.chunks_ok hfits) fun r hr => ?_
  rw [write_eq_plain, hr] at hspec
  obtain ⟨rfl, rfl⟩ := Prod.mk.inj (Except.ok.inj hspec)
  simp only
  rw [returned_bind (sizeIsRight_of happ.ok)]
  rfl

/-- An empty write behind a chunk with room. -/
theorem write_fails {p : List UInt8} (hfits : ¬ Fits h m.chunkList p) :
    write h m p = .error .assertFailed := by
  simp only [Fits, Classical.not_imp, not_forall] at hfits
  obtain ⟨rfl, t, ht, hfull⟩ := hfits
  have hrep := hm.rep
  have hchunks := hm.chunks_ok
  generalize m.chunkList = cs at ht hrep hchunks
  -- the last chunk has room for none of nothing
  obtain ⟨cs, rfl⟩ := List.getLast?_eq_some_iff.mp ht
  have hhead : m.chunks.head ≠ none := by simp [hrep.head_eq_none]
  have htail := inBounds_of_ok (chunksOk_concat.mp hchunks).2
  have hnothing : ¬ 0 < (t.write h []).2.2 := by
    show ¬ 0 < min [].length _
    simp
  rw [write, returned_bind (tailIsLast_of hrep), writeChunks, if_neg hhead, hrep.tailVal, deref_some,
    Checked.lift_ok, returned_bind rfl, returned_bind (fullyWritten_eq htail),
    if_neg (by simpa using hfull), returned_bind (chunkWrite_eq htail [])]
  simp only
  rw [Checked.assert_bind_not hnothing]
  rfl

end Marshals

theorem readLoop_eq {h : Heap} (n : Nat) (fuel : Nat) {q : LinkedQueue Chunk} {cs : List Chunk}
    (out : List UInt8) (hq : q.Rep cs) (hok : ChunksOk h cs) :
    readLoop h n fuel q out = lift (Marshal.readLoop h n fuel q out) := by
  induction fuel generalizing q cs out with
  | zero => rfl
  | succ fuel ih =>
    rw [readLoop, Marshal.readLoop]
    by_cases hmore : out.length < n ∧ q.head ≠ none
    · rw [if_pos hmore, if_pos hmore]
      cases cs with
      | nil => exact absurd (hq.head_eq_none.mpr rfl) hmore.2
      | cons c cs =>
        have hc := inBounds_of_ok (hok.ok c (.head _))
        rw [hq.headVal, deref_some, Checked.lift_ok, returned_bind rfl, ok_bind,
          returned_bind (contentSize_eq hc)]
        -- the head chunk holds something
        by_cases hpos : 0 < c.contentSize
        · rw [if_pos hpos, if_pos hpos, returned_bind (chunkRead_eq hc _)]
          -- the head chunk has delivered `k` bytes
          generalize hk : min (n - out.length) (c.writeIdx - c.readIdx) = k
          have hkle : k ≤ c.contentSize := by
            unfold Chunk.contentSize
            omega
          obtain ⟨q', cs', hadv, hq', hdrop⟩ := advanceHead_spec hq hok hkle
          simp only [Chunk.read, hk]
          refine lift_bind (advanceHead_eq (inBounds_advance hc hkle)) fun q₁ hq₁ => ?_
          obtain rfl : q' = q₁ := Except.ok.inj (hadv.symm.trans hq₁)
          by_cases hnone : (c.bytesAt h k).length = 0
          · rw [if_pos hnone, if_pos hnone]
            rfl
          · rw [if_neg hnone, if_neg hnone]
            exact ih _ hq' hdrop.ok
        · -- an empty head chunk ends the loop
          rw [if_neg hpos, if_neg hpos]
          rfl
    · -- enough was read
      rw [if_neg hmore, if_neg hmore]
      rfl

theorem peekLoop_eq {h : Heap} (n : Nat) {cs : List Chunk} (out : List UInt8)
    (hcs : ∀ c ∈ cs, InBounds h c) : peekLoop h n cs out = .ok (Marshal.peekLoop h n cs out) := by
  induction cs generalizing out with
  | nil => rfl
  | cons c cs ih =>
    rw [peekLoop, Marshal.peekLoop]
    by_cases hpos : 0 < n - out.length
    · rw [if_pos hpos, if_pos hpos, returned_bind (chunkPeek_eq (hcs c (.head _)) _)]
      simp only
      by_cases hnone : (c.peek h (n - out.length)).length = 0
      · rw [if_pos hnone, if_pos hnone]
        rfl
      · rw [if_neg hnone, if_neg hnone]
        exact ih _ fun d hd => hcs d (.tail _ hd)
    · rw [if_neg hpos, if_neg hpos]
      rfl

/-- The last chunk after `chunk::read_from_fd`. -/
theorem chunksOk_readFromFd {h : Heap} {cs : List Chunk} {t : Chunk} (hok : ChunksOk h (cs ++ [t]))
    (avail : List UInt8) (resp : Nat) :
    ChunksOk (t.readFromFd h avail resp).1 (cs ++ [(t.readFromFd h avail resp).2.1]) := by
  simp only [Chunk.readFromFd]
  generalize hk : min (min resp Chunk.maxRwCount) (min avail.length (h.size t.data - t.writeIdx)) = k
  have hkroom : k ≤ h.size t.data - t.writeIdx := by omega
  have hlen : (avail.take k).length = k := by
    rw [List.length_take]
    omega
  have hs := h.memcpy_stores t.data t.writeIdx (avail.take k)
  rw [hlen, ← take_cellsAt _ _ hkroom] at hs
  exact (grows_extend hok hkroom hs).ok

/-- The last chunk after `chunk::set_bookmark`. -/
theorem chunksOk_setBookmark {h : Heap} {cs : List Chunk} {t : Chunk} (hok : ChunksOk h (cs ++ [t]))
    (hroom : ¬ t.fullyWritten h) : ChunksOk h (cs ++ [t.setBookmark.1]) := by
  have hw := (chunksOk_concat.mp hok).2.write_le
  have hone : 1 ≤ h.size t.data - t.writeIdx := by
    unfold Chunk.fullyWritten at hroom
    omega
  have hs : h.Stores h ((t.room h).take 1) (((t.room h).take 1).map h.byte) :=
    ⟨Nat.le_refl _, fun _ _ => rfl, rfl, fun _ _ => rfl⟩
  exact (grows_extend hok hone hs).ok

theorem readFromFdLoop_eq (resps : List Nat) {h : Heap} {q : LinkedQueue Chunk} {cs : List Chunk}
    (avail got : List UInt8) (hq : q.Rep cs) (hok : ChunksOk h cs) :
    readFromFdLoop resps h q avail got = lift (Marshal.readFromFdLoop resps h q avail got) := by
  induction resps generalizing h q cs avail got with
  | nil =>
    -- only the room is made
    rw [readFromFdLoop, Marshal.readFromFdLoop]
    exact lift_bind (ensureTail_eq hq hok) fun _ _ => rfl
  | cons resp resps ih =>
    rw [readFromFdLoop, Marshal.readFromFdLoop]
    refine lift_bind (ensureTail_eq hq hok) fun r hr => ?_
    obtain ⟨h₁, q₁, cs₁, t, hens, hq₁, hg₁, -⟩ := ensureTail_spec hq hok
    obtain rfl : (h₁, q₁) = r := Except.ok.inj (hens.symm.trans hr)
    have ht := inBounds_of_ok (chunksOk_concat.mp hg₁.ok).2
    simp only [hq₁.tailVal, deref_some, Checked.lift_ok]
    rw [returned_bind rfl, ok_bind, returned_bind (chunkReadFromFd_eq ht avail resp)]
    refine lift_bind rfl fun q₂ hset => ?_
    by_cases hnone : (t.readFromFd h₁ avail resp).2.2.length = 0
    · -- a read of nothing ends the loop
      rw [if_pos hnone, if_pos hnone]
      rfl
    · rw [if_neg hnone, if_neg hnone]
      obtain ⟨q', hset', hq'⟩ := hq₁.setTail (t.readFromFd h₁ avail resp).2.1
      rw [hset', deref_some] at hset
      obtain rfl : q' = q₂ := Except.ok.inj hset
      exact ih _ _ hq' (chunksOk_readFromFd hg₁.ok avail resp)

theorem setBookmarkLoop_eq (n : Nat) {h : Heap} {q : LinkedQueue Chunk} {cs : List Chunk}
    (bm : Bookmark) (hq : q.Rep cs) (hok : ChunksOk h cs) :
    setBookmarkLoop n h q bm = lift (Marshal.setBookmarkLoop n h q bm) := by
  induction n generalizing h q cs bm with
  | zero => rfl
  | succ n ih =>
    rw [setBookmarkLoop, Marshal.setBookmarkLoop]
    refine lift_bind (ensureTail_eq hq hok) fun r hr => ?_
    obtain ⟨h₁, q₁, cs₁, t, hens, hq₁, hg₁, hroom⟩ := ensureTail_spec hq hok
    obtain rfl : (h₁, q₁) = r := Except.ok.inj (hens.symm.trans hr)
    have ht := inBounds_of_ok (chunksOk_concat.mp hg₁.ok).2
    simp only [hq₁.tailVal, deref_some, Checked.lift_ok]
    rw [returned_bind rfl, ok_bind, returned_bind (chunkSetBookmark_eq ht hroom)]
    refine lift_bind rfl fun q₂ hset => ?_
    obtain ⟨q', hset', hq'⟩ := hq₁.setTail t.setBookmark.1
    rw [hset', deref_some] at hset
    obtain rfl : q' = q₂ := Except.ok.inj hset
    exact ih _ hq' (chunksOk_setBookmark hg₁.ok hroom)

/-- The first chunk of a Marshal, where there is one. -/
theorem head_of_deref {h : Heap} {m : Marshal} (hm : m.Ok h) {c : Chunk}
    (hhead : deref m.chunks.headVal = .ok c) :
    ∃ cs, m.chunkList = c :: cs ∧ m.chunks.Rep (c :: cs) ∧ ChunksOk h (c :: cs) := by
  have hrep := hm.rep
  have hchunks := hm.chunks_ok
  generalize m.chunkList = cs at hrep hchunks
  cases cs with
  | nil =>
    have hnull : m.chunks.headVal = none := by
      rw [LinkedQueue.headVal, hrep.head_eq_none.mpr rfl]
      rfl
    rw [hnull] at hhead
    cases hhead
  | cons d cs =>
    rw [hrep.headVal, deref_some] at hhead
    obtain rfl : d = c := Except.ok.inj hhead
    exact ⟨cs, rfl, hrep, hchunks⟩

theorem writeToFdLoop_eq {h : Heap} (resps : List Nat) {m : Marshal} (out : List UInt8)
    (hm : m.Ok h) : writeToFdLoop h resps m out = lift (Marshal.writeToFdLoop h resps m out) := by
  induction resps generalizing m out with
  | nil =>
    rw [writeToFdLoop, Marshal.writeToFdLoop, returned_bind (isEmpty_eq hm)]
    by_cases hzero : m.contentSize = 0
    · -- nothing is to be sent
      rw [if_pos (decide_eq_true hzero), if_pos hzero]
      rfl
    · -- the assertion about the head chunk
      rw [if_neg (by simpa using hzero), if_neg hzero]
      refine lift_bind rfl fun c hhead => ?_
      obtain ⟨cs, -, -, hok⟩ := head_of_deref hm hhead
      have hc := inBounds_of_ok (hok.ok c (.head _))
      simp only
      rw [assert_bind hc.1]
      exact lift_bind (advanceHead_eq hc) fun _ _ => rfl
  | cons resp resps ih =>
    rw [writeToFdLoop, Marshal.writeToFdLoop, returned_bind (isEmpty_eq hm)]
    by_cases hzero : m.contentSize = 0
    · -- nothing is to be sent
      rw [if_pos (decide_eq_true hzero), if_pos hzero]
      rfl
    · rw [if_neg (by simpa using hzero), if_neg hzero]
      refine lift_bind rfl fun c hhead => ?_
      obtain ⟨cs, hlist, hrep, hok⟩ := head_of_deref hm hhead
      have hc := inBounds_of_ok (hok.ok c (.head _))
      simp only
      rw [returned_bind (chunkWriteToFd_eq hc resp)]
      -- the head chunk has sent `k` bytes
      generalize hk : min (min resp Chunk.maxRwCount) (c.writeIdx - c.readIdx) = k
      have hkle : k ≤ c.contentSize := by
        unfold Chunk.contentSize
        omega
      have hlen : (c.bytesAt h k).length = k := by simp [Chunk.bytesAt]
      simp only [Chunk.writeToFd, hk]
      refine lift_bind (advanceHead_eq (inBounds_advance hc hkle)) fun q₁ hadv => ?_
      by_cases hnone : (c.bytesAt h k).length = 0
      · -- a write of nothing ends the loop
        rw [if_pos hnone, if_pos hnone]
        rfl
      · rw [if_neg hnone, if_neg hnone]
        obtain ⟨q', cs', hadv', hq', hdrop⟩ := advanceHead_spec hrep hok hkle
        obtain rfl : q' = q₁ := Except.ok.inj (hadv'.symm.trans hadv)
        have hsize := hm.size_eq
        rw [Marshal.cells, hlist] at hsize
        -- no more was sent than there is
        have hfew : (c.bytesAt h k).length ≤ m.contentSize := by
          rw [hlen, hsize, cells_cons, List.length_append, c.cells_length]
          omega
        rw [assert_bind hfew]
        refine ih _ (Marshal.ok_of_rep hq' hdrop.ok ?_)
        simp only
        rw [hlen, hdrop.cells_eq, List.length_drop, hsize]

/-- The pointer-copying loop, asked for no more than the source holds. -/
theorem shareLoop_eq {h : Heap} (n : Nat) (fuel : Nat) {dst src : LinkedQueue Chunk}
    {ss : List Chunk} (nFetch : Nat) (hsrc : src.Rep ss) (hss : ChunksOk h ss)
    (hn : n - nFetch ≤ (cells ss).length) :
    shareLoop h n fuel dst src nFetch = lift (Marshal.shareLoop h n fuel dst src nFetch) := by
  induction fuel generalizing dst src ss nFetch with
  | zero => rfl
  | succ fuel ih =>
    rw [shareLoop, Marshal.shareLoop]
    by_cases hlt : nFetch < n
    · -- the source has a chunk, which is not empty
      rw [if_pos hlt, if_pos hlt]
      obtain ⟨c, ss, rfl⟩ := List.exists_cons_of_ne_nil
        (show ss ≠ [] by rintro rfl; simp at hn; omega)
      have hc := hss.ok c (.head _)
      have hpos : c.contentSize ≠ 0 := by
        intro hz
        obtain rfl := hss.nil_of_empty_head hz
        rw [cells_cons, cells_nil, List.append_nil, c.cells_length] at hn
        omega
      -- a slice of its first `k` bytes is shared
      have htrim := c.trim_sharedCopy hc.read_le hlt
      generalize hk : min (n - nFetch) c.contentSize = k at htrim
      have hkle : k ≤ c.contentSize := by omega
      have hbounds := inBounds_of_ok hc
      have hslice := inBounds_of_ok (c.slice_ok hc hkle)
      rw [hsrc.headVal, deref_some, Checked.lift_ok, returned_bind rfl, ok_bind,
        returned_bind (sharedCopy_eq hbounds), returned_bind (contentSize_eq (c := c.sharedCopy) hbounds)]
      simp only [htrim]
      rw [returned_bind (contentSize_eq hslice), Chunk.slice_contentSize,
        assert_bind (show 0 < k by omega), if_neg (show k ≠ 0 by omega),
        returned_bind (discard_eq hbounds k), c.discard_of_le hkle]
      simp only
      refine lift_bind rfl fun _ _ => lift_bind rfl fun dst₁ _ => ?_
      refine lift_bind (advanceHead_eq (inBounds_advance hbounds hkle)) fun src₁ hadv => ?_
      obtain ⟨src', ss', hadv', hsrc', hdrop⟩ := advanceHead_spec hsrc hss hkle
      obtain rfl : src' = src₁ := Except.ok.inj (hadv'.symm.trans hadv)
      apply ih (nFetch + k) hsrc' hdrop.ok
      rw [hdrop.cells_eq, List.length_drop]
      omega
    · -- enough was fetched
      rw [if_neg hlt, if_neg hlt]
      rfl

section Marshals

variable {h : Heap} {m : Marshal} (hm : m.Ok h)

include hm

/-- **`peek`** -/
theorem peek_eq (n : Nat) : peek h m n = .ok (m.peek h n) := by
  have hlen : (m.peek h n).length ≤ n := by
    rw [Marshal.peek_spec hm, List.length_take]
    omega
  have hloop : peekLoop h n m.chunks.toList [] = .ok (m.peek h n) :=
    peekLoop_eq n [] fun c hc => inBounds_of_ok (hm.chunks_ok.ok c hc)
  rw [peek, returned_bind (tailIsLast_of hm.rep), returned_bind (headIsNotRead_of hm),
    returned_bind hloop, assert_bind hlen, returned_bind (tailIsLast_of hm.rep),
    returned_bind (headIsNotRead_of hm)]
  rfl

/-- **`read`** -/
theorem read_eq (n : Nat) : read h m n = lift (m.read h n) := by
  obtain ⟨m', hspec, hcons, -⟩ := Marshal.read_spec hm n
  rw [read, Marshal.read, returned_bind (tailIsLast_of hm.rep), returned_bind (headIsNotRead_of hm)]
  refine lift_bind (readLoop_eq n (n + 1) [] hm.rep hm.chunks_ok) fun r hr => ?_
  rw [Marshal.read, hr, ok_bind] at hspec
  obtain ⟨rfl, hout⟩ := Prod.mk.inj (Except.ok.inj hspec)
  have hlen : r.2.length = min n m.contentSize := by
    rw [hout, List.length_take, hm.contentSize_eq]
  have hok := hcons.ok
  simp only
  rw [assert_bind (by omega), returned_bind (sizeIsRight_of hok), assert_bind (by omega),
    returned_bind (tailIsLast_of hok.rep), returned_bind (headIsNotRead_of hok)]
  rfl

/-- **`read_from_fd`** -/
theorem readFromFd_eq (avail : List UInt8) (resps : List Nat) :
    readFromFd h m avail resps = lift (m.readFromFd h avail resps) := by
  obtain ⟨h', m', new, k, hspec, happ, -⟩ := Marshal.readFromFd_spec hm avail resps
  rw [readFromFd, Marshal.readFromFd, returned_bind (headIsNotRead_of hm)]
  refine lift_bind (readFromFdLoop_eq resps avail [] hm.rep hm.chunks_ok) fun r hr => ?_
  rw [Marshal.readFromFd, hr, ok_bind] at hspec
  obtain ⟨rfl, hrest⟩ := Prod.mk.inj (Except.ok.inj hspec)
  obtain ⟨rfl, -⟩ := Prod.mk.inj hrest
  simp only
  rw [returned_bind (sizeIsRight_of happ.ok), returned_bind (headIsNotRead_of happ.ok)]
  rfl

/-- **`write_to_fd`** -/
theorem writeToFd_eq (resps : List Nat) : writeToFd h m resps = lift (m.writeToFd h resps) := by
  obtain ⟨m', k, hspec, hcons, -⟩ := Marshal.writeToFd_spec hm resps
  rw [writeToFd, writeToFdLoop_eq resps [] hm]
  have hloop : Marshal.writeToFdLoop h resps m [] = .ok (m', (m.content h).take k) := hspec
  rw [hspec, hloop, Checked.lift_ok, returned_bind rfl]
  simp only
  rw [returned_bind (sizeIsRight_of hcons.ok)]
  rfl

/-- **`set_bookmark`** -/
theorem setBookmark_eq (n : Nat) : setBookmark h m n = lift (m.setBookmark h n) := by
  rw [setBookmark, Marshal.setBookmark]
  refine lift_bind rfl fun _ hverify => ?_
  have hcnt : m.writeCnt = 0 := by
    by_contra hne
    rw [verify, if_neg hne] at hverify
    cases hverify
  refine lift_bind (setBookmarkLoop_eq n [] hm.rep hm.chunks_ok) fun r hr => ?_
  obtain ⟨h', m', new, hspec, happ, -⟩ := Marshal.setBookmark_spec hm hcnt n
  rw [Marshal.setBookmark, verify_of hcnt, ok_bind, hr, ok_bind] at hspec
  obtain ⟨rfl, hrest⟩ := Prod.mk.inj (Except.ok.inj hspec)
  obtain ⟨rfl, -⟩ := Prod.mk.inj hrest
  simp only
  rw [returned_bind (sizeIsRight_of happ.ok)]
  rfl

end Marshals

/-- The last chunk of a Marshal, where there is one. -/
theorem tail_of_deref {h : Heap} {m : Marshal} (hm : m.Ok h) {t : Chunk}
    (htail : deref m.chunks.tailVal = .ok t) :
    ∃ cs, m.chunkList = cs ++ [t] ∧ ChunksOk h (cs ++ [t]) := by
  have hrep := hm.rep
  have hchunks := hm.chunks_ok
  generalize m.chunkList = cs at hrep hchunks
  cases cs using List.reverseRecOn with
  | nil =>
    have hnull : m.chunks.tailVal = none := by
      rw [LinkedQueue.tailVal, hrep.tail_eq_none.mpr (hrep.head_eq_none.mpr rfl)]
      rfl
    rw [hnull] at htail
    cases htail
  | append_singleton cs u =>
    rw [hrep.tailVal, deref_some] at htail
    obtain rfl : u = t := Except.ok.inj htail
    exact ⟨cs, rfl, hchunks⟩

section Transfers

variable {h : Heap} {dst src : Marshal} (hd : dst.Ok h) (hs : src.Ok h) {n : Nat}

include hs

theorem shareFrom_eq (hn : n ≤ src.contentSize) :
    shareFrom h dst src n = lift (Marshal.shareFrom h dst src n) := by
  have hcells : n - 0 ≤ (cells src.chunkList).length := by
    have hsize := hs.size_eq
    rw [Marshal.cells] at hsize
    omega
  rw [shareFrom, Marshal.shareFrom]
  refine lift_bind (shareLoop_eq n (n + 1) 0 hs.rep hs.chunks_ok hcells) fun _ _ => ?_
  exact lift_bind rfl fun _ _ => rfl

theorem transferBegins_of (hn : n ≤ src.contentSize) : transferBegins h src n = .ok () := by
  rw [transferBegins, returned_bind (sizeIsRight_of hs), assert_of hn]

include hd

/-- The recursive call. -/
theorem readFromMarshalAgain_eq (hn : n ≤ src.contentSize)
    (hfull : ∀ c ∈ dst.chunkList, c.fullyWritten h) :
    readFromMarshalAgain h dst src n = lift (Marshal.shareFrom h dst src n) := by
  obtain ⟨dst', src', hspec, hok, -⟩ := Marshal.shareFrom_spec hd hs (hs.size_eq ▸ hn) hfull
  rw [readFromMarshalAgain, returned_bind (transferBegins_of hs hn), shareFrom_eq hs hn, hspec,
    Checked.lift_ok, returned_bind rfl]
  simp only
  rw [transferEnds, assert_bind rfl, returned_bind (sizeIsRight_of hok)]
  rfl

theorem transfer_eq (hn : n ≤ src.contentSize)
    (hroom : n = 0 → ∀ t ∈ dst.chunkList.getLast?, t.fullyWritten h) :
    transfer h dst src n = lift (Marshal.readFromMarshal h dst src n) := by
  rw [transfer, Marshal.readFromMarshal]
  by_cases hnil : dst.chunks.head = none ∧ dst.chunks.tail = none
  · -- an empty destination shares all
    rw [if_pos hnil, if_pos hnil]
    exact lift_bind (shareFrom_eq hs hn) fun _ _ => rfl
  · rw [if_neg hnil, if_neg hnil]
    refine lift_bind rfl fun t htail => ?_
    obtain ⟨cs, hlist, hok⟩ := tail_of_deref hd htail
    have ht := inBounds_of_ok (chunksOk_concat.mp hok).2
    rw [returned_bind (fullyWritten_eq ht)]
    by_cases hfull : t.fullyWritten h
    · -- as does one whose last chunk is full
      rw [if_pos (decide_eq_true hfull), if_pos hfull]
      exact lift_bind (shareFrom_eq hs hn) fun _ _ => rfl
    · rw [if_neg (by simpa using hfull), if_neg hfull]
      -- fill the room of the tail with a copy
      obtain ⟨k, hk⟩ : ∃ k, min (h.size t.data - t.writeIdx) n = k := ⟨_, rfl⟩
      simp only [hk]
      have hkpos : 0 < k := by
        have hn0 : n ≠ 0 := fun hz => hfull (hroom hz t (by simp [hlist]))
        have hw := ht.1
        unfold Chunk.fullyWritten at hfull
        omega
      obtain ⟨src', hread, hcons, -⟩ := Marshal.read_spec hs k
      refine lift_bind (read_eq hs k) fun r hr => ?_
      obtain rfl : (src', (src.content h).take k) = r := Except.ok.inj (hread.symm.trans hr)
      have hbuf : ((src.content h).take k).length = k := by
        rw [List.length_take, ← hs.contentSize_eq]
        omega
      refine lift_bind rfl fun _ _ => ?_
      -- what is copied is not empty
      have hfits : Fits h dst.chunkList ((src.content h).take k) := by
        intro hempty
        rw [hempty] at hbuf
        exact absurd hbuf.symm (Nat.ne_of_gt hkpos)
      refine lift_bind (write_eq hd hfits) fun w hw => ?_
      obtain ⟨h', dst', new, hspec, happ, -⟩ := Marshal.write_spec hd ((src.content h).take k)
      obtain rfl : (h', dst') = w := Except.ok.inj (hspec.symm.trans hw)
      by_cases hleft : 0 < n - k
      · -- the last chunk is full now, and the rest is shared
        simp only [if_pos hleft]
        refine lift_bind rfl fun t' htail' => ?_
        obtain ⟨cs', hlist', hok'⟩ := tail_of_deref happ.ok htail'
        have ht' := inBounds_of_ok (chunksOk_concat.mp hok').2
        rw [returned_bind (fullyWritten_eq ht')]
        by_cases hfull' : t'.fullyWritten h'
        · rw [verify_of (decide_eq_true hfull'), verify_of hfull', Checked.lift_ok,
            returned_bind rfl, ok_bind]
          refine lift_bind (readFromMarshalAgain_eq happ.ok (hcons.ok.mono happ.stores) ?_ ?_)
            fun _ _ => rfl
          · rw [hcons.ok.size_eq, hcons.cells_eq, List.length_drop, ← hs.size_eq]
            omega
          · rw [hlist']
            exact hok'.full_of_tail hfull'
        · rw [verify, verify, if_neg (by simpa using hfull'), if_neg hfull']
          rfl
      · -- all of it has been copied
        simp only [if_neg hleft]
        rfl

/-- **`read_from_marshal`**, if there is something to transfer or the destination has no room, and
    the source holds enough. -/
theorem readFromMarshal_eq (hn : n ≤ src.contentSize)
    (hroom : n = 0 → ∀ t ∈ dst.chunkList.getLast?, t.fullyWritten h) :
    readFromMarshal h dst src n = lift (Marshal.readFromMarshal h dst src n) := by
  obtain ⟨h', dst', src', new, hspec, hmoves, -⟩ :=
    Marshal.readFromMarshal_spec hd hs (hs.size_eq ▸ hn)
  rw [readFromMarshal, returned_bind (transferBegins_of hs hn), transfer_eq hd hs hn hroom, hspec,
    Checked.lift_ok, returned_bind rfl]
  simp only
  rw [transferEnds, assert_bind rfl, returned_bind (sizeIsRight_of hmoves.ok)]
  rfl

omit hd in
/-- More is asked for than the source holds. -/
theorem readFromMarshal_fails_more (hn : ¬ n ≤ src.contentSize) :
    readFromMarshal h dst src n = .error .assertFailed := by
  have hbegins : transferBegins h src n = .error .assertFailed := by
    rw [transferBegins, returned_bind (sizeIsRight_of hs), assert, if_neg hn]
  rw [readFromMarshal, hbegins]
  rfl

/-- Nothing is transferred behind a chunk with room. -/
theorem readFromMarshal_fails_empty {t : Chunk} (ht : t ∈ dst.chunkList.getLast?)
    (hfull : ¬ t.fullyWritten h) : readFromMarshal h dst src 0 = .error .assertFailed := by
  -- a write of nothing is what fails
  have hfits : ¬ Fits h dst.chunkList [] := fun hfits => hfull (hfits rfl t ht)
  obtain ⟨cs, hlist⟩ := List.getLast?_eq_some_iff.mp ht
  have hrep := hd.rep
  have hchunks := hd.chunks_ok
  rw [hlist] at hrep hchunks
  have hhead : dst.chunks.head ≠ none := by simp [hrep.head_eq_none]
  have htail := inBounds_of_ok (chunksOk_concat.mp hchunks).2
  obtain ⟨src', hread, -⟩ := Marshal.read_spec hs 0
  rw [readFromMarshal, returned_bind (transferBegins_of hs (Nat.zero_le _)), transfer,
    if_neg fun hnil => hhead hnil.1, hrep.tailVal, deref_some, Checked.lift_ok, returned_bind rfl,
    returned_bind (fullyWritten_eq htail), if_neg (by simpa using hfull)]
  simp only [Nat.min_zero]
  rw [read_eq hs, hread, Checked.lift_ok, returned_bind rfl]
  simp only [List.take_zero, List.length_nil]
  rw [verify_of trivial, Checked.lift_ok, returned_bind rfl, write_fails hd hfits]
  rfl

end Transfers

end Debug

/-! ## Processes -/

/-- A Marshal does not transfer to itself. -/
def Op.Apart {ι : Type} : Op ι → Prop
  | .readFromMarshal dst src _ => dst ≠ src
  | _ => True

instance {ι : Type} [DecidableEq ι] : DecidablePred (Op.Apart (ι := ι)) := fun op => by
  cases op <;> unfold Op.Apart <;> infer_instance

namespace Proc

open Checked (lift)

variable {ι : Type} [DecidableEq ι]

/-- One operation of a debug build. -/
def debugStep (s : Proc ι) : Op ι → Checked Fault (Proc ι × List UInt8)
  | .write i p => do
    let (h, m) ← Debug.write s.world.heap (s.world.marshal i) p
    pure ({ s with world := s.world.set i h m }, [])
  | .read i n => do
    let (m, out) ← Debug.read s.world.heap (s.world.marshal i) n
    pure ({ s with world := s.world.set i s.world.heap m
                   taken := Function.update s.taken i (s.taken i + out.length) }, out)
  | .peek i n => do
    let out ← Debug.peek s.world.heap (s.world.marshal i) n
    pure (s, out)
  | .readFromFd i avail resps => do
    let (h, m, _, got) ← Debug.readFromFd s.world.heap (s.world.marshal i) avail resps
    pure ({ s with world := s.world.set i h m }, got)
  | .writeToFd i resps => do
    let (m, out) ← Debug.writeToFd s.world.heap (s.world.marshal i) resps
    pure ({ s with world := s.world.set i s.world.heap m
                   taken := Function.update s.taken i (s.taken i + out.length) }, out)
  | .readFromMarshal dst src n => do
    let (h, d, m, nFetch) ←
      Debug.readFromMarshal s.world.heap (s.world.marshal dst) (s.world.marshal src) n
    pure ({ s with world := (s.world.set src h m).set dst h d
                   taken := Function.update s.taken src (s.taken src + nFetch) }, [])
  | .setBookmark i n => do
    let (h, m, bm) ← Debug.setBookmark s.world.heap (s.world.marshal i) n
    pure ({ s with world := s.world.set i h m
                   marks := s.marks ++ [⟨i, s.taken i + (s.world.content i).length, bm⟩] }, [])
  | .writeBookmark k p => lift (s.step (.writeBookmark k p))
  | .getAndResetWriteCnt i => lift (s.step (.getAndResetWriteCnt i))

/-- A step of a debug build in which no assertion fails. -/
def DebugStep (s : Proc ι) (label : Op ι × List UInt8) (s' : Proc ι) : Prop :=
  label.1.Apart ∧ s.debugStep label.1 = .ok (s', label.2)

omit [DecidableEq ι] in
/-- What the assertions ask of an operation: nothing is written or transferred only to a Marshal
    without a chunk that has room, and no more is transferred than there is. -/
def Sound (s : Proc ι) : Op ι → Prop
  | .write i p => p = [] →
      ∀ t ∈ (s.world.marshal i).chunkList.getLast?, t.fullyWritten s.world.heap
  | .readFromMarshal dst src n => n ≤ s.world.contentSize src ∧ (n = 0 →
      ∀ t ∈ (s.world.marshal dst).chunkList.getLast?, t.fullyWritten s.world.heap)
  | _ => True

/-- **Erasure**: an operation that the assertions allow does what it does in the default build. -/
theorem debugStep_eq {s : Proc ι} (hW : s.world.AllOk) {op : Op ι} (hop : s.Sound op) :
    s.debugStep op = lift (s.step op) := by
  cases op with
  | write i p =>
    rw [debugStep, step, Debug.write_eq (hW i) hop, World.write]
    cases (s.world.marshal i).write s.world.heap p <;> rfl
  | read i n =>
    rw [debugStep, step, Debug.read_eq (hW i), World.read]
    cases (s.world.marshal i).read s.world.heap n <;> rfl
  | peek i n =>
    rw [debugStep, step, Debug.peek_eq (hW i)]
    rfl
  | readFromFd i avail resps =>
    rw [debugStep, step, Debug.readFromFd_eq (hW i), World.readFromFd]
    cases (s.world.marshal i).readFromFd s.world.heap avail resps <;> rfl
  | writeToFd i resps =>
    rw [debugStep, step, Debug.writeToFd_eq (hW i), World.writeToFd]
    cases (s.world.marshal i).writeToFd s.world.heap resps <;> rfl
  | readFromMarshal dst src n =>
    -- the source has what is asked for, and the tail has no room if it is nothing
    rw [debugStep, step, Debug.readFromMarshal_eq (hW dst) (hW src) hop.1 hop.2,
      World.readFromMarshal]
    cases Marshal.readFromMarshal s.world.heap (s.world.marshal dst) (s.world.marshal src) n <;> rfl
  | setBookmark i n =>
    rw [debugStep, step, Debug.setBookmark_eq (hW i), World.setBookmark]
    cases (s.world.marshal i).setBookmark s.world.heap n <;> rfl
  | writeBookmark k p => rfl
  | getAndResetWriteCnt i => rfl

/-- An operation that they do not allow fails one. -/
theorem debugStep_fails {s : Proc ι} (hW : s.world.AllOk) {op : Op ι} (hop : ¬ s.Sound op) :
    s.debugStep op = .error .assertFailed := by
  cases op with
  | write i p =>
    rw [debugStep, Debug.write_fails (hW i) hop]
    rfl
  | readFromMarshal dst src n =>
    by_cases hn : n ≤ s.world.contentSize src
    · -- nothing is transferred behind a chunk with room
      have hempty : ¬ (n = 0 →
          ∀ t ∈ (s.world.marshal dst).chunkList.getLast?, t.fullyWritten s.world.heap) :=
        fun h => hop ⟨hn, h⟩
      simp only [Classical.not_imp, not_forall] at hempty
      obtain ⟨rfl, t, ht, hfull⟩ := hempty
      rw [debugStep, Debug.readFromMarshal_fails_empty (hW dst) (hW src) ht hfull]
      rfl
    · -- more is asked for than there is
      rw [debugStep, Debug.readFromMarshal_fails_more (hW src) hn]
      rfl
  | _ => exact absurd trivial hop

/-- An operation that returns keeps the Marshals well formed. -/
theorem allOk_of_step {s s' : Proc ι} (hW : s.world.AllOk) {op : Op ι} {out : List UInt8}
    (hop : op.Apart) (hsound : s.Sound op) (hstep : s.step op = .ok (s', out)) :
    s'.world.AllOk := by
  have hallowed : s.Allowed op → s'.world.AllOk := by
    intro hop
    obtain ⟨s'', out', heq, hok⟩ := step_allOk hW hop
    obtain ⟨rfl, -⟩ := Prod.mk.inj (Except.ok.inj (heq.symm.trans hstep))
    exact hok
  cases op with
  | readFromMarshal dst src n => exact hallowed ⟨hop, hsound.1⟩
  | setBookmark i n =>
    refine hallowed ?_
    -- `verify(write_cnt_ == 0)`
    by_contra hne
    have hcnt : ¬ (s.world.marshal i).writeCnt = 0 := hne
    rw [step, World.setBookmark, Marshal.setBookmark, verify, if_neg hcnt] at hstep
    cases hstep
  | writeBookmark k p =>
    rw [step] at hstep
    obtain ⟨mark, -, hrest⟩ := bind_eq_ok.mp hstep
    obtain ⟨rfl, -⟩ := Prod.mk.inj (Except.ok.inj hrest)
    obtain ⟨hsize, hnext⟩ := s.world.heap.poke_sizes mark.cells p
    exact fun i => (hW i).of_sizes hsize hnext
  | _ => exact hallowed trivial

theorem allOk_of_debugRun {h : Heap} {tr : List (Op ι × List UInt8)} {s : Proc ι}
    (hrun : Steps DebugStep (init h) tr s) : s.world.AllOk := by
  refine Steps.invariant (P := fun s => s.world.AllOk) (fun s₀ a s₁ hW hstep => ?_) hrun
    (World.allOk_init h)
  obtain ⟨hapart, hstep⟩ := hstep
  have hsound : s₀.Sound a.1 := by
    by_contra hnot
    rw [debugStep_fails hW hnot] at hstep
    cases hstep
  rw [debugStep_eq hW hsound] at hstep
  exact allOk_of_step hW hapart hsound (Checked.lift_eq_ok.mp hstep)

/-! ### Running a given list of operations -/

/-- Run operations one after the other. -/
def debugRun (s : Proc ι) : List (Op ι) → Checked Fault (Proc ι)
  | [] => pure s
  | op :: ops => do
    let (s, _) ← s.debugStep op
    debugRun s ops

theorem steps_of_debugRun {s s' : Proc ι} {ops : List (Op ι)} (hapart : ∀ op ∈ ops, op.Apart)
    (hrun : s.debugRun ops = .ok s') : ∃ tr, Steps DebugStep s tr s' := by
  induction ops generalizing s with
  | nil =>
    obtain rfl : s = s' := Except.ok.inj hrun
    exact ⟨[], .nil s⟩
  | cons op ops ih =>
    rw [debugRun] at hrun
    cases hstep : s.debugStep op with
    | error e =>
      rw [hstep] at hrun
      cases hrun
    | ok r =>
      rw [hstep, Checked.returned_bind rfl] at hrun
      obtain ⟨tr, hrest⟩ := ih (fun o ho => hapart o (.tail _ ho)) hrun
      exact ⟨(op, r.2) :: tr, .cons ⟨hapart op (.head _), hstep⟩ hrest⟩

end Proc

/-- **The assertions**: in every state that a debug build reaches by Marshal operations with any
    arguments, no `assert` fails in the next operation if and only if it is no empty write and no
    empty transfer behind a chunk with room, and no transfer of more than the source holds. -/
theorem asserts_hold_iff {ι : Type} [DecidableEq ι] (h : Heap) (tr : List (Op ι × List UInt8))
    (s : Proc ι) (hrun : Steps Proc.DebugStep (Proc.init h) tr s) :
    ∀ op : Op ι, op.Apart → (s.debugStep op ≠ .error .assertFailed ↔ s.Sound op) := by
  intro op _
  have hW := Proc.allOk_of_debugRun hrun
  constructor
  · intro hne
    by_contra hnot
    exact hne (Proc.debugStep_fails hW hnot)
  · intro hop
    rw [Proc.debugStep_eq hW hop]
    exact Checked.lift_ne_assertFailed _

/-- What `begin_request` does to the output buffer `false`, for a small xid. -/
def beginRequestOps : List (Op Bool) :=
  [.setBookmark false 4, .write false [1], .write false [7, 0, 0, 0]]

/-- A request with three bytes of arguments, packed into the Marshal `true`. -/
theorem asserts_hold_three : ∃ tr s,
    Steps Proc.DebugStep (Proc.init .empty : Proc Bool) tr s ∧
      s.debugStep (.readFromMarshal false true 3) ≠ .error .assertFailed := by
  have hrun : (match (Proc.init .empty).debugRun (beginRequestOps ++ [.write true [1, 2, 3]]) with
      | .ok s => s.world.contentSize true == 3
      | .error _ => false) = true := by decide +kernel
  split at hrun
  · rename_i s heq
    obtain ⟨tr, hsteps⟩ := Proc.steps_of_debugRun (by decide) heq
    refine ⟨tr, s, hsteps, (asserts_hold_iff .empty tr s hsteps _ (by decide)).mpr ⟨?_, nofun⟩⟩
    exact (beq_iff_eq.mp hrun).ge
  · cases hrun

/-- A request without arguments: the empty Marshal `true` is transferred behind the rpc id. -/
theorem no_arguments_fail : ¬ ∀ tr (s : Proc Bool),
    Steps Proc.DebugStep (Proc.init .empty) tr s →
      s.debugStep (.readFromMarshal false true (s.world.contentSize true)) ≠
        .error .assertFailed := by
  intro hall
  have hrun : (match (Proc.init .empty).debugRun beginRequestOps with
      | .ok s =>
        match s.debugStep (.readFromMarshal false true (s.world.contentSize true)) with
        | .error .assertFailed => true
        | _ => false
      | .error _ => false) = true := by decide +kernel
  split at hrun
  · rename_i s heq
    -- the run up to the transfer
    obtain ⟨tr, hsteps⟩ := Proc.steps_of_debugRun (by decide) heq
    split at hrun
    · rename_i hfails
      exact hall tr s hsteps hfails
    · cases hrun
  · cases hrun

end SimpleRpc.Rpc
