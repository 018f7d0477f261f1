import SimpleRpc.Lib.LinkedQueue
import SimpleRpc.Rpc.Buffer

/-!
# Marshal (`rpc/marshal.h`, `rpc/marshal.cc`)

`Marshal` is an unbounded byte queue made of a linked list of chunks. This module is the
pointer-level model of its operations; what they do to the queue of bytes is the subject of
`SimpleRpc.Rpc.MarshalSpec`.

## Model

- `head_`, `tail_` and the chunk objects are a `LinkedQueue Chunk`. A chunk object is only
  ever reached through the Marshal that made it (`NoCopy`, private pointers), so every
  Marshal keeps its own store of them; the byte arrays they point into are shared
- `write_cnt_` is an `i32` and wraps; `content_size_` is a `size_t` that memory bounds
- a file descriptor is what the kernel has queued plus the list of counts its successive
  `read`/`write` calls are willing to transfer; when the list ends the call returns -1
- a loop carries fuel, and running out of it is the fault `noProgress`
-/

namespace SimpleRpc.Rpc

open SimpleRpc.Lib

/-- `class Marshal` -/
structure Marshal where
  /-- `head_`, `tail_` and the chunks they reach -/
  chunks : LinkedQueue Chunk
  /-- `write_cnt_` -/
  writeCnt : Int32
  /-- `content_size_` -/
  contentSize : Nat

/-- `bookmark`: pointers to reserved cells. -/
abbrev Bookmark := List Cell

namespace Marshal

/-- `Marshal::Marshal()` -/
def empty : Marshal := ⟨LinkedQueue.empty, 0, 0⟩

/-! ## Shared pieces of the operations -/

/-- `if (head_ == nullptr) { head_ = new chunk; tail_ = head_; } else if
    (tail_->fully_written()) { tail_->next = new chunk; tail_ = tail_->next; }`, the
    preamble of `read_from_fd` and `set_bookmark`. -/
def ensureTail (h : Heap) (q : LinkedQueue Chunk) : Except Fault (Heap × LinkedQueue Chunk) :=
  if q.head = none then
    let (h, c) := Chunk.new h
    .ok (h, q.pushFirst c)
  else do
    let t ← deref q.tailVal
    if t.fullyWritten h then
      let (h, c) := Chunk.new h
      let q ← deref (q.pushBack c)
      pure (h, q)
    else
      pure (h, q)

/-- Store the advanced head chunk and delete it once it is fully read, resetting `tail_`
    when it was the only chunk: the common end of every consuming loop body. -/
def advanceHead (h : Heap) (q : LinkedQueue Chunk) (c : Chunk) :
    Except Fault (LinkedQueue Chunk) := do
  let q ← deref (q.setHead c)
  if c.fullyRead h then deref q.popHead else pure q

/-- `if (head_ == nullptr) { head_ = tail_ = chnk; } else { tail_->next = chnk; tail_ = chnk; }` -/
def link (q : LinkedQueue Chunk) (chnk : Chunk) : Except Fault (LinkedQueue Chunk) :=
  if q.head = none then pure (q.pushFirst chnk) else deref (q.pushBack chnk)

/-! ## Writing and reading -/

/-- `Marshal::write` -/
def write (h : Heap) (m : Marshal) (p : List UInt8) : Except Fault (Heap × Marshal) := do
  let (h, q) ←
    if m.chunks.head = none then
      let (h, c) := Chunk.ofBytes h p
      pure (h, m.chunks.pushFirst c)
    else do
      let t ← deref m.chunks.tailVal
      if t.fullyWritten h then
        let (h, c) := Chunk.ofBytes h p
        let q ← deref (m.chunks.pushBack c)
        pure (h, q)
      else
        let (h, t, nWrite) := t.write h p
        let q ← deref (m.chunks.setTail t)
        if nWrite < p.length then
          let (h, c) := Chunk.ofBytes h (p.drop nWrite)
          let q ← deref (q.pushBack c)
          pure (h, q)
        else
          pure (h, q)
  pure (h, { chunks := q, writeCnt := m.writeCnt + Int32.ofNat p.length,
             contentSize := m.contentSize + p.length })

/-- The loop of `Marshal::read`; `out` is what was read so far. -/
def readLoop (h : Heap) (n : Nat) :
    Nat → LinkedQueue Chunk → List UInt8 → Except Fault (LinkedQueue Chunk × List UInt8)
  | 0, _, _ => .error .noProgress
  | fuel + 1, q, out =>
    if out.length < n ∧ q.head ≠ none then do
      let c ← deref q.headVal
      if 0 < c.contentSize then do
        let (c, bytes) := c.read h (n - out.length)
        let q ← advanceHead h q c
        if bytes.length = 0 then pure (q, out)
        else readLoop h n fuel q (out ++ bytes)
      else pure (q, out)
    else pure (q, out)

/-- `Marshal::read` -/
def read (h : Heap) (m : Marshal) (n : Nat) : Except Fault (Marshal × List UInt8) := do
  let (q, out) ← readLoop h n (n + 1) m.chunks []
  pure ({ m with chunks := q, contentSize := m.contentSize - out.length }, out)

/-- The loop of `Marshal::peek` over the chunks from `head_`. -/
def peekLoop (h : Heap) (n : Nat) : List Chunk → List UInt8 → List UInt8
  | [], out => out
  | c :: cs, out =>
    if 0 < n - out.length then
      let bytes := c.peek h (n - out.length)
      if bytes.length = 0 then out else peekLoop h n cs (out ++ bytes)
    else out

/-- `Marshal::peek` -/
def peek (h : Heap) (m : Marshal) (n : Nat) : List UInt8 :=
  peekLoop h n m.chunks.toList []

/-! ## Transfers from and to a file descriptor -/

/-- The loop of `Marshal::read_from_fd`. Returns what the kernel still has queued and the
    bytes obtained. -/
def readFromFdLoop : List Nat → Heap → LinkedQueue Chunk → List UInt8 → List UInt8 →
    Except Fault (Heap × LinkedQueue Chunk × List UInt8 × List UInt8)
  | resps, h, q, avail, got => do
    let (h, q) ← ensureTail h q
    match resps with
    | [] => pure (h, q, avail, got)
    | resp :: resps =>
      let t ← deref q.tailVal
      let (h, t, bytes) := t.readFromFd h avail resp
      let q ← deref (q.setTail t)
      if bytes.length = 0 then pure (h, q, avail, got)
      else readFromFdLoop resps h q (avail.drop bytes.length) (got ++ bytes)

/-- `Marshal::read_from_fd` -/
def readFromFd (h : Heap) (m : Marshal) (avail : List UInt8) (resps : List Nat) :
    Except Fault (Heap × Marshal × List UInt8 × List UInt8) := do
  let (h, q, avail, got) ← readFromFdLoop resps h m.chunks avail []
  pure (h, { chunks := q, writeCnt := m.writeCnt + Int32.ofNat got.length,
             contentSize := m.contentSize + got.length }, avail, got)

/-- The loop of `Marshal::write_to_fd`; `out` is what went to the socket so far. -/
def writeToFdLoop (h : Heap) : List Nat → Marshal → List UInt8 →
    Except Fault (Marshal × List UInt8)
  | resps, m, out =>
    if m.contentSize = 0 then pure (m, out)
    else do
      let c ← deref m.chunks.headVal
      match resps with
      | [] =>
        let q ← advanceHead h m.chunks c
        pure ({ m with chunks := q }, out)
      | resp :: resps =>
        let (c, bytes) := c.writeToFd h resp
        let q ← advanceHead h m.chunks c
        if bytes.length = 0 then pure ({ m with chunks := q }, out)
        else
          writeToFdLoop h resps
            { m with chunks := q, contentSize := m.contentSize - bytes.length } (out ++ bytes)

/-- `Marshal::write_to_fd` -/
def writeToFd (h : Heap) (m : Marshal) (resps : List Nat) :
    Except Fault (Marshal × List UInt8) :=
  writeToFdLoop h resps m []

/-! ## Transfers between Marshals -/

/-- The pointer-copying loop of `Marshal::read_from_marshal`, on the chunks of `*this` and of
    the source. An iteration that fetches nothing would repeat itself. -/
def shareLoop (h : Heap) (n : Nat) : Nat → LinkedQueue Chunk → LinkedQueue Chunk → Nat →
    Except Fault (LinkedQueue Chunk × LinkedQueue Chunk × Nat)
  | 0, _, _, _ => .error .noProgress
  | fuel + 1, dst, src, nFetch =>
    if nFetch < n then do
      let head ← deref src.headVal
      let chnk := head.sharedCopy
      -- only fetch enough bytes we need
      let chnk :=
        if nFetch + chnk.contentSize > n then
          { chnk with writeIdx := chnk.writeIdx - (nFetch + chnk.contentSize - n) }
        else chnk
      let cnt := chnk.contentSize
      if cnt = 0 then .error .noProgress
      else do
        let (head, discarded) := head.discard cnt
        verify (discarded = cnt)
        let dst ← link dst chnk
        let src ← advanceHead h src head
        shareLoop h n fuel dst src (nFetch + cnt)
    else pure (dst, src, nFetch)

/-- The first branch of `Marshal::read_from_marshal`: copy data by only copying pointers. -/
def shareFrom (h : Heap) (dst src : Marshal) (n : Nat) :
    Except Fault (Marshal × Marshal × Nat) := do
  let (d, s, nFetch) ← shareLoop h n (n + 1) dst.chunks src.chunks 0
  verify (nFetch ≤ src.contentSize)
  pure ({ chunks := d, writeCnt := dst.writeCnt + Int32.ofNat nFetch,
          contentSize := dst.contentSize + nFetch },
        { src with chunks := s, contentSize := src.contentSize - nFetch }, nFetch)

/-- `dst.read_from_marshal(src, n)`. The recursive call of the source enters the first branch,
    because `tail_->fully_written()` was just verified. -/
def readFromMarshal (h : Heap) (dst src : Marshal) (n : Nat) :
    Except Fault (Heap × Marshal × Marshal × Nat) :=
  if dst.chunks.head = none ∧ dst.chunks.tail = none then do
    let (dst, src, nFetch) ← shareFrom h dst src n
    pure (h, dst, src, nFetch)
  else do
    let t ← deref dst.chunks.tailVal
    if t.fullyWritten h then do
      let (dst, src, nFetch) ← shareFrom h dst src n
      pure (h, dst, src, nFetch)
    else do
      -- number of bytes that need to be copied
      let copyN := min (h.size t.data - t.writeIdx) n
      let (src, buf) ← src.read h copyN
      verify (buf.length = copyN)
      let (h, dst) ← dst.write h buf
      let leftover := n - copyN
      if 0 < leftover then do
        let t ← deref dst.chunks.tailVal
        verify (t.fullyWritten h)
        let (dst, src, nFetch) ← shareFrom h dst src leftover
        pure (h, dst, src, buf.length + nFetch)
      else
        pure (h, dst, src, buf.length)

/-! ## Bookmarks -/

/-- The loop of `Marshal::set_bookmark`. -/
def setBookmarkLoop : Nat → Heap → LinkedQueue Chunk → Bookmark →
    Except Fault (Heap × LinkedQueue Chunk × Bookmark)
  | 0, h, q, bm => pure (h, q, bm)
  | n + 1, h, q, bm => do
    let (h, q) ← ensureTail h q
    let t ← deref q.tailVal
    let (t, cell) := t.setBookmark
    let q ← deref (q.setTail t)
    setBookmarkLoop n h q (bm ++ [cell])

/-- `Marshal::set_bookmark` -/
def setBookmark (h : Heap) (m : Marshal) (n : Nat) :
    Except Fault (Heap × Marshal × Bookmark) := do
  verify (m.writeCnt = 0)
  let (h, q, bm) ← setBookmarkLoop n h m.chunks []
  pure (h, { m with chunks := q, contentSize := m.contentSize + n }, bm)

/-- `Marshal::write_bookmark` -/
def writeBookmark (h : Heap) (bm : Bookmark) (p : List UInt8) : Heap := h.poke bm p

/-- `Marshal::get_and_reset_write_cnt` -/
def getAndResetWriteCnt (m : Marshal) : Marshal × Int32 :=
  ({ m with writeCnt := 0 }, m.writeCnt)

end Marshal

end SimpleRpc.Rpc
