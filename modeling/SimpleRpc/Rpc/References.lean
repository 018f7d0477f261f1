import Mathlib.Algebra.BigOperators.Group.Finset.Basic
import SimpleRpc.Lib.RefCounts
import SimpleRpc.Rpc.Asserts

/-!
# The Lifetime of Byte Arrays (`rpc/buffer.h`, `base/basetypes.h`)

`SimpleRpc.Rpc.Buffer` never frees an array. Here are the same operations over arrays that count
the chunks which point into them: a chunk takes a reference when it is made, a shared copy takes
another one, and `~chunk` releases its own; the last release deletes the array.

## Layers

- **Code**: the operations of `Refs`, with every access to an array where the source has it, and
  `~Marshal`
- **Erasure**: an operation of `Refs` does what the operation without counts does, as long as the
  chunks of all Marshals hold the references (`Refs.write_follows` and its siblings)
- **System**: `Proc.countedStep`, any operations on the Marshals of a process, which are also
  destroyed

## Main results

- `arrays_managed`: in every run, no operation touches an array that is gone, each does what it
  does without counts, the count of an array is the number of chunks that point into it, and the
  arrays that are deleted, once, are those into which no chunk points

## Model

- an access of no bytes counts as an access
- the array of a `bookmark`, which holds its pointers, belongs to it alone and is left out
-/

namespace SimpleRpc.Rpc

open SimpleRpc.Lib

/-- A program with counted arrays. -/
abbrev Refs := Counted Addr Fault

namespace Refs

open Counted (lift make use refCopy release)

/-! ## Chunks -/

/-- `new chunk` -/
def newChunk (h : Heap) : Refs (Heap × Chunk) := do
  make h.next
  pure (Chunk.new h)

/-- `new chunk(p, n)` -/
def chunkOfBytes (h : Heap) (p : List UInt8) : Refs (Heap × Chunk) := do
  make h.next
  pure (Chunk.ofBytes h p)

/-- `chunk::shared_copy` -/
def sharedCopy (c : Chunk) : Refs Chunk := do
  refCopy c.data
  pure c.sharedCopy

/-- `chunk::~chunk` -/
def deleteChunk (c : Chunk) : Refs Unit := release c.data

/-- `chunk::set_bookmark` -/
def chunkSetBookmark (c : Chunk) : Refs (Chunk × Cell) := do
  use c.data
  pure c.setBookmark

/-- `chunk::write` -/
def chunkWrite (h : Heap) (c : Chunk) (p : List UInt8) : Refs (Heap × Chunk × Nat) := do
  use c.data
  pure (c.write h p)

/-- `chunk::read` -/
def chunkRead (h : Heap) (c : Chunk) (n : Nat) : Refs (Chunk × List UInt8) := do
  use c.data
  pure (c.read h n)

/-- `chunk::peek` -/
def chunkPeek (h : Heap) (c : Chunk) (n : Nat) : Refs (List UInt8) := do
  use c.data
  pure (c.peek h n)

/-- `chunk::write_to_fd` -/
def chunkWriteToFd (h : Heap) (c : Chunk) (resp : Nat) : Refs (Chunk × List UInt8) := do
  use c.data
  pure (c.writeToFd h resp)

/-- `chunk::read_from_fd` -/
def chunkReadFromFd (h : Heap) (c : Chunk) (avail : List UInt8) (resp : Nat) :
    Refs (Heap × Chunk × List UInt8) := do
  use c.data
  pure (c.readFromFd h avail resp)

/-- `chunk::fully_written` -/
def fullyWritten (h : Heap) (c : Chunk) : Refs Bool := do
  use c.data
  pure (decide (c.fullyWritten h))

/-- `chunk::fully_read` -/
def fullyRead (h : Heap) (c : Chunk) : Refs Bool := do
  use c.data
  pure (decide (c.fullyRead h))

/-! ## Marshals -/

/-- `Marshal.ensureTail` -/
def ensureTail (h : Heap) (q : LinkedQueue Chunk) : Refs (Heap × LinkedQueue Chunk) :=
  if q.head = none then do
    let (h, c) ← newChunk h
    pure (h, q.pushFirst c)
  else do
    let t ← lift (deref q.tailVal)
    if ← fullyWritten h t then do
      let (h, c) ← newChunk h
      let q ← lift (deref (q.pushBack c))
      pure (h, q)
    else
      pure (h, q)

/-- `Marshal.advanceHead`; the chunk that is fully read is deleted. -/
def advanceHead (h : Heap) (q : LinkedQueue Chunk) (c : Chunk) : Refs (LinkedQueue Chunk) := do
  let q ← lift (deref (q.setHead c))
  if ← fullyRead h c then do
    let q ← lift (deref q.popHead)
    deleteChunk c
    pure q
  else pure q

/-- The chunks after `Marshal::write`. -/
def writeChunks (h : Heap) (q : LinkedQueue Chunk) (p : List UInt8) :
    Refs (Heap × LinkedQueue Chunk) :=
  if q.head = none then do
    let (h, c) ← chunkOfBytes h p
    pure (h, q.pushFirst c)
  else do
    let t ← lift (deref q.tailVal)
    if ← fullyWritten h t then do
      let (h, c) ← chunkOfBytes h p
      let q ← lift (deref (q.pushBack c))
      pure (h, q)
    else do
      let (h, t, nWrite) ← chunkWrite h t p
      let q ← lift (deref (q.setTail t))
      if nWrite < p.length then do
        let (h, c) ← chunkOfBytes h (p.drop nWrite)
        let q ← lift (deref (q.pushBack c))
        pure (h, q)
      else
        pure (h, q)

/-- `Marshal::write` -/
def write (h : Heap) (m : Marshal) (p : List UInt8) : Refs (Heap × Marshal) := do
  let (h, q) ← writeChunks h m.chunks p
  pure (h, { chunks := q, writeCnt := m.writeCnt + Int32.ofNat p.length,
             contentSize := m.contentSize + p.length })

/-- The loop of `Marshal::read`. -/
def readLoop (h : Heap) (n : Nat) :
    Nat → LinkedQueue Chunk → List UInt8 → Refs (LinkedQueue Chunk × List UInt8)
  | 0, _, _ => lift (.error .noProgress)
  | fuel + 1, q, out =>
    if out.length < n ∧ q.head ≠ none then do
      let c ← lift (deref q.headVal)
      if 0 < c.contentSize then do
        let (c, bytes) ← chunkRead h c (n - out.length)
        let q ← advanceHead h q c
        if bytes.length = 0 then pure (q, out)
        else readLoop h n fuel q (out ++ bytes)
      else pure (q, out)
    else pure (q, out)

/-- `Marshal::read` -/
def read (h : Heap) (m : Marshal) (n : Nat) : Refs (Marshal × List UInt8) := do
  let (q, out) ← readLoop h n (n + 1) m.chunks []
  pure ({ m with chunks := q, contentSize := m.contentSize - out.length }, out)

/-- The loop of `Marshal::peek`. -/
def peekLoop (h : Heap) (n : Nat) : List Chunk → List UInt8 → Refs (List UInt8)
  | [], out => pure out
  | c :: cs, out =>
    if 0 < n - out.length then do
      let bytes ← chunkPeek h c (n - out.length)
      if bytes.length = 0 then pure out else peekLoop h n cs (out ++ bytes)
    else pure out

/-- `Marshal::peek` -/
def peek (h : Heap) (m : Marshal) (n : Nat) : Refs (List UInt8) :=
  peekLoop h n m.chunks.toList []

/-- The loop of `Marshal::read_from_fd`. -/
def readFromFdLoop : List Nat → Heap → LinkedQueue Chunk → List UInt8 → List UInt8 →
    Refs (Heap × LinkedQueue Chunk × List UInt8 × List UInt8)
  | resps, h, q, avail, got => do
    let (h, q) ← ensureTail h q
    match resps with
    | [] => pure (h, q, avail, got)
    | resp :: resps => do
      let t ← lift (deref q.tailVal)
      let (h, t, bytes) ← chunkReadFromFd h t avail resp
      let q ← lift (deref (q.setTail t))
      if bytes.length = 0 then pure (h, q, avail, got)
      else readFromFdLoop resps h q (avail.drop bytes.length) (got ++ bytes)

/-- `Marshal::read_from_fd` -/
def readFromFd (h : Heap) (m : Marshal) (avail : List UInt8) (resps : List Nat) :
    Refs (Heap × Marshal × List UInt8 × List UInt8) := do
  let (h, q, avail, got) ← readFromFdLoop resps h m.chunks avail []
  pure (h, { chunks := q, writeCnt := m.writeCnt + Int32.ofNat got.length,
             contentSize := m.contentSize + got.length }, avail, got)

/-- The loop of `Marshal::write_to_fd`. -/
def writeToFdLoop (h : Heap) : List Nat → Marshal → List UInt8 → Refs (Marshal × List UInt8)
  | resps, m, out =>
    if m.contentSize = 0 then pure (m, out)
    else do
      let c ← lift (deref m.chunks.headVal)
      match resps with
      | [] => do
        -- `::write` was given a pointer into the array, and failed
        use c.data
        let q ← advanceHead h m.chunks c
        pure ({ m with chunks := q }, out)
      | resp :: resps => do
        let (c, bytes) ← chunkWriteToFd h c resp
        let q ← advanceHead h m.chunks c
        if bytes.length = 0 then pure ({ m with chunks := q }, out)
        else
          writeToFdLoop h resps
            { m with chunks := q, contentSize := m.contentSize - bytes.length } (out ++ bytes)

/-- `Marshal::write_to_fd` -/
def writeToFd (h : Heap) (m : Marshal) (resps : List Nat) : Refs (Marshal × List UInt8) :=
  writeToFdLoop h resps m []

/-- The pointer-copying loop of `Marshal::read_from_marshal`. -/
def shareLoop (h : Heap) (n : Nat) : Nat → LinkedQueue Chunk → LinkedQueue Chunk → Nat →
    Refs (LinkedQueue Chunk × LinkedQueue Chunk × Nat)
  | 0, _, _, _ => lift (.error .noProgress)
  | fuel + 1, dst, src, nFetch =>
    if nFetch < n then do
      let head ← lift (deref src.headVal)
      let chnk ← sharedCopy head
      let chnk :=
        if nFetch + chnk.contentSize > n then
          { chnk with writeIdx := chnk.writeIdx - (nFetch + chnk.contentSize - n) }
        else chnk
      let cnt := chnk.contentSize
      if cnt = 0 then lift (.error .noProgress)
      else do
        let (head, discarded) := head.discard cnt
        lift (verify (discarded = cnt))
        let dst ← lift (Marshal.link dst chnk)
        let src ← advanceHead h src head
        shareLoop h n fuel dst src (nFetch + cnt)
    else pure (dst, src, nFetch)

/-- The first branch of `Marshal::read_from_marshal`. -/
def shareFrom (h : Heap) (dst src : Marshal) (n : Nat) : Refs (Marshal × Marshal × Nat) := do
  let (d, s, nFetch) ← shareLoop h n (n + 1) dst.chunks src.chunks 0
  lift (verify (nFetch ≤ src.contentSize))
  pure ({ chunks := d, writeCnt := dst.writeCnt + Int32.ofNat nFetch,
          contentSize := dst.contentSize + nFetch },
        { src with chunks := s, contentSize := src.contentSize - nFetch }, nFetch)

/-- `dst.read_from_marshal(src, n)` -/
def readFromMarshal (h : Heap) (dst src : Marshal) (n : Nat) :
    Refs (Heap × Marshal × Marshal × Nat) :=
  if dst.chunks.head = none ∧ dst.chunks.tail = none then do
    let (dst, src, nFetch) ← shareFrom h dst src n
    pure (h, dst, src, nFetch)
  else do
    let t ← lift (deref dst.chunks.tailVal)
    if ← fullyWritten h t then do
      let (dst, src, nFetch) ← shareFrom h dst src n
      pure (h, dst, src, nFetch)
    else do
      use t.data
      let copyN := min (h.size t.data - t.writeIdx) n
      let (src, buf) ← read h src copyN
      lift (verify (buf.length = copyN))
      let (h, dst) ← write h dst buf
      let leftover := n - copyN
      if 0 < leftover then do
        let t ← lift (deref dst.chunks.tailVal)
        let full ← fullyWritten h t
        lift (verify (full = true))
        let (dst, src, nFetch) ← shareFrom h dst src leftover
        pure (h, dst, src, buf.length + nFetch)
      else
        pure (h, dst, src, buf.length)

/-- The loop of `Marshal::set_bookmark`. -/
def setBookmarkLoop : Nat → Heap → LinkedQueue Chunk → Bookmark →
    Refs (Heap × LinkedQueue Chunk × Bookmark)
  | 0, h, q, bm => pure (h, q, bm)
  | n + 1, h, q, bm => do
    let (h, q) ← ensureTail h q
    let t ← lift (deref q.tailVal)
    let (t, cell) ← chunkSetBookmark t
    let q ← lift (deref (q.setTail t))
    setBookmarkLoop n h q (bm ++ [cell])

/-- `Marshal::set_bookmark` -/
def setBookmark (h : Heap) (m : Marshal) (n : Nat) : Refs (Heap × Marshal × Bookmark) := do
  lift (verify (m.writeCnt = 0))
  let (h, q, bm) ← setBookmarkLoop n h m.chunks []
  pure (h, { m with chunks := q, contentSize := m.contentSize + n }, bm)

/-- The loop of `Marshal::write_bookmark`: `*(bm->ptr[i]) = pc[i];` -/
def touchCells : Bookmark → Refs Unit
  | [] => pure ()
  | cell :: bm => do
    use cell.1
    touchCells bm

/-- `Marshal::write_bookmark` -/
def writeBookmark (h : Heap) (bm : Bookmark) (p : List UInt8) : Refs Heap := do
  touchCells bm
  pure (Marshal.writeBookmark h bm p)

/-- The loop of `Marshal::~Marshal`, over the chunk objects that are left. -/
def destroyLoop : Nat → (Nat → Option (Node Chunk)) → Option Nat → Refs Unit
  | 0, _, _ => lift (.error .noProgress)
  | _ + 1, _, none => pure ()
  | fuel + 1, store, some chnk => do
    let node ← lift (deref (store chnk))
    deleteChunk node.val
    destroyLoop fuel (Function.update store chnk none) node.next

/-- `Marshal::~Marshal` -/
def destroy (m : Marshal) : Refs Unit :=
  destroyLoop (m.chunks.fresh + 1) m.chunks.store m.chunks.head

/-! ## Who has the references -/

open Counted (Follows)

/-- The arrays made since the addresses below `base` were handed out. -/
def arrays (base : Addr) (h : Heap) : Set Addr := {a | base ≤ a ∧ a < h.next}

/-- The arrays that chunks point into. -/
abbrev targets (cs : List Chunk) : List Addr := cs.map Chunk.data

/-- The references are those of the chunks `cs` of some Marshals, and `others`. -/
structure Owned (base : Addr) (others : List Addr) (h : Heap) (cs : List Chunk)
    (r : RefCounts Addr) : Prop where
  base_le : base ≤ h.next
  held : r.Held (arrays base h) (targets cs ++ others)

section Chunks

variable {base : Addr} {others : List Addr} {h : Heap} {cs cs' : List Chunk} {c : Chunk}
  {r : RefCounts Addr}

theorem Owned.perm (ho : Owned base others h cs r) (hperm : (targets cs).Perm (targets cs')) :
    Owned base others h cs' r :=
  ⟨ho.base_le, ho.held.perm (hperm.append_right _)⟩

/-- It does not matter what the arrays hold. -/
theorem Owned.of_next {h' : Heap} (ho : Owned base others h cs r) (hnext : h'.next = h.next) :
    Owned base others h' cs r := by
  refine ⟨hnext ▸ ho.base_le, ?_⟩
  have harrays : arrays base h' = arrays base h := by rw [arrays, hnext, arrays]
  exact harrays ▸ ho.held

theorem Owned.mem (hc : c ∈ cs) : c.data ∈ targets cs ++ others :=
  List.mem_append_left _ (List.mem_map_of_mem hc)

/-- The array of a new chunk is new. -/
theorem Owned.make (ho : Owned base others h cs r) {k : Heap} (hnext : k.next = h.next + 1)
    (hc : c.data = h.next) : ∃ r', (make h.next : Refs Unit) r = .ok ((), r') ∧
      Owned base others k (cs ++ [c]) r' := by
  -- its address was not in use
  have hnew : h.next ∉ arrays base h := fun hmem => Nat.lt_irrefl _ hmem.2
  obtain ⟨r', hmake, hr'⟩ := Counted.make_held (ε := Fault) ho.held hnew
  have harrays : insert h.next (arrays base h) = arrays base k := by
    ext a
    simp only [arrays, Set.mem_insert_iff, Set.mem_ofPred_eq, hnext, Nat.lt_succ_iff_lt_or_eq]
    constructor
    · rintro (rfl | ⟨hle, hlt⟩)
      · exact ⟨ho.base_le, .inr rfl⟩
      · exact ⟨hle, .inl hlt⟩
    · rintro ⟨hle, hlt | rfl⟩
      · exact .inr ⟨hle, hlt⟩
      · exact .inl rfl
  refine ⟨r', hmake, hnext ▸ Nat.le_succ_of_le ho.base_le, ?_⟩
  rw [harrays] at hr'
  refine hr'.perm ?_
  simp only [targets, List.map_append, List.map_cons, List.map_nil, hc, List.append_assoc]
  exact List.perm_middle.symm

theorem newChunk_owned (ho : Owned base others h cs r) :
    ∃ r', newChunk h r = .ok (Chunk.new h, r') ∧
      Owned base others (Chunk.new h).1 (cs ++ [(Chunk.new h).2]) r' := by
  obtain ⟨r', hmake, ho'⟩ := ho.make (k := (Chunk.new h).1) (c := (Chunk.new h).2) rfl rfl
  refine ⟨r', ?_, ho'⟩
  change ((make h.next : Refs Unit) r >>= fun p => _) = _
  rw [hmake]
  rfl

theorem chunkOfBytes_owned (ho : Owned base others h cs r) (p : List UInt8) :
    ∃ r', chunkOfBytes h p r = .ok (Chunk.ofBytes h p, r') ∧
      Owned base others (Chunk.ofBytes h p).1 (cs ++ [(Chunk.ofBytes h p).2]) r' := by
  obtain ⟨r', hmake, ho'⟩ :=
    ho.make (k := (Chunk.ofBytes h p).1) (c := (Chunk.ofBytes h p).2) rfl rfl
  refine ⟨r', ?_, ho'⟩
  change ((make h.next : Refs Unit) r >>= fun p => _) = _
  rw [hmake]
  rfl

/-- An access to the array of a chunk that some Marshal has. -/
theorem Owned.touch {α : Type} (ho : Owned base others h cs r) (hc : c ∈ cs) (a : α) :
    ((use c.data >>= fun _ => pure a : Refs α) r) = .ok (a, r) := by
  change ((use c.data : Refs Unit) r >>= fun p => _) = _
  rw [Counted.use_held ho.held (Owned.mem hc)]
  rfl

end Chunks

/-! ## Operations with and without counts -/

section Operations

variable {base : Addr} {others : List Addr} {h : Heap} {q : LinkedQueue Chunk} {cs : List Chunk}
  {r : RefCounts Addr}

theorem headVal_nil (hq : q.Rep []) : q.headVal = none := by
  simp [LinkedQueue.headVal, hq.head_eq_none.mpr rfl]

theorem tailVal_nil (hq : q.Rep []) : q.tailVal = none := by
  simp [LinkedQueue.tailVal, hq.tail_eq_none.mpr (hq.head_eq_none.mpr rfl)]

/-- The chunks of a queue have the references. -/
def Roots (base : Addr) (others : List Addr) (h : Heap) (q : LinkedQueue Chunk)
    (r : RefCounts Addr) : Prop :=
  ∃ cs, q.Rep cs ∧ Owned base others h cs r

theorem ensureTail_follows (hq : q.Rep cs) (ho : Owned base others h cs r) :
    Follows (ensureTail h q) (Marshal.ensureTail h q) r fun p r' =>
      ∃ cs' t, p.2.Rep (cs' ++ [t]) ∧ Owned base others p.1 (cs' ++ [t]) r' := by
  cases cs using List.reverseRecOn with
  | nil =>
    -- the first chunk
    have hhead := hq.head_eq_none.mpr rfl
    rw [ensureTail, Marshal.ensureTail, if_pos hhead, if_pos hhead]
    obtain ⟨r', hnew, ho'⟩ := newChunk_owned ho
    exact .silent hnew (.pure ⟨[], _, .pushFirst _, ho'⟩)
  | append_singleton cs t =>
    have hhead : q.head ≠ none := by simp [hq.head_eq_none]
    rw [ensureTail, Marshal.ensureTail, if_neg hhead, if_neg hhead, hq.tailVal]
    simp only [deref_some, ok_bind]
    refine .lift_ok (.silent (ho.touch (by simp) _) ?_)
    by_cases hfull : t.fullyWritten h
    · -- one more chunk
      obtain ⟨r', hnew, ho'⟩ := newChunk_owned ho
      obtain ⟨q', hpush, hrep⟩ := hq.pushBack (Chunk.new h).2
      simp only [hfull, decide_true, if_true]
      refine .silent hnew ?_
      simp only [hpush, deref_some, ok_bind]
      exact .lift_ok (.pure ⟨cs ++ [t], _, hrep, ho'⟩)
    · -- the last chunk has room
      simp only [hfull, decide_false, Bool.false_eq_true, if_false]
      exact .pure ⟨cs, t, hq, ho⟩

/-- The chunk that is fully read gives its reference back. -/
theorem advanceHead_follows {c d : Chunk} (hq : q.Rep (c :: cs)) (ho : Owned base others h (c :: cs) r)
    (hdata : d.data = c.data) :
    Follows (advanceHead h q d) (Marshal.advanceHead h q d) r (Roots base others h) := by
  have ho' : Owned base others h (d :: cs) r := ho.perm (by simp [targets, hdata])
  obtain ⟨q₁, hset, hrep₁⟩ := hq.setHead d
  rw [advanceHead, Marshal.advanceHead, hset]
  simp only [deref_some, ok_bind]
  refine .lift_ok (.silent (ho'.touch (by simp) _) ?_)
  by_cases hread : d.fullyRead h
  · obtain ⟨q₂, hpop, hrep₂⟩ := hrep₁.popHead
    simp only [hread, decide_true, if_true, hpop, deref_some]
    refine .lift_ok (.release ho'.held fun r' hr' => .pure ?_)
    exact ⟨cs, hrep₂, ho.base_le, hr'⟩
  · simp only [hread, decide_false, Bool.false_eq_true, if_false]
    exact .pure ⟨d :: cs, hrep₁, ho'⟩

/-- A chunk of `p` behind those that are there. -/
private theorem pushBytes_follows {t : Chunk} (hq : q.Rep (cs ++ [t]))
    (ho : Owned base others h (cs ++ [t]) r) (p : List UInt8) :
    Follows (do
        let (h, c) ← chunkOfBytes h p
        let q ← lift (deref (q.pushBack c))
        pure (h, q)) (do
        let (h, c) := Chunk.ofBytes h p
        let q ← deref (q.pushBack c)
        pure (h, q)) r fun x => Roots base others x.1 x.2 := by
  obtain ⟨r', hnew, ho'⟩ := chunkOfBytes_owned ho p
  obtain ⟨q', hpush, hrep⟩ := hq.pushBack (Chunk.ofBytes h p).2
  refine .silent hnew ?_
  simp only [hpush, deref_some, ok_bind]
  exact .lift_ok (.pure ⟨_, hrep, ho'⟩)

theorem write_follows {m : Marshal} (hq : m.chunks.Rep cs) (ho : Owned base others h cs r)
    (p : List UInt8) :
    Follows (write h m p) (m.write h p) r fun x => Roots base others x.1 x.2.chunks := by
  rw [write, Debug.write_eq_plain]
  -- the chunks first
  refine .bind (Q := fun x : Heap × LinkedQueue Chunk => Roots base others x.1 x.2) ?_ ?_
  swap
  · intro x r' _ hx
    exact .pure hx
  cases cs using List.reverseRecOn with
  | nil =>
    -- the first chunk
    have hhead := hq.head_eq_none.mpr rfl
    rw [writeChunks, Debug.plainWriteChunks, if_pos hhead, if_pos hhead]
    obtain ⟨r', hnew, ho'⟩ := chunkOfBytes_owned ho p
    exact .silent hnew (.pure ⟨[_], .pushFirst _, ho'⟩)
  | append_singleton cs t =>
    have hhead : m.chunks.head ≠ none := by simp [hq.head_eq_none]
    rw [writeChunks, Debug.plainWriteChunks, if_neg hhead, if_neg hhead, hq.tailVal]
    simp only [deref_some, ok_bind]
    refine .lift_ok (.silent (ho.touch (by simp) _) ?_)
    by_cases hfull : t.fullyWritten h
    · -- the last chunk is full
      simp only [hfull, decide_true, if_true]
      exact pushBytes_follows hq ho p
    · simp only [hfull, decide_false, Bool.false_eq_true, if_false]
      -- the last chunk takes what fits
      refine .silent (ho.touch (by simp) _) ?_
      obtain ⟨q', hset, hrep⟩ := hq.setTail (t.write h p).2.1
      simp only [hset, deref_some, ok_bind]
      refine .lift_ok ?_
      have hwritten : Owned base others (t.write h p).1 (cs ++ [t]) r := ho.of_next rfl
      have ho' : Owned base others (t.write h p).1 (cs ++ [(t.write h p).2.1]) r :=
        hwritten.perm (by simp [targets, Chunk.write])
      by_cases hroom : (t.write h p).2.2 < p.length
      · -- the rest goes into a new one
        simp only [hroom, if_true]
        exact pushBytes_follows hrep ho' _
      · simp only [hroom, if_false]
        exact .pure ⟨_, hrep, ho'⟩

theorem readLoop_follows (n : Nat) (fuel : Nat) {out : List UInt8} (hq : q.Rep cs)
    (ho : Owned base others h cs r) :
    Follows (readLoop h n fuel q out) (Marshal.readLoop h n fuel q out) r fun x =>
      Roots base others h x.1 := by
  induction fuel generalizing q cs r out with
  | zero => exact .of_error
  | succ fuel ih =>
    rw [readLoop, Marshal.readLoop]
    split
    case isFalse => exact .pure ⟨cs, hq, ho⟩
    case isTrue hmore =>
      cases cs with
      | nil => exact absurd (hq.head_eq_none.mpr rfl) hmore.2
      | cons c cs =>
        -- the head chunk is read
        rw [hq.headVal]
        simp only [deref_some, ok_bind]
        refine .lift_ok ?_
        split
        case isFalse => exact .pure ⟨_, hq, ho⟩
        case isTrue =>
          refine .silent (ho.touch (by simp) _) (.bind (advanceHead_follows hq ho rfl) ?_)
          rintro q' r' - ⟨cs', hrep, ho'⟩
          -- without bytes the loop ends
          split
          · exact .pure ⟨cs', hrep, ho'⟩
          · exact ih hrep ho'

theorem read_follows {m : Marshal} (hq : m.chunks.Rep cs) (ho : Owned base others h cs r) (n : Nat) :
    Follows (read h m n) (m.read h n) r fun x => Roots base others h x.1.chunks :=
  .bind (readLoop_follows n (n + 1) hq ho) fun _ _ _ hx => .pure hx

theorem peekLoop_follows (n : Nat) {ds : List Chunk} (out : List UInt8) (hsub : ∀ c ∈ ds, c ∈ cs)
    (ho : Owned base others h cs r) :
    Follows (peekLoop h n ds out) (.ok (Marshal.peekLoop h n ds out)) r fun _ =>
      Owned base others h cs := by
  induction ds generalizing out with
  | nil => exact .pure ho
  | cons c ds ih =>
    rw [peekLoop, Marshal.peekLoop]
    split
    · refine .silent (ho.touch (hsub c (.head _)) _) ?_
      simp only
      split
      · exact .pure ho
      · exact ih _ fun d hd => hsub d (.tail _ hd)
    · exact .pure ho

theorem peek_follows {m : Marshal} (hq : m.chunks.Rep cs) (ho : Owned base others h cs r) (n : Nat) :
    Follows (peek h m n) (.ok (m.peek h n)) r fun _ => Owned base others h cs := by
  apply peekLoop_follows n [] _ ho
  intro c hc
  rwa [hq.toList_eq] at hc

theorem readFromFdLoop_follows (resps : List Nat) {avail got : List UInt8} (hq : q.Rep cs)
    (ho : Owned base others h cs r) :
    Follows (readFromFdLoop resps h q avail got) (Marshal.readFromFdLoop resps h q avail got) r
      fun x => Roots base others x.1 x.2.1 := by
  induction resps generalizing h q cs r avail got with
  | nil =>
    rw [readFromFdLoop, Marshal.readFromFdLoop]
    refine .bind (ensureTail_follows hq ho) ?_
    rintro ⟨h', q'⟩ r' - ⟨cs', t, hrep, ho'⟩
    exact .pure ⟨_, hrep, ho'⟩
  | cons resp resps ih =>
    rw [readFromFdLoop, Marshal.readFromFdLoop]
    refine .bind (ensureTail_follows hq ho) ?_
    rintro ⟨h', q'⟩ r' - ⟨cs', t, hrep, ho'⟩
    simp only [hrep.tailVal, deref_some, ok_bind]
    refine .lift_ok (.silent (ho'.touch (by simp) _) ?_)
    -- the last chunk is filled, and keeps its array
    obtain ⟨q'', hset, hrep'⟩ := hrep.setTail (t.readFromFd h' avail resp).2.1
    simp only [hset, deref_some, ok_bind]
    refine .lift_ok ?_
    have hfilled : Owned base others (t.readFromFd h' avail resp).1 (cs' ++ [t]) r' :=
      ho'.of_next rfl
    have ho'' : Owned base others (t.readFromFd h' avail resp).1
        (cs' ++ [(t.readFromFd h' avail resp).2.1]) r' :=
      hfilled.perm (by simp [targets, Chunk.readFromFd])
    -- the loop goes on as long as there are bytes
    split
    · exact .pure ⟨_, hrep', ho''⟩
    · exact ih hrep' ho''

theorem readFromFd_follows {m : Marshal} (hq : m.chunks.Rep cs) (ho : Owned base others h cs r)
    (avail : List UInt8) (resps : List Nat) :
    Follows (readFromFd h m avail resps) (m.readFromFd h avail resps) r fun x =>
      Roots base others x.1 x.2.1.chunks :=
  .bind (readFromFdLoop_follows resps hq ho) fun _ _ _ hx => .pure hx

theorem writeToFdLoop_follows (resps : List Nat) {m : Marshal} {out : List UInt8}
    (hq : m.chunks.Rep cs) (ho : Owned base others h cs r) :
    Follows (writeToFdLoop h resps m out) (Marshal.writeToFdLoop h resps m out) r fun x =>
      Roots base others h x.1.chunks := by
  induction resps generalizing m cs r out with
  | nil =>
    rw [writeToFdLoop, Marshal.writeToFdLoop]
    split
    · -- nothing to send
      exact .pure ⟨_, hq, ho⟩
    · cases cs with
      | nil =>
        rw [headVal_nil hq]
        exact .of_error
      | cons c cs =>
        -- the assertion about the head chunk looks at it
        rw [hq.headVal]
        simp only [deref_some, ok_bind]
        refine .lift_ok (.use ho.held (Owned.mem (.head _)) ?_)
        exact .bind (advanceHead_follows hq ho rfl) fun _ _ _ hx => .pure hx
  | cons resp resps ih =>
    rw [writeToFdLoop, Marshal.writeToFdLoop]
    split
    · -- nothing to send
      exact .pure ⟨_, hq, ho⟩
    · cases cs with
      | nil =>
        rw [headVal_nil hq]
        exact .of_error
      | cons c cs =>
        rw [hq.headVal]
        simp only [deref_some, ok_bind]
        -- the head chunk is sent, and released when it is empty
        refine .lift_ok (.silent (ho.touch (by simp) _) (.bind (advanceHead_follows hq ho rfl) ?_))
        rintro q' r' - ⟨cs', hrep, ho'⟩
        -- the loop goes on as long as bytes leave
        split
        · exact .pure ⟨_, hrep, ho'⟩
        · exact ih hrep ho'

/-- The chunks of two Marshals have the references. -/
def RootsTwo (base : Addr) (others : List Addr) (h : Heap) (dst src : LinkedQueue Chunk)
    (r : RefCounts Addr) : Prop :=
  ∃ ds ss, dst.Rep ds ∧ src.Rep ss ∧ Owned base (targets ds ++ others) h ss r

/-- The references of one Marshal are among the others for another one. -/
theorem Owned.swap {ds ss : List Chunk} (ho : Owned base (targets ds ++ others) h ss r) :
    Owned base (targets ss ++ others) h ds r := by
  refine ⟨ho.base_le, ho.held.perm ?_⟩
  rw [← List.append_assoc, ← List.append_assoc]
  exact List.perm_append_comm.append_right _

theorem shareLoop_follows (n : Nat) (fuel : Nat) {dst src : LinkedQueue Chunk} {ds ss : List Chunk}
    (nFetch : Nat) (hdst : dst.Rep ds) (hsrc : src.Rep ss)
    (ho : Owned base (targets ds ++ others) h ss r) :
    Follows (shareLoop h n fuel dst src nFetch) (Marshal.shareLoop h n fuel dst src nFetch) r
      fun x => RootsTwo base others h x.1 x.2.1 := by
  induction fuel generalizing dst src ds ss r nFetch with
  | zero => exact .of_error
  | succ fuel ih =>
    rw [shareLoop, Marshal.shareLoop]
    split
    case isFalse => exact .pure ⟨ds, ss, hdst, hsrc, ho⟩
    case isTrue =>
      cases ss with
      | nil =>
        rw [headVal_nil hsrc]
        exact .of_error
      | cons c ss =>
        rw [hsrc.headVal]
        simp only [deref_some, ok_bind]
        refine .lift_ok ?_
        -- the copy has a reference of its own
        obtain ⟨r', hcopy, hr'⟩ :=
          Counted.refCopy_held (ε := Fault) ho.held (Owned.mem (List.mem_cons_self ..))
        have hshared : sharedCopy c r = .ok (c.sharedCopy, r') := by
          change ((refCopy c.data : Refs Unit) r >>= fun p => _) = _
          rw [hcopy]
          rfl
        refine .silent hshared ?_
        -- the copy is cut to what is asked for, and keeps its array
        generalize hchnk : (if nFetch + c.sharedCopy.contentSize > n then
          { c.sharedCopy with
            writeIdx := c.sharedCopy.writeIdx - (nFetch + c.sharedCopy.contentSize - n) }
          else c.sharedCopy) = chnk
        have hdata : chnk.data = c.data := by
          rw [← hchnk]
          split <;> rfl
        have ho' : Owned base (targets (ds ++ [chnk]) ++ others) h (c :: ss) r' := by
          refine ⟨ho.base_le, hr'.perm ?_⟩
          simp only [targets, List.map_append, List.map_cons, List.map_nil, hdata,
            List.append_assoc, List.singleton_append]
          rw [← List.append_assoc, ← List.append_assoc (_ :: _)]
          exact List.perm_middle.symm
        split
        -- nothing is left of the copy
        case isTrue => exact .of_error
        case isFalse =>
          refine .bind (Q := fun _ r'' => r'' = r') (.lift fun _ _ => rfl) ?_
          rintro - _ - rfl
          -- it is linked behind the destination
          obtain ⟨dst', hlink, hrep⟩ := link_spec hdst chnk
          rw [hlink]
          simp only [ok_bind]
          refine .lift_ok (.bind (advanceHead_follows hsrc ho' rfl) ?_)
          rintro src' r'' - ⟨ss', hrep', ho''⟩
          exact ih _ hrep hrep' ho''

theorem shareFrom_follows {dst src : Marshal} {ds ss : List Chunk} (hdst : dst.chunks.Rep ds)
    (hsrc : src.chunks.Rep ss) (ho : Owned base (targets ds ++ others) h ss r) (n : Nat) :
    Follows (shareFrom h dst src n) (Marshal.shareFrom h dst src n) r fun x =>
      RootsTwo base others h x.1.chunks x.2.1.chunks := by
  refine .bind (shareLoop_follows n (n + 1) 0 hdst hsrc ho) ?_
  rintro ⟨d, s, nFetch⟩ r' - hx
  refine .bind (Q := fun _ r'' => r'' = r') (.lift fun _ _ => rfl) ?_
  rintro - _ - rfl
  exact .pure hx

theorem readFromMarshal_follows {dst src : Marshal} {ds ss : List Chunk} (hdst : dst.chunks.Rep ds)
    (hsrc : src.chunks.Rep ss) (ho : Owned base (targets ds ++ others) h ss r) (n : Nat) :
    Follows (readFromMarshal h dst src n) (Marshal.readFromMarshal h dst src n) r fun x =>
      RootsTwo base others x.1 x.2.1.chunks x.2.2.1.chunks := by
  rw [readFromMarshal, Marshal.readFromMarshal]
  split
  · -- an empty destination
    refine .bind (shareFrom_follows hdst hsrc ho n) ?_
    rintro ⟨d, s, nFetch⟩ r' - hx
    exact .pure hx
  · cases ds using List.reverseRecOn with
    | nil =>
      rw [tailVal_nil hdst]
      exact .of_error
    | append_singleton ds t =>
      rw [hdst.tailVal]
      simp only [deref_some, ok_bind]
      have htail : t ∈ ds ++ [t] := List.mem_append_right ds (.head _)
      refine .lift_ok (.silent (ho.swap.touch htail _) ?_)
      by_cases hfull : t.fullyWritten h
      · -- a destination whose last chunk is full
        simp only [hfull, decide_true, if_true]
        refine .bind (shareFrom_follows hdst hsrc ho n) ?_
        rintro ⟨d, s, nFetch⟩ r' - hx
        exact .pure hx
      · simp only [hfull, decide_false, Bool.false_eq_true, if_false]
        refine .use ho.swap.held (Owned.mem htail) ?_
        -- first the bytes for which the last chunk has room
        refine .bind (read_follows hsrc ho _) ?_
        rintro ⟨src', buf⟩ r₁ - ⟨ss₁, hsrc₁, ho₁⟩
        refine .bind (Q := fun _ r' => r' = r₁) (.lift fun _ _ => rfl) ?_
        rintro - _ - rfl
        refine .bind (write_follows hdst ho₁.swap buf) ?_
        rintro ⟨h₂, dst'⟩ r₂ - ⟨ds₂, hdst₂, ho₂⟩
        -- what is left is shared
        split
        case isFalse => exact .pure ⟨ds₂, ss₁, hdst₂, hsrc₁, ho₂.swap⟩
        case isTrue =>
          cases ds₂ using List.reverseRecOn with
          | nil =>
            rw [tailVal_nil hdst₂]
            exact .of_error
          | append_singleton ds₂ t₂ =>
            simp only [hdst₂.tailVal, deref_some, ok_bind]
            refine .lift_ok (.silent (ho₂.touch (by simp) _) ?_)
            simp only [decide_eq_true_eq]
            refine .bind (Q := fun _ r' => r' = r₂) (.lift fun _ _ => rfl) ?_
            rintro - _ - rfl
            refine .bind (shareFrom_follows hdst₂ hsrc₁ ho₂.swap _) ?_
            rintro ⟨d, s, nFetch⟩ r' - hx
            exact .pure hx

theorem setBookmarkLoop_follows (n : Nat) {bm : Bookmark} (hq : q.Rep cs)
    (ho : Owned base others h cs r) :
    Follows (setBookmarkLoop n h q bm) (Marshal.setBookmarkLoop n h q bm) r fun x =>
      Roots base others x.1 x.2.1 := by
  induction n generalizing h q cs r bm with
  | zero => exact .pure ⟨cs, hq, ho⟩
  | succ n ih =>
    rw [setBookmarkLoop, Marshal.setBookmarkLoop]
    refine .bind (ensureTail_follows hq ho) ?_
    rintro ⟨h', q'⟩ r' - ⟨cs', t, hrep, ho'⟩
    simp only [hrep.tailVal, deref_some, ok_bind]
    refine .lift_ok (.silent (ho'.touch (by simp) _) ?_)
    obtain ⟨q'', hset, hrep'⟩ := hrep.setTail t.setBookmark.1
    simp only [hset, deref_some, ok_bind]
    exact .lift_ok (ih hrep' (ho'.perm (by simp [targets, Chunk.setBookmark])))

theorem setBookmark_follows {m : Marshal} (hq : m.chunks.Rep cs) (ho : Owned base others h cs r)
    (n : Nat) :
    Follows (setBookmark h m n) (m.setBookmark h n) r fun x =>
      Roots base others x.1 x.2.1.chunks := by
  refine .bind (Q := fun _ r' => r' = r) (.lift fun _ _ => rfl) ?_
  rintro - _ - rfl
  exact .bind (setBookmarkLoop_follows n hq ho) fun _ _ _ hx => .pure hx

/-- A bookmark into queued cells points into arrays that are there. -/
theorem writeBookmark_follows {bm : Bookmark} (hmem : ∀ cell ∈ bm, cell.1 ∈ targets cs)
    (ho : Owned base others h cs r) (p : List UInt8) :
    Follows (writeBookmark h bm p) (.ok (Marshal.writeBookmark h bm p)) r fun h' =>
      Owned base others h' cs := by
  have htouch : touchCells bm r = .ok ((), r) := by
    induction bm with
    | nil => rfl
    | cons cell bm ih =>
      change ((use cell.1 : Refs Unit) r >>= fun p => touchCells bm p.2) = _
      rw [Counted.use_held ho.held (List.mem_append_left _ (hmem cell (.head _)))]
      exact ih fun c hc => hmem c (.tail _ hc)
  exact .silent htouch (.pure (ho.of_next (Heap.poke_sizes h bm p).2))

/-- `~Marshal` gives back every reference of its chunks. -/
theorem destroyLoop_owned (fuel : Nat) {store : Nat → Option (Node Chunk)} {p : Option Nat}
    {ns : List (Nat × Chunk)} (hchain : LinkedQueue.Chain store p ns)
    (hnodup : (ns.map Prod.fst).Nodup) (hfuel : ns.length < fuel)
    (ho : Owned base others h (ns.map Prod.snd) r) :
    ∃ r', destroyLoop fuel store p r = .ok ((), r') ∧ Owned base others h [] r' := by
  induction ns generalizing fuel store p r with
  | nil =>
    -- no chunk is left
    obtain ⟨fuel, rfl⟩ : ∃ k, fuel = k + 1 := ⟨fuel - 1, by simp at hfuel; omega⟩
    obtain rfl : p = none := hchain
    exact ⟨r, rfl, ho⟩
  | cons node ns ih =>
    obtain ⟨fuel, rfl⟩ : ∃ k, fuel = k + 1 := ⟨fuel - 1, by simp at hfuel; omega⟩
    obtain ⟨rfl, nxt, hstore, hrest⟩ := hchain
    obtain ⟨hnot, hnodup⟩ := List.nodup_cons.mp hnodup
    obtain ⟨r₁, hrelease, hr₁⟩ := Counted.release_held (ε := Fault) ho.held
    -- the chunk object is gone, the others are where they were
    have hrest' : LinkedQueue.Chain (Function.update store node.1 none) nxt ns := by
      refine hrest.congr fun m hm => Function.update_of_ne ?_ ..
      rintro heq
      exact hnot (heq ▸ List.mem_map_of_mem hm)
    obtain ⟨r', hloop, ho'⟩ := ih fuel hrest' hnodup (by simpa using hfuel) ⟨ho.base_le, hr₁⟩
    refine ⟨r', ?_, ho'⟩
    rw [destroyLoop, hstore]
    -- the reference of this chunk is given back, and then those of the rest
    change ((release node.2.data : Refs Unit) r >>= fun x =>
      destroyLoop fuel (Function.update store node.1 none) nxt x.2) = _
    rw [hrelease]
    exact hloop

theorem destroy_owned {m : Marshal} (hq : m.chunks.Rep cs) (ho : Owned base others h cs r) :
    ∃ r', destroy m r = .ok ((), r') ∧ Owned base others h [] r' := by
  obtain ⟨ns, hholds, rfl⟩ := hq
  exact destroyLoop_owned _ hholds.chain hholds.nodup (Nat.lt_succ_of_le hholds.length_le) ho

end Operations

end Refs

/-! ## The Marshals of a process -/

namespace World

variable {ι : Type}

/-- The arrays that the chunks of the Marshals `names` point into. -/
def targets (W : World ι) (names : List ι) : List Addr :=
  names.flatMap fun i => Refs.targets (W.marshal i).chunkList

/-- The references are those of the chunks of all Marshals. -/
def Managed (base : Addr) (W : World ι) (r : RefCounts Addr) : Prop :=
  ∃ names : List ι, names.Nodup ∧ (∀ i, i ∉ names → (W.marshal i).chunkList = []) ∧
    Refs.Owned base (W.targets names) W.heap [] r

theorem managed_init (h : Heap) : (init h : World ι).Managed h.next .empty := by
  refine ⟨[], List.nodup_nil, fun _ _ => rfl, Nat.le_refl _, ?_⟩
  have hnone : Refs.arrays h.next h = ∅ :=
    Set.eq_empty_of_forall_notMem fun a ha => Nat.not_lt.mpr ha.1 ha.2
  rw [init, hnone]
  exact RefCounts.held_empty

variable [DecidableEq ι] {W : World ι} {base : Addr} {r : RefCounts Addr}

/-- The list of names may have more of them. -/
theorem Managed.names (hM : W.Managed base r) (is : List ι) :
    ∃ names : List ι, names.Nodup ∧ (∀ i ∈ is, i ∈ names) ∧
      (∀ i, i ∉ names → (W.marshal i).chunkList = []) ∧
      Refs.Owned base (W.targets names) W.heap [] r := by
  induction is with
  | nil =>
    obtain ⟨names, hnodup, hrest, ho⟩ := hM
    exact ⟨names, hnodup, by simp, hrest, ho⟩
  | cons i is ih =>
    obtain ⟨names, hnodup, hsub, hrest, ho⟩ := ih
    by_cases hmem : i ∈ names
    · -- a name that is there
      refine ⟨names, hnodup, ?_, hrest, ho⟩
      simpa [hmem] using hsub
    · -- a name that was not there has no chunks
      refine ⟨i :: names, List.nodup_cons.mpr ⟨hmem, hnodup⟩, ?_, ?_, ?_⟩
      · simpa using fun j hj => .inr (hsub j hj)
      · exact fun j hj => hrest j fun h => hj (.tail _ h)
      · rwa [targets, List.flatMap_cons, hrest i hmem]

/-- The references of one Marshal, and of the others. -/
theorem targets_perm {names : List ι} {i : ι} (hi : i ∈ names) :
    (W.targets names).Perm (Refs.targets (W.marshal i).chunkList ++ W.targets (names.erase i)) :=
  (List.perm_cons_erase hi).flatMap_right _

theorem targets_set {names : List ι} {i : ι} (hi : i ∉ names) (h : Heap) (m : Marshal) :
    (W.set i h m).targets names = W.targets names := by
  refine List.flatMap_congr fun j hj => ?_
  rw [W.set_marshal_of_ne (ne_of_mem_of_not_mem hj hi)]

/-- An operation on one Marshal may forget the others. -/
theorem Managed.focus (hM : W.Managed base r) (i : ι) :
    ∃ others, Refs.Owned base others W.heap (W.marshal i).chunkList r ∧
      ∀ h' m' r', Refs.Roots base others h' m'.chunks r' → (W.set i h' m').Managed base r' := by
  obtain ⟨names, hnodup, hsub, hrest, ho⟩ := hM.names [i]
  have hi : i ∈ names := hsub i (.head _)
  refine ⟨W.targets (names.erase i), ⟨ho.base_le, ho.held.perm (targets_perm hi)⟩, ?_⟩
  rintro h' m' r' ⟨cs', hrep, ho'⟩
  refine ⟨names, hnodup, fun j hj => ?_, ho'.base_le, ho'.held.perm ?_⟩
  · rw [W.set_marshal_of_ne (ne_of_mem_of_not_mem hi hj).symm]
    exact hrest j hj
  · have hperm := (targets_perm (W := W.set i h' m') hi).symm
    rw [set_marshal_same, targets_set (List.Nodup.not_mem_erase hnodup),
      show m'.chunkList = cs' from hrep.toList_eq] at hperm
    exact hperm

/-- So may an operation on two. -/
theorem Managed.focusTwo (hM : W.Managed base r) {i j : ι} (hij : i ≠ j) :
    ∃ others, Refs.Owned base (Refs.targets (W.marshal i).chunkList ++ others) W.heap
        (W.marshal j).chunkList r ∧
      ∀ h' d' s' r', Refs.RootsTwo base others h' d'.chunks s'.chunks r' →
        ((W.set j h' s').set i h' d').Managed base r' := by
  obtain ⟨names, hnodup, hsub, hrest, ho⟩ := hM.names [i, j]
  have hi : i ∈ names := hsub i (by simp)
  have hj : j ∈ names.erase i := (List.mem_erase_of_ne (Ne.symm hij)).mpr (hsub j (by simp))
  have hnot : i ∉ (names.erase i).erase j := fun h => hnodup.not_mem_erase (List.mem_of_mem_erase h)
  have hnot' : j ∉ (names.erase i).erase j := (hnodup.erase i).not_mem_erase
  -- the targets of both, and those of the others
  have hperm : ∀ W : World ι, (W.targets names).Perm (Refs.targets (W.marshal j).chunkList ++
      (Refs.targets (W.marshal i).chunkList ++ W.targets ((names.erase i).erase j))) := by
    intro W
    refine (targets_perm hi).trans (((targets_perm hj).append_left _).trans ?_)
    rw [← List.append_assoc, ← List.append_assoc]
    exact List.perm_append_comm.append_right _
  refine ⟨W.targets ((names.erase i).erase j), ⟨ho.base_le, ho.held.perm (hperm W)⟩, ?_⟩
  rintro h' d' s' r' ⟨ds, ss, hd, hs, ho'⟩
  refine ⟨names, hnodup, fun k hk => ?_, ho'.base_le, ho'.held.perm ?_⟩
  · -- the others have not changed
    rw [set_marshal_of_ne _ (ne_of_mem_of_not_mem hi hk).symm,
      set_marshal_of_ne _ (ne_of_mem_of_not_mem (hsub j (by simp)) hk).symm]
    exact hrest k hk
  · -- the two hold what they hold now
    have hperm' := (hperm ((W.set j h' s').set i h' d')).symm
    rw [set_marshal_same, set_marshal_of_ne _ (Ne.symm hij), set_marshal_same, targets_set hnot,
      targets_set hnot', show d'.chunkList = ds from hd.toList_eq,
      show s'.chunkList = ss from hs.toList_eq] at hperm'
    exact hperm'

theorem set_marshal_self (i : ι) (h : Heap) : W.set i h (W.marshal i) = ⟨h, W.marshal⟩ := by
  rw [set, Function.update_eq_self]

omit [DecidableEq ι] in
/-- Where the cells of a Marshal are. -/
theorem cell_target {i : ι} {cell : Cell} (hcell : cell ∈ W.cells i) :
    cell.1 ∈ Refs.targets (W.marshal i).chunkList := by
  obtain ⟨c, hc, hmem⟩ := List.mem_flatMap.mp hcell
  rw [(mem_cellsAt.mp hmem).1]
  exact List.mem_map_of_mem hc

end World

/-- An operation on the Marshals of a process, or the end of one of them. -/
inductive CountedOp (ι : Type) where
  | call (op : Op ι)
  | destroy (i : ι)

namespace Proc

open Counted (lift Follows)

variable {ι : Type} [DecidableEq ι]

/-- The Marshal `i` is gone. What is constructed under its name later is another one. -/
def destroyed (s : Proc ι) (i : ι) : Proc ι :=
  { s with world := s.world.set i s.world.heap .empty
           taken := Function.update s.taken i (s.taken i + (s.world.cells i).length) }

/-- One step over arrays that are never freed. -/
def perform (s : Proc ι) : CountedOp ι → Except Fault (Proc ι × List UInt8)
  | .call op => s.step op
  | .destroy i => pure (s.destroyed i, [])

/-- One step. -/
def countedStep (s : Proc ι) : CountedOp ι → Refs (Proc ι × List UInt8)
  | .call (.write i p) => do
    let (h, m) ← Refs.write s.world.heap (s.world.marshal i) p
    pure ({ s with world := s.world.set i h m }, [])
  | .call (.read i n) => do
    let (m, out) ← Refs.read s.world.heap (s.world.marshal i) n
    pure ({ s with world := s.world.set i s.world.heap m
                   taken := Function.update s.taken i (s.taken i + out.length) }, out)
  | .call (.peek i n) => do
    let out ← Refs.peek s.world.heap (s.world.marshal i) n
    pure (s, out)
  | .call (.readFromFd i avail resps) => do
    let (h, m, _, got) ← Refs.readFromFd s.world.heap (s.world.marshal i) avail resps
    pure ({ s with world := s.world.set i h m }, got)
  | .call (.writeToFd i resps) => do
    let (m, out) ← Refs.writeToFd s.world.heap (s.world.marshal i) resps
    pure ({ s with world := s.world.set i s.world.heap m
                   taken := Function.update s.taken i (s.taken i + out.length) }, out)
  | .call (.readFromMarshal dst src n) => do
    let (h, d, m, nFetch) ←
      Refs.readFromMarshal s.world.heap (s.world.marshal dst) (s.world.marshal src) n
    pure ({ s with world := (s.world.set src h m).set dst h d
                   taken := Function.update s.taken src (s.taken src + nFetch) }, [])
  | .call (.setBookmark i n) => do
    let (h, m, bm) ← Refs.setBookmark s.world.heap (s.world.marshal i) n
    pure ({ s with world := s.world.set i h m
                   marks := s.marks ++ [⟨i, s.taken i + (s.world.content i).length, bm⟩] }, [])
  | .call (.writeBookmark k p) => do
    let mark ← lift (deref s.marks[k]?)
    let h ← Refs.writeBookmark s.world.heap mark.cells p
    pure ({ s with world := ⟨h, s.world.marshal⟩ }, [])
  | .call (.getAndResetWriteCnt i) =>
    pure ({ s with world := (s.world.getAndResetWriteCnt i).1 }, [])
  | .destroy i => do
    Refs.destroy (s.world.marshal i)
    pure (s.destroyed i, [])

/-- A Marshal may be destroyed at any time. -/
def CountedAllowed (s : Proc ι) : CountedOp ι → Prop
  | .call op => s.Allowed op
  | .destroy _ => True

/-- What holds of a process whose arrays are counted. -/
structure Managed (base : Addr) (s : Proc ι) (r : RefCounts Addr) : Prop where
  ok : s.world.AllOk
  marks : ∀ mark ∈ s.marks, MarkOk s.world s.taken mark
  refs : s.world.Managed base r

omit [DecidableEq ι] in
theorem managed_init (h : Heap) : (init h : Proc ι).Managed h.next .empty :=
  ⟨World.allOk_init h, by simp [init], World.managed_init h⟩

section Steps

variable {s : Proc ι} {base : Addr} {r : RefCounts Addr}

/-- A call keeps Marshals well formed, and bookmarks where they are. -/
theorem step_marks (hW : s.world.AllOk) (hmarks : ∀ mark ∈ s.marks, MarkOk s.world s.taken mark)
    {op : Op ι} (hop : s.Allowed op) : ∃ s' out, s.step op = .ok (s', out) ∧ s'.world.AllOk ∧
      ∀ mark ∈ s'.marks, MarkOk s'.world s'.taken mark := by
  obtain ⟨s', out, hstep, hok⟩ := step_allOk hW hop
  refine ⟨s', out, hstep, hok, ?_⟩
  -- what is appended to one Marshal moves nothing
  have happend : ∀ {i h' m'} (new : List Cell), m'.cells = (s.world.marshal i).cells ++ new →
      ∀ mark ∈ s.marks, MarkOk (s.world.set i h' m') s.taken mark := by
    intro i h' m' new hcells mark hmark
    refine (hmarks mark hmark).append ?_
    by_cases hown : mark.owner = i
    · exact ⟨new, by rw [hown, World.cells_set_same, hcells]; rfl⟩
    · exact ⟨[], by rw [World.cells_set_of_ne _ hown, List.append_nil]⟩
  -- what is taken from one moves its bookmarks to the front
  have hconsume : ∀ {i h m'} (k : Nat), m'.cells = (s.world.marshal i).cells.drop k →
      ∀ mark ∈ s.marks, MarkOk (s.world.set i h m')
        (Function.update s.taken i (s.taken i + k)) mark := by
    intro i h m' k hcells mark hmark
    refine (hmarks mark hmark).consume ?_ fun j hj => World.cells_set_of_ne _ hj ..
    rw [World.cells_set_same, hcells]
    rfl
  -- a read takes as much as there is
  have htake : ∀ {i n} {out : List UInt8}, out = (s.world.content i).take n →
      (s.world.marshal i).cells.drop n = (s.world.marshal i).cells.drop out.length := by
    rintro i n _ rfl
    rw [List.length_take, World.content_length]
    change (s.world.cells i).drop n = (s.world.cells i).drop _
    rcases Nat.le_total n (s.world.cells i).length with hle | hle
    · rw [Nat.min_eq_left hle]
    · rw [Nat.min_eq_right hle, List.drop_of_length_le hle, List.drop_length]
  cases op with
  | write i p =>
    obtain ⟨h', m', new, heq, ha, -⟩ := World.write_eq hW i p
    simp only [step, heq, ok_bind, pure_eq_ok] at hstep
    cases hstep
    exact happend new ha.cells_eq
  | read i n =>
    obtain ⟨m', heq, hc, -⟩ := World.read_eq hW i n
    simp only [step, heq, ok_bind, pure_eq_ok] at hstep
    cases hstep
    exact hconsume _ (hc.cells_eq.trans (htake rfl))
  | peek i n =>
    cases hstep
    exact hmarks
  | readFromFd i avail resps =>
    obtain ⟨h', m', new, k, heq, ha, -⟩ := World.readFromFd_eq hW i avail resps
    simp only [step, heq, ok_bind, pure_eq_ok] at hstep
    cases hstep
    exact happend new ha.cells_eq
  | writeToFd i resps =>
    obtain ⟨m', k, heq, hc, -⟩ := World.writeToFd_eq hW i resps
    simp only [step, heq, ok_bind, pure_eq_ok] at hstep
    cases hstep
    exact hconsume _ (hc.cells_eq.trans (htake rfl))
  | readFromMarshal dst src n =>
    obtain ⟨hne, hn⟩ := hop
    obtain ⟨h', d', src', new, heq, hm, -⟩ :=
      World.readFromMarshal_eq hW dst src (World.contentSize_eq hW src ▸ hn)
    simp only [step, heq, ok_bind, pure_eq_ok] at hstep
    cases hstep
    -- first the source, then the destination
    intro mark hmark
    have hsrc := hconsume (h := h') n hm.consumes.cells_eq mark hmark
    refine hsrc.append ?_
    -- what is appended to the destination
    by_cases hown : mark.owner = dst
    · refine ⟨new ++ ((s.world.cells src).drop new.length).take (n - new.length), ?_⟩
      rw [hown, World.cells_set_same, World.cells_set_of_ne _ hne, hm.cells_eq, List.append_assoc]
      rfl
    · -- the marks of other Marshals
      exact ⟨[], by rw [World.cells_set_of_ne _ hown, List.append_nil]⟩
  | setBookmark i n =>
    obtain ⟨h', m', new, heq, ha, -⟩ := World.setBookmark_eq hW i n hop
    simp only [step, heq, ok_bind, pure_eq_ok] at hstep
    cases hstep
    intro mark hmark
    rcases List.mem_append.mp hmark with hmark | hmark
    · -- the bookmarks of before
      exact happend new ha.cells_eq mark hmark
    · -- the new one is at the end
      obtain rfl := List.mem_singleton.mp hmark
      intro _
      refine ⟨s.world.cells i, [], ?_, by rw [World.content_length]⟩
      simp only [World.cells_set_same, ha.cells_eq, List.append_nil]
      rfl
  | writeBookmark k p =>
    obtain ⟨mark, hmark, -⟩ := hop
    simp only [step, hmark, deref_some, ok_bind, pure_eq_ok] at hstep
    cases hstep
    exact hmarks
  | getAndResetWriteCnt i =>
    cases hstep
    exact happend [] (List.append_nil _).symm

theorem perform_marks (hM : s.Managed base r) {op : CountedOp ι} (hop : s.CountedAllowed op) :
    ∃ s' out, s.perform op = .ok (s', out) ∧ s'.world.AllOk ∧
      ∀ mark ∈ s'.marks, MarkOk s'.world s'.taken mark := by
  cases op with
  | call op => exact step_marks hM.ok hM.marks hop
  | destroy i =>
    refine ⟨_, _, rfl, hM.ok.set (.refl _) (Marshal.ok_empty _), fun mark hmark => ?_⟩
    refine (hM.marks mark hmark).consume ?_ fun j hj => World.cells_set_of_ne _ hj ..
    rw [destroyed, World.cells_set_same, List.drop_length]
    rfl

/-- **One step** touches no array that is gone, does what it does without counts, and leaves the
    references with the chunks. -/
theorem countedStep_follows (hM : s.Managed base r) {op : CountedOp ι} (hop : s.CountedAllowed op) :
    Follows (s.countedStep op) (s.perform op) r fun x r' => x.1.world.Managed base r' := by
  cases op with
  | destroy i =>
    -- every reference of the Marshal is given back
    obtain ⟨others, ho, hback⟩ := hM.refs.focus i
    obtain ⟨r', hdestroy, ho'⟩ := Refs.destroy_owned (hM.ok i).rep ho
    exact .silent hdestroy (.pure (hback _ _ _ ⟨[], LinkedQueue.rep_empty, ho'⟩))
  | call op =>
    cases op with
    | write i p =>
      -- the operations on one Marshal
      obtain ⟨others, ho, hback⟩ := hM.refs.focus i
      rw [countedStep, perform, step, World.write, bind_assoc]
      exact .bind (Refs.write_follows (hM.ok i).rep ho p) fun _ _ _ hx => .pure (hback _ _ _ hx)
    | read i n =>
      obtain ⟨others, ho, hback⟩ := hM.refs.focus i
      rw [countedStep, perform, step, World.read, bind_assoc]
      exact .bind (Refs.read_follows (hM.ok i).rep ho n) fun _ _ _ hx => .pure (hback _ _ _ hx)
    | peek i n =>
      obtain ⟨others, ho, hback⟩ := hM.refs.focus i
      change Follows _ ((.ok ((s.world.marshal i).peek s.world.heap n) : Except Fault (List UInt8)) >>=
        fun out => pure (s, out)) _ _
      refine .bind (Refs.peek_follows (hM.ok i).rep ho n) fun _ r' _ hx => .pure ?_
      -- a peek changes nothing
      have hself := hback _ _ r' ⟨_, (hM.ok i).rep, hx⟩
      rwa [World.set_marshal_self] at hself
    | readFromFd i avail resps =>
      obtain ⟨others, ho, hback⟩ := hM.refs.focus i
      rw [countedStep, perform, step, World.readFromFd, bind_assoc]
      exact .bind (Refs.readFromFd_follows (hM.ok i).rep ho avail resps)
        fun _ _ _ hx => .pure (hback _ _ _ hx)
    | writeToFd i resps =>
      obtain ⟨others, ho, hback⟩ := hM.refs.focus i
      rw [countedStep, perform, step, World.writeToFd, bind_assoc]
      exact .bind (Refs.writeToFdLoop_follows resps (hM.ok i).rep ho)
        fun _ _ _ hx => .pure (hback _ _ _ hx)
    | readFromMarshal dst src n =>
      -- the operation on two
      obtain ⟨others, ho, hback⟩ := hM.refs.focusTwo hop.1
      rw [countedStep, perform, step, World.readFromMarshal, bind_assoc]
      exact .bind (Refs.readFromMarshal_follows (hM.ok dst).rep (hM.ok src).rep ho n)
        fun _ _ _ hx => .pure (hback _ _ _ _ hx)
    | setBookmark i n =>
      obtain ⟨others, ho, hback⟩ := hM.refs.focus i
      rw [countedStep, perform, step, World.setBookmark, bind_assoc]
      exact .bind (Refs.setBookmark_follows (hM.ok i).rep ho n)
        fun _ _ _ hx => .pure (hback _ _ _ hx)
    | writeBookmark k p =>
      obtain ⟨mark, hmark, -, hle⟩ := hop
      obtain ⟨pre, post, hcells, -⟩ := hM.marks mark (List.mem_of_getElem? hmark) hle
      obtain ⟨others, ho, hback⟩ := hM.refs.focus mark.owner
      -- the cells of a mark are in the chunks of its owner
      have hmem : ∀ cell ∈ mark.cells,
          cell.1 ∈ Refs.targets (s.world.marshal mark.owner).chunkList := by
        intro cell hcell
        apply World.cell_target
        rw [hcells]
        exact List.mem_append_left _ (List.mem_append_right _ hcell)
      rw [countedStep, perform, step, hmark]
      simp only [deref_some, ok_bind]
      refine .lift_ok ?_
      change Follows _ ((.ok (Marshal.writeBookmark s.world.heap mark.cells p) : Except Fault Heap) >>=
        fun h => pure ({ s with world := ⟨h, s.world.marshal⟩ }, [])) _ _
      refine .bind (Refs.writeBookmark_follows hmem ho p) fun h' r' _ hx => .pure ?_
      have hself := hback h' _ r' ⟨_, (hM.ok mark.owner).rep, hx⟩
      rwa [World.set_marshal_self] at hself
    | getAndResetWriteCnt i =>
      obtain ⟨others, ho, hback⟩ := hM.refs.focus i
      exact .pure (hback _ _ _ ⟨_, (hM.ok i).rep, ho⟩)

theorem Managed.step (hM : s.Managed base r) {op : CountedOp ι} (hop : s.CountedAllowed op) :
    ∃ s' out r', s.countedStep op r = .ok ((s', out), r') ∧ s.perform op = .ok (s', out) ∧
      s'.Managed base r' := by
  obtain ⟨s', out, heq, hok, hmarks⟩ := perform_marks hM hop
  obtain ⟨r', hcounted, hrefs⟩ := countedStep_follows hM hop _ heq
  exact ⟨s', out, r', hcounted, heq, hok, hmarks, hrefs⟩

end Steps

/-! ### Whole runs -/

/-- A step over counted arrays, with what it handed out. -/
def CountedNext (x : Proc ι × RefCounts Addr) (label : CountedOp ι × List UInt8)
    (x' : Proc ι × RefCounts Addr) : Prop :=
  x.1.CountedAllowed label.1 ∧ x.1.countedStep label.1 x.2 = .ok ((x'.1, label.2), x'.2)

/-- The same step over arrays that are never freed. -/
def FreeNext (s : Proc ι) (label : CountedOp ι × List UInt8) (s' : Proc ι) : Prop :=
  s.CountedAllowed label.1 ∧ s.perform label.1 = .ok (s', label.2)

/-- What a chunk points into is there, and nothing else. -/
structure Balanced (base : Addr) (s : Proc ι) (r : RefCounts Addr) : Prop where
  /-- `refcnt_` is the number of chunks that point into the array -/
  counts : ∃ names : Finset ι, (∀ i, i ∉ names → (s.world.marshal i).chunkList = []) ∧
    ∀ a, r.count a = ∑ i ∈ names, (s.world.marshal i).chunkList.countP fun c => c.data = a
  /-- an array that was made is deleted as soon as no chunk points into it -/
  deleted : ∀ a, a ∈ r.deleted ↔ base ≤ a ∧ a < s.world.heap.next ∧
    ∀ i, ∀ c ∈ (s.world.marshal i).chunkList, c.data ≠ a
  once : r.deleted.Nodup

theorem Managed.balanced {s : Proc ι} {base : Addr} {r : RefCounts Addr} (hM : s.Managed base r) :
    s.Balanced base r := by
  obtain ⟨names, hnodup, hrest, ho⟩ := hM.refs
  -- the targets are the arrays of all chunks
  have hmem : ∀ a, a ∈ s.world.targets names ↔
      ∃ i, ∃ c ∈ (s.world.marshal i).chunkList, c.data = a := by
    intro a
    rw [World.targets, List.mem_flatMap]
    constructor
    · rintro ⟨i, -, ha⟩
      exact ⟨i, List.mem_map.mp ha⟩
    · rintro ⟨i, c, hc, ha⟩
      refine ⟨i, ?_, List.mem_map.mpr ⟨c, hc, ha⟩⟩
      by_contra hi
      simp [hrest i hi] at hc
  refine ⟨⟨names.toFinset, by simpa using hrest, fun a => ?_⟩, fun a => ?_, ho.held.once⟩
  · -- an array is counted as often as a chunk points into it
    rw [ho.held.count_eq, List.sum_toFinset _ hnodup]
    change (s.world.targets names).count a = _
    rw [World.targets, List.count_flatMap]
    congr 1
    refine List.map_congr_left fun i _ => ?_
    simp only [Function.comp, Refs.targets, List.count, List.countP_map]
    exact List.countP_congr fun c _ => by simp
  · -- and deleted when none does
    rw [ho.held.deleted]
    change (base ≤ a ∧ a < s.world.heap.next) ∧ a ∉ s.world.targets names ↔ _
    rw [hmem, and_assoc]
    simp only [not_exists, not_and]

/-! ### Running a given list of operations -/

/-- Checks an operation that uses no bookmark. -/
def countedReady (s : Proc ι) : CountedOp ι → Bool
  | .call (.readFromMarshal dst src n) => dst ≠ src ∧ n ≤ s.world.contentSize src
  | .call (.setBookmark _ _) | .call (.writeBookmark _ _) => false
  | _ => true

/-- Run operations one after the other. -/
def countedRun (s : Proc ι) (r : RefCounts Addr) : List (CountedOp ι) →
    Except (Misuse Fault) (Proc ι × RefCounts Addr)
  | [] => pure (s, r)
  | op :: ops => do
    let ((s', _), r') ← if s.countedReady op then s.countedStep op r else .error .dangling
    countedRun s' r' ops

theorem steps_of_countedRun {s s' : Proc ι} {r r' : RefCounts Addr} {ops : List (CountedOp ι)}
    (hrun : s.countedRun r ops = .ok (s', r')) : ∃ tr, Steps CountedNext (s, r) tr (s', r') := by
  induction ops generalizing s r with
  | nil =>
    cases hrun
    exact ⟨[], .nil _⟩
  | cons op ops ih =>
    rw [countedRun] at hrun
    split at hrun
    case isFalse => cases hrun
    case isTrue hready =>
      -- the test of the interpreter is the condition
      have hop : s.CountedAllowed op := by
        cases op with
        | destroy i => trivial
        | call op => cases op <;> simp_all [countedReady, CountedAllowed, Allowed]
      cases hstep : s.countedStep op r with
      | error e =>
        rw [hstep] at hrun
        cases hrun
      | ok x =>
        rw [hstep] at hrun
        obtain ⟨tr, hrest⟩ := ih hrun
        exact ⟨(op, x.1.2) :: tr, .cons ⟨hop, hstep⟩ hrest⟩

end Proc

/-- **Byte arrays are managed**: whatever is done with the Marshals of a process, which may be
    destroyed at any time, no operation touches an array that is gone; every operation does what it
    does over arrays that are never freed; the count of an array is the number of chunks that point
    into it; and an array is deleted once, when no chunk points into it. -/
theorem arrays_managed {ι : Type} [DecidableEq ι] (h : Heap) (tr : List (CountedOp ι × List UInt8))
    (s : Proc ι) (r : RefCounts Addr) (hrun : Steps Proc.CountedNext (Proc.init h, .empty) tr (s, r)) :
    Steps Proc.FreeNext (Proc.init h) tr s ∧
    (∀ op, s.CountedAllowed op → ∃ s' out r', s.countedStep op r = .ok ((s', out), r') ∧
      s.perform op = .ok (s', out)) ∧
    s.Balanced h.next r := by
  have hstep : ∀ (x : Proc ι × RefCounts Addr) label x', x.1.Managed h.next x.2 →
      Proc.CountedNext x label x' → x'.1.Managed h.next x'.2 ∧ Proc.FreeNext x.1 label x'.1 := by
    -- one step returns, and does what it does without counts
    rintro ⟨s, r⟩ ⟨op, out⟩ ⟨s', r'⟩ hM ⟨hop, hcounted⟩
    obtain ⟨s₁, out₁, r₁, heq, hperform, hM'⟩ := hM.step hop
    cases heq.symm.trans hcounted
    exact ⟨hM', hop, hperform⟩
  have hM : s.Managed h.next r :=
    hrun.invariant (P := fun x : Proc ι × RefCounts Addr => x.1.Managed h.next x.2)
      (fun x label x' hM hnext => (hstep x label x' hM hnext).1) (Proc.managed_init h)
  refine ⟨?_, fun op hop => ?_, hM.balanced⟩
  · -- a run is a run without counts
    exact hrun.refine (P := fun x : Proc ι × RefCounts Addr => x.1.Managed h.next x.2) Prod.fst hstep
      (Proc.managed_init h)
  · obtain ⟨s', out, r', hcounted, hperform, -⟩ := hM.step hop
    exact ⟨s', out, r', hcounted, hperform⟩

/-- A slice of two bytes is cut off a Marshal, which is then destroyed. -/
def sliceOutlives : List (CountedOp Bool) :=
  [.call (.write true [1, 2, 3]), .call (.readFromMarshal false true 2), .destroy true]

/-- The slice keeps the array. -/
theorem arrays_managed_slice : ∃ (tr : List (CountedOp Bool × List UInt8)) (s : Proc Bool)
    (r : RefCounts Addr), Steps Proc.CountedNext (Proc.init .empty, .empty) tr (s, r) ∧
      r.count 0 = 1 ∧ r.deleted = [] ∧ s.Balanced 0 r := by
  have hrun : (match (Proc.init .empty).countedRun .empty sliceOutlives with
      | .ok (_, r) => r.count 0 == 1 && r.deleted == []
      | .error _ => false) = true := by decide +kernel
  split at hrun
  · rename_i s r heq
    rw [Bool.and_eq_true, beq_iff_eq, beq_iff_eq] at hrun
    obtain ⟨tr, hsteps⟩ := Proc.steps_of_countedRun heq
    exact ⟨tr, s, r, hsteps, hrun.1, hrun.2, (arrays_managed .empty tr s r hsteps).2.2⟩
  · cases hrun

end SimpleRpc.Rpc
