import SimpleRpc.Lib.Machine
import SimpleRpc.Rpc.WorldOps

/-!
# Marshal Refines a FIFO Byte Queue

Runs of arbitrary Marshal operations over a process, compared with runs of a machine that
knows nothing of chunks, arrays and pointers: a byte queue for each Marshal.

## Layers

- **Code**: `Proc.step`, the operations of `SimpleRpc.Rpc.WorldOps`
- **Queues**: `Queues.Step`, what a FIFO byte queue does
- **Refinement**: `Proc.step_queues`, one step, and `refines_queues`, whole runs

## Main results

- `refines_queues`: the representation invariant holds in every state of every run, and a run
  is a run of the queues as long as nobody fills a cell that is still queued
- `shared_tail_not_queue`: without that condition it is not; a Marshal can overwrite the bytes
  it has yet to deliver itself

## Ghost state

`taken` counts the bytes that left a Marshal, so that a bookmark can be described by the
position of its bytes in the stream.
-/

namespace SimpleRpc.Rpc

open SimpleRpc.Lib

/-! ## Operations and states -/

/-- An operation on the Marshals named by `ι`. -/
inductive Op (ι : Type) where
  | write (i : ι) (p : List UInt8)
  | read (i : ι) (n : Nat)
  | peek (i : ι) (n : Nat)
  | readFromFd (i : ι) (avail : List UInt8) (resps : List Nat)
  | writeToFd (i : ι) (resps : List Nat)
  | readFromMarshal (dst src : ι) (n : Nat)
  | setBookmark (i : ι) (n : Nat)
  | writeBookmark (k : Nat) (p : List UInt8)
  | getAndResetWriteCnt (i : ι)

/-- A bookmark, with the Marshal and the stream position it reserves. -/
structure Mark (ι : Type) where
  owner : ι
  off : Nat
  cells : Bookmark

/-- A process that uses Marshals. -/
structure Proc (ι : Type) where
  world : World ι
  taken : ι → Nat
  marks : List (Mark ι)

namespace Proc

variable {ι : Type}

/-- Only empty Marshals, over any heap. -/
def init (h : Heap) : Proc ι := ⟨.init h, fun _ => 0, []⟩

variable [DecidableEq ι]

/-- One operation; returns the bytes it hands out, sends or obtains. -/
def step (s : Proc ι) : Op ι → Except Fault (Proc ι × List UInt8)
  | .write i p => do
    let W ← s.world.write i p
    pure ({ s with world := W }, [])
  | .read i n => do
    let (W, out) ← s.world.read i n
    pure ({ s with world := W, taken := Function.update s.taken i (s.taken i + out.length) }, out)
  | .peek i n => pure (s, s.world.peek i n)
  | .readFromFd i avail resps => do
    let (W, _, got) ← s.world.readFromFd i avail resps
    pure ({ s with world := W }, got)
  | .writeToFd i resps => do
    let (W, out) ← s.world.writeToFd i resps
    pure ({ s with world := W, taken := Function.update s.taken i (s.taken i + out.length) }, out)
  | .readFromMarshal dst src n => do
    let (W, nFetch) ← s.world.readFromMarshal dst src n
    pure ({ s with world := W, taken := Function.update s.taken src (s.taken src + nFetch) }, [])
  | .setBookmark i n => do
    let (W, bm) ← s.world.setBookmark i n
    pure ({ s with world := W,
                   marks := s.marks ++ [⟨i, s.taken i + (s.world.content i).length, bm⟩] }, [])
  | .writeBookmark k p => do
    let mark ← deref s.marks[k]?
    pure ({ s with world := s.world.writeBookmark mark.cells p }, [])
  | .getAndResetWriteCnt i =>
    pure ({ s with world := (s.world.getAndResetWriteCnt i).1 }, [])

/-- What the operations ask of their callers. -/
def Allowed (s : Proc ι) : Op ι → Prop
  | .readFromMarshal dst src n => dst ≠ src ∧ n ≤ s.world.contentSize src
  | .setBookmark i _ => s.world.writeCnt i = 0
  | .writeBookmark k p => ∃ mark, s.marks[k]? = some mark ∧ p.length = mark.cells.length ∧
      s.taken mark.owner ≤ mark.off
  | _ => True

omit [DecidableEq ι] in
/-- Nobody fills a cell that is still queued. -/
def Separate (s : Proc ι) : Op ι → Prop
  | .write i _ | .readFromFd i _ _ | .readFromMarshal i _ _ | .setBookmark i _ =>
    s.world.Exclusive i
  | _ => True

/-- An operation that satisfies `G`, with what it handed out. -/
def Step (G : Proc ι → Op ι → Prop) (s : Proc ι) (label : Op ι × List UInt8) (s' : Proc ι) : Prop :=
  G s label.1 ∧ s.step label.1 = .ok (s', label.2)

end Proc

/-! ## Byte queues -/

/-- A byte queue for each Marshal, with the positions of the bookmarks. -/
structure Queues (ι : Type) where
  bytes : ι → List UInt8
  taken : ι → Nat
  /-- owner, stream position and length -/
  marks : List (ι × Nat × Nat)

namespace Queues

variable {ι : Type}

def init : Queues ι := ⟨fun _ => [], fun _ => 0, []⟩

variable [DecidableEq ι]

/-- Append to the queue `i`. -/
def push (q : Queues ι) (i : ι) (p : List UInt8) : Queues ι :=
  { q with bytes := Function.update q.bytes i (q.bytes i ++ p) }

/-- Remove the first `n` bytes of the queue `i`. -/
def pop (q : Queues ι) (i : ι) (n : Nat) : Queues ι :=
  { q with bytes := Function.update q.bytes i ((q.bytes i).drop n)
           taken := Function.update q.taken i (q.taken i + min n (q.bytes i).length) }

/-- Replace the bytes of the queue `i` from position `pos` on. -/
def patch (q : Queues ι) (i : ι) (pos : Nat) (p : List UInt8) : Queues ι :=
  { q with
    bytes := Function.update q.bytes i
      ((q.bytes i).take pos ++ p ++ (q.bytes i).drop (pos + p.length)) }

/-- What each operation does to byte queues, and what it hands out. -/
def Step (q : Queues ι) : Op ι → List UInt8 → Queues ι → Prop
  | .write i p, out, q' => out = [] ∧ q' = q.push i p
  | .read i n, out, q' => out = (q.bytes i).take n ∧ q' = q.pop i n
  | .peek i n, out, q' => out = (q.bytes i).take n ∧ q' = q
  | .readFromFd i avail _, out, q' => ∃ k, out = avail.take k ∧ q' = q.push i out
  | .writeToFd i _, out, q' => ∃ k, out = (q.bytes i).take k ∧ q' = q.pop i k
  | .readFromMarshal dst src n, out, q' =>
    out = [] ∧ q' = (q.pop src n).push dst ((q.bytes src).take n)
  | .setBookmark i n, out, q' => out = [] ∧ ∃ junk, junk.length = n ∧
      q' = { q.push i junk with marks := q.marks ++ [(i, q.taken i + (q.bytes i).length, n)] }
  | .writeBookmark k p, out, q' => out = [] ∧ ∃ i off, q.marks[k]? = some (i, off, p.length) ∧
      q' = q.patch i (off - q.taken i) p
  | .getAndResetWriteCnt _, out, q' => out = [] ∧ q' = q

/-- A labelled step of byte queues. -/
def Next (q : Queues ι) (label : Op ι × List UInt8) (q' : Queues ι) : Prop :=
  q.Step label.1 label.2 q'

end Queues

/-! ## The representation invariant -/

/-- The queue of chunks as a reader of the class would draw it. -/
structure Marshal.RepInv (h : Heap) (m : Marshal) : Prop where
  /-- `content_size_` is the number of queued bytes -/
  size : m.contentSize = (m.content h).length
  /-- `tail_` is the last chunk reached from `head_` -/
  tail_last : m.chunks.tail = m.chunks.nodes.getLast?.map Prod.fst
  tail_null : m.chunks.tail = none ↔ m.chunks.head = none
  /-- only the last chunk may be empty or have room left -/
  only_last : ∀ c ∈ m.chunkList.dropLast, 0 < c.contentSize ∧ c.fullyWritten h
  not_read : ∀ c ∈ m.chunkList, ¬ c.fullyRead h

theorem Marshal.Ok.repInv {h : Heap} {m : Marshal} (hm : m.Ok h) : m.RepInv h where
  size := hm.contentSize_eq
  tail_last := hm.rep.tail_eq
  tail_null := hm.rep.tail_eq_none
  only_last c hc := by
    have hfull : c.writeIdx = h.size c.data := hm.chunks_ok.full c hc
    have hread := (hm.chunks_ok.ok c (List.mem_of_mem_dropLast hc)).not_read
    refine ⟨?_, hfull⟩
    unfold Chunk.contentSize
    omega
  not_read c hc := (hm.chunks_ok.ok c hc).not_fullyRead

namespace Proc

variable {ι : Type} [DecidableEq ι]

/-- From well-formed Marshals every allowed operation returns and keeps them well formed. -/
theorem step_allOk {s : Proc ι} (hW : s.world.AllOk) {op : Op ι} (hop : s.Allowed op) :
    ∃ s' out, s.step op = .ok (s', out) ∧ s'.world.AllOk := by
  cases op with
  | write i p =>
    obtain ⟨h', m', new, heq, ha, -⟩ := World.write_eq hW i p
    exact ⟨_, _, by rw [step, heq]; rfl, hW.set ha.stores ha.ok⟩
  | read i n =>
    obtain ⟨m', heq, hc, -⟩ := World.read_eq hW i n
    exact ⟨_, _, by rw [step, heq]; rfl, hW.set (Heap.Stores.refl _) hc.ok⟩
  | peek i n => exact ⟨s, _, rfl, hW⟩
  | readFromFd i avail resps =>
    obtain ⟨h', m', new, k, heq, ha, -⟩ := World.readFromFd_eq hW i avail resps
    exact ⟨_, _, by rw [step, heq]; rfl, hW.set ha.stores ha.ok⟩
  | writeToFd i resps =>
    obtain ⟨m', k, heq, hc, -⟩ := World.writeToFd_eq hW i resps
    exact ⟨_, _, by rw [step, heq]; rfl, hW.set (Heap.Stores.refl _) hc.ok⟩
  | readFromMarshal dst src n =>
    obtain ⟨h', d', s', new, heq, hm, -⟩ :=
      World.readFromMarshal_eq hW dst src (World.contentSize_eq hW src ▸ hop.2)
    -- first `src` loses its front, then `dst` gets it
    have hsrc := hW.set (i := src) hm.stores hm.consumes.ok
    exact ⟨_, _, by rw [step, heq]; rfl, hsrc.set (Heap.Stores.refl _) hm.ok⟩
  | setBookmark i n =>
    obtain ⟨h', m', new, heq, ha, -⟩ := World.setBookmark_eq hW i n hop
    exact ⟨_, _, by rw [step, heq]; rfl, hW.set ha.stores ha.ok⟩
  | writeBookmark k p =>
    obtain ⟨mark, hmark, -⟩ := hop
    have hsizes := s.world.heap.poke_sizes mark.cells p
    exact ⟨{ s with world := s.world.writeBookmark mark.cells p }, [], by rw [step, hmark]; rfl,
      fun i => (hW i).of_sizes hsizes.1 hsizes.2⟩
  | getAndResetWriteCnt i => exact ⟨_, _, rfl, hW.getAndResetWriteCnt i⟩

/-! ## Refinement -/

/-- The queues a process represents. -/
def queues (s : Proc ι) : Queues ι where
  bytes := s.world.content
  taken := s.taken
  marks := s.marks.map fun mark => (mark.owner, mark.off, mark.cells.length)

/-- As long as nothing of it was consumed, a bookmark's cells are queued at its position. -/
def MarkOk (W : World ι) (taken : ι → Nat) (mark : Mark ι) : Prop :=
  taken mark.owner ≤ mark.off → ∃ pre post,
    W.cells mark.owner = pre ++ mark.cells ++ post ∧ taken mark.owner + pre.length = mark.off

/-- What holds between separate operations. -/
structure Inv (s : Proc ι) : Prop where
  ok : s.world.Ok
  marks : ∀ mark ∈ s.marks, MarkOk s.world s.taken mark

omit [DecidableEq ι] in
theorem MarkOk.append {W W' : World ι} {taken : ι → Nat} {mark : Mark ι}
    (hm : MarkOk W taken mark) (hcells : ∃ ext, W'.cells mark.owner = W.cells mark.owner ++ ext) :
    MarkOk W' taken mark := by
  intro hle
  obtain ⟨pre, post, heq, hpos⟩ := hm hle
  obtain ⟨ext, hext⟩ := hcells
  exact ⟨pre, post ++ ext, by rw [hext, heq, List.append_assoc], hpos⟩

theorem MarkOk.consume {W W' : World ι} {taken : ι → Nat} {mark : Mark ι}
    (hm : MarkOk W taken mark) {i : ι} {k : Nat} (hsame : W'.cells i = (W.cells i).drop k)
    (hother : ∀ j, j ≠ i → W'.cells j = W.cells j) :
    MarkOk W' (Function.update taken i (taken i + k)) mark := by
  intro hle
  by_cases hown : mark.owner = i
  · subst hown
    rw [Function.update_self] at hle ⊢
    obtain ⟨pre, post, heq, hpos⟩ := hm (by omega)
    refine ⟨pre.drop k, post, ?_, ?_⟩
    · rw [hsame, heq, List.append_assoc, List.drop_append_of_le_length (by omega),
        List.append_assoc]
    · rw [List.length_drop]
      omega
  · rw [Function.update_of_ne hown] at hle ⊢
    obtain ⟨pre, post, heq, hpos⟩ := hm hle
    exact ⟨pre, post, by rw [hother _ hown, heq], hpos⟩

section Steps

variable {s : Proc ι} {i : ι} {h' : Heap} {m' : Marshal} {new : List Cell} {p : List UInt8} {n : Nat}

private theorem append_step (hI : s.Inv) (hex : s.world.Exclusive i)
    (ha : Marshal.Appends s.world.heap (s.world.marshal i) h' m' new p) :
    Inv { s with world := s.world.set i h' m' } ∧
      queues { s with world := s.world.set i h' m' } = s.queues.push i p := by
  refine ⟨⟨World.append_ok hI.ok hex ha, fun mark hmark => (hI.marks mark hmark).append ?_⟩, ?_⟩
  · by_cases hown : mark.owner = i
    · exact ⟨new, by rw [hown, World.cells_set_same, ha.cells_eq]; rfl⟩
    · exact ⟨[], by rw [World.cells_set_of_ne _ hown, List.append_nil]⟩
  · simp only [queues, Queues.push, World.append_content hI.ok hex ha]

private theorem consume_step (hI : s.Inv)
    (hc : Marshal.Consumes s.world.heap (s.world.marshal i) m' n) {out : List UInt8}
    (hout : out = (s.world.content i).take n) :
    Inv { s with world := s.world.set i s.world.heap m'
                 taken := Function.update s.taken i (s.taken i + out.length) } ∧
      queues { s with world := s.world.set i s.world.heap m'
                      taken := Function.update s.taken i (s.taken i + out.length) } =
        s.queues.pop i n := by
  have hlen : out.length = min n (s.world.content i).length := by rw [hout, List.length_take]
  have hdrop : (s.world.cells i).drop n = (s.world.cells i).drop out.length := by
    rw [hlen, World.content_length]
    rcases Nat.le_total n (s.world.cells i).length with hle | hle
    · rw [Nat.min_eq_left hle]
    · rw [Nat.min_eq_right hle, List.drop_of_length_le hle, List.drop_length]
  refine ⟨⟨World.consume_ok hI.ok hc, fun mark hmark => (hI.marks mark hmark).consume ?_ ?_⟩, ?_⟩
  · rw [World.cells_set_same, hc.cells_eq, ← hdrop]
    rfl
  · exact fun j hj => World.cells_set_of_ne _ hj ..
  · simp only [queues, Queues.pop, World.consume_content hc, hlen]

/-- The source loses its first cells, then the destination gains some. -/
private theorem move_step {dst src : ι} {src' : Marshal} (hI : s.Inv) (hne : dst ≠ src)
    (hex : s.world.Exclusive dst) (hn : n ≤ (s.world.content src).length)
    (hm : Marshal.Moves s.world.heap (s.world.marshal dst) (s.world.marshal src) h' m' src' n new) :
    Inv { s with world := (s.world.set src h' src').set dst h' m'
                 taken := Function.update s.taken src (s.taken src + n) } ∧
      queues { s with world := (s.world.set src h' src').set dst h' m'
                      taken := Function.update s.taken src (s.taken src + n) } =
        (s.queues.pop src n).push dst ((s.world.content src).take n) := by
  refine ⟨⟨World.move_ok hI.ok hne (.inl hex) hm, fun mark hmark => ?_⟩, ?_⟩
  · have hsrc : MarkOk (s.world.set src h' src')
        (Function.update s.taken src (s.taken src + n)) mark :=
      (hI.marks mark hmark).consume
        (by rw [World.cells_set_same, hm.consumes.cells_eq]; rfl)
        (fun j hj => World.cells_set_of_ne _ hj ..)
    refine hsrc.append ?_
    by_cases hown : mark.owner = dst
    · refine ⟨new ++ ((s.world.cells src).drop new.length).take (n - new.length), ?_⟩
      rw [hown, World.cells_set_same, World.cells_set_of_ne _ hne, hm.cells_eq, List.append_assoc]
      rfl
    · exact ⟨[], by rw [World.cells_set_of_ne _ hown, List.append_nil]⟩
  · simp only [queues, Queues.pop, Queues.push, World.move_content hI.ok hne (.inl hex) hm,
      Nat.min_eq_left hn, Function.update_of_ne hne]

/-- The new bookmark stands at the end of the queue. -/
private theorem mark_step (hI : s.Inv) (hex : s.world.Exclusive i)
    (ha : Marshal.Appends s.world.heap (s.world.marshal i) h' m' new p) :
    Inv { s with world := s.world.set i h' m'
                 marks := s.marks ++ [⟨i, s.taken i + (s.world.content i).length, new⟩] } := by
  obtain ⟨hinv, -⟩ := append_step hI hex ha
  refine ⟨hinv.ok, fun mark hmark => ?_⟩
  rcases List.mem_append.mp hmark with hmark | hmark
  · exact hinv.marks mark hmark
  · obtain rfl := List.mem_singleton.mp hmark
    intro _
    refine ⟨s.world.cells i, [], ?_, by rw [World.content_length]⟩
    simp only [World.cells_set_same, ha.cells_eq, List.append_nil]
    rfl

private theorem splice_middle (a b c p : List UInt8) (hlen : p.length = b.length) :
    (a ++ b ++ c).take a.length ++ p ++ (a ++ b ++ c).drop (a.length + p.length) = a ++ p ++ c := by
  rw [List.append_assoc a b c, List.take_left, ← List.drop_drop, List.drop_left,
    List.drop_left' hlen.symm]

/-- A bookmark of which nothing was consumed is filled where it stands in the queue. -/
private theorem patch_step {mark : Mark ι} (hI : s.Inv) (hmark : mark ∈ s.marks)
    (hlen : p.length = mark.cells.length) (hle : s.taken mark.owner ≤ mark.off) :
    Inv { s with world := s.world.writeBookmark mark.cells p } ∧
      queues { s with world := s.world.writeBookmark mark.cells p } =
        s.queues.patch mark.owner (mark.off - s.taken mark.owner) p := by
  obtain ⟨pre, post, hcells, hpos⟩ := hI.marks mark hmark hle
  have hsizes := s.world.heap.poke_sizes mark.cells p
  have hbytes : s.world.content mark.owner = pre.map s.world.heap.byte ++
      mark.cells.map s.world.heap.byte ++ post.map s.world.heap.byte := by
    rw [World.content, Marshal.content, ← List.map_append, ← List.map_append, ← hcells]
    rfl
  have hpre : mark.off - s.taken mark.owner = (pre.map s.world.heap.byte).length := by
    rw [List.length_map]
    omega
  refine ⟨⟨⟨fun j => (hI.ok.ok j).of_sizes hsizes.1 hsizes.2, hI.ok.nodup, hI.ok.disjoint⟩,
    hI.marks⟩, ?_⟩
  have hpatch := World.patch_content hI.ok hcells hlen.symm
  simp only [queues, Queues.patch, hbytes, hpre]
  rw [World.writeBookmark, hpatch, splice_middle _ _ _ _ (by rw [List.length_map, hlen])]

end Steps

/-- **One step**: a separate operation does to the queued bytes what it does to queues. -/
theorem step_queues {s s' : Proc ι} (hI : s.Inv) {op : Op ι} {out : List UInt8}
    (hop : s.Allowed op) (hsep : s.Separate op) (hstep : s.step op = .ok (s', out)) :
    s'.Inv ∧ s.queues.Step op out s'.queues := by
  have hW := hI.ok.ok
  cases op with
  | write i p =>
    -- the bytes go behind what is queued
    obtain ⟨h', m', new, heq, ha, -⟩ := World.write_eq hW i p
    obtain ⟨hinv, hq⟩ := append_step hI hsep ha
    obtain ⟨rfl, rfl⟩ : _ = s' ∧ _ = out := by
      simpa only [step, heq, ok_bind, pure_eq_ok, Except.ok.injEq, Prod.mk.injEq] using hstep
    exact ⟨hinv, rfl, hq⟩
  | read i n =>
    -- what is read is the front
    obtain ⟨m', heq, hc, -⟩ := World.read_eq hW i n
    obtain ⟨hinv, hq⟩ := consume_step hI hc rfl
    obtain ⟨rfl, rfl⟩ : _ = s' ∧ _ = out := by
      simpa only [step, heq, ok_bind, pure_eq_ok, Except.ok.injEq, Prod.mk.injEq] using hstep
    exact ⟨hinv, rfl, hq⟩
  | peek i n =>
    obtain ⟨rfl, rfl⟩ : s = s' ∧ _ = out := by simpa [step] using hstep
    exact ⟨hI, World.peek_eq hW i n, rfl⟩
  | readFromFd i avail resps =>
    -- a short read appends what came
    obtain ⟨h', m', new, k, heq, ha, -⟩ := World.readFromFd_eq hW i avail resps
    obtain ⟨hinv, hq⟩ := append_step hI hsep ha
    obtain ⟨rfl, rfl⟩ : _ = s' ∧ _ = out := by
      simpa only [step, heq, ok_bind, pure_eq_ok, Except.ok.injEq, Prod.mk.injEq] using hstep
    exact ⟨hinv, k, rfl, hq⟩
  | writeToFd i resps =>
    -- a short write takes off what was taken
    obtain ⟨m', k, heq, hc, -⟩ := World.writeToFd_eq hW i resps
    obtain ⟨hinv, hq⟩ := consume_step hI hc rfl
    obtain ⟨rfl, rfl⟩ : _ = s' ∧ _ = out := by
      simpa only [step, heq, ok_bind, pure_eq_ok, Except.ok.injEq, Prod.mk.injEq] using hstep
    exact ⟨hinv, k, rfl, hq⟩
  | readFromMarshal dst src n =>
    obtain ⟨hne, hn⟩ := hop
    -- the size is that of the content
    rw [World.contentSize_eq hW] at hn
    obtain ⟨h', d', src', new, heq, hm, -⟩ := World.readFromMarshal_eq hW dst src hn
    obtain ⟨rfl, rfl⟩ : _ = s' ∧ _ = out := by
      simpa only [step, heq, ok_bind, pure_eq_ok, Except.ok.injEq, Prod.mk.injEq] using hstep
    obtain ⟨hinv, hq⟩ := move_step hI hne hsep hn hm
    exact ⟨hinv, rfl, hq⟩
  | setBookmark i n =>
    -- the reserved bytes are queued as they are, with a mark on them
    obtain ⟨h', m', new, heq, ha, hlen, -⟩ := World.setBookmark_eq hW i n hop
    obtain ⟨-, hq⟩ := append_step hI hsep ha
    obtain ⟨rfl, rfl⟩ : _ = s' ∧ _ = out := by
      simpa only [step, heq, ok_bind, pure_eq_ok, Except.ok.injEq, Prod.mk.injEq] using hstep
    refine ⟨mark_step hI hsep ha, rfl, new.map h'.byte, by simp [hlen], ?_⟩
    simp only [queues, Queues.push, Queues.mk.injEq] at hq ⊢
    exact ⟨hq.1, trivial, by simp [hlen]⟩
  | writeBookmark k p =>
    obtain ⟨mark, hmark, hlen, hle⟩ := hop
    obtain ⟨rfl, rfl⟩ : _ = s' ∧ _ = out := by
      simpa only [step, hmark, deref_some, ok_bind, pure_eq_ok, Except.ok.injEq, Prod.mk.injEq]
        using hstep
    -- the bytes under the mark are replaced
    obtain ⟨hinv, hq⟩ := patch_step hI (List.mem_of_getElem? hmark) hlen hle
    exact ⟨hinv, rfl, mark.owner, mark.off, by simp [queues, hmark, hlen], hq⟩
  | getAndResetWriteCnt i =>
    obtain ⟨rfl, rfl⟩ : _ = s' ∧ _ = out := by
      simpa only [step, pure_eq_ok, Except.ok.injEq, Prod.mk.injEq] using hstep
    -- the count is no part of the queue
    obtain ⟨hinv, hq⟩ := consume_step hI (Marshal.getAndResetWriteCnt_spec (hW i)) List.take_zero.symm
    simp only [List.length_nil, Nat.add_zero, Function.update_eq_self] at hinv hq
    refine ⟨hinv, rfl, hq.trans ?_⟩
    simp [Queues.pop]

omit [DecidableEq ι] in
theorem inv_init (h : Heap) : (init h : Proc ι).Inv := ⟨World.ok_init h, by simp [init]⟩

/-- **Refinement**: in every run of operations called as they ask, every Marshal satisfies the
    representation invariant and no operation faults; and as long as no operation fills a cell
    that is still queued, the run is a run of byte queues. -/
theorem refines_queues (h : Heap) :
    (∀ tr (s : Proc ι), Steps (Step Allowed) (init h) tr s →
      (∀ i, (s.world.marshal i).RepInv s.world.heap) ∧
      ∀ op, s.Allowed op → ∃ s' out, s.step op = .ok (s', out)) ∧
    (∀ tr (s : Proc ι), Steps (Step fun s op => s.Allowed op ∧ s.Separate op) (init h) tr s →
      Steps Queues.Next Queues.init tr s.queues) := by
  refine ⟨fun tr s hrun => ?_, fun tr s hrun => ?_⟩
  · have hW : s.world.AllOk := by
      refine Steps.invariant (P := fun s => s.world.AllOk) (fun s₀ a s₁ hW hstep => ?_) hrun
        (World.allOk_init h)
      obtain ⟨s', out, heq, hok⟩ := step_allOk hW hstep.1
      obtain ⟨rfl, -⟩ : s' = s₁ ∧ out = a.2 := by simpa [heq] using hstep.2
      exact hok
    refine ⟨fun i => (hW i).repInv, fun op hop => ?_⟩
    obtain ⟨s', out, heq, -⟩ := step_allOk hW hop
    exact ⟨s', out, heq⟩
  · refine Steps.refine (P := Inv) queues (fun s₀ a s₁ hI hstep => ?_) hrun (inv_init h)
    exact step_queues hI hstep.1.1 hstep.1.2 hstep.2

/-! ### Running a given list of operations -/

/-- The state after an operation that does not fault. -/
def next (s : Proc ι) (op : Op ι) : Proc ι × List UInt8 :=
  match s.step op with
  | .ok r => r
  | .error _ => (s, [])

/-- Run operations one after the other; returns what each handed out. -/
def exec (s : Proc ι) : List (Op ι) → Proc ι × List (List UInt8)
  | [] => (s, [])
  | op :: ops => ((exec (s.next op).1 ops).1, (s.next op).2 :: (exec (s.next op).1 ops).2)

/-- Every operation is allowed where it is run, and returns. -/
def Returns (s : Proc ι) : List (Op ι) → Prop
  | [] => True
  | op :: ops => s.Allowed op ∧ (s.step op).isOk ∧ (s.next op).1.Returns ops

theorem step_next {s : Proc ι} {op : Op ι} (h : (s.step op).isOk) :
    s.step op = .ok ((s.next op).1, (s.next op).2) := by
  unfold next
  cases hs : s.step op with
  | ok r => rfl
  | error e => simp [hs, Except.isOk, Except.toBool] at h

theorem run_exec {s : Proc ι} {ops : List (Op ι)} (h : s.Returns ops) :
    Steps (Step Allowed) s (ops.zip (s.exec ops).2) (s.exec ops).1 := by
  induction ops generalizing s with
  | nil => exact .nil s
  | cons op ops ih => exact .cons ⟨h.1, step_next h.2.1⟩ (ih h.2.2)

end Proc

/-! ## Why separation is needed -/

/-- A full chunk is cut in two; both halves are moved into a third Marshal, the first half
    last. Its tail then has room that is its own head. -/
def sharedTailOps : List (Op (Fin 3)) :=
  [.write 0 (List.replicate 8192 0), .readFromMarshal 1 0 1, .readFromMarshal 2 0 8191,
    .readFromMarshal 2 1 1, .write 2 [7], .read 2 1]

/-- Over this run a Marshal is no byte queue: the 7 written last is read first. -/
theorem shared_tail_not_queue : ∃ tr s,
    Steps (Proc.Step Proc.Allowed) (Proc.init .empty : Proc (Fin 3)) tr s ∧
      ¬ Steps Queues.Next Queues.init tr s.queues := by
  -- one evaluation for all of the run
  have hrun : ((Proc.init .empty).exec sharedTailOps).2 = [[], [], [], [], [], [7]] ∧
      Proc.Returns (Proc.init .empty) sharedTailOps := by
    simp only [Proc.Returns, sharedTailOps, Proc.Allowed]
    decide +kernel
  obtain ⟨houts, hreturns⟩ := hrun
  refine ⟨_, _, Proc.run_exec hreturns, ?_⟩
  · rw [houts]
    rintro (_ | ⟨⟨-, rfl⟩, _ | ⟨⟨-, rfl⟩, _ | ⟨⟨-, rfl⟩, _ | ⟨⟨-, rfl⟩, _ | ⟨⟨-, rfl⟩, hlast⟩⟩⟩⟩⟩)
    cases hlast with
    | cons hread => exact absurd hread.1 (by decide +kernel)

end SimpleRpc.Rpc
