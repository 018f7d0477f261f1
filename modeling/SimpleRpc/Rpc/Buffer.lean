import Mathlib.Data.List.Nodup
import Mathlib.Data.List.GetD
import Mathlib.Logic.Function.Basic

/-!
# Shared Byte Arrays and Chunks (`rpc/buffer.h`, `rpc/buffer.cc`)

A `raw_bytes` is a reference-counted byte array; a `chunk` is a window
`[read_idx, write_idx)` into one. Several chunks of several Marshals may point into the
same array, so the arrays live in one `Heap`.

## Model

- an array is an address; `Heap.byte` gives the contents of its cells, also of those that
  `new char[size]` left uninitialised (the initial heap is arbitrary)
- the reference count keeps an array alive while a chunk points to it; the model never frees
  an array and never uses an address again
- `assert` is compiled out (`-DNDEBUG` in the default build); `verify` is not

## Main notions

- `Chunk.cells`: the heap cells a chunk still has to deliver
- `Heap.Stores`: a heap changed exactly at the given cells
-/

namespace SimpleRpc.Rpc

/-- What can stop an execution. -/
inductive Fault where
  /-- a `verify(...)` failed and aborted the process -/
  | verifyFailed
  /-- a null or dangling pointer was followed -/
  | badPointer
  /-- a loop repeats an iteration that changes nothing it tests -/
  | noProgress
  /-- a container was asked to hold a negative number of elements -/
  | lengthError
  /-- a Python exception was raised -/
  | exception
  deriving DecidableEq, Repr

/-- Follow a pointer. -/
def deref {α : Type} : Option α → Except Fault α
  | some a => .ok a
  | none => .error .badPointer

@[simp] theorem deref_some {α : Type} (a : α) : deref (some a) = .ok a := rfl

@[simp] theorem ok_bind {α β : Type} (a : α) (f : α → Except Fault β) :
    (Except.ok a >>= f) = f a := rfl

@[simp] theorem error_bind {α β : Type} (e : Fault) (f : α → Except Fault β) :
    (Except.error e >>= f) = .error e := rfl

/-- Two computations return if the first one does, and the second one on its result. -/
theorem bind_eq_ok {α β : Type} {x : Except Fault α} {f : α → Except Fault β} {b : β} :
    (x >>= f) = .ok b ↔ ∃ a, x = .ok a ∧ f a = .ok b := by
  cases x <;> simp

@[simp] theorem pure_eq_ok {α : Type} (a : α) : (pure a : Except Fault α) = .ok a := rfl

/-- `verify(cond)` -/
def verify (cond : Prop) [Decidable cond] : Except Fault Unit :=
  if cond then .ok () else .error .verifyFailed

theorem verify_of {cond : Prop} [Decidable cond] (h : cond) : verify cond = .ok () := if_pos h

/-! ## The heap of byte arrays -/

/-- The address of a `raw_bytes`. -/
abbrev Addr := Nat

/-- One `char` of a `raw_bytes`: `(a, i)` is `a->ptr[i]`. -/
abbrev Cell := Addr × Nat

/-- All `raw_bytes` objects of the process. -/
structure Heap where
  /-- `raw_bytes::size` -/
  size : Addr → Nat
  /-- contents of the arrays -/
  byte : Cell → UInt8
  /-- the next address the allocator hands out -/
  next : Addr

/-- Nothing is allocated. -/
def Heap.empty : Heap := ⟨fun _ => 0, fun _ => 0, 0⟩

/-- `raw_bytes::min_size` -/
def minSize : Nat := 8192

theorem minSize_pos : 0 < minSize := by decide

/-- The cells `a->ptr[off], ..., a->ptr[off + n - 1]`. -/
def cellsAt (a : Addr) (off n : Nat) : List Cell := (List.range' off n).map (a, ·)

@[simp] theorem cellsAt_length (a : Addr) (off n : Nat) : (cellsAt a off n).length = n := by
  simp [cellsAt]

@[simp] theorem cellsAt_zero (a : Addr) (off : Nat) : cellsAt a off 0 = [] := rfl

@[simp] theorem mem_cellsAt {a : Addr} {off n : Nat} {c : Cell} :
    c ∈ cellsAt a off n ↔ c.1 = a ∧ off ≤ c.2 ∧ c.2 < off + n := by
  obtain ⟨b, i⟩ := c
  simp only [cellsAt, List.mem_map, List.mem_range'_1, Prod.mk.injEq]
  constructor
  · rintro ⟨j, hj, rfl, rfl⟩
    exact ⟨rfl, hj⟩
  · rintro ⟨rfl, hi⟩
    exact ⟨i, hi, rfl, rfl⟩

theorem cellsAt_nodup (a : Addr) (off n : Nat) : (cellsAt a off n).Nodup :=
  List.Nodup.map (fun _ _ h => (Prod.mk.inj h).2) (List.nodup_range' ..)

theorem cellsAt_add (a : Addr) (off m n : Nat) :
    cellsAt a off (m + n) = cellsAt a off m ++ cellsAt a (off + m) n := by
  rw [cellsAt, cellsAt, cellsAt, ← List.map_append, List.range'_append_1]

theorem take_cellsAt (a : Addr) (off : Nat) {m n : Nat} (h : m ≤ n) :
    (cellsAt a off n).take m = cellsAt a off m := by
  obtain ⟨k, rfl⟩ := Nat.exists_eq_add_of_le h
  rw [cellsAt_add, List.take_append_of_le_length (by simp), List.take_of_length_le (by simp)]

theorem drop_cellsAt (a : Addr) (off : Nat) {m n : Nat} (h : m ≤ n) :
    (cellsAt a off n).drop m = cellsAt a (off + m) (n - m) := by
  obtain ⟨k, rfl⟩ := Nat.exists_eq_add_of_le h
  rw [cellsAt_add, List.drop_append_of_le_length (by simp), List.drop_of_length_le (by simp),
    List.nil_append, Nat.add_sub_cancel_left]

namespace Heap

/-- `new raw_bytes(sz)`: the array is not initialised. -/
def rawBytes (h : Heap) (sz : Nat) : Heap × Addr :=
  ({ h with size := Function.update h.size h.next (max sz minSize), next := h.next + 1 }, h.next)

/-- `memcpy(a->ptr + off, p, p.length)` -/
def memcpy (h : Heap) (a : Addr) (off : Nat) (p : List UInt8) : Heap :=
  { h with byte := fun c =>
      if c.1 = a ∧ off ≤ c.2 ∧ c.2 < off + p.length then p.getD (c.2 - off) 0 else h.byte c }

/-- `new raw_bytes(p, n)` -/
def rawBytesOf (h : Heap) (p : List UInt8) : Heap × Addr :=
  let (h, a) := h.rawBytes p.length
  (h.memcpy a 0 p, a)

/-- `*(ptr[0]) = p[0]; *(ptr[1]) = p[1]; ...` -/
def poke (h : Heap) : List Cell → List UInt8 → Heap
  | c :: cs, b :: bs => poke { h with byte := Function.update h.byte c b } cs bs
  | _, _ => h

/-! ### Effects on the heap -/

/-- `h'` is `h` with the bytes `p` stored at the cells `cs` and possibly new arrays. -/
structure Stores (h h' : Heap) (cs : List Cell) (p : List UInt8) : Prop where
  next_le : h.next ≤ h'.next
  size_eq : ∀ a < h.next, h'.size a = h.size a
  stored : cs.map h'.byte = p
  frame : ∀ c, c ∉ cs → h'.byte c = h.byte c

theorem Stores.refl (h : Heap) : h.Stores h [] [] :=
  ⟨Nat.le_refl _, fun _ _ => rfl, rfl, fun _ _ => rfl⟩

theorem Stores.trans {h h' h'' : Heap} {cs cs' : List Cell} {p p' : List UInt8}
    (h₁ : h.Stores h' cs p) (h₂ : h'.Stores h'' cs' p') (hdisj : cs.Disjoint cs') :
    h.Stores h'' (cs ++ cs') (p ++ p') where
  next_le := Nat.le_trans h₁.next_le h₂.next_le
  size_eq a ha := by
    rw [h₂.size_eq a (Nat.lt_of_lt_of_le ha h₁.next_le), h₁.size_eq a ha]
  stored := by
    rw [List.map_append, h₂.stored, ← h₁.stored]
    congr 1
    exact List.map_congr_left fun c hc => h₂.frame c fun hc' => hdisj hc hc'
  frame c hc := by
    rw [List.mem_append, not_or] at hc
    rw [h₂.frame c hc.2, h₁.frame c hc.1]

/-- Cells outside the stored ones read as before. -/
theorem Stores.map_byte {h h' : Heap} {cs ds : List Cell} {p : List UInt8} (hs : h.Stores h' cs p)
    (hdisj : cs.Disjoint ds) : ds.map h'.byte = ds.map h.byte :=
  List.map_congr_left fun c hc => hs.frame c fun hc' => hdisj hc' hc

theorem memcpy_stores (h : Heap) (a : Addr) (off : Nat) (p : List UInt8) :
    h.Stores (h.memcpy a off p) (cellsAt a off p.length) p where
  next_le := Nat.le_refl _
  size_eq _ _ := rfl
  stored := by
    apply List.ext_getElem
    · simp
    · intro i hi hi'
      have hlt : i < p.length := by simpa using hi
      simp [cellsAt, memcpy, hlt]
  frame c hc := by
    rw [mem_cellsAt] at hc
    exact if_neg hc

theorem rawBytes_stores (h : Heap) (sz : Nat) : h.Stores (h.rawBytes sz).1 [] [] where
  next_le := Nat.le_succ _
  size_eq _ ha := Function.update_of_ne (Nat.ne_of_lt ha) ..
  stored := rfl
  frame _ _ := rfl

theorem poke_sizes (h : Heap) (cs : List Cell) (p : List UInt8) :
    (h.poke cs p).size = h.size ∧ (h.poke cs p).next = h.next := by
  induction cs generalizing h p with
  | nil => exact ⟨rfl, rfl⟩
  | cons c cs ih =>
    cases p with
    | nil => exact ⟨rfl, rfl⟩
    | cons b p => exact ih _ p

theorem poke_stores (h : Heap) (cs : List Cell) (p : List UInt8) (hnd : cs.Nodup)
    (hlen : cs.length = p.length) : h.Stores (h.poke cs p) cs p := by
  induction cs generalizing h p with
  | nil =>
    obtain rfl : p = [] := List.length_eq_zero_iff.mp hlen.symm
    exact Stores.refl h
  | cons c cs ih =>
    cases p with
    | nil => simp at hlen
    | cons b p =>
      obtain ⟨hc, hnd⟩ := List.nodup_cons.mp hnd
      have hfirst : h.Stores { h with byte := Function.update h.byte c b } [c] [b] :=
        ⟨Nat.le_refl _, fun _ _ => rfl, by simp,
          fun d hd => Function.update_of_ne (fun hdc => hd (by simp [hdc])) ..⟩
      exact hfirst.trans (ih _ p hnd (by simpa using hlen)) (by simpa using hc)

end Heap

/-! ## Chunks -/

/-- `chunk`: the window `[readIdx, writeIdx)` into the array `data`. Its `next` pointer is
    kept by the queue of the Marshal. -/
structure Chunk where
  data : Addr
  readIdx : Nat
  writeIdx : Nat
  deriving DecidableEq, Repr

namespace Chunk

/-- `new chunk` -/
def new (h : Heap) : Heap × Chunk :=
  let (h, a) := h.rawBytes minSize
  (h, ⟨a, 0, 0⟩)

/-- `new chunk(p, n)` -/
def ofBytes (h : Heap) (p : List UInt8) : Heap × Chunk :=
  let (h, a) := h.rawBytesOf p
  (h, ⟨a, 0, p.length⟩)

/-- `chunk::shared_copy`: a second window into the same array. -/
def sharedCopy (c : Chunk) : Chunk := ⟨c.data, c.readIdx, c.writeIdx⟩

/-- `chunk::content_size` -/
def contentSize (c : Chunk) : Nat := c.writeIdx - c.readIdx

/-- `chunk::set_bookmark`: reserve the next cell. -/
def setBookmark (c : Chunk) : Chunk × Cell :=
  ({ c with writeIdx := c.writeIdx + 1 }, (c.data, c.writeIdx))

/-- `chunk::write`: returns the number of bytes written. -/
def write (h : Heap) (c : Chunk) (p : List UInt8) : Heap × Chunk × Nat :=
  let nWrite := min p.length (h.size c.data - c.writeIdx)
  (h.memcpy c.data c.writeIdx (p.take nWrite), { c with writeIdx := c.writeIdx + nWrite }, nWrite)

/-- The bytes `ptr[read_idx], ..., ptr[read_idx + n - 1]`. -/
def bytesAt (h : Heap) (c : Chunk) (n : Nat) : List UInt8 :=
  (cellsAt c.data c.readIdx n).map h.byte

/-- `chunk::read` -/
def read (h : Heap) (c : Chunk) (n : Nat) : Chunk × List UInt8 :=
  let nRead := min n (c.writeIdx - c.readIdx)
  ({ c with readIdx := c.readIdx + nRead }, c.bytesAt h nRead)

/-- `chunk::peek` -/
def peek (h : Heap) (c : Chunk) (n : Nat) : List UInt8 :=
  c.bytesAt h (min n (c.writeIdx - c.readIdx))

/-- `chunk::discard`: returns the number of bytes discarded. -/
def discard (c : Chunk) (n : Nat) : Chunk × Nat :=
  let nDiscard := min n (c.writeIdx - c.readIdx)
  ({ c with readIdx := c.readIdx + nDiscard }, nDiscard)

/-- `chunk::fully_written` -/
def fullyWritten (h : Heap) (c : Chunk) : Prop := c.writeIdx = h.size c.data

/-- `chunk::fully_read` -/
def fullyRead (h : Heap) (c : Chunk) : Prop := c.readIdx = h.size c.data

instance (h : Heap) (c : Chunk) : Decidable (c.fullyWritten h) :=
  inferInstanceAs (Decidable (_ = _))

instance (h : Heap) (c : Chunk) : Decidable (c.fullyRead h) :=
  inferInstanceAs (Decidable (_ = _))

/-- The largest count `read` and `write` return on Linux; it fits in an `int`. -/
def maxRwCount : Nat := 0x7ffff000

/-- `chunk::write_to_fd`: the kernel takes at most `resp` bytes. -/
def writeToFd (h : Heap) (c : Chunk) (resp : Nat) : Chunk × List UInt8 :=
  let cnt := min (min resp maxRwCount) (c.writeIdx - c.readIdx)
  ({ c with readIdx := c.readIdx + cnt }, c.bytesAt h cnt)

/-- `chunk::read_from_fd`: the kernel, which has `avail` queued, hands out at most `resp`
    bytes. Returns the bytes obtained. -/
def readFromFd (h : Heap) (c : Chunk) (avail : List UInt8) (resp : Nat) :
    Heap × Chunk × List UInt8 :=
  let cnt := min (min resp maxRwCount) (min avail.length (h.size c.data - c.writeIdx))
  (h.memcpy c.data c.writeIdx (avail.take cnt), { c with writeIdx := c.writeIdx + cnt },
    avail.take cnt)

/-- The cells a chunk still has to deliver. -/
def cells (c : Chunk) : List Cell := cellsAt c.data c.readIdx (c.writeIdx - c.readIdx)

/-- The cells behind the window that the chunk may still fill. -/
def room (h : Heap) (c : Chunk) : List Cell :=
  cellsAt c.data c.writeIdx (h.size c.data - c.writeIdx)

/-- What every queued chunk satisfies: the window lies in an allocated array and the chunk
    is not fully read. -/
structure Ok (h : Heap) (c : Chunk) : Prop where
  read_le : c.readIdx ≤ c.writeIdx
  write_le : c.writeIdx ≤ h.size c.data
  not_read : c.readIdx < h.size c.data
  alloc : c.data < h.next

theorem cells_length (c : Chunk) : c.cells.length = c.contentSize := by
  simp [cells, contentSize]

theorem Ok.not_fullyRead {h : Heap} {c : Chunk} (hc : c.Ok h) : ¬ c.fullyRead h :=
  Nat.ne_of_lt hc.not_read

theorem Ok.mono {h h' : Heap} {c : Chunk} {cs : List Cell} {p : List UInt8} (hc : c.Ok h)
    (hs : h.Stores h' cs p) : c.Ok h' := by
  have hsize := hs.size_eq c.data hc.alloc
  exact ⟨hc.read_le, hsize ▸ hc.write_le, hsize ▸ hc.not_read,
    Nat.lt_of_lt_of_le hc.alloc hs.next_le⟩

/-- Advancing `read_idx` by `n` drops the first `n` cells. -/
theorem cells_advance (c : Chunk) {n : Nat} (hn : n ≤ c.contentSize) :
    ({ c with readIdx := c.readIdx + n } : Chunk).cells = c.cells.drop n := by
  unfold contentSize at hn
  rw [cells, cells, drop_cellsAt _ _ hn]
  congr 1
  simp only
  omega

theorem bytesAt_eq (h : Heap) (c : Chunk) {n : Nat} (hn : n ≤ c.contentSize) :
    c.bytesAt h n = (c.cells.take n).map h.byte := by
  rw [bytesAt, cells, take_cellsAt _ _ (show n ≤ c.writeIdx - c.readIdx from hn)]

/-- Advancing `write_idx` by `n` appends the first `n` cells of the room. -/
theorem cells_extend {h : Heap} (c : Chunk) (hc : c.Ok h) {n : Nat}
    (hn : n ≤ h.size c.data - c.writeIdx) :
    ({ c with writeIdx := c.writeIdx + n } : Chunk).cells = c.cells ++ (c.room h).take n := by
  have hr := hc.read_le
  rw [room, take_cellsAt _ _ hn, cells, cells]
  simp only
  rw [show c.writeIdx + n - c.readIdx = (c.writeIdx - c.readIdx) + n by omega, cellsAt_add]
  congr 2
  omega

theorem room_extend {h : Heap} (c : Chunk) {n : Nat} (hn : n ≤ h.size c.data - c.writeIdx) :
    ({ c with writeIdx := c.writeIdx + n } : Chunk).room h = (c.room h).drop n := by
  rw [room, room, drop_cellsAt _ _ hn]
  congr 1
  simp only
  omega

end Chunk

end SimpleRpc.Rpc
