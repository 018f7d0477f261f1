import SimpleRpc.Lib.Machine
import SimpleRpc.Rpc.Message

/-!
# The Sending Half of a Connection

`Client` and `ServerTcpConnection` send in the same way: `begin_request` and `begin_reply` take
`out_l_`, reserve four bytes in `out_` and write a header, any number of values follow, and
`end_request` and `end_reply` fill the reserved bytes with the number of bytes written since
and release the lock. `handle_write` takes the lock for one `write_to_fd`.

## Layers

- **Code**: `Sender.beginRequest`, `Sender.beginReply`, `Sender.put`,
  `Sender.writeMarshal`, `Sender.endMessage`, `Sender.handleWrite`
- **System**: `Sender.step`, any interleaving of these by any threads, and of operations on the
  other Marshals of the process
- **Invariant**: `Sender.Inv`, what was sent and what is queued are whole messages, followed by
  the message of the thread that holds the lock

## Main results

- `Sender.Inv.step`: one step returns and preserves the invariant
- `whole_frames`: what was sent is a prefix of the complete messages, in lock order

## Model

The connection is open, so that the tests of `status_` succeed. What `pollmgr_` is told is left
out.

Other Marshals are used as `marshal.h` describes: those in `writers` are filled by their owner
only, the others hold slices and are only read. A Marshal leaves `writers` when a slice is cut
into it or when it was moved to another one.
-/

namespace SimpleRpc.Rpc

open SimpleRpc.Lib SimpleRpc.Base

/-- `out_`, `out_l_` and `bmark_` of a connection, in a process whose Marshals are named by `ι`
    and whose threads are named by `τ`. -/
structure Sender (ι τ : Type) where
  world : World ι
  /-- who holds `out_l_` -/
  holder : Option τ
  bmark : Option Bookmark
  /-- ghost: the Marshals that are filled by their owner only -/
  writers : Set ι
  /-- ghost: everything the socket accepted -/
  sent : List UInt8
  /-- ghost: the threads that took the lock for a message -/
  begun : List τ
  /-- ghost: the complete messages, each with its thread -/
  done : List (τ × List UInt8)
  /-- ghost: the payload of the message that is being written -/
  current : List UInt8

namespace Sender

variable {ι τ : Type}

/-- Nothing was sent yet. -/
def init (h : Heap) (writers : Set ι) : Sender ι τ :=
  ⟨.init h, none, none, writers, [], [], [], []⟩

variable [DecidableEq ι]

/-! ## The operations -/

/-- A thread holds the lock, has reserved the size field and written `header`. -/
def started (s : Sender ι τ) (t : τ) (W : World ι) (bm : Bookmark) (header : List UInt8) :
    Sender ι τ :=
  { s with world := W, holder := some t, bmark := some bm, begun := s.begun ++ [t]
           current := header }

/-- The common part of `begin_request` and `begin_reply`: the lock is taken, the size field
    reserved and the header written. -/
def beginMessage (out : ι) (s : Sender ι τ) (t : τ) (header : Value) :
    Except Fault (Sender ι τ) := do
  let (W, bm) ← s.world.setBookmark out 4
  let ((), W) ← W.run out header.put
  pure (s.started t W bm header.bytes)

/-- `bmark_ = out_.set_bookmark(sizeof(i32));` by the thread that holds the lock -/
def mark (out : ι) (s : Sender ι τ) (t : τ) : Except Fault (Sender ι τ) := do
  let (W, bm) ← s.world.setBookmark out 4
  pure (s.started t W bm [])

/-- `*this << v` -/
def put (out : ι) (s : Sender ι τ) (v : Value) : Except Fault (Sender ι τ) := do
  let ((), W) ← s.world.run out v.put
  pure { s with world := W, current := s.current ++ v.bytes }

/-- `write_marshal(m_j)` of a server connection, `*this << m_j` of a client -/
def writeMarshal (out : ι) (s : Sender ι τ) (j : ι) : Except Fault (Sender ι τ) := do
  let (W, _) ← s.world.readFromMarshal out j (s.world.contentSize j)
  pure { s with world := W, writers := s.writers \ {j}
                current := s.current ++ s.world.content j }

/-- `end_request()` and `end_reply()` -/
def endMessage (out : ι) (s : Sender ι τ) (t : τ) : Sender ι τ :=
  let W := match s.bmark with
    | some bm =>
      let (W, size) := s.world.getAndResetWriteCnt out
      W.writeBookmark bm (leBytes 4 size.toUInt32.toNat)
    | none => s.world
  { s with world := W, bmark := none, holder := none, done := s.done ++ [(t, s.current)],
           current := [] }

/-- `handle_write()` -/
def handleWrite (out : ι) (s : Sender ι τ) (resps : List Nat) : Except Fault (Sender ι τ) := do
  let (W, bytes) ← s.world.writeToFd out resps
  pure { s with world := W, sent := s.sent ++ bytes }

end Sender

/-- The header of a request: `<xid> <rpc_id>`. -/
def requestHeader (buf : List UInt8) (xid : Int64) (rpcId : Int32) : Value :=
  (Value.v64 buf xid).andThen (Value.i32 rpcId)

/-- The header of a reply: `<xid> <error_code>`. -/
def replyHeader (buf buf' : List UInt8) (xid : Int64) (errorCode : Int32) : Value :=
  (Value.v64 buf xid).andThen (Value.v32 buf' errorCode)

section Begin

variable {ι τ : Type} [DecidableEq ι]

/-- `Client::begin_request`, once the Future has its `xid`; `buf` is what the local array of the
    `v64` operator held. -/
def Sender.beginRequest (out : ι) (s : Sender ι τ) (t : τ) (buf : List UInt8) (xid : Int64)
    (rpcId : Int32) : Except Fault (Sender ι τ) :=
  s.beginMessage out t (requestHeader buf xid rpcId)

/-- `ServerTcpConnection::begin_reply` -/
def Sender.beginReply (out : ι) (s : Sender ι τ) (t : τ) (buf buf' : List UInt8)
    (xid : Int64) (errorCode : Int32) : Except Fault (Sender ι τ) :=
  s.beginMessage out t (replyHeader buf buf' xid errorCode)

end Begin

/-! ## The other Marshals of the process -/

namespace World

variable {ι : Type} [DecidableEq ι] {W W' : World ι} {ws : Set ι} {i j k : ι}

/-- The Marshal `i` is the same object with the same bytes. -/
structure Untouched (W W' : World ι) (i : ι) : Prop where
  marshal_eq : W'.marshal i = W.marshal i
  content_eq : W'.content i = W.content i

theorem Updates.untouched {bytes : List UInt8} {cnt : Int32} (hu : Updates W W' ws i bytes cnt)
    (hji : j ≠ i) : Untouched W W' j :=
  ⟨hu.others j hji, hu.content_of_ne hji⟩

theorem Transfers.untouched {n : Nat} (ht : Transfers W W' ws i j n) (hki : k ≠ i) (hkj : k ≠ j) :
    Untouched W W' k :=
  ⟨ht.others k hki hkj, by
    rw [ht.content_eq, Function.update_of_ne hki, Function.update_of_ne hkj]⟩

omit [DecidableEq ι] in
theorem Untouched.trans {W'' : World ι} (h : Untouched W W' i) (h' : Untouched W' W'' i) :
    Untouched W W'' i :=
  ⟨h'.marshal_eq.trans h.marshal_eq, h'.content_eq.trans h.content_eq⟩

omit [DecidableEq ι] in
theorem Fresh.untouched (hf : W.Fresh i) (h : Untouched W W' i) : W'.Fresh i := by
  rw [Fresh, h.marshal_eq]
  exact hf

end World

/-- An operation on Marshals that somebody owns. -/
inductive OwnOp (ι : Type) where
  | write (i : ι) (v : Value)
  | read (i : ι) (n : Nat)
  | readFromFd (i : ι) (avail : List UInt8) (resps : List Nat)
  | writeToFd (i : ι) (resps : List Nat)
  | cut (i j : ι) (n : Nat)
  | move (i j : ι)
  | setBookmark (i : ι) (n : Nat)
  | writeBookmark (i : ι) (bm : Bookmark) (p : List UInt8)
  | getAndResetWriteCnt (i : ι)

namespace OwnOp

variable {ι : Type}

/-- The Marshals an operation is about. -/
def names : OwnOp ι → List ι
  | .write i _ | .read i _ | .readFromFd i _ _ | .writeToFd i _ | .setBookmark i _
  | .writeBookmark i _ _ | .getAndResetWriteCnt i => [i]
  | .cut i j _ | .move i j => [i, j]

/-- The documented uses of a Marshal. -/
def Allowed (W : World ι) (ws : Set ι) : OwnOp ι → Prop
  | .write i _ | .readFromFd i _ _ => i ∈ ws
  | .read _ _ | .writeToFd _ _ | .getAndResetWriteCnt _ => True
  | .cut i j n => i ≠ j ∧ W.Fresh i ∧ n ≤ W.contentSize j
  | .move i j => i ∈ ws ∧ j ∈ ws ∧ i ≠ j
  | .setBookmark i _ => i ∈ ws ∧ W.writeCnt i = 0
  | .writeBookmark i bm p => bm.length = p.length ∧ ∃ pre post, W.cells i = pre ++ bm ++ post

variable [DecidableEq ι]

/-- The world and the writers after an operation. -/
def step (W : World ι) (ws : Set ι) : OwnOp ι → Except Fault (World ι × Set ι)
  | .write i v => do
    let ((), W) ← W.run i v.put
    pure (W, ws)
  | .read i n => do
    let (W, _) ← W.read i n
    pure (W, ws)
  | .readFromFd i avail resps => do
    let (W, _) ← W.readFromFd i avail resps
    pure (W, ws)
  | .writeToFd i resps => do
    let (W, _) ← W.writeToFd i resps
    pure (W, ws)
  | .cut i j n => do
    let (W, _) ← W.readFromMarshal i j n
    pure (W, ws \ {i})
  | .move i j => do
    let (W, _) ← W.readFromMarshal i j (W.contentSize j)
    pure (W, ws \ {j})
  | .setBookmark i n => do
    let (W, _) ← W.setBookmark i n
    pure (W, ws)
  | .writeBookmark _ bm p => pure (W.writeBookmark bm p, ws)
  | .getAndResetWriteCnt i => pure ((W.getAndResetWriteCnt i).1, ws)

/-- What an operation does to the Marshals it is not about: nothing. -/
structure Spares (op : OwnOp ι) (W : World ι) (ws : Set ι) (W' : World ι) (ws' : Set ι) :
    Prop where
  inv : W'.Inv ws'
  writers : ∀ k, k ∉ op.names → k ∈ ws → k ∈ ws'
  writers_sub : ws' ⊆ ws
  untouched : ∀ k, k ∉ op.names → World.Untouched W W' k

private theorem spares_of_updates {op : OwnOp ι} {W W' : World ι} {ws : Set ι} {i : ι}
    {bytes : List UInt8} {cnt : Int32} (hnames : op.names = [i])
    (hu : World.Updates W W' ws i bytes cnt) : op.Spares W ws W' ws :=
  ⟨hu.inv, fun _ _ hk => hk, subset_rfl, fun _ hk => hu.untouched (by simpa [hnames] using hk)⟩

private theorem spares_of_transfers {op : OwnOp ι} {W W' : World ι} {ws : Set ι} {i j l : ι}
    {n : Nat} (hnames : op.names = [i, j]) (hl : l ∈ [i, j])
    (ht : World.Transfers W W' (ws \ {l}) i j n) : op.Spares W ws W' (ws \ {l}) := by
  refine ⟨ht.inv, fun k hk hmem => ⟨hmem, ?_⟩, Set.sdiff_subset, fun k hk => ?_⟩
  · rintro rfl
    exact hk (hnames ▸ hl)
  · rw [hnames] at hk
    exact ht.untouched (fun h => hk (by simp [h])) (fun h => hk (by simp [h]))

/-- Operations used as documented return. -/
theorem step_spares {W : World ι} {ws : Set ι} (hI : W.Inv ws) {op : OwnOp ι}
    (hop : op.Allowed W ws) : ∃ W' ws', op.step W ws = .ok (W', ws') ∧ op.Spares W ws W' ws' := by
  -- `i` grows at its end
  cases op with
  | write i v =>
    obtain ⟨W', new, heq, -, hu⟩ := hI.puts hop v.puts
    exact ⟨W', ws, by rw [step, heq]; rfl, spares_of_updates rfl hu⟩
  | read i n =>
    obtain ⟨W', heq, hu⟩ := hI.read i n
    exact ⟨W', ws, by rw [step, heq]; rfl, spares_of_updates rfl hu⟩
  | readFromFd i avail resps =>
    obtain ⟨W', k, heq, -, hu⟩ := hI.readFromFd hop avail resps
    exact ⟨W', ws, by rw [step, heq]; rfl, spares_of_updates rfl hu⟩
  | writeToFd i resps =>
    obtain ⟨W', k, heq, -, hu⟩ := hI.writeToFd i resps
    exact ⟨W', ws, by rw [step, heq]; rfl, spares_of_updates rfl hu⟩
  | cut i j n =>
    -- the slice must not be written afterwards
    obtain ⟨hij, hfresh, hn⟩ := hop
    rw [World.contentSize_eq hI.ok.ok] at hn
    obtain ⟨W', heq, ht⟩ := hI.cut hij hfresh hn
    exact ⟨W', ws \ {i}, by rw [step, heq]; rfl, spares_of_transfers rfl (by simp) ht⟩
  | move i j =>
    -- the moved Marshal must not be written afterwards
    obtain ⟨hi, hj, hij⟩ := hop
    obtain ⟨W', heq, ht⟩ := hI.moveWhole hi hj hij
    exact ⟨W', ws \ {j}, by rw [step, heq]; rfl, spares_of_transfers rfl (by simp) ht⟩
  | setBookmark i n =>
    obtain ⟨W', bm, junk, heq, -, -, -, hu⟩ := hI.setBookmark hop.1 hop.2 n
    exact ⟨W', ws, by rw [step, heq]; rfl, spares_of_updates rfl hu⟩
  | writeBookmark i bm p =>
    -- only the bytes of the reserved cells change
    obtain ⟨hlen, pre, post, hcells⟩ := hop
    refine ⟨W.writeBookmark bm p, ws, rfl, hI.writeBookmark_inv hcells hlen, fun _ _ hk => hk,
      subset_rfl, fun k hk => ⟨rfl, ?_⟩⟩
    rw [World.writeBookmark, World.patch_content hI.ok hcells hlen,
      Function.update_of_ne (by simpa [names] using hk)]
  | getAndResetWriteCnt i =>
    exact ⟨_, ws, rfl, spares_of_updates rfl (hI.getAndResetWriteCnt i)⟩

end OwnOp

/-! ## The system -/

/-- The header fields of a message. -/
inductive Header where
  | request (buf : List UInt8) (xid : Int64) (rpcId : Int32)
  | reply (buf buf' : List UInt8) (xid : Int64) (errorCode : Int32)

/-- The value `begin_request` or `begin_reply` writes. -/
def Header.value : Header → Value
  | .request buf xid rpcId => requestHeader buf xid rpcId
  | .reply buf buf' xid errorCode => replyHeader buf buf' xid errorCode

/-- A step of a thread, of the poll thread, or of the rest of the process. -/
inductive SendOp (ι τ : Type) where
  | begin (t : τ) (header : Header)
  | put (t : τ) (v : Value)
  | writeMarshal (t : τ) (j : ι)
  | endMessage (t : τ)
  | handleWrite (resps : List Nat)
  | own (op : OwnOp ι)

namespace SendOp

variable {ι τ : Type}

/-- The Marshals a step is about, besides `out_`. -/
def names : SendOp ι τ → List ι
  | .writeMarshal _ j => [j]
  | .own op => op.names
  | _ => []

/-- Who holds the lock after a step. -/
def holder (old : Option τ) : SendOp ι τ → Option τ
  | .begin t _ => some t
  | .endMessage _ => none
  | _ => old

/-- The payload of the message in progress after a step. -/
def current (W : World ι) (old : List UInt8) : SendOp ι τ → List UInt8
  | .begin _ header => header.value.bytes
  | .put _ v => old ++ v.bytes
  | .writeMarshal _ j => old ++ W.content j
  | .endMessage _ => []
  | _ => old

/-- The message that a step completes. -/
def finished (current : List UInt8) : SendOp ι τ → List (τ × List UInt8)
  | .endMessage t => [(t, current)]
  | _ => []

end SendOp

namespace Sender

variable {ι τ : Type} [DecidableEq ι]

/-- One step. -/
def step (out : ι) (s : Sender ι τ) : SendOp ι τ → Except Fault (Sender ι τ)
  | .begin t (.request buf xid rpcId) => Sender.beginRequest out s t buf xid rpcId
  | .begin t (.reply buf buf' xid errorCode) =>
    Sender.beginReply out s t buf buf' xid errorCode
  | .put _ v => s.put out v
  | .writeMarshal _ j => s.writeMarshal out j
  | .endMessage t => pure (s.endMessage out t)
  | .handleWrite resps => s.handleWrite out resps
  | .own op => do
    let (W, ws) ← op.step s.world s.writers
    pure { s with world := W, writers := ws }

omit [DecidableEq ι] in
/-- Whoever writes to `out_` holds the lock; a Marshal that is moved into it was filled by its
    owner only. -/
def Allowed (out : ι) (s : Sender ι τ) : SendOp ι τ → Prop
  | .begin _ _ | .handleWrite _ => s.holder = none
  | .put t _ | .endMessage t => s.holder = some t
  | .writeMarshal t j => s.holder = some t ∧ j ∈ s.writers ∧ j ≠ out
  | .own op => op.Allowed s.world s.writers ∧ out ∉ op.names

/-- An allowed step. -/
def Next (out : ι) (s : Sender ι τ) (op : SendOp ι τ) (s' : Sender ι τ) : Prop :=
  s.Allowed out op ∧ s.step out op = .ok s'

/-! ## The invariant -/

omit [DecidableEq ι] in
/-- The bytes of complete messages. -/
def wire (done : List (τ × List UInt8)) : List UInt8 := done.flatMap fun msg => frame msg.2

omit [DecidableEq ι] in
/-- The thread that holds the lock has reserved `bm` and written `post` behind it. -/
def Writing (out : ι) (s : Sender ι τ) : Prop :=
  ∃ bm pre post, s.bmark = some bm ∧ bm.length = 4 ∧ s.world.cells out = pre ++ bm ++ post ∧
    s.sent ++ pre.map s.world.heap.byte = wire s.done ∧ post.map s.world.heap.byte = s.current ∧
    s.world.writeCnt out = Int32.ofNat s.current.length

omit [DecidableEq ι] in
/-- `out_` is at the end of a message. -/
def Between (out : ι) (s : Sender ι τ) : Prop :=
  s.bmark = none ∧ s.world.writeCnt out = 0 ∧ s.sent ++ s.world.content out = wire s.done

omit [DecidableEq ι] in
structure Inv (out : ι) (s : Sender ι τ) : Prop where
  world : s.world.Inv s.writers
  out_mem : out ∈ s.writers
  free : s.holder = none → s.Between out
  held : ∀ t, s.holder = some t → s.Writing out
  order : s.begun = s.done.map Prod.fst ++ s.holder.toList

omit [DecidableEq ι] in
theorem inv_init {out : ι} (h : Heap) {writers : Set ι} (hout : out ∈ writers) :
    (init h writers : Sender ι τ).Inv out where
  world := World.inv_init h writers
  out_mem := hout
  free _ := ⟨rfl, rfl, rfl⟩
  held _ ht := nomatch ht
  order := rfl

omit [DecidableEq ι] in
/-- While `out_` only grows, what was written stays where it is. -/
theorem Writing.grow {out : ι} {s : Sender ι τ} (hw : s.Writing out) {W' : World ι}
    {new : List Cell} {p : List UInt8} (hcells : W'.cells out = s.world.cells out ++ new)
    (hcontent : W'.content out = s.world.content out ++ p)
    (hcnt : W'.writeCnt out = s.world.writeCnt out + Int32.ofNat p.length) (ws : Set ι) :
    Writing out { s with world := W', writers := ws, current := s.current ++ p } := by
  obtain ⟨bm, pre, post, hbm, hlen, hsplit, hsent, hpost, hwcnt⟩ := hw
  have hbytes : (pre ++ bm ++ post ++ new).map W'.heap.byte =
      (pre ++ bm ++ post).map s.world.heap.byte ++ p := by
    rw [← hsplit, ← hcells]
    exact hcontent
  simp only [List.map_append, List.append_assoc] at hbytes
  -- compare piece by piece
  obtain ⟨hpre', hbytes⟩ := List.append_inj hbytes (by simp)
  obtain ⟨-, hbytes⟩ := List.append_inj hbytes (by simp)
  obtain ⟨hpost', hnew⟩ := List.append_inj hbytes (by simp)
  refine ⟨bm, pre, post ++ new, hbm, hlen, ?_, ?_, ?_, ?_⟩
  · simp only [hcells, hsplit, List.append_assoc]
  · simp only [hpre', hsent]
  · simp only [List.map_append, hpost', hpost, hnew]
  · simp only [hcnt, hwcnt, List.length_append, Int32.ofNat_add]

omit [DecidableEq ι] in
/-- Whatever leaves `out_` alone preserves the invariant. -/
theorem Inv.untouched {out : ι} {s : Sender ι τ} (hI : s.Inv out) {W' : World ι} {ws : Set ι}
    (hinv : W'.Inv ws) (hout : out ∈ ws) (hu : World.Untouched s.world W' out) :
    Inv out { s with world := W', writers := ws } where
  world := hinv
  out_mem := hout
  free hfree := by
    obtain ⟨hbm, hcnt, hbytes⟩ := hI.free hfree
    refine ⟨hbm, ?_, ?_⟩
    · rw [← hcnt, World.writeCnt, hu.marshal_eq, World.writeCnt]
    · rw [← hbytes, hu.content_eq]
  held t ht := by
    have hcells : W'.cells out = s.world.cells out ++ [] := by
      rw [List.append_nil, World.cells, hu.marshal_eq, World.cells]
    have hcontent : W'.content out = s.world.content out ++ [] := by
      rw [List.append_nil, hu.content_eq]
    have hcnt : W'.writeCnt out = s.world.writeCnt out + Int32.ofNat ([] : List UInt8).length := by
      simp [World.writeCnt, hu.marshal_eq]
    simpa using (hI.held t ht).grow hcells hcontent hcnt ws
  order := hI.order

/-- What a step does: the rest of the process keeps its Marshals, the lock changes hands and a
    message may become complete. -/
structure Effect (out : ι) (s : Sender ι τ) (op : SendOp ι τ) (s' : Sender ι τ) : Prop where
  inv : s'.Inv out
  untouched : ∀ k, k ≠ out → k ∉ op.names → World.Untouched s.world s'.world k
  writers : ∀ k, k ∉ op.names → k ∈ s.writers → k ∈ s'.writers
  writers_sub : s'.writers ⊆ s.writers
  holder : s'.holder = op.holder s.holder
  current : s'.current = op.current s.world s.current
  done : s'.done = s.done ++ op.finished s.current
  sent : s.sent <+: s'.sent

section Steps

variable {out : ι} {s : Sender ι τ} (hI : s.Inv out)

include hI

theorem Inv.mark (hfree : s.holder = none) (t : τ) :
    ∃ W' bm, s.world.setBookmark out 4 = .ok (W', bm) ∧ Inv out (s.started t W' bm []) ∧
      ∀ j, j ≠ out → World.Untouched s.world W' j := by
  obtain ⟨hbmark, hcnt, hbytes⟩ := hI.free hfree
  obtain ⟨W', bm, junk, heq, hbm, hjunk, hcells, hu⟩ := hI.world.setBookmark hI.out_mem hcnt 4
  refine ⟨W', bm, heq, ⟨hu.inv, hI.out_mem, ?_, ?_, ?_⟩, fun j hj => hu.untouched hj⟩
  · rintro ⟨⟩
  · rintro _ -
    refine ⟨bm, s.world.cells out, [], rfl, hbm, ?_, ?_, rfl, hu.cnt_eq⟩
    · rw [List.append_nil]
      exact hcells
    · -- the bytes in front of the reserved ones stay
      have hpre : (s.world.cells out ++ bm).map W'.heap.byte = s.world.content out ++ junk := by
        rw [← hcells]
        exact hu.content_same
      rw [List.map_append] at hpre
      have hpre := (List.append_inj hpre (by rw [List.length_map, World.content_length])).1
      simp only [started, hpre, hbytes]
  · simp [started, hI.order, hfree]

theorem Inv.put {t : τ} (hheld : s.holder = some t) (v : Value) :
    ∃ W', s.put out v = .ok { s with world := W', current := s.current ++ v.bytes } ∧
      Inv out { s with world := W', current := s.current ++ v.bytes } ∧
      ∀ j, j ≠ out → World.Untouched s.world W' j := by
  obtain ⟨W', new, heq, hcells, hu⟩ := hI.world.puts hI.out_mem v.puts
  refine ⟨W', ?_, ⟨hu.inv, hI.out_mem, ?_, ?_, hI.order⟩, fun j hj => hu.untouched hj⟩
  · simp only [Sender.put, heq, ok_bind, pure_eq_ok]
  · intro hfree
    simp [hheld] at hfree
  · intro t' ht'
    exact (hI.held t' ht').grow hcells hu.content_same hu.cnt_eq s.writers

theorem Inv.beginMessage (hfree : s.holder = none) (t : τ) (header : Value) :
    ∃ W' bm, s.beginMessage out t header = .ok (s.started t W' bm header.bytes) ∧
      Inv out (s.started t W' bm header.bytes) ∧
      ∀ j, j ≠ out → World.Untouched s.world W' j := by
  obtain ⟨W₁, bm, heq₁, hI₁, hu₁⟩ := hI.mark hfree t
  obtain ⟨W₂, heq₂, hI₂, hu₂⟩ := hI₁.put rfl header
  refine ⟨W₂, bm, ?_, hI₂, fun j hj => (hu₁ j hj).trans (hu₂ j hj)⟩
  obtain ⟨⟨_, W⟩, hrun, hret⟩ := bind_eq_ok.mp heq₂
  obtain rfl : W = W₂ := congrArg Sender.world (Except.ok.inj hret)
  have hrun : W₁.run out header.put = .ok ((), W) := hrun
  simp only [Sender.beginMessage, heq₁, hrun, ok_bind, pure_eq_ok]

theorem Inv.writeMarshal {t : τ} (hheld : s.holder = some t) {j : ι} (hj : j ∈ s.writers)
    (hjo : j ≠ out) :
    ∃ W', s.writeMarshal out j = .ok { s with world := W', writers := s.writers \ {j}
                                              current := s.current ++ s.world.content j } ∧
      Inv out { s with world := W', writers := s.writers \ {j}
                       current := s.current ++ s.world.content j } ∧
      ∀ k, k ≠ out → k ≠ j → World.Untouched s.world W' k := by
  obtain ⟨W', heq, ht⟩ := hI.world.moveWhole hI.out_mem hj (Ne.symm hjo)
  have hlen := World.contentSize_eq hI.world.ok.ok j
  refine ⟨W', ?_, ⟨ht.inv, ⟨hI.out_mem, Ne.symm hjo⟩, ?_, ?_, hI.order⟩,
    fun k hk hkj => ht.untouched hk hkj⟩
  · simp only [Sender.writeMarshal, heq, ok_bind, pure_eq_ok]
  · intro hfree
    simp [hheld] at hfree
  · intro t' ht'
    obtain ⟨new, hcells⟩ := ht.cells_dst
    have hcontent : W'.content out = s.world.content out ++ s.world.content j := by
      rw [ht.content_eq, Function.update_self, hlen, List.take_length]
    exact (hI.held t' ht').grow hcells hcontent (hlen ▸ ht.cnt_dst) (s.writers \ {j})

theorem Inv.endMessage {t : τ} (hheld : s.holder = some t) :
    Inv out (s.endMessage out t) ∧
      ∀ j, j ≠ out → World.Untouched s.world (s.endMessage out t).world j := by
  obtain ⟨bm, pre, post, hbm, hlen, hcells, hsent, hpost, hcnt⟩ := hI.held t hheld
  have hu := hI.world.getAndResetWriteCnt out
  -- resetting the counter moves no cell
  have hcells₁ : (s.world.getAndResetWriteCnt out).1.cells out = pre ++ bm ++ post := by
    rw [← hcells, World.getAndResetWriteCnt, World.cells_set_same]
    rfl
  have hp : bm.length = (leBytes 4 (s.world.writeCnt out).toUInt32.toNat).length := by
    rw [leBytes_length, hlen]
  have hcontent := World.patch_content hu.inv.ok hcells₁ hp
  have hworld : (s.endMessage out t).world = (s.world.getAndResetWriteCnt out).1.writeBookmark bm
      (leBytes 4 (s.world.writeCnt out).toUInt32.toNat) := by
    simp only [Sender.endMessage, hbm]
    rfl
  refine ⟨⟨?_, hI.out_mem, ?_, ?_, ?_⟩, fun j hj => ?_⟩
  · rw [hworld]
    exact hu.inv.writeBookmark_inv hcells₁ hp
  · -- nobody holds the lock, and all bytes belong to messages that ended
    rintro -
    refine ⟨rfl, ?_, ?_⟩
    · rw [hworld]
      exact hu.cnt_eq
    · rw [hworld, World.writeBookmark, hcontent, Function.update_self, hcnt, leBytes_ofNat_int32]
      change s.sent ++ (pre.map s.world.heap.byte ++ _ ++ post.map s.world.heap.byte) =
        wire (s.done ++ [(t, s.current)])
      rw [hpost, List.append_assoc, ← List.append_assoc, hsent, wire, wire, List.flatMap_append]
      simp [frame]
  · -- no message is open
    rintro t' ⟨⟩
  · -- the order is that of the ends
    simp [Sender.endMessage, hI.order, hheld]
  · -- the other Marshals
    refine (hu.untouched hj).trans ⟨?_, ?_⟩
    · rw [hworld]
      rfl
    · rw [hworld, World.writeBookmark, hcontent, Function.update_of_ne hj]

/-- Bytes at the front of `out_` go to the socket. -/
theorem Inv.taken (hfree : s.holder = none) {W' : World ι} {k : Nat}
    (hu : World.Updates s.world W' s.writers out ((s.world.content out).drop k)
      (s.world.writeCnt out)) :
    Inv out { s with world := W', sent := s.sent ++ (s.world.content out).take k } := by
  obtain ⟨hbm, hcnt, hbytes⟩ := hI.free hfree
  refine ⟨hu.inv, hI.out_mem, ?_, ?_, hI.order⟩
  · intro _
    refine ⟨hbm, hu.cnt_eq.trans hcnt, ?_⟩
    simp only [hu.content_same]
    rw [List.append_assoc, List.take_append_drop, hbytes]
  · intro t ht
    simp [hfree] at ht

theorem Inv.handleWrite (hfree : s.holder = none) (resps : List Nat) :
    ∃ W' k, s.handleWrite out resps =
        .ok { s with world := W', sent := s.sent ++ (s.world.content out).take k } ∧
      Inv out { s with world := W', sent := s.sent ++ (s.world.content out).take k } ∧
      ∀ j, j ≠ out → World.Untouched s.world W' j := by
  obtain ⟨W', k, heq, hk, hu⟩ := hI.world.writeToFd out resps
  refine ⟨W', k, ?_, hI.taken hfree hu, fun j hj => hu.untouched hj⟩
  simp only [Sender.handleWrite, heq, ok_bind, pure_eq_ok]

/-- **One step** returns and preserves the invariant. -/
theorem Inv.step {op : SendOp ι τ} (hop : s.Allowed out op) :
    ∃ s', s.step out op = .ok s' ∧ Effect out s op s' := by
  cases op with
  | begin t header =>
    obtain ⟨W', bm, heq, hinv, hu⟩ := hI.beginMessage hop t header.value
    have hstep : s.step out (.begin t header) = s.beginMessage out t header.value := by
      cases header <;> rfl
    exact ⟨_, hstep.trans heq, hinv, fun k hk _ => hu k hk, fun _ _ hk => hk, subset_rfl, rfl, rfl,
      (List.append_nil _).symm, List.prefix_rfl⟩
  | put t v =>
    obtain ⟨W', heq, hinv, hu⟩ := hI.put hop v
    exact ⟨_, heq, hinv, fun k hk _ => hu k hk, fun _ _ hk => hk, subset_rfl, rfl, rfl,
      (List.append_nil _).symm, List.prefix_rfl⟩
  | writeMarshal t j =>
    obtain ⟨W', heq, hinv, hu⟩ := hI.writeMarshal hop.1 hop.2.1 hop.2.2
    refine ⟨_, heq, hinv, fun k hk hkj => hu k hk (by simpa [SendOp.names] using hkj),
      fun k hkj hk => ⟨hk, by simpa [SendOp.names] using hkj⟩, Set.sdiff_subset, rfl, rfl,
      (List.append_nil _).symm, List.prefix_rfl⟩
  | endMessage t =>
    obtain ⟨hinv, hu⟩ := hI.endMessage hop
    exact ⟨_, rfl, hinv, fun k hk _ => hu k hk, fun _ _ hk => hk, subset_rfl, rfl, rfl, rfl,
      List.prefix_rfl⟩
  | handleWrite resps =>
    obtain ⟨W', k, heq, hinv, hu⟩ := hI.handleWrite hop resps
    exact ⟨_, heq, hinv, fun k hk _ => hu k hk, fun _ _ hk => hk, subset_rfl, rfl, rfl,
      (List.append_nil _).symm, List.prefix_append ..⟩
  | own op =>
    obtain ⟨W', ws', heq, hs⟩ := OwnOp.step_spares hI.world hop.1
    exact ⟨_, by rw [Sender.step, heq]; rfl,
      hI.untouched hs.inv (hs.writers out hop.2 hI.out_mem) (hs.untouched out hop.2),
      fun k _ hk => hs.untouched k hk, hs.writers, hs.writers_sub, rfl, rfl,
      (List.append_nil _).symm, List.prefix_rfl⟩

omit [DecidableEq ι] in
/-- What was sent belongs to complete messages. -/
theorem Inv.sent_prefix : s.sent <+: wire s.done := by
  cases hh : s.holder with
  | none =>
    obtain ⟨-, -, hbytes⟩ := hI.free hh
    exact ⟨_, hbytes⟩
  | some t =>
    obtain ⟨bm, pre, post, -, -, -, hsent, -⟩ := hI.held t hh
    exact ⟨_, hsent⟩

end Steps

/-- The invariant holds in every state of every run. -/
theorem inv_of_run {out : ι} {h : Heap} {writers : Set ι} (hout : out ∈ writers)
    {ops : List (SendOp ι τ)} {s : Sender ι τ} (hrun : Steps (Next out) (init h writers) ops s) :
    s.Inv out := by
  refine Steps.invariant (P := fun s => s.Inv out) ?_ hrun (inv_init h hout)
  rintro s op s' hI ⟨hop, hstep⟩
  obtain ⟨s'', heq, heff⟩ := hI.step hop
  obtain rfl : s'' = s' := by simpa using heq.symm.trans hstep
  exact heff.inv

end Sender

/-- **Whole frames**: whatever the threads, the poll thread and the rest of the process do, no
    operation faults, and what the socket accepted is a prefix of complete messages
    `<size> <payload>`, in the order in which `out_l_` was taken for them. -/
theorem whole_frames {ι τ : Type} [DecidableEq ι] (out : ι) (h : Heap) (others : Set ι)
    (ops : List (SendOp ι τ)) (s : Sender ι τ)
    (hrun : Steps (Sender.Next out) (Sender.init h (insert out others)) ops s) :
    s.sent <+: s.done.flatMap (fun msg => frame msg.2) ∧
    s.begun = s.done.map Prod.fst ++ s.holder.toList ∧
    (∀ msg ∈ s.done, msg.2.length < 2 ^ 31 →
      (i32OfBytes ((frame msg.2).take 4)).toInt = msg.2.length) ∧
    ∀ op, s.Allowed out op → ∃ s', s.step out op = .ok s' := by
  have hI := Sender.inv_of_run (Set.mem_insert out others) hrun
  refine ⟨hI.sent_prefix, hI.order, fun msg _ hlen => ?_, fun op hop => ?_⟩
  · rw [frame, List.take_left' (leBytes_length ..), i32OfBytes_leBytes hlen]
  · obtain ⟨s', heq, -⟩ := hI.step hop
    exact ⟨s', heq⟩

/-- A client that sends one request with three bytes of arguments. -/
theorem whole_frames_one_request :
    ∃ s : Sender Bool Unit,
      Steps (Sender.Next true) (Sender.init .empty (insert true {false}))
        [.begin () (.request [] 0 7), .put () (.raw [1, 2, 3]), .endMessage (), .handleWrite [10]] s ∧
      s.sent <+: s.done.flatMap (fun msg => frame msg.2) := by
  have hI₀ : (Sender.init .empty (insert true {false}) :
      Sender Bool Unit).Inv true := Sender.inv_init _ (Set.mem_insert ..)
  obtain ⟨W₁, bm, heq₁, hI₁, -⟩ := hI₀.beginMessage rfl () (Header.request [] 0 7).value
  obtain ⟨W₂, heq₂, hI₂, -⟩ := hI₁.put rfl (.raw [1, 2, 3])
  obtain ⟨hI₃, -⟩ := hI₂.endMessage rfl
  obtain ⟨W₄, k, heq₄, -⟩ := hI₃.handleWrite rfl [10]
  have hrun : ∃ s : Sender Bool Unit, Steps (Sender.Next true)
      (Sender.init .empty (insert true {false}))
      [.begin () (.request [] 0 7), .put () (.raw [1, 2, 3]), .endMessage (), .handleWrite [10]] s :=
    ⟨_, .cons ⟨rfl, heq₁⟩ (.cons ⟨rfl, heq₂⟩ (.cons ⟨rfl, rfl⟩ (.cons ⟨rfl, heq₄⟩ (.nil _))))⟩
  obtain ⟨s, hrun⟩ := hrun
  exact ⟨s, hrun, (whole_frames _ _ _ _ _ hrun).1⟩

end SimpleRpc.Rpc
