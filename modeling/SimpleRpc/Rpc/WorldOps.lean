import SimpleRpc.Rpc.World

/-!
# Operations on the Marshals of a Process

The operations of `SimpleRpc.Rpc.Marshal`, applied to a Marshal by its name.

## Main results

- `World.write_eq`, ..., `World.setBookmark_eq`: each operation returns, with the effect of its
  kind, from any world whose Marshals are well formed
- `Inv.write`, ..., `Inv.writeBookmark`: under the discipline of `World.Inv`, what the
  operation does to the queued bytes
-/

namespace SimpleRpc.Rpc

open SimpleRpc.Lib

namespace World

variable {ι : Type}

/-- `m_i.write_cnt_` -/
def writeCnt (W : World ι) (i : ι) : Int32 := (W.marshal i).writeCnt

/-- `m_i.content_size()` -/
def contentSize (W : World ι) (i : ι) : Nat := (W.marshal i).contentSize

/-- The Marshal `i` has not been used since it was constructed. -/
def Fresh (W : World ι) (i : ι) : Prop := (W.marshal i).chunkList = []

/-- `m_i.peek(p, n)` -/
def peek (W : World ι) (i : ι) (n : Nat) : List UInt8 := (W.marshal i).peek W.heap n

/-- `write_bookmark(bm, p)` -/
def writeBookmark (W : World ι) (bm : Bookmark) (p : List UInt8) : World ι :=
  ⟨Marshal.writeBookmark W.heap bm p, W.marshal⟩

theorem contentSize_eq {W : World ι} (hW : W.AllOk) (i : ι) :
    W.contentSize i = (W.content i).length :=
  (hW i).contentSize_eq

theorem peek_eq {W : World ι} (hW : W.AllOk) (i : ι) (n : Nat) :
    W.peek i n = (W.content i).take n :=
  Marshal.peek_spec (hW i) n

theorem fresh_content {W : World ι} {i : ι} (hf : W.Fresh i) : W.content i = [] := by
  rw [content, Marshal.content, Marshal.cells, show (W.marshal i).chunkList = [] from hf]
  rfl

variable [DecidableEq ι]

/-- `m_i.write(p, n)` -/
def write (W : World ι) (i : ι) (p : List UInt8) : Except Fault (World ι) := do
  let (h, m) ← (W.marshal i).write W.heap p
  pure (W.set i h m)

/-- `m_i.read(p, n)` -/
def read (W : World ι) (i : ι) (n : Nat) : Except Fault (World ι × List UInt8) := do
  let (m, out) ← (W.marshal i).read W.heap n
  pure (W.set i W.heap m, out)

/-- `m_i.read_from_fd(fd)`: also returns what the kernel still has queued. -/
def readFromFd (W : World ι) (i : ι) (avail : List UInt8) (resps : List Nat) :
    Except Fault (World ι × List UInt8 × List UInt8) := do
  let (h, m, avail, got) ← (W.marshal i).readFromFd W.heap avail resps
  pure (W.set i h m, avail, got)

/-- `m_i.write_to_fd(fd)` -/
def writeToFd (W : World ι) (i : ι) (resps : List Nat) : Except Fault (World ι × List UInt8) := do
  let (m, out) ← (W.marshal i).writeToFd W.heap resps
  pure (W.set i W.heap m, out)

/-- `m_i.read_from_marshal(m_j, n)` for two different Marshals -/
def readFromMarshal (W : World ι) (i j : ι) (n : Nat) : Except Fault (World ι × Nat) := do
  let (h, dst, src, nFetch) ← Marshal.readFromMarshal W.heap (W.marshal i) (W.marshal j) n
  pure ((W.set j h src).set i h dst, nFetch)

/-- `m_i.set_bookmark(n)` -/
def setBookmark (W : World ι) (i : ι) (n : Nat) : Except Fault (World ι × Bookmark) := do
  let (h, m, bm) ← (W.marshal i).setBookmark W.heap n
  pure (W.set i h m, bm)

/-- `m_i.get_and_reset_write_cnt()` -/
def getAndResetWriteCnt (W : World ι) (i : ι) : World ι × Int32 :=
  let (m, cnt) := (W.marshal i).getAndResetWriteCnt
  (W.set i W.heap m, cnt)

/-! ## Well-formed Marshals -/

section Total

variable {W : World ι} (hW : W.AllOk)

include hW

theorem write_eq (i : ι) (p : List UInt8) :
    ∃ h' m' new, W.write i p = .ok (W.set i h' m') ∧
      Marshal.Appends W.heap (W.marshal i) h' m' new p ∧
      m'.writeCnt = W.writeCnt i + Int32.ofNat p.length := by
  obtain ⟨h', m', new, heq, ha, hcnt⟩ := Marshal.write_spec (hW i) p
  exact ⟨h', m', new, by simp [write, heq], ha, hcnt⟩

theorem read_eq (i : ι) (n : Nat) :
    ∃ m', W.read i n = .ok (W.set i W.heap m', (W.content i).take n) ∧
      Marshal.Consumes W.heap (W.marshal i) m' n ∧ m'.writeCnt = W.writeCnt i := by
  obtain ⟨m', heq, hc, hcnt⟩ := Marshal.read_spec (hW i) n
  exact ⟨m', by simp [read, heq, content], hc, hcnt⟩

theorem readFromFd_eq (i : ι) (avail : List UInt8) (resps : List Nat) :
    ∃ h' m' new k,
      W.readFromFd i avail resps = .ok (W.set i h' m', avail.drop k, avail.take k) ∧
      Marshal.Appends W.heap (W.marshal i) h' m' new (avail.take k) ∧ k ≤ avail.length ∧
      m'.writeCnt = W.writeCnt i + Int32.ofNat (avail.take k).length := by
  obtain ⟨h', m', new, k, heq, ha, hk, hcnt⟩ := Marshal.readFromFd_spec (hW i) avail resps
  exact ⟨h', m', new, k, by simp [readFromFd, heq], ha, hk, hcnt⟩

theorem readFromFd_all (i : ι) (avail : List UInt8) {resps : List Nat}
    (hpos : ∀ resp ∈ resps, 0 < resp) (hlen : avail.length ≤ resps.length) :
    ∃ W', W.readFromFd i avail resps = .ok (W', [], avail) := by
  obtain ⟨h', m', heq⟩ := Marshal.readFromFd_all (hW i) hpos hlen
  exact ⟨W.set i h' m', by simp [readFromFd, heq]⟩

/-- A round of `read_from_fd` takes some of the bytes that the kernel has. -/
theorem readFromFd_ne_nil {i : ι} {avail got rest : List UInt8} {resp : Nat} {resps : List Nat}
    {W' : World ι} (hne : avail ≠ []) (hpos : 0 < resp)
    (heq : W.readFromFd i avail (resp :: resps) = .ok (W', rest, got)) : got ≠ [] := by
  obtain ⟨⟨h', m', rest', got'⟩, hread, hret⟩ := bind_eq_ok.mp heq
  obtain ⟨-, -, rfl⟩ : _ = W' ∧ rest' = rest ∧ got' = got := by simpa using hret
  exact Marshal.readFromFd_ne_nil (hW i) hne hpos hread

theorem writeToFd_eq (i : ι) (resps : List Nat) :
    ∃ m' k, W.writeToFd i resps = .ok (W.set i W.heap m', (W.content i).take k) ∧
      Marshal.Consumes W.heap (W.marshal i) m' k ∧ k ≤ (W.content i).length ∧
      m'.writeCnt = W.writeCnt i := by
  obtain ⟨m', k, heq, hc, hk, hcnt, -⟩ := Marshal.writeToFd_spec (hW i) resps
  exact ⟨m', k, by simp [writeToFd, heq, content], hc, by rwa [content_length], hcnt⟩

/-- A Marshal that is not empty gives bytes to a socket that takes some. -/
theorem writeToFd_ne_nil {i : ι} {resp : Nat} {resps : List Nat} {W' : World ι}
    {bytes : List UInt8} (hne : W.content i ≠ []) (hpos : 0 < resp)
    (heq : W.writeToFd i (resp :: resps) = .ok (W', bytes)) : bytes ≠ [] := by
  obtain ⟨m', k, heq', -, -, -, hk⟩ := Marshal.writeToFd_spec (hW i) (resp :: resps)
  have hbytes : (W.content i).take k = bytes := by
    simp only [writeToFd, heq', ok_bind, pure_eq_ok, Except.ok.injEq, Prod.mk.injEq] at heq
    exact heq.2
  have hcells : (W.marshal i).cells ≠ [] := by
    intro hnil
    exact hne (by simp [content, Marshal.content, hnil])
  have := hk resp rfl hpos hcells
  rw [← hbytes, Ne, List.take_eq_nil_iff]
  simp only [hne, or_false]
  omega

theorem readFromMarshal_eq (i j : ι) {n : Nat} (hn : n ≤ (W.content j).length) :
    ∃ h' dst' src' new,
      W.readFromMarshal i j n = .ok ((W.set j h' src').set i h' dst', n) ∧
      Marshal.Moves W.heap (W.marshal i) (W.marshal j) h' dst' src' n new ∧
      dst'.writeCnt = W.writeCnt i + Int32.ofNat n ∧ src'.writeCnt = W.writeCnt j := by
  rw [content_length] at hn
  obtain ⟨h', dst', src', new, heq, hm, hcnt, hcnt'⟩ :=
    Marshal.readFromMarshal_spec (hW i) (hW j) hn
  exact ⟨h', dst', src', new, by simp [readFromMarshal, heq], hm, hcnt, hcnt'⟩

theorem readFromMarshal_fails (i j : ι) {n : Nat} (hfresh : W.Fresh i)
    (hn : (W.content j).length < n) : ∃ e, W.readFromMarshal i j n = .error e := by
  rw [content_length] at hn
  obtain ⟨e, he⟩ := Marshal.readFromMarshal_fails (hW i) hfresh (hW j) hn
  exact ⟨e, by simp [readFromMarshal, he]⟩

theorem setBookmark_eq (i : ι) (n : Nat) (hcnt : W.writeCnt i = 0) :
    ∃ h' m' new, W.setBookmark i n = .ok (W.set i h' m', new) ∧
      Marshal.Appends W.heap (W.marshal i) h' m' new (new.map h'.byte) ∧ new.length = n ∧
      m'.writeCnt = 0 := by
  obtain ⟨h', m', new, heq, ha, hlen, hcnt'⟩ := Marshal.setBookmark_spec (hW i) hcnt n
  exact ⟨h', m', new, by simp [setBookmark, heq], ha, hlen, hcnt'⟩

end Total

theorem AllOk.getAndResetWriteCnt {W : World ι} (hW : W.AllOk) (i : ι) :
    ((W.getAndResetWriteCnt i).1).AllOk :=
  hW.set (Heap.Stores.refl _) (Marshal.getAndResetWriteCnt_spec (hW i)).ok

/-! ## Under the discipline -/

/-- `W'` differs from `W` in the Marshal `i` only, which now queues `bytes` and has counted
    `cnt`. -/
structure Updates (W W' : World ι) (ws : Set ι) (i : ι) (bytes : List UInt8) (cnt : Int32) :
    Prop where
  inv : W'.Inv ws
  content_eq : W'.content = Function.update W.content i bytes
  cnt_eq : W'.writeCnt i = cnt
  others : ∀ j, j ≠ i → W'.marshal j = W.marshal j

section Disciplined

variable {W W' : World ι} {ws : Set ι} {i j : ι} {bytes : List UInt8} {cnt : Int32}

theorem Updates.content_same (hu : Updates W W' ws i bytes cnt) : W'.content i = bytes := by
  rw [hu.content_eq, Function.update_self]

theorem Updates.content_of_ne (hu : Updates W W' ws i bytes cnt) (hji : j ≠ i) :
    W'.content j = W.content j := by
  rw [hu.content_eq, Function.update_of_ne hji]

theorem Updates.fresh_of_ne (hu : Updates W W' ws i bytes cnt) (hji : j ≠ i) (hf : W.Fresh j) :
    W'.Fresh j := by
  rw [Fresh, hu.others j hji]
  exact hf

/-- A computation that appends `p` to a writer. -/
theorem Inv.append (hI : W.Inv ws) (hi : i ∈ ws) {h' : Heap} {m' : Marshal} {new : List Cell}
    {p : List UInt8} (ha : Marshal.Appends W.heap (W.marshal i) h' m' new p) :
    Updates W (W.set i h' m') ws i (W.content i ++ p) m'.writeCnt :=
  ⟨append_inv hI hi ha, append_content hI.ok (hI.excl i hi) ha, by simp [writeCnt],
    fun _ hji => set_marshal_of_ne _ hji ..⟩

/-- A computation that consumes `n` bytes. -/
theorem Inv.consume (hI : W.Inv ws) {m' : Marshal} {n : Nat}
    (hc : Marshal.Consumes W.heap (W.marshal i) m' n) :
    Updates W (W.set i W.heap m') ws i ((W.content i).drop n) m'.writeCnt :=
  ⟨consume_inv hI hc, consume_content hc, by simp [writeCnt],
    fun _ hji => set_marshal_of_ne _ hji ..⟩

theorem Inv.write (hI : W.Inv ws) (hi : i ∈ ws) (p : List UInt8) :
    ∃ W', W.write i p = .ok W' ∧
      Updates W W' ws i (W.content i ++ p) (W.writeCnt i + Int32.ofNat p.length) := by
  obtain ⟨h', m', new, heq, ha, hcnt⟩ := write_eq hI.ok.ok i p
  exact ⟨_, heq, hcnt ▸ hI.append hi ha⟩

theorem Inv.read (hI : W.Inv ws) (i : ι) (n : Nat) :
    ∃ W', W.read i n = .ok (W', (W.content i).take n) ∧
      Updates W W' ws i ((W.content i).drop n) (W.writeCnt i) := by
  obtain ⟨m', heq, hc, hcnt⟩ := read_eq hI.ok.ok i n
  exact ⟨_, heq, hcnt ▸ hI.consume hc⟩

theorem Inv.readFromFd (hI : W.Inv ws) (hi : i ∈ ws) (avail : List UInt8) (resps : List Nat) :
    ∃ W' k, W.readFromFd i avail resps = .ok (W', avail.drop k, avail.take k) ∧
      k ≤ avail.length ∧
      Updates W W' ws i (W.content i ++ avail.take k)
        (W.writeCnt i + Int32.ofNat (avail.take k).length) := by
  obtain ⟨h', m', new, k, heq, ha, hk, hcnt⟩ := readFromFd_eq hI.ok.ok i avail resps
  exact ⟨_, k, heq, hk, hcnt ▸ hI.append hi ha⟩

theorem Inv.writeToFd (hI : W.Inv ws) (i : ι) (resps : List Nat) :
    ∃ W' k, W.writeToFd i resps = .ok (W', (W.content i).take k) ∧ k ≤ (W.content i).length ∧
      Updates W W' ws i ((W.content i).drop k) (W.writeCnt i) := by
  obtain ⟨m', k, heq, hc, hk, hcnt⟩ := writeToFd_eq hI.ok.ok i resps
  exact ⟨_, k, heq, hk, hcnt ▸ hI.consume hc⟩

theorem Inv.setBookmark (hI : W.Inv ws) (hi : i ∈ ws) (hcnt : W.writeCnt i = 0) (n : Nat) :
    ∃ W' bm junk, W.setBookmark i n = .ok (W', bm) ∧ bm.length = n ∧ junk.length = n ∧
      W'.cells i = W.cells i ++ bm ∧ Updates W W' ws i (W.content i ++ junk) 0 := by
  obtain ⟨h', m', new, heq, ha, hlen, hcnt'⟩ := setBookmark_eq hI.ok.ok i n hcnt
  exact ⟨_, new, new.map h'.byte, heq, hlen, by simp [hlen], by rw [cells_set_same, ha.cells_eq]; rfl,
    hcnt' ▸ hI.append hi ha⟩

omit [DecidableEq ι] in
theorem Inv.writeBookmark_inv (hI : W.Inv ws) {pre post : List Cell} {bm : Bookmark}
    {p : List UInt8} (hbm : W.cells i = pre ++ bm ++ post) (hlen : bm.length = p.length) :
    (W.writeBookmark bm p).Inv ws := by
  have hnd := hI.ok.nodup i
  rw [hbm, List.append_assoc, List.nodup_append] at hnd
  exact patch_inv hI (W.heap.poke_stores bm p (List.nodup_append.mp hnd.2.1).1 hlen)

theorem Inv.getAndResetWriteCnt (hI : W.Inv ws) (i : ι) :
    Updates W (W.getAndResetWriteCnt i).1 ws i (W.content i) 0 :=
  hI.consume (Marshal.getAndResetWriteCnt_spec (hI.ok.ok i))

/-- `W'` comes from `W` by `m_i.read_from_marshal(m_j, n)`. -/
structure Transfers (W W' : World ι) (ws : Set ι) (i j : ι) (n : Nat) : Prop where
  inv : W'.Inv ws
  content_eq : W'.content = Function.update (Function.update W.content j ((W.content j).drop n)) i
    (W.content i ++ (W.content j).take n)
  cells_dst : ∃ new, W'.cells i = W.cells i ++ new
  cnt_dst : W'.writeCnt i = W.writeCnt i + Int32.ofNat n
  cnt_src : W'.writeCnt j = W.writeCnt j
  others : ∀ k, k ≠ i → k ≠ j → W'.marshal k = W.marshal k

private theorem transfers_of_moves {h' : Heap} {dst' src' : Marshal} {new : List Cell} {n : Nat}
    {ws' : Set ι} (hok : W.Ok) (hij : i ≠ j) (hex : W.Exclusive i ∨ W.Fresh i)
    (hm : Marshal.Moves W.heap (W.marshal i) (W.marshal j) h' dst' src' n new)
    (hcnt : dst'.writeCnt = W.writeCnt i + Int32.ofNat n) (hcnt' : src'.writeCnt = W.writeCnt j)
    (hinv : ((W.set j h' src').set i h' dst').Inv ws') :
    Transfers W ((W.set j h' src').set i h' dst') ws' i j n := by
  refine ⟨hinv, move_content hok hij hex hm, ?_, ?_, ?_, fun k hki hkj => ?_⟩
  · exact ⟨_, by rw [cells_set_same, hm.cells_eq, List.append_assoc]; rfl⟩
  · rw [writeCnt, set_marshal_same, hcnt]
  · rw [writeCnt, set_marshal_of_ne _ (Ne.symm hij), set_marshal_same, hcnt']
  · rw [set_marshal_of_ne _ hki, set_marshal_of_ne _ hkj]

/-- Use case 1: cutting a slice off into a fresh Marshal. -/
theorem Inv.cut (hI : W.Inv ws) (hij : i ≠ j) (hf : W.Fresh i) {n : Nat}
    (hn : n ≤ (W.content j).length) :
    ∃ W', W.readFromMarshal i j n = .ok (W', n) ∧ Transfers W W' (ws \ {i}) i j n := by
  obtain ⟨h', dst', src', new, heq, hm, hcnt, hcnt'⟩ := readFromMarshal_eq hI.ok.ok i j hn
  exact ⟨_, heq, transfers_of_moves hI.ok hij (.inr hf) hm hcnt hcnt' (cut_inv hI hij hf hm)⟩

/-- Use case 2: moving a writer whole behind another one. -/
theorem Inv.moveWhole (hI : W.Inv ws) (hi : i ∈ ws) (hj : j ∈ ws) (hij : i ≠ j) :
    ∃ W', W.readFromMarshal i j (W.contentSize j) = .ok (W', W.contentSize j) ∧
      Transfers W W' (ws \ {j}) i j (W.contentSize j) := by
  have hn := contentSize_eq hI.ok.ok j
  obtain ⟨h', dst', src', new, heq, hm, hcnt, hcnt'⟩ :=
    readFromMarshal_eq hI.ok.ok i j (Nat.le_of_eq hn)
  exact ⟨_, heq, transfers_of_moves hI.ok hij (.inl (hI.excl i hi)) hm hcnt hcnt'
    (move_inv hI hi hj hij (by rw [hn, content_length]) hm)⟩

end Disciplined

end World

end SimpleRpc.Rpc
