import SimpleRpc.Rpc.MarshalQueue

/-!
# Many Marshals over One Heap

A process has many Marshal objects and one heap of byte arrays. `read_from_marshal` lets
chunks of different Marshals point into the same array, so whether an operation on one
Marshal leaves the bytes of the others alone is a property of all of them together.

## Layers

- **Cells**: `World.Ok` says that every Marshal satisfies its representation invariant and
  that no cell is queued twice
- **Bytes**: for each kind of effect (`append`, `consume`, `move`, `patch`), what it does to
  the queued bytes of every Marshal, provided that the cells it fills are not queued
  (`Exclusive`)
- **Discipline**: `World.Inv` adds that the Marshals in a set of *writers* have room that
  nobody else can see; it is preserved by the two documented uses of `read_from_marshal`
-/

namespace SimpleRpc.Rpc

open SimpleRpc.Lib

/-- All Marshal objects of a process, by name, and the arrays they point into. -/
structure World (ι : Type) where
  heap : Heap
  marshal : ι → Marshal

namespace World

variable {ι : Type}

/-- Every Marshal has just been constructed. -/
def init (h : Heap) : World ι := ⟨h, fun _ => .empty⟩

/-- The bytes queued in the Marshal `i`. -/
def content (W : World ι) (i : ι) : List UInt8 := (W.marshal i).content W.heap

/-- The cells queued in the Marshal `i`. -/
def cells (W : World ι) (i : ι) : List Cell := (W.marshal i).cells

/-- The cells the Marshal `i` would fill next. -/
def room (W : World ι) (i : ι) : List Cell := (W.marshal i).room W.heap

/-! ## Cells -/

/-- The representation invariants of all Marshals, without any promise about sharing. -/
def AllOk (W : World ι) : Prop := ∀ i, (W.marshal i).Ok W.heap

/-- Every Marshal is well formed and no cell is queued twice. -/
structure Ok (W : World ι) : Prop where
  ok : W.AllOk
  nodup : ∀ i, (W.cells i).Nodup
  disjoint : ∀ i j, i ≠ j → (W.cells i).Disjoint (W.cells j)

/-- Nothing that `i` would fill is queued anywhere. -/
def Exclusive (W : World ι) (i : ι) : Prop := ∀ j, (W.room i).Disjoint (W.cells j)

theorem allOk_init (h : Heap) : (init h : World ι).AllOk := fun _ => Marshal.ok_empty h

theorem ok_init (h : Heap) : (init h : World ι).Ok :=
  ⟨allOk_init h, fun _ => List.nodup_nil, fun _ _ _ => List.disjoint_nil_left _⟩

@[simp] theorem content_init (h : Heap) (i : ι) : (init h : World ι).content i = [] := rfl

theorem content_length (W : World ι) (i : ι) : (W.content i).length = (W.cells i).length :=
  (W.marshal i).content_length W.heap

theorem Ok.cell_lt {W : World ι} (hW : W.Ok) {i : ι} {c : Cell} (hc : c ∈ W.cells i) :
    c.1 < W.heap.next :=
  (hW.ok i).cell_lt hc

/-- Cells an exclusive Marshal may fill are not queued. -/
theorem Exclusive.not_mem {W : World ι} {i : ι} (hex : W.Exclusive i) (hW : W.Ok) {c : Cell}
    (hc : (W.marshal i).CanFill W.heap c) (j : ι) : c ∉ W.cells j := by
  intro hmem
  rcases hc with hc | hc
  · exact hex j hc hmem
  · exact Nat.not_lt.mpr hc (hW.cell_lt hmem)

/-! ### Changing one Marshal -/

variable [DecidableEq ι]

/-- The world after an operation on the Marshal `i`. -/
def set (W : World ι) (i : ι) (h : Heap) (m : Marshal) : World ι :=
  ⟨h, Function.update W.marshal i m⟩

@[simp] theorem set_heap (W : World ι) (i : ι) (h : Heap) (m : Marshal) :
    (W.set i h m).heap = h := rfl

@[simp] theorem set_marshal_same (W : World ι) (i : ι) (h : Heap) (m : Marshal) :
    (W.set i h m).marshal i = m := by
  simp [set]

theorem set_marshal_of_ne (W : World ι) {i j : ι} (hij : j ≠ i) (h : Heap) (m : Marshal) :
    (W.set i h m).marshal j = W.marshal j :=
  Function.update_of_ne hij ..

theorem cells_set_same (W : World ι) (i : ι) (h : Heap) (m : Marshal) :
    (W.set i h m).cells i = m.cells := by
  simp [cells]

theorem cells_set_of_ne (W : World ι) {i j : ι} (hij : j ≠ i) (h : Heap) (m : Marshal) :
    (W.set i h m).cells j = W.cells j := by
  rw [cells, W.set_marshal_of_ne hij, cells]

section Set

variable {W : World ι} {i j : ι} {h' : Heap} {m' : Marshal} {ds : List Cell} {p : List UInt8}

theorem AllOk.set (hW : W.AllOk) (hs : W.heap.Stores h' ds p) (hm : m'.Ok h') :
    (W.set i h' m').AllOk := by
  intro j
  by_cases hji : j = i
  · subst hji
    rw [set_marshal_same]
    exact hm
  · rw [W.set_marshal_of_ne hji]
    exact (hW j).mono hs

/-- No cell is queued twice as long as the changed Marshal queues none of the others'. -/
theorem Ok.set (hW : W.Ok) (hs : W.heap.Stores h' ds p) (hm : m'.Ok h') (hnd : m'.cells.Nodup)
    (hside : ∀ j, j ≠ i → m'.cells.Disjoint (W.cells j)) : (W.set i h' m').Ok := by
  refine ⟨hW.ok.set hs hm, fun j => ?_, fun j k hjk => ?_⟩
  · by_cases hji : j = i
    · subst hji
      rwa [cells_set_same]
    · rw [W.cells_set_of_ne hji]
      exact hW.nodup j
  · by_cases hji : j = i
    · subst hji
      rw [cells_set_same, W.cells_set_of_ne (Ne.symm hjk)]
      exact hside k (Ne.symm hjk)
    · by_cases hki : k = i
      · subst hki
        rw [cells_set_same, W.cells_set_of_ne hji]
        exact (hside j hji).symm
      · rw [W.cells_set_of_ne hji, W.cells_set_of_ne hki]
        exact hW.disjoint j k hjk

/-- Storing into cells that are not queued in `j` does not change what `j` delivers. -/
theorem content_set_of_ne (hji : j ≠ i) (hs : W.heap.Stores h' ds p)
    (hdisj : ds.Disjoint (W.cells j)) : (W.set i h' m').content j = W.content j := by
  rw [content, W.set_marshal_of_ne hji]
  exact hs.map_byte hdisj

theorem content_set_same : (W.set i h' m').content i = m'.content h' := by
  rw [content, set_marshal_same, set_heap]

end Set

/-! ## Bytes -/

section Effects

variable {W : World ι} {i j : ι} {h' : Heap} {m' src' : Marshal} {new : List Cell} {p : List UInt8}
  {n : Nat}

theorem append_ok (hW : W.Ok) (hex : W.Exclusive i)
    (ha : Marshal.Appends W.heap (W.marshal i) h' m' new p) : (W.set i h' m').Ok := by
  have hnew : ∀ c ∈ new, ∀ j, c ∉ W.cells j := fun c hc => hex.not_mem hW (ha.origin c hc)
  refine hW.set ha.stores ha.ok ?_ fun j hji c hc hc' => ?_
  · rw [ha.cells_eq]
    exact List.nodup_append.mpr ⟨hW.nodup i, ha.nodup,
      fun a ha' b hb hab => hnew b hb i (hab ▸ ha')⟩
  · rw [ha.cells_eq, List.mem_append] at hc
    rcases hc with hc | hc
    · exact hW.disjoint i j (Ne.symm hji) hc hc'
    · exact hnew c hc j hc'

theorem append_content (hW : W.Ok) (hex : W.Exclusive i)
    (ha : Marshal.Appends W.heap (W.marshal i) h' m' new p) :
    (W.set i h' m').content = Function.update W.content i (W.content i ++ p) := by
  have hnew : ∀ j, new.Disjoint (W.cells j) := fun j c hc =>
    hex.not_mem hW (ha.origin c hc) j
  funext j
  by_cases hji : j = i
  · subst hji
    rw [content_set_same, Function.update_self, Marshal.content, ha.cells_eq, List.map_append,
      ha.stores.stored]
    congr 1
    exact ha.stores.map_byte (hnew j)
  · rw [Function.update_of_ne hji]
    exact content_set_of_ne hji ha.stores (hnew j)

theorem consume_ok (hW : W.Ok) (hc : Marshal.Consumes W.heap (W.marshal i) m' n) :
    (W.set i W.heap m').Ok := by
  refine hW.set (Heap.Stores.refl _) hc.ok ?_ fun j hji c hmem => ?_
  · rw [hc.cells_eq]
    exact (hW.nodup i).sublist (List.drop_sublist ..)
  · exact hW.disjoint i j (Ne.symm hji) (List.mem_of_mem_drop (hc.cells_eq ▸ hmem))

theorem consume_content (hc : Marshal.Consumes W.heap (W.marshal i) m' n) :
    (W.set i W.heap m').content = Function.update W.content i ((W.content i).drop n) := by
  funext j
  by_cases hji : j = i
  · subst hji
    rw [content_set_same, Function.update_self, Marshal.content, hc.cells_eq, List.map_drop]
    rfl
  · rw [Function.update_of_ne hji]
    exact content_set_of_ne hji (Heap.Stores.refl _) (List.disjoint_nil_left _)

omit [DecidableEq ι] in
/-- What `read_from_marshal` may copy into is not queued. -/
private theorem move_new_disjoint (hW : W.Ok) (hex : W.Exclusive i ∨ (W.marshal i).chunkList = [])
    (hm : Marshal.Moves W.heap (W.marshal i) (W.marshal j) h' m' src' n new) (k : ι) :
    new.Disjoint (W.cells k) := by
  rcases hex with hex | hnil
  · exact fun c hc => hex.not_mem hW (hm.origin c hc) k
  · rw [hm.fresh hnil]
    exact List.disjoint_nil_left _

theorem move_ok (hW : W.Ok) (hij : i ≠ j) (hex : W.Exclusive i ∨ (W.marshal i).chunkList = [])
    (hm : Marshal.Moves W.heap (W.marshal i) (W.marshal j) h' m' src' n new) :
    ((W.set j h' src').set i h' m').Ok := by
  have hnew := move_new_disjoint hW hex hm
  have hjk : ∀ k, k ≠ j → (W.cells j).Disjoint (W.cells k) := fun k hkj =>
    hW.disjoint j k (Ne.symm hkj)
  -- first the source gives up its cells
  have hsrc : (W.set j h' src').Ok := by
    refine hW.set hm.stores hm.consumes.ok ?_ fun k hkj c hmem => ?_
    · rw [hm.consumes.cells_eq]
      exact (hW.nodup j).sublist (List.drop_sublist ..)
    · exact hjk k hkj (List.mem_of_mem_drop (hm.consumes.cells_eq ▸ hmem))
  have hmoved : ∀ c ∈ ((W.cells j).drop new.length).take (n - new.length),
      c ∈ W.cells j ∧ c ∉ (W.cells j).drop n := by
    intro c hc
    refine ⟨List.mem_of_mem_drop (List.mem_of_mem_take hc), fun hc' => ?_⟩
    have hlen : n = new.length + (n - new.length) := by have := hm.length_le; omega
    rw [hlen, ← List.drop_drop] at hc'
    exact List.disjoint_take_drop ((hW.nodup j).sublist (List.drop_sublist ..)) (Nat.le_refl _)
      hc hc'
  refine hsrc.set (Heap.Stores.refl h') hm.ok ?_ fun k hki c hc hc' => ?_
  · -- the destination: old, copied and shared cells
    rw [hm.cells_eq]
    refine List.nodup_append.mpr ⟨List.nodup_append.mpr ⟨hW.nodup i, hm.nodup, ?_⟩, ?_, ?_⟩
    · rintro a ha b hb rfl
      exact hnew i hb ha
    · exact ((hW.nodup j).sublist (List.drop_sublist ..)).sublist (List.take_sublist ..)
    · rintro a ha b hb rfl
      rcases List.mem_append.mp ha with ha | ha
      · exact hW.disjoint i j hij ha (hmoved a hb).1
      · exact hnew j ha (hmoved a hb).1
  · -- against every other Marshal
    rw [hm.cells_eq, List.mem_append, List.mem_append] at hc
    by_cases hkj : k = j
    · subst hkj
      rw [cells_set_same, hm.consumes.cells_eq] at hc'
      rcases hc with (hc | hc) | hc
      · exact hW.disjoint i k hij hc (List.mem_of_mem_drop hc')
      · exact hnew k hc (List.mem_of_mem_drop hc')
      · exact (hmoved c hc).2 hc'
    · rw [W.cells_set_of_ne hkj] at hc'
      rcases hc with (hc | hc) | hc
      · exact hW.disjoint i k (Ne.symm hki) hc hc'
      · exact hnew k hc hc'
      · exact hjk k hkj (hmoved c hc).1 hc'

theorem move_content (hW : W.Ok) (hij : i ≠ j)
    (hex : W.Exclusive i ∨ (W.marshal i).chunkList = [])
    (hm : Marshal.Moves W.heap (W.marshal i) (W.marshal j) h' m' src' n new) :
    ((W.set j h' src').set i h' m').content =
      Function.update (Function.update W.content j ((W.content j).drop n)) i
        (W.content i ++ (W.content j).take n) := by
  have hnew := move_new_disjoint hW hex hm
  funext k
  by_cases hki : k = i
  · subst hki
    -- the shared cells were not written, the copied ones hold the bytes of the source
    have hshared : (((W.cells j).drop new.length).take (n - new.length)).map h'.byte =
        (((W.cells j).drop new.length).take (n - new.length)).map W.heap.byte :=
      hm.stores.map_byte fun c hc hc' =>
        hnew j hc (List.mem_of_mem_drop (List.mem_of_mem_take hc'))
    have hsplit : (W.cells j).take n = (W.cells j).take new.length ++
        ((W.cells j).drop new.length).take (n - new.length) := by
      have hlen : n = new.length + (n - new.length) := by have := hm.length_le; omega
      conv_lhs => rw [hlen, List.take_add]
    have hold : (W.cells k).map h'.byte = W.content k := hm.stores.map_byte (hnew k)
    rw [content_set_same, Function.update_self, Marshal.content, hm.cells_eq, List.map_append,
      List.map_append, hm.stores.stored]
    change (W.cells k).map h'.byte ++ ((W.cells j).take new.length).map W.heap.byte ++
      (((W.cells j).drop new.length).take (n - new.length)).map h'.byte = _
    rw [hshared, hold, List.append_assoc, ← List.map_append, ← hsplit, List.map_take]
    rfl
  · -- a Marshal other than the destination
    have hkeep : ((W.set j h' src').set i h' m').content k = (W.set j h' src').content k :=
      content_set_of_ne hki (Heap.Stores.refl h') (List.disjoint_nil_left _)
    rw [Function.update_of_ne hki, hkeep]
    -- the source has lost its front
    by_cases hkj : k = j
    · subst hkj
      rw [content_set_same, Function.update_self, Marshal.content, hm.consumes.cells_eq,
        List.map_drop]
      congr 1
      exact hm.stores.map_byte (hnew k)
    · -- the others are untouched
      rw [Function.update_of_ne hkj]
      exact content_set_of_ne hkj hm.stores (hnew k)

/-- `write_bookmark` replaces the bytes of the reserved cells and no others. -/
theorem patch_content (hW : W.Ok) {pre post : List Cell} {bm : Bookmark}
    (hbm : W.cells i = pre ++ bm ++ post) (hlen : bm.length = p.length) :
    (World.mk (Marshal.writeBookmark W.heap bm p) W.marshal).content =
      Function.update W.content i (pre.map W.heap.byte ++ p ++ post.map W.heap.byte) := by
  have hnd := hW.nodup i
  rw [hbm, List.append_assoc, List.nodup_append] at hnd
  obtain ⟨-, hnd, hpre⟩ := hnd
  obtain ⟨hbmnd, -, hpost⟩ := List.nodup_append.mp hnd
  have hs : W.heap.Stores (Marshal.writeBookmark W.heap bm p) bm p :=
    W.heap.poke_stores bm p hbmnd hlen
  funext j
  by_cases hji : j = i
  · subst hji
    have hpre' : pre.map (Marshal.writeBookmark W.heap bm p).byte = pre.map W.heap.byte :=
      hs.map_byte fun c hc hc' => hpre c hc' c (List.mem_append_left _ hc) rfl
    have hpost' : post.map (Marshal.writeBookmark W.heap bm p).byte = post.map W.heap.byte :=
      hs.map_byte fun c hc hc' => hpost c hc c hc' rfl
    rw [Function.update_self, ← hpre', ← hpost', content, Marshal.content]
    change (W.cells j).map _ = _
    rw [hbm, List.map_append, List.map_append, hs.stored]
  · rw [Function.update_of_ne hji]
    refine hs.map_byte fun c hc => hW.disjoint i j (Ne.symm hji) ?_
    rw [hbm]
    exact List.mem_append_left _ (List.mem_append_right _ hc)

omit [DecidableEq ι] in
theorem patch_ok (hW : W.Ok) {bm : Bookmark} (hs : W.heap.Stores h' bm p) :
    (World.mk h' W.marshal).Ok :=
  ⟨fun k => (hW.ok k).mono hs, hW.nodup, hW.disjoint⟩

end Effects

/-! ## Discipline -/

/-- The Marshals in `ws` may be written: their room is queued nowhere and they do not share
    it. The others hold slices of arrays that somebody else goes on filling. -/
structure Inv (W : World ι) (ws : Set ι) : Prop where
  ok : W.Ok
  excl : ∀ i ∈ ws, W.Exclusive i
  rooms : ∀ i ∈ ws, ∀ j ∈ ws, i ≠ j → (W.room i).Disjoint (W.room j)

section Discipline

variable {W : World ι} {ws : Set ι} {i j : ι} {h' : Heap} {m' src' : Marshal} {new : List Cell}
  {p : List UInt8} {n : Nat}

omit [DecidableEq ι] in
theorem inv_init (h : Heap) (ws : Set ι) : (init h : World ι).Inv ws :=
  ⟨ok_init h, fun _ _ _ => List.disjoint_nil_left _, fun _ _ _ _ _ => List.disjoint_nil_left _⟩

omit [DecidableEq ι] in
theorem Inv.mono (hI : W.Inv ws) {ws' : Set ι} (hsub : ws' ⊆ ws) : W.Inv ws' :=
  ⟨hI.ok, fun i hi => hI.excl i (hsub hi), fun i hi j hj => hI.rooms i (hsub hi) j (hsub hj)⟩

omit [DecidableEq ι] in
/-- What one writer may fill is neither queued nor fillable by another writer. -/
theorem Inv.not_room (hI : W.Inv ws) (hi : i ∈ ws) (hj : j ∈ ws) (hij : i ≠ j) {c : Cell}
    (hc : (W.marshal i).CanFill W.heap c) : c ∉ W.room j := by
  intro hmem
  rcases hc with hc | hc
  · exact hI.rooms i hi j hj hij hc hmem
  · exact Nat.not_lt.mpr hc ((hI.ok.ok j).room_lt hmem)

theorem room_set_of_ne (hW : W.Ok) {ds : List Cell} (hji : j ≠ i) (hs : W.heap.Stores h' ds p) :
    (W.set i h' m').room j = W.room j := by
  rw [room, W.set_marshal_of_ne hji]
  exact (hW.ok j).room_eq hs

theorem room_set_same : (W.set i h' m').room i = m'.room h' := by
  rw [room, set_marshal_same, set_heap]

theorem append_inv (hI : W.Inv ws) (hi : i ∈ ws)
    (ha : Marshal.Appends W.heap (W.marshal i) h' m' new p) : (W.set i h' m').Inv ws := by
  have hex := hI.excl i hi
  have hcells : ∀ k c, c ∈ (W.set i h' m').cells k → c ∈ W.cells k ∨ c ∈ new := by
    intro k c hc
    by_cases hki : k = i
    · subst hki
      rw [cells_set_same, ha.cells_eq] at hc
      exact List.mem_append.mp hc
    · exact .inl (W.cells_set_of_ne hki .. ▸ hc)
  -- what `i` can fill now it could fill before
  have hrooms : ∀ k ∈ ws, i ≠ k → (m'.room h').Disjoint (W.room k) := fun k hk hik c hc =>
    hI.not_room hi hk hik (ha.room_sub c hc).1
  refine ⟨append_ok hI.ok hex ha, fun k hk l c hc hc' => ?_, fun k hk l hl hkl => ?_⟩
  · -- `i` can fill nothing that a queue holds
    by_cases hki : k = i
    · subst hki
      rw [room_set_same] at hc
      obtain ⟨hfill, hnot⟩ := ha.room_sub c hc
      rcases hcells l c hc' with hc' | hc'
      · exact hex.not_mem hI.ok hfill l hc'
      · exact hnot hc'
    · -- another writer cannot fill what `i` got
      rw [room_set_of_ne hI.ok hki ha.stores] at hc
      rcases hcells l c hc' with hc' | hc'
      · exact hI.excl k hk l hc hc'
      · exact hI.not_room hi hk (Ne.symm hki) (ha.origin c hc') hc
  · -- no two writers can fill the same cell
    by_cases hki : k = i
    · subst hki
      rw [room_set_same, room_set_of_ne hI.ok (Ne.symm hkl) ha.stores]
      exact hrooms l hl hkl
    · by_cases hli : l = i
      · subst hli
        rw [room_set_same, room_set_of_ne hI.ok hki ha.stores]
        exact (hrooms k hk (Ne.symm hki)).symm
      · rw [room_set_of_ne hI.ok hki ha.stores, room_set_of_ne hI.ok hli ha.stores]
        exact hI.rooms k hk l hl hkl

omit [DecidableEq ι] in
/-- Rooms and queues may shrink. -/
theorem Inv.shrink {W' : World ι} (hI : W.Inv ws) (hok : W'.Ok)
    (hroom : ∀ k ∈ ws, ∀ c ∈ W'.room k, c ∈ W.room k)
    (hcells : ∀ k, ∀ c ∈ W'.cells k, ∃ l, c ∈ W.cells l) : W'.Inv ws := by
  refine ⟨hok, fun k hk l c hc hc' => ?_, fun k hk l hl hkl c hc hc' => ?_⟩
  · obtain ⟨l', hc'⟩ := hcells l c hc'
    exact hI.excl k hk l' (hroom k hk c hc) hc'
  · exact hI.rooms k hk l hl hkl (hroom k hk c hc) (hroom l hl c hc')

theorem consume_inv (hI : W.Inv ws) (hc : Marshal.Consumes W.heap (W.marshal i) m' n) :
    (W.set i W.heap m').Inv ws := by
  refine hI.shrink (consume_ok hI.ok hc) (fun k _ c hmem => ?_) (fun k c hmem => ?_)
  · by_cases hki : k = i
    · subst hki
      rw [room_set_same] at hmem
      exact hc.room_sub c hmem
    · rwa [room_set_of_ne hI.ok hki (Heap.Stores.refl _)] at hmem
  · by_cases hki : k = i
    · subst hki
      rw [cells_set_same, hc.cells_eq] at hmem
      exact ⟨k, List.mem_of_mem_drop hmem⟩
    · rw [W.cells_set_of_ne hki] at hmem
      exact ⟨k, hmem⟩

/-- Use case 1: a slice is cut off into a fresh Marshal, which must not be written. -/
theorem cut_inv (hI : W.Inv ws) (hij : i ≠ j) (hfresh : (W.marshal i).chunkList = [])
    (hm : Marshal.Moves W.heap (W.marshal i) (W.marshal j) h' m' src' n new) :
    ((W.set j h' src').set i h' m').Inv (ws \ {i}) := by
  have hok := move_ok hI.ok hij (.inr hfresh) hm
  have hnew : new = [] := hm.fresh hfresh
  have hmid : (W.set j h' src').AllOk := hI.ok.ok.set hm.stores hm.consumes.ok
  refine (hI.mono Set.sdiff_subset).shrink hok (fun k hk c hmem => ?_) (fun k c hmem => ?_)
  · -- no room of a writer has grown
    have hki : k ≠ i := hk.2
    rw [room, set_marshal_of_ne _ hki] at hmem
    by_cases hkj : k = j
    · subst hkj
      rw [set_marshal_same] at hmem
      have hsub := hm.consumes.room_sub c hmem
      rwa [(hI.ok.ok k).room_eq hm.stores] at hsub
    · rw [W.set_marshal_of_ne hkj] at hmem
      exact Eq.subst (motive := fun r => c ∈ r) ((hI.ok.ok k).room_eq hm.stores) hmem
  · -- no cell is new
    by_cases hki : k = i
    · subst hki
      rw [cells_set_same, hm.cells_eq, hnew, List.append_nil, List.mem_append] at hmem
      rcases hmem with hmem | hmem
      · exact ⟨k, hmem⟩
      · exact ⟨j, List.mem_of_mem_drop (List.mem_of_mem_take hmem)⟩
    · rw [cells_set_of_ne _ hki] at hmem
      by_cases hkj : k = j
      · subst hkj
        rw [cells_set_same, hm.consumes.cells_eq] at hmem
        exact ⟨k, List.mem_of_mem_drop hmem⟩
      · rw [cells_set_of_ne _ hkj] at hmem
        exact ⟨k, hmem⟩

/-- Use case 2: a writer is moved whole behind another one and must not be written again. -/
theorem move_inv (hI : W.Inv ws) (hi : i ∈ ws) (hj : j ∈ ws) (hij : i ≠ j)
    (hn : n = (W.cells j).length)
    (hm : Marshal.Moves W.heap (W.marshal i) (W.marshal j) h' m' src' n new) :
    ((W.set j h' src').set i h' m').Inv (ws \ {j}) := by
  have hex := hI.excl i hi
  have hok := move_ok hI.ok hij (.inl hex) hm
  have hdrop : (W.cells j).drop n = [] := List.drop_of_length_le (Nat.le_of_eq hn.symm)
  -- the new queues consist of old cells and of the copied ones
  have hcells : ∀ k c, c ∈ ((W.set j h' src').set i h' m').cells k →
      (∃ l, c ∈ W.cells l) ∨ c ∈ new := by
    intro k c hc
    by_cases hki : k = i
    · subst hki
      rw [cells_set_same, hm.cells_eq, List.mem_append, List.mem_append] at hc
      rcases hc with (hc | hc) | hc
      · exact .inl ⟨k, hc⟩
      · exact .inr hc
      · exact .inl ⟨j, List.mem_of_mem_drop (List.mem_of_mem_take hc)⟩
    · rw [cells_set_of_ne _ hki] at hc
      by_cases hkj : k = j
      · subst hkj
        rw [cells_set_same, hm.consumes.cells_eq] at hc
        exact .inl ⟨k, List.mem_of_mem_drop hc⟩
      · rw [cells_set_of_ne _ hkj] at hc
        exact .inl ⟨k, hc⟩
  -- the room of the destination was its own or the source's
  have hroom : ∀ c ∈ ((W.set j h' src').set i h' m').room i,
      ((W.marshal i).CanFill W.heap c ∧ c ∉ new) ∨ c ∈ W.room j := by
    intro c hc
    rw [room_set_same] at hc
    rcases hm.room_sub c hc with hc | hc | hc
    · exact .inl hc
    · exact .inr hc
    · rw [show (W.marshal j).cells = W.cells j from rfl, hdrop] at hc
      simp at hc
  have hother : ∀ k, k ≠ i → k ≠ j → ((W.set j h' src').set i h' m').room k = W.room k := by
    intro k hki hkj
    rw [room, set_marshal_of_ne _ hki, set_marshal_of_ne _ hkj]
    exact (hI.ok.ok k).room_eq hm.stores
  have hside : ∀ k ∈ ws, k ≠ i → k ≠ j → ∀ c ∈ ((W.set j h' src').set i h' m').room i,
      c ∉ W.room k := by
    intro k hk hki hkj c hc
    rcases hroom c hc with hc | hc
    · exact hI.not_room hi hk (Ne.symm hki) hc.1
    · exact fun hmem => hI.rooms j hj k hk (Ne.symm hkj) hc hmem
  refine ⟨hok, fun k hk l c hc hc' => ?_, fun k hk l hl hkl => ?_⟩
  · -- what a writer can fill is in no queue
    obtain ⟨hk, hkj⟩ := hk
    by_cases hki : k = i
    · subst hki
      rcases hroom c hc with ⟨hfill, hnot⟩ | hc
      · rcases hcells l c hc' with ⟨l', hc'⟩ | hc'
        · exact hex.not_mem hI.ok hfill l' hc'
        · exact hnot hc'
      · rcases hcells l c hc' with ⟨l', hc'⟩ | hc'
        · exact hI.excl j hj l' hc hc'
        · exact hI.not_room hk hj hij (hm.origin c hc') hc
    · rw [hother k hki hkj] at hc
      rcases hcells l c hc' with ⟨l', hc'⟩ | hc'
      · exact hI.excl k hk l' hc hc'
      · exact hI.not_room hi hk (Ne.symm hki) (hm.origin c hc') hc
  · -- no two writers can fill the same cell
    obtain ⟨hk, hkj⟩ := hk
    obtain ⟨hl, hlj⟩ := hl
    by_cases hki : k = i
    · subst hki
      rw [hother l (Ne.symm hkl) hlj]
      exact fun c hc => hside l hl (Ne.symm hkl) hlj c hc
    · by_cases hli : l = i
      · subst hli
        rw [hother k hki hkj]
        exact fun c hc hc' => hside k hk hki hkj c hc' hc
      · rw [hother k hki hkj, hother l hli hlj]
        exact hI.rooms k hk l hl hkl

omit [DecidableEq ι] in
theorem patch_inv (hI : W.Inv ws) {bm : Bookmark} (hs : W.heap.Stores h' bm p) :
    (World.mk h' W.marshal).Inv ws := by
  refine hI.shrink (patch_ok hI.ok hs) (fun k _ c hc => ?_) (fun k c hc => ⟨k, hc⟩)
  exact Eq.subst (motive := fun r => c ∈ r) ((hI.ok.ok k).room_eq hs) hc

end Discipline

end World

end SimpleRpc.Rpc
