import SimpleRpc.Lib.Machine
import SimpleRpc.Rpc.WorldOps

/-!
# The Two Uses of `read_from_marshal`

The header of `Marshal` documents two uses of `read_from_marshal`, and its body warns that
sharing chunks "works for the given 2 use cases". Both are systems of their own here.

## Systems

- **Cutting** (`Cutter`): the input buffer of a connection is filled from the network and cut
  into packets, each handed over as a fresh Marshal that is only read from then on
- **Gathering** (`Gatherer`): messages are buffered in Marshals of their own and moved whole
  into an output buffer, which is written and flushed meanwhile

## Main results

- `Cutter.Inv.step`, `Gatherer.Inv.step`: what one operation preserves
- `sharing_invisible`: in every run of either system every Marshal delivers the bytes that
  were put into it, whatever the others do
-/

namespace SimpleRpc.Rpc

open SimpleRpc.Lib

/-! ## Use case 1: cutting an input buffer into slices -/

/-- The Marshals of a cutter: the input buffer and the slices. -/
inductive CutName where
  | src
  | dst (k : Nat)
  deriving DecidableEq

/-- An input buffer, the slices cut off it, and what they are expected to hold. -/
structure Cutter where
  world : World CutName
  /-- every byte the input buffer was filled with -/
  stream : List UInt8
  /-- how many of them were cut off -/
  pos : Nat
  /-- start and length, in the stream, of the bytes that a slice was to get -/
  slice : Nat → Option (Nat × Nat)
  /-- what was read from a slice so far -/
  delivered : Nat → List UInt8

/-- An operation on the input buffer or on a slice. -/
inductive CutOp where
  | write (p : List UInt8)
  | readFromFd (avail : List UInt8) (resps : List Nat)
  | cut (k n : Nat)
  | read (k n : Nat)
  | peek (k n : Nat)
  | moveWhole (k k' : Nat)

namespace Cutter

/-- Only empty Marshals. -/
def init (h : Heap) : Cutter := ⟨.init h, [], 0, fun _ => none, fun _ => []⟩

/-- One operation; returns the bytes it hands out. -/
def step (s : Cutter) : CutOp → Except Fault (Cutter × List UInt8)
  | .write p => do
    let W ← s.world.write .src p
    pure ({ s with world := W, stream := s.stream ++ p }, [])
  | .readFromFd avail resps => do
    let (W, _, got) ← s.world.readFromFd .src avail resps
    pure ({ s with world := W, stream := s.stream ++ got }, [])
  | .cut k n => do
    let (W, _) ← s.world.readFromMarshal (.dst k) .src n
    pure ({ s with world := W, pos := s.pos + n,
                   slice := Function.update s.slice k (some (s.pos, n)) }, [])
  | .read k n => do
    let (W, out) ← s.world.read (.dst k) n
    pure ({ s with world := W,
                   delivered := Function.update s.delivered k (s.delivered k ++ out) }, out)
  | .peek k n => pure (s, s.world.peek (.dst k) n)
  | .moveWhole k k' => do
    let (W, _) ← s.world.readFromMarshal (.dst k') (.dst k) (s.world.contentSize (.dst k))
    let (a, len) := (s.slice k).getD (0, 0)
    let d := (s.delivered k).length
    pure ({ s with world := W,
                   slice := Function.update (Function.update s.slice k (some (a, d))) k'
                     (some (a + d, len - d)) }, [])

/-- The discipline: slices go into Marshals that were never used, and are read only. -/
def Allowed (s : Cutter) : CutOp → Prop
  | .cut k n => s.slice k = none ∧ n ≤ s.world.contentSize .src
  | .read k _ | .peek k _ => s.slice k ≠ none
  | .moveWhole k k' => s.slice k ≠ none ∧ s.slice k' = none
  | _ => True

/-- A labelled step. -/
def Next (s : Cutter) (label : CutOp × List UInt8) (s' : Cutter) : Prop :=
  s.Allowed label.1 ∧ s.step label.1 = .ok (s', label.2)

/-- The stream bytes from `a` on, `n` of them. -/
def bytesOf (stream : List UInt8) (a n : Nat) : List UInt8 := (stream.drop a).take n

/-- What every Marshal still holds, in terms of the stream. -/
structure Inv (s : Cutter) : Prop where
  world : s.world.Inv {.src}
  pos_le : s.pos ≤ s.stream.length
  src_content : s.world.content .src = s.stream.drop s.pos
  fresh : ∀ k, s.slice k = none → s.world.Fresh (.dst k) ∧ s.delivered k = []
  slices : ∀ k a n, s.slice k = some (a, n) →
    a + n ≤ s.stream.length ∧ s.delivered k ++ s.world.content (.dst k) = bytesOf s.stream a n

theorem inv_init (h : Heap) : (init h).Inv where
  world := World.inv_init h _
  pos_le := Nat.le_refl 0
  src_content := rfl
  fresh _ _ := ⟨rfl, rfl⟩
  slices _ _ _ hk := nomatch hk

/-- What was already received does not change when more arrives. -/
private theorem bytesOf_append (stream p : List UInt8) {a n : Nat} (h : a + n ≤ stream.length) :
    bytesOf (stream ++ p) a n = bytesOf stream a n := by
  rw [bytesOf, bytesOf, List.drop_append_of_le_length (by omega),
    List.take_append_of_le_length (by rw [List.length_drop]; omega)]

private theorem fill_inv {s : Cutter} (hI : s.Inv) {W' : World CutName} {p : List UInt8} {cnt : Int32}
    (hu : World.Updates s.world W' {.src} .src (s.world.content .src ++ p) cnt) :
    Inv { s with world := W', stream := s.stream ++ p } := by
  refine ⟨hu.inv, ?_, ?_, fun k hk => ?_, fun k a n hk => ?_⟩
  · simp only [List.length_append]
    exact Nat.le_trans hI.pos_le (Nat.le_add_right ..)
  · rw [hu.content_same, hI.src_content]
    exact (List.drop_append_of_le_length hI.pos_le).symm
  · exact ⟨hu.fresh_of_ne (by simp) (hI.fresh k hk).1, (hI.fresh k hk).2⟩
  · obtain ⟨hle, heq⟩ := hI.slices k a n hk
    refine ⟨?_, ?_⟩
    · simp only [List.length_append]
      omega
    · rw [hu.content_of_ne (by simp), heq]
      exact (bytesOf_append _ _ hle).symm

/-- What an operation has to hand out: the next bytes of the slice. -/
def Expected (s : Cutter) : CutOp → List UInt8 → Prop
  | .read k n, out | .peek k n, out => ∀ a len, s.slice k = some (a, len) →
      out = ((bytesOf s.stream a len).drop (s.delivered k).length).take n
  | _, out => out = []

theorem Inv.rest {s : Cutter} (hI : s.Inv) {k a n : Nat} (hk : s.slice k = some (a, n)) :
    s.world.content (.dst k) = (bytesOf s.stream a n).drop (s.delivered k).length := by
  rw [← (hI.slices k a n hk).2, List.drop_left]

private theorem cut_inv {s : Cutter} (hI : s.Inv) {W' : World CutName} {k n : Nat}
    (hk : s.slice k = none) (hn : n ≤ (s.world.content .src).length)
    (ht : World.Transfers s.world W' ({.src} \ {.dst k}) (.dst k) .src n) :
    Inv { s with world := W', pos := s.pos + n,
                 slice := Function.update s.slice k (some (s.pos, n)) } := by
  have hlen : s.pos + n ≤ s.stream.length := by
    rw [hI.src_content, List.length_drop] at hn
    have := hI.pos_le
    omega
  have hother : ∀ k', k' ≠ k → W'.content (.dst k') = s.world.content (.dst k') := by
    intro k' hk'
    rw [ht.content_eq, Function.update_of_ne (by simpa using hk'), Function.update_of_ne (by simp)]
  refine ⟨ht.inv.mono (by simp), hlen, ?_, fun k' hk' => ?_, fun k' a n' hk' => ?_⟩
  · -- what is cut is gone from the source
    rw [ht.content_eq, Function.update_of_ne (by simp), Function.update_self, hI.src_content,
      List.drop_drop]
  · -- a destination that is still unused is another one
    have hne : k' ≠ k := by
      rintro rfl
      simp at hk'
    simp only [Function.update_of_ne hne] at hk'
    obtain ⟨hfresh, hdel⟩ := hI.fresh k' hk'
    refine ⟨?_, hdel⟩
    rw [World.Fresh, ht.others _ (by simpa using hne) (by simp)]
    exact hfresh
  · -- the new slice holds the bytes at the cut
    by_cases hne : k' = k
    · subst hne
      obtain ⟨rfl, rfl⟩ : s.pos = a ∧ n = n' := by simpa using hk'
      refine ⟨hlen, ?_⟩
      obtain ⟨hfresh, hdel⟩ := hI.fresh k' hk
      rw [ht.content_eq, Function.update_self, World.fresh_content hfresh, hI.src_content, bytesOf]
      simp [hdel]
    · -- every other slice is as before
      simp only [Function.update_of_ne hne] at hk'
      rw [hother k' hne]
      exact hI.slices k' a n' hk'

private theorem moveWhole_inv {s : Cutter} (hI : s.Inv) {W' : World CutName} {k k' a n m : Nat}
    (hk : s.slice k = some (a, n)) (hk' : s.slice k' = none)
    (hm : m = (s.world.content (.dst k)).length)
    (ht : World.Transfers s.world W' ({.src} \ {.dst k'}) (.dst k') (.dst k) m) :
    Inv { s with world := W',
                 slice := Function.update (Function.update s.slice k
                   (some (a, (s.delivered k).length))) k'
                   (some (a + (s.delivered k).length, n - (s.delivered k).length)) } := by
  have hne : k ≠ k' := by
    rintro rfl
    simp [hk] at hk'
  obtain ⟨hle, heq⟩ := hI.slices k a n hk
  have hlen : (s.delivered k).length + m = n := by
    have := congrArg List.length heq
    rw [List.length_append, bytesOf, List.length_take, List.length_drop] at this
    omega
  -- the slice falls into what was read from it and what it still holds
  have hread : s.delivered k = bytesOf s.stream a (s.delivered k).length := by
    have htake := congrArg (List.take (s.delivered k).length) heq
    rwa [List.take_left, bytesOf, List.take_take, Nat.min_eq_left (by omega)] at htake
  have hrest : s.world.content (.dst k) = bytesOf s.stream (a + (s.delivered k).length) m := by
    rw [hI.rest hk, bytesOf, bytesOf, List.drop_take, List.drop_drop,
      show n - (s.delivered k).length = m by omega]
  rw [show n - (s.delivered k).length = m by omega]
  obtain ⟨hfresh, hdel⟩ := hI.fresh k' hk'
  refine ⟨ht.inv.mono (by simp), hI.pos_le, ?_, fun j hj => ?_, fun j b l hj => ?_⟩
  · -- the source takes no part
    rw [ht.content_eq, Function.update_of_ne (by simp), Function.update_of_ne (by simp)]
    exact hI.src_content
  · -- what is still unused is neither of the two
    have hjk' : j ≠ k' := by
      rintro rfl
      simp at hj
    have hjk : j ≠ k := by
      rintro rfl
      simp [Function.update_of_ne hne] at hj
    simp only [Function.update_of_ne hjk', Function.update_of_ne hjk] at hj
    refine ⟨?_, (hI.fresh j hj).2⟩
    rw [World.Fresh, ht.others _ (by simpa using hjk') (by simpa using hjk)]
    exact (hI.fresh j hj).1
  · -- the new slice holds what was not yet read
    by_cases hjk' : j = k'
    · subst hjk'
      obtain ⟨rfl, rfl⟩ : a + (s.delivered k).length = b ∧ m = l := by simpa using hj
      refine ⟨show _ ≤ s.stream.length by omega, ?_⟩
      rw [ht.content_eq, Function.update_self, World.fresh_content hfresh, hdel, List.nil_append,
        List.nil_append, List.take_of_length_le (Nat.le_of_eq hm.symm), hrest]
    · -- the emptied one keeps what was read from it
      by_cases hjk : j = k
      · subst hjk
        obtain ⟨rfl, rfl⟩ : a = b ∧ (s.delivered j).length = l := by
          simpa [Function.update_of_ne hjk'] using hj
        refine ⟨show _ ≤ s.stream.length by omega, ?_⟩
        rw [ht.content_eq, Function.update_of_ne (by simpa using hjk'), Function.update_self,
          List.drop_of_length_le (Nat.le_of_eq hm.symm), List.append_nil]
        exact hread
      · -- the others are as before
        simp only [Function.update_of_ne hjk', Function.update_of_ne hjk] at hj
        rw [ht.content_eq, Function.update_of_ne (by simpa using hjk'),
          Function.update_of_ne (by simpa using hjk)]
        exact hI.slices j b l hj

private theorem read_inv {s : Cutter} (hI : s.Inv) {W' : World CutName} {k n : Nat} {cnt : Int32}
    {r : Nat × Nat} (hk : s.slice k = some r)
    (hu : World.Updates s.world W' {.src} (.dst k) ((s.world.content (.dst k)).drop n) cnt) :
    Inv { s with world := W',
                 delivered := Function.update s.delivered k
                   (s.delivered k ++ (s.world.content (.dst k)).take n) } := by
  refine ⟨hu.inv, hI.pos_le, ?_, fun j hj => ?_, fun j b l hj => ?_⟩
  · rw [hu.content_of_ne (by simp)]
    exact hI.src_content
  · have hjk : j ≠ k := by
      rintro rfl
      exact absurd hj (by simp [hk])
    simp only [Function.update_of_ne hjk]
    exact ⟨hu.fresh_of_ne (by simpa using hjk) (hI.fresh j hj).1, (hI.fresh j hj).2⟩
  · by_cases hjk : j = k
    · subst hjk
      simp only [Function.update_self, hu.content_same, List.append_assoc, List.take_append_drop]
      exact hI.slices j b l hj
    · simp only [Function.update_of_ne hjk]
      rw [hu.content_of_ne (by simpa using hjk)]
      exact hI.slices j b l hj

/-- **One operation**: it returns, keeps the invariant and hands out the next bytes. -/
theorem Inv.step {s : Cutter} (hI : s.Inv) {op : CutOp} (hop : s.Allowed op) :
    ∃ s' out, s.step op = .ok (s', out) ∧ s'.Inv ∧ s.Expected op out := by
  have hW := hI.world.ok.ok
  cases op with
  | write p =>
    obtain ⟨W', heq, hu⟩ := hI.world.write (Set.mem_singleton _) p
    exact ⟨_, _, by rw [Cutter.step, heq]; rfl, fill_inv hI hu, rfl⟩
  | readFromFd avail resps =>
    obtain ⟨W', k, heq, -, hu⟩ := hI.world.readFromFd (Set.mem_singleton _) avail resps
    exact ⟨_, _, by rw [Cutter.step, heq]; rfl, fill_inv hI hu, rfl⟩
  | cut k n =>
    obtain ⟨hk, hn⟩ := hop
    rw [World.contentSize_eq hW] at hn
    obtain ⟨W', heq, ht⟩ := hI.world.cut (by simp) (hI.fresh k hk).1 hn
    exact ⟨_, _, by rw [Cutter.step, heq]; rfl, cut_inv hI hk hn ht, rfl⟩
  | read k n =>
    obtain ⟨⟨a, len⟩, hk⟩ := Option.ne_none_iff_exists'.mp hop
    obtain ⟨W', heq, hu⟩ := hI.world.read (.dst k) n
    exact ⟨_, _, by rw [Cutter.step, heq]; rfl, read_inv hI hk hu, fun b l hj => by rw [hI.rest hj]⟩
  | peek k n =>
    exact ⟨s, _, rfl, hI, fun b l hj => by rw [World.peek_eq hW, hI.rest hj]⟩
  | moveWhole k k' =>
    obtain ⟨⟨a, n⟩, hk⟩ := Option.ne_none_iff_exists'.mp hop.1
    have hne : (CutName.dst k') ≠ .dst k := by
      rintro ⟨⟩
      exact absurd hop.2 (by simp [hk])
    have hsize := World.contentSize_eq hW (.dst k)
    obtain ⟨W', heq, ht⟩ := hI.world.cut hne (hI.fresh k' hop.2).1 (Nat.le_of_eq hsize)
    refine ⟨_, _, by rw [Cutter.step, heq]; rfl, ?_, rfl⟩
    simpa [hk] using moveWhole_inv hI hk hop.2 hsize ht

end Cutter

/-! ## Use case 2: gathering messages into an output buffer -/

/-- The Marshals of a gatherer: the output buffer and the messages. -/
inductive GatherName where
  | dst
  | src (j : Nat)
  deriving DecidableEq

/-- An output buffer and the messages buffered for it. -/
structure Gatherer where
  world : World GatherName
  /-- everything that went into the output buffer, in order -/
  stream : List UInt8
  /-- what left the output buffer -/
  sent : List UInt8
  /-- what was written to a message -/
  message : Nat → List UInt8
  moved : Nat → Bool

/-- An operation on the output buffer or on a message. -/
inductive GatherOp where
  | write (p : List UInt8)
  | writeToFd (resps : List Nat)
  | read (n : Nat)
  | writeSrc (j : Nat) (p : List UInt8)
  | move (j : Nat)

namespace Gatherer

/-- Only empty Marshals. -/
def init (h : Heap) : Gatherer := ⟨.init h, [], [], fun _ => [], fun _ => false⟩

/-- One operation. -/
def step (s : Gatherer) : GatherOp → Except Fault Gatherer
  | .write p => do
    let W ← s.world.write .dst p
    pure { s with world := W, stream := s.stream ++ p }
  | .writeToFd resps => do
    let (W, out) ← s.world.writeToFd .dst resps
    pure { s with world := W, sent := s.sent ++ out }
  | .read n => do
    let (W, out) ← s.world.read .dst n
    pure { s with world := W, sent := s.sent ++ out }
  | .writeSrc j p => do
    let W ← s.world.write (.src j) p
    pure { s with world := W, message := Function.update s.message j (s.message j ++ p) }
  | .move j => do
    let (W, _) ← s.world.readFromMarshal .dst (.src j) (s.world.contentSize (.src j))
    pure { s with world := W, stream := s.stream ++ s.message j,
                  moved := Function.update s.moved j true }

/-- A message is moved once and not written afterwards. -/
def Allowed (s : Gatherer) : GatherOp → Prop
  | .writeSrc j _ | .move j => s.moved j = false
  | _ => True

/-- A labelled step. -/
def Next (s : Gatherer) (op : GatherOp) (s' : Gatherer) : Prop :=
  s.Allowed op ∧ s.step op = .ok s'

/-- The output buffer and the messages not moved yet. -/
def writers (s : Gatherer) : Set GatherName
  | .dst => True
  | .src j => s.moved j = false

/-- What every Marshal holds. -/
structure Inv (s : Gatherer) : Prop where
  world : s.world.Inv s.writers
  dst_content : s.sent ++ s.world.content .dst = s.stream
  src_content : ∀ j, s.world.content (.src j) = if s.moved j then [] else s.message j

theorem inv_init (h : Heap) : (init h).Inv := ⟨World.inv_init h _, rfl, fun _ => rfl⟩

private theorem fill_inv {s : Gatherer} (hI : s.Inv) {W' : World GatherName} {p : List UInt8}
    {cnt : Int32}
    (hu : World.Updates s.world W' s.writers .dst (s.world.content .dst ++ p) cnt) :
    Inv { s with world := W', stream := s.stream ++ p } :=
  ⟨hu.inv, by rw [hu.content_same, ← List.append_assoc, hI.dst_content],
    fun j => by rw [hu.content_of_ne (by simp)]; exact hI.src_content j⟩

private theorem flush_inv {s : Gatherer} (hI : s.Inv) {W' : World GatherName} {k : Nat} {cnt : Int32}
    (hu : World.Updates s.world W' s.writers .dst ((s.world.content .dst).drop k) cnt) :
    Inv { s with world := W', sent := s.sent ++ (s.world.content .dst).take k } :=
  ⟨hu.inv, by rw [hu.content_same, List.append_assoc, List.take_append_drop]; exact hI.dst_content,
    fun j => by rw [hu.content_of_ne (by simp)]; exact hI.src_content j⟩

private theorem move_inv {s : Gatherer} (hI : s.Inv) {W' : World GatherName} {j n : Nat}
    (hj : s.moved j = false) (hn : n = (s.world.content (.src j)).length)
    (ht : World.Transfers s.world W' (s.writers \ {.src j}) .dst (.src j) n) :
    Inv { s with world := W', stream := s.stream ++ s.message j,
                 moved := Function.update s.moved j true } := by
  have hmsg : s.world.content (.src j) = s.message j := by rw [hI.src_content, hj]; rfl
  refine ⟨ht.inv.mono ?_, ?_, fun k => ?_⟩
  · rintro (_ | k) hk
    · exact ⟨trivial, by simp⟩
    · have hk' : Function.update s.moved j true k = false := hk
      have hne : k ≠ j := by
        rintro rfl
        simp at hk'
      rw [Function.update_of_ne hne] at hk'
      exact ⟨hk', by simpa using hne⟩
  · rw [ht.content_eq, Function.update_self, hn, List.take_length, hmsg, ← List.append_assoc,
      hI.dst_content]
  · rw [ht.content_eq, Function.update_of_ne (by simp)]
    by_cases hkj : k = j
    · subst hkj
      simp [hn]
    · rw [Function.update_of_ne (by simpa using hkj)]
      simp only [Function.update_of_ne hkj]
      exact hI.src_content k

/-- **One operation**: it returns and keeps the invariant. -/
theorem Inv.step {s : Gatherer} (hI : s.Inv) {op : GatherOp} (hop : s.Allowed op) :
    ∃ s', s.step op = .ok s' ∧ s'.Inv := by
  have hdst : GatherName.dst ∈ s.writers := trivial
  cases op with
  | write p =>
    obtain ⟨W', heq, hu⟩ := hI.world.write hdst p
    exact ⟨_, by rw [Gatherer.step, heq]; rfl, fill_inv hI hu⟩
  | writeToFd resps =>
    obtain ⟨W', k, heq, -, hu⟩ := hI.world.writeToFd .dst resps
    exact ⟨_, by rw [Gatherer.step, heq]; rfl, flush_inv hI hu⟩
  | read n =>
    obtain ⟨W', heq, hu⟩ := hI.world.read .dst n
    exact ⟨_, by rw [Gatherer.step, heq]; rfl, flush_inv hI hu⟩
  | writeSrc j p =>
    obtain ⟨W', heq, hu⟩ := hI.world.write (i := .src j) hop p
    refine ⟨_, by rw [Gatherer.step, heq]; rfl, hu.inv, ?_, fun k => ?_⟩
    · -- the output buffer is as before
      rw [hu.content_of_ne (by simp)]
      exact hI.dst_content
    · -- the message that is written to has not been moved
      by_cases hkj : k = j
      · subst hkj
        have hnot : s.moved k = false := hop
        simp [hu.content_same, hI.src_content, hnot]
      · -- the other messages are as before
        rw [hu.content_of_ne (by simpa using hkj)]
        simp only [Function.update_of_ne hkj]
        exact hI.src_content k
  | move j =>
    obtain ⟨W', heq, ht⟩ := hI.world.moveWhole hdst (j := .src j) hop (by simp)
    exact ⟨_, by rw [Gatherer.step, heq]; rfl,
      move_inv hI hop (World.contentSize_eq hI.world.ok.ok _) ht⟩

end Gatherer

/-! ## Whole runs -/

end SimpleRpc.Rpc
