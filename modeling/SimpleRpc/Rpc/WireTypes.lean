import Mathlib.Data.Finmap
import SimpleRpc.Rpc.Operators

/-!
# The Wire Format of Every Type (`rpc/marshal.h`, `lang_cpp.py`)

The types a message can contain, from the integers through the standard containers to the
structs `rpcgen` generates, each with its `operator<<` and its `operator>>`.

## Layers

- **Objects** (`Ty.Obj`): what `operator<<` is applied to. A set or map object is the sequence
  its iterators visit, sorted or in bucket order
- **Values** (`Ty.Val`): what two objects are compared by. Sets and maps are finite sets and
  finite maps
- **Code** (`Ty.put`, `Ty.get`): the two operators; `get` rebuilds a set or map by inserting
- **Format** (`Ty.enc`): the bytes

## Main results

- `Ty.puts_put`: `operator<<` appends `enc`
- `Ty.gets_get`: `operator>>` reads the value back from `enc`
- `wire_roundTrip`: both together, for every type
-/

namespace SimpleRpc.Rpc

open SimpleRpc.Lib SimpleRpc.Base

/-! ## Types, objects and values -/

/-- The types that are not built from others. -/
inductive Leaf where
  | i8 | i16 | i32 | i64
  | u8 | u16 | u32 | u64
  | double
  | v32 | v64
  | string
  deriving DecidableEq

mutual

/-- A type that has both stream operators. -/
inductive Ty where
  | leaf (l : Leaf)
  | pair (a b : Ty)
  | vector (a : Ty)
  | list (a : Ty)
  | set (a : Ty)
  | map (k v : Ty)
  | unorderedSet (a : Ty)
  | unorderedMap (k v : Ty)
  | struct (name : String) (fields : Fields)

/-- The fields of a generated struct, in order. -/
inductive Fields where
  | nil
  | cons (name : String) (ty : Ty) (rest : Fields)

end

/-- An object of a leaf type; a double is its eight bytes. -/
def Leaf.Val : Leaf → Type
  | .i8 => Int8
  | .i16 => Int16
  | .i32 => Int32
  | .i64 => Int64
  | .u8 => UInt8
  | .u16 => UInt16
  | .u32 => UInt32
  | .u64 => UInt64
  | .double => UInt64
  | .v32 => Int32
  | .v64 => Int64
  | .string => List UInt8

mutual

/-- What an object of the type means. -/
def Ty.Val : Ty → Type
  | .leaf l => l.Val
  | .pair a b => a.Val × b.Val
  | .vector a => List a.Val
  | .list a => List a.Val
  | .set a => Finset a.Val
  | .map k v => Finmap fun _ : k.Val => v.Val
  | .unorderedSet a => Finset a.Val
  | .unorderedMap k v => Finmap fun _ : k.Val => v.Val
  | .struct _ fs => fs.Val

/-- One value for each field. -/
def Fields.Val : Fields → Type
  | .nil => Unit
  | .cons _ t fs => t.Val × fs.Val

end

mutual

/-- An object of the type. -/
def Ty.Obj : Ty → Type
  | .leaf l => l.Val
  | .pair a b => a.Obj × b.Obj
  | .vector a => List a.Obj
  | .list a => List a.Obj
  | .set a => List a.Obj
  | .map k v => List (k.Obj × v.Obj)
  | .unorderedSet a => List a.Obj
  | .unorderedMap k v => List (k.Obj × v.Obj)
  | .struct _ fs => fs.Obj

/-- One object for each field. -/
def Fields.Obj : Fields → Type
  | .nil => Unit
  | .cons _ t fs => t.Obj × fs.Obj

end

instance (l : Leaf) : DecidableEq l.Val :=
  match l with
  | .i8 => inferInstanceAs (DecidableEq Int8)
  | .i16 => inferInstanceAs (DecidableEq Int16)
  | .i32 | .v32 => inferInstanceAs (DecidableEq Int32)
  | .i64 | .v64 => inferInstanceAs (DecidableEq Int64)
  | .u8 => inferInstanceAs (DecidableEq UInt8)
  | .u16 => inferInstanceAs (DecidableEq UInt16)
  | .u32 => inferInstanceAs (DecidableEq UInt32)
  | .u64 | .double => inferInstanceAs (DecidableEq UInt64)
  | .string => inferInstanceAs (DecidableEq (List UInt8))

mutual

/-- Equality of elements and keys, which the containers decide by. -/
def Ty.decEqVal : (t : Ty) → DecidableEq t.Val
  | .leaf l => inferInstanceAs (DecidableEq l.Val)
  | .pair a b =>
    have := a.decEqVal
    have := b.decEqVal
    inferInstanceAs (DecidableEq (a.Val × b.Val))
  | .vector a | .list a =>
    have := a.decEqVal
    inferInstanceAs (DecidableEq (List a.Val))
  | .set a | .unorderedSet a =>
    have := a.decEqVal
    inferInstanceAs (DecidableEq (Finset a.Val))
  | .map k v | .unorderedMap k v =>
    have := k.decEqVal
    have := v.decEqVal
    inferInstanceAs (DecidableEq (Finmap fun _ : k.Val => v.Val))
  | .struct _ fs => fs.decEqVal

/-- Equality of structs, field by field. -/
def Fields.decEqVal : (fs : Fields) → DecidableEq fs.Val
  | .nil => inferInstanceAs (DecidableEq Unit)
  | .cons _ t fs =>
    have := t.decEqVal
    have := fs.decEqVal
    inferInstanceAs (DecidableEq (t.Val × fs.Val))

end

instance (t : Ty) : DecidableEq t.Val := t.decEqVal

mutual

/-- The value of an object. -/
def Ty.val : (t : Ty) → t.Obj → t.Val
  | .leaf _, x => x
  | .pair a b, x => (a.val x.1, b.val x.2)
  | .vector a, (xs : List a.Obj) => xs.map a.val
  | .list a, (xs : List a.Obj) => xs.map a.val
  | .set a, (xs : List a.Obj) => (xs.map a.val).toFinset
  | .map k v, (xs : List (k.Obj × v.Obj)) =>
    (xs.map fun x => (⟨k.val x.1, v.val x.2⟩ : (_ : k.Val) × v.Val)).toFinmap
  | .unorderedSet a, (xs : List a.Obj) => (xs.map a.val).toFinset
  | .unorderedMap k v, (xs : List (k.Obj × v.Obj)) =>
    (xs.map fun x => (⟨k.val x.1, v.val x.2⟩ : (_ : k.Val) × v.Val)).toFinmap
  | .struct _ fs, x => fs.val x

/-- The values of the fields. -/
def Fields.val : (fs : Fields) → fs.Obj → fs.Val
  | .nil, _ => ()
  | .cons _ t fs, x => (t.val x.1, fs.val x.2)

end

/-! ## The stream operators -/

namespace MarshalM

/-- `for (i = 0; i < n; i++) { b = f(b); }` -/
def loop {β : Type} (f : β → MarshalM β) : Nat → β → MarshalM β
  | 0, b => pure b
  | n + 1, b => do
    let b ← f b
    loop f n b

/-- `for (x in xs) { f(x); }` -/
def each {α : Type} (f : α → MarshalM Unit) : List α → MarshalM Unit
  | [] => pure ()
  | x :: xs => do
    f x
    each f xs

/-- `v64 v_len = n; m << v_len;` -/
def putLen (n : Nat) : MarshalM Unit := putV64 [] (Int64.ofNat n)

/-- `v64 v_len; m >> v_len;` where the local array held `bufs n` when the Marshal had `n` bytes
    left, so that no two calls see the same array. -/
def getLen (bufs : Nat → List UInt8) : MarshalM Int64 := fun (h, m) =>
  getV64 (bufs m.contentSize) (h, m)

/-- `operator<<(Marshal&, const std::string&)` -/
def putString (x : List UInt8) : MarshalM Unit := do
  putLen x.length
  if 0 < x.length then write x else pure ()

/-- `operator>>(Marshal&, std::string&)`; `resize` throws on a negative length. -/
def getString (bufs : Nat → List UInt8) : MarshalM (List UInt8) := do
  let len ← getLen bufs
  if len < 0 then fail .lengthError
  else if 0 < len then read len.toInt.toNat
  else pure []

/-- The number of iterations of `for (int i = 0; i < v_len.get(); i++)`. -/
def loopCount (len : Int64) : MarshalM Nat :=
  if 2147483647 < len then fail .noProgress else pure len.toInt.toNat

/-- `insert_into_map`: an existing key keeps its value. -/
def insertIntoMap {κ ν : Type} [DecidableEq κ] (m : Finmap fun _ : κ => ν) (k : κ) (v : ν) :
    Finmap fun _ : κ => ν :=
  if k ∈ m then m else m.insert k v

/-- `operator>>(Marshal&, std::vector<T>&)`; `reserve` throws on a negative length. -/
def getVector {α : Type} (bufs : Nat → List UInt8) (get : MarshalM α) : MarshalM (List α) := do
  let len ← getLen bufs
  if len < 0 then fail .lengthError
  else do
    let n ← loopCount len
    loop (fun xs => do let x ← get; pure (xs ++ [x])) n []

/-- `operator>>(Marshal&, std::list<T>&)` -/
def getList {α : Type} (bufs : Nat → List UInt8) (get : MarshalM α) : MarshalM (List α) := do
  let len ← getLen bufs
  let n ← loopCount len
  loop (fun xs => do let x ← get; pure (xs ++ [x])) n []

/-- `operator>>` of `std::set<T>` and of `std::unordered_set<T>` -/
def getSet {α : Type} [DecidableEq α] (bufs : Nat → List UInt8) (get : MarshalM α) :
    MarshalM (Finset α) := do
  let len ← getLen bufs
  let n ← loopCount len
  loop (fun xs => do let x ← get; pure (insert x xs)) n ∅

/-- `operator>>` of `std::map<K, V>` and of `std::unordered_map<K, V>` -/
def getMap {κ ν : Type} [DecidableEq κ] (bufs : Nat → List UInt8) (getK : MarshalM κ)
    (getV : MarshalM ν) : MarshalM (Finmap fun _ : κ => ν) := do
  let len ← getLen bufs
  let n ← loopCount len
  loop (fun m => do let k ← getK; let v ← getV; pure (insertIntoMap m k v)) n ∅

end MarshalM

open MarshalM

/-- `operator<<` of a leaf type. -/
def Leaf.put : (l : Leaf) → l.Val → MarshalM Unit
  | .i8, (x : Int8) => putNat 1 x.toUInt8.toNat
  | .i16, (x : Int16) => putNat 2 x.toUInt16.toNat
  | .i32, (x : Int32) => putI32 x
  | .i64, (x : Int64) => putNat 8 x.toUInt64.toNat
  | .u8, (x : UInt8) => putNat 1 x.toNat
  | .u16, (x : UInt16) => putNat 2 x.toNat
  | .u32, (x : UInt32) => putNat 4 x.toNat
  | .u64, (x : UInt64) => putNat 8 x.toNat
  | .double, (x : UInt64) => putNat 8 x.toNat
  | .v32, (x : Int32) => putV32 [] x
  | .v64, (x : Int64) => putV64 [] x
  | .string, x => putString x

/-- `operator>>` of a leaf type. -/
def Leaf.get (bufs : Nat → List UInt8) : (l : Leaf) → MarshalM l.Val
  | .i8 => do let n ← getNat 1; pure (UInt8.ofNat n).toInt8
  | .i16 => do let n ← getNat 2; pure (UInt16.ofNat n).toInt16
  | .i32 => getI32
  | .i64 => do let n ← getNat 8; pure (UInt64.ofNat n).toInt64
  | .u8 => do let n ← getNat 1; pure (UInt8.ofNat n)
  | .u16 => do let n ← getNat 2; pure (UInt16.ofNat n)
  | .u32 => do let n ← getNat 4; pure (UInt32.ofNat n)
  | .u64 => do let n ← getNat 8; pure (UInt64.ofNat n)
  | .double => do let n ← getNat 8; pure (UInt64.ofNat n)
  | .v32 => fun (h, m) => getV32 (bufs m.contentSize) (h, m)
  | .v64 => getLen bufs
  | .string => getString bufs

mutual

/-- `operator<<(Marshal&, const T&)` -/
def Ty.put : (t : Ty) → t.Obj → MarshalM Unit
  | .leaf l, x => l.put x
  | .pair a b, x => do a.put x.1; b.put x.2
  | .vector a, (xs : List a.Obj) => do putLen xs.length; each a.put xs
  | .list a, (xs : List a.Obj) => do putLen xs.length; each a.put xs
  | .set a, (xs : List a.Obj) => do putLen xs.length; each a.put xs
  | .map k v, (xs : List (k.Obj × v.Obj)) => do
    putLen xs.length
    each (fun x => do k.put x.1; v.put x.2) xs
  | .unorderedSet a, (xs : List a.Obj) => do putLen xs.length; each a.put xs
  | .unorderedMap k v, (xs : List (k.Obj × v.Obj)) => do
    putLen xs.length
    each (fun x => do k.put x.1; v.put x.2) xs
  | .struct _ fs, x => fs.put x

/-- `m << o.f1; m << o.f2; ...` as `emit_struct` prints it -/
def Fields.put : (fs : Fields) → fs.Obj → MarshalM Unit
  | .nil, _ => pure ()
  | .cons _ t fs, x => do t.put x.1; fs.put x.2

end

mutual

/-- `operator>>(Marshal&, T&)` -/
def Ty.get (bufs : Nat → List UInt8) : (t : Ty) → MarshalM t.Val
  | .leaf l => l.get bufs
  | .pair a b => do let x ← a.get bufs; let y ← b.get bufs; pure (x, y)
  | .vector a => getVector bufs (a.get bufs)
  | .list a => getList bufs (a.get bufs)
  | .set a => getSet bufs (a.get bufs)
  | .map k v => getMap bufs (k.get bufs) (v.get bufs)
  | .unorderedSet a => getSet bufs (a.get bufs)
  | .unorderedMap k v => getMap bufs (k.get bufs) (v.get bufs)
  | .struct _ fs => fs.get bufs

/-- `m >> o.f1; m >> o.f2; ...` as `emit_struct` prints it -/
def Fields.get (bufs : Nat → List UInt8) : (fs : Fields) → MarshalM fs.Val
  | .nil => pure ()
  | .cons _ t fs => do let x ← t.get bufs; let y ← fs.get bufs; pure (x, y)

end

/-! ## The format -/

/-- The length prefix of a container. -/
def encLen (n : Nat) : List UInt8 := SparseInt.encode64 (Int64.ofNat n)

/-- The bytes of a leaf. -/
def Leaf.enc : (l : Leaf) → l.Val → List UInt8
  | .i8, (x : Int8) => leBytes 1 x.toUInt8.toNat
  | .i16, (x : Int16) => leBytes 2 x.toUInt16.toNat
  | .i32, (x : Int32) => leBytes 4 x.toUInt32.toNat
  | .i64, (x : Int64) => leBytes 8 x.toUInt64.toNat
  | .u8, (x : UInt8) => leBytes 1 x.toNat
  | .u16, (x : UInt16) => leBytes 2 x.toNat
  | .u32, (x : UInt32) => leBytes 4 x.toNat
  | .u64, (x : UInt64) => leBytes 8 x.toNat
  | .double, (x : UInt64) => leBytes 8 x.toNat
  | .v32, (x : Int32) => SparseInt.encode32 x
  | .v64, (x : Int64) => SparseInt.encode64 x
  | .string, (x : List UInt8) => encLen x.length ++ x

mutual

/-- The bytes of an object. -/
def Ty.enc : (t : Ty) → t.Obj → List UInt8
  | .leaf l, x => l.enc x
  | .pair a b, x => a.enc x.1 ++ b.enc x.2
  | .vector a, (xs : List a.Obj) => encLen xs.length ++ xs.flatMap a.enc
  | .list a, (xs : List a.Obj) => encLen xs.length ++ xs.flatMap a.enc
  | .set a, (xs : List a.Obj) => encLen xs.length ++ xs.flatMap a.enc
  | .map k v, (xs : List (k.Obj × v.Obj)) =>
    encLen xs.length ++ xs.flatMap fun x => k.enc x.1 ++ v.enc x.2
  | .unorderedSet a, (xs : List a.Obj) => encLen xs.length ++ xs.flatMap a.enc
  | .unorderedMap k v, (xs : List (k.Obj × v.Obj)) =>
    encLen xs.length ++ xs.flatMap fun x => k.enc x.1 ++ v.enc x.2
  | .struct _ fs, x => fs.enc x

/-- The bytes of the fields. -/
def Fields.enc : (fs : Fields) → fs.Obj → List UInt8
  | .nil, _ => []
  | .cons _ t fs, x => t.enc x.1 ++ fs.enc x.2

end

/-- A leaf the format carries: a string is shorter than 2^31 bytes and a `v64` is not in the
    8-byte class. -/
def Leaf.Fits : (l : Leaf) → l.Val → Prop
  | .v64, (x : Int64) => SparseInt.valSize x ≠ 8
  | .string, (x : List UInt8) => x.length < 2 ^ 31
  | _, _ => True

mutual

/-- An object the format carries: containers have fewer than 2^31 elements. -/
def Ty.Fits : (t : Ty) → t.Obj → Prop
  | .leaf l, x => l.Fits x
  | .pair a b, x => a.Fits x.1 ∧ b.Fits x.2
  | .vector a, (xs : List a.Obj) => xs.length < 2 ^ 31 ∧ ∀ x ∈ xs, a.Fits x
  | .list a, (xs : List a.Obj) => xs.length < 2 ^ 31 ∧ ∀ x ∈ xs, a.Fits x
  | .set a, (xs : List a.Obj) => xs.length < 2 ^ 31 ∧ ∀ x ∈ xs, a.Fits x
  | .map k v, (xs : List (k.Obj × v.Obj)) =>
    xs.length < 2 ^ 31 ∧ ∀ x ∈ xs, k.Fits x.1 ∧ v.Fits x.2
  | .unorderedSet a, (xs : List a.Obj) => xs.length < 2 ^ 31 ∧ ∀ x ∈ xs, a.Fits x
  | .unorderedMap k v, (xs : List (k.Obj × v.Obj)) =>
    xs.length < 2 ^ 31 ∧ ∀ x ∈ xs, k.Fits x.1 ∧ v.Fits x.2
  | .struct _ fs, x => fs.Fits x

/-- Every field fits. -/
def Fields.Fits : (fs : Fields) → fs.Obj → Prop
  | .nil, _ => True
  | .cons _ t fs, x => t.Fits x.1 ∧ fs.Fits x.2

end

/-! ## Loops -/

theorem puts_each {α : Type} {f : α → MarshalM Unit} {e : α → List UInt8} {xs : List α}
    (hf : ∀ x ∈ xs, Puts (f x) (e x)) : Puts (each f xs) (xs.flatMap e) := by
  induction xs with
  | nil => exact Puts.pure
  | cons x xs ih =>
    rw [List.flatMap_cons]
    exact (hf x (List.mem_cons_self ..)).bind (ih fun y hy => hf y (List.mem_cons_of_mem _ hy))

theorem gets_loop {α β : Type} {f : β → MarshalM β} {e : α → List UInt8} {g : β → α → β}
    {xs : List α} (hf : ∀ b, ∀ x ∈ xs, Gets (f b) (e x) (g b x)) (b : β) :
    Gets (loop f xs.length b) (xs.flatMap e) (xs.foldl g b) := by
  induction xs generalizing b with
  | nil => exact Gets.pure b
  | cons x xs ih =>
    rw [List.flatMap_cons]
    exact (hf b x (List.mem_cons_self ..)).bind
      (ih (fun c y hy => hf c y (List.mem_cons_of_mem _ hy)) (g b x))

theorem toInt_ofNat_of_small {n : Nat} (hn : n < 2 ^ 31) : (Int64.ofNat n).toInt = n :=
  Int64.toInt_ofNat_of_lt (by omega)

theorem gets_getLen (bufs : Nat → List UInt8) {n : Nat} (hn : n < 2 ^ 31) :
    Gets (getLen bufs) (encLen n) (Int64.ofNat n) := by
  intro h m rest hm hcontent
  refine gets_getV64 (bufs m.contentSize) _ ?_ h m rest hm hcontent
  exact SparseInt.valSize_ne_eight (by rw [toInt_ofNat_of_small hn]; omega)
    (by rw [toInt_ofNat_of_small hn]; omega)

theorem loopCount_ofNat {n : Nat} (hn : n < 2 ^ 31) : loopCount (Int64.ofNat n) = pure n := by
  have hle : ¬ 2147483647 < Int64.ofNat n := by
    rw [Int64.lt_iff_toInt_lt, toInt_ofNat_of_small hn]
    have : (2147483647 : Int64).toInt = 2147483647 := by decide
    omega
  rw [loopCount, if_neg hle, toInt_ofNat_of_small hn, Int.toNat_natCast]

theorem ofNat_not_neg {n : Nat} (hn : n < 2 ^ 31) : ¬ Int64.ofNat n < 0 := by
  rw [Int64.lt_iff_toInt_lt, toInt_ofNat_of_small hn]
  have : (0 : Int64).toInt = 0 := by decide
  omega

section Containers

variable {α : Type} {e : α → List UInt8}

/-- Every container is read back by its loop. -/
private theorem gets_counted {β : Type} (bufs : Nat → List UInt8) {f : β → MarshalM β}
    {g : β → α → β} {xs : List α} (hlen : xs.length < 2 ^ 31)
    (hf : ∀ b, ∀ x ∈ xs, Gets (f b) (e x) (g b x)) (b : β) :
    Gets (do let len ← getLen bufs; let n ← loopCount len; loop f n b)
      (encLen xs.length ++ xs.flatMap e) (xs.foldl g b) := by
  refine (gets_getLen bufs hlen).bind ?_
  rw [loopCount_ofNat hlen]
  exact gets_loop hf b

private theorem foldl_concat {β : Type} (v : α → β) (xs : List α) (acc : List β) :
    xs.foldl (fun ys x => ys ++ [v x]) acc = acc ++ xs.map v := by
  induction xs generalizing acc with
  | nil => simp
  | cons x xs ih => simp [ih]

theorem gets_getList {β : Type} (bufs : Nat → List UInt8) {get : MarshalM β} {v : α → β}
    {xs : List α} (hlen : xs.length < 2 ^ 31) (hget : ∀ x ∈ xs, Gets get (e x) (v x)) :
    Gets (getList bufs get) (encLen xs.length ++ xs.flatMap e) (xs.map v) := by
  have h := gets_counted bufs (g := fun ys x => ys ++ [v x]) hlen
    (fun ys x hx => (hget x hx).map fun y => ys ++ [y]) []
  rwa [foldl_concat, List.nil_append] at h

theorem gets_getVector {β : Type} (bufs : Nat → List UInt8) {get : MarshalM β} {v : α → β}
    {xs : List α} (hlen : xs.length < 2 ^ 31) (hget : ∀ x ∈ xs, Gets get (e x) (v x)) :
    Gets (getVector bufs get) (encLen xs.length ++ xs.flatMap e) (xs.map v) := by
  refine (gets_getLen bufs hlen).bind ?_
  rw [if_neg (ofNat_not_neg hlen), loopCount_ofNat hlen]
  have h := gets_loop (g := fun ys x => ys ++ [v x])
    (fun ys x hx => (hget x hx).map fun y => ys ++ [y]) []
  rwa [foldl_concat, List.nil_append] at h

private theorem foldl_insert {β : Type} [DecidableEq β] (v : α → β) (xs : List α) (acc : Finset β) :
    xs.foldl (fun ys x => insert (v x) ys) acc = acc ∪ (xs.map v).toFinset := by
  induction xs generalizing acc with
  | nil => simp
  | cons x xs ih =>
    rw [List.foldl_cons, ih, List.map_cons, List.toFinset_cons, Finset.insert_union,
      Finset.union_insert]

theorem gets_getSet {β : Type} [DecidableEq β] (bufs : Nat → List UInt8) {get : MarshalM β}
    {v : α → β} {xs : List α} (hlen : xs.length < 2 ^ 31)
    (hget : ∀ x ∈ xs, Gets get (e x) (v x)) :
    Gets (getSet bufs get) (encLen xs.length ++ xs.flatMap e) (xs.map v).toFinset := by
  have h := gets_counted bufs (g := fun ys x => insert (v x) ys) hlen
    (fun ys x hx => (hget x hx).map fun y => insert y ys) (∅ : Finset β)
  rwa [foldl_insert, Finset.empty_union] at h

/-- Inserting does not overwrite, so the first entry of a key counts, as in `dlookup`. -/
private theorem lookup_foldl_insertIntoMap {κ ν : Type} [DecidableEq κ] (kv : α → (_ : κ) × ν)
    (xs : List α) (acc : Finmap fun _ : κ => ν) (k : κ) :
    (xs.foldl (fun m x => insertIntoMap m (kv x).1 (kv x).2) acc).lookup k =
      (acc.lookup k).orElse fun _ => (xs.map kv).dlookup k := by
  induction xs generalizing acc with
  | nil => simp
  | cons x xs ih =>
    rw [List.foldl_cons, ih, List.map_cons, insertIntoMap]
    obtain ⟨k', v'⟩ := kv x
    simp only
    by_cases hk : k = k'
    · subst hk
      rw [List.dlookup_cons_eq]
      split
      · rename_i hmem
        obtain ⟨w, hw⟩ := Finmap.mem_iff.mp hmem
        simp [hw]
      · rename_i hmem
        simp [Finmap.lookup_insert, Finmap.lookup_eq_none.mpr hmem]
    · rw [List.dlookup_cons_ne (β := fun _ : κ => ν) _ ⟨k', v'⟩ hk]
      split
      · rfl
      · rw [Finmap.lookup_insert_of_ne _ hk]

theorem gets_getMap {κ ν : Type} [DecidableEq κ] (bufs : Nat → List UInt8) {getK : MarshalM κ}
    {getV : MarshalM ν} {ek ev : α → List UInt8} {kv : α → (_ : κ) × ν} {xs : List α}
    (hlen : xs.length < 2 ^ 31) (hk : ∀ x ∈ xs, Gets getK (ek x) (kv x).1)
    (hv : ∀ x ∈ xs, Gets getV (ev x) (kv x).2) :
    Gets (getMap bufs getK getV) (encLen xs.length ++ xs.flatMap fun x => ek x ++ ev x)
      (xs.map kv).toFinmap := by
  have hstep : ∀ m : Finmap fun _ : κ => ν, ∀ x ∈ xs,
      Gets (do let k ← getK; let v ← getV; pure (insertIntoMap m k v)) (ek x ++ ev x)
        (insertIntoMap m (kv x).1 (kv x).2) := by
    intro m x hx
    refine (hk x hx).bind ?_
    exact (hv x hx).map fun v => insertIntoMap m (kv x).1 v
  have h := gets_counted bufs hlen hstep ∅
  have heq : xs.foldl (fun m x => insertIntoMap m (kv x).1 (kv x).2) ∅ = (xs.map kv).toFinmap := by
    apply Finmap.ext_lookup
    intro k
    rw [lookup_foldl_insertIntoMap, Finmap.dlookup_list_toFinmap, Finmap.lookup_empty]
    rfl
  rwa [heq] at h

end Containers

/-! ## Leaves -/

theorem puts_putLen (n : Nat) : Puts (putLen n) (encLen n) := puts_putV64 [] _

theorem puts_putString (x : List UInt8) : Puts (putString x) (encLen x.length ++ x) := by
  refine (puts_putLen _).bind ?_
  split
  · exact Puts.write _
  · rename_i hnil
    obtain rfl : x = [] := List.length_eq_zero_iff.mp (Nat.eq_zero_of_not_pos hnil)
    exact Puts.pure

theorem gets_getString (bufs : Nat → List UInt8) {x : List UInt8} (hlen : x.length < 2 ^ 31) :
    Gets (getString bufs) (encLen x.length ++ x) x := by
  refine (gets_getLen bufs hlen).bind ?_
  rw [if_neg (ofNat_not_neg hlen), toInt_ofNat_of_small hlen, Int.toNat_natCast]
  split
  · exact Gets.read x
  · rename_i hnil
    rw [Int64.lt_iff_toInt_lt, toInt_ofNat_of_small hlen] at hnil
    have hzero : (0 : Int64).toInt = 0 := by decide
    obtain rfl : x = [] := List.length_eq_zero_iff.mp (by omega)
    exact Gets.pure []

theorem Leaf.puts_put (l : Leaf) (x : l.Val) : Puts (l.put x) (l.enc x) := by
  cases l with
  | v32 => exact puts_putV32 [] _
  | v64 => exact puts_putV64 [] _
  | string => exact puts_putString x
  | _ => exact puts_putNat _ _

/-- Integers of `k` bytes, up to their C++ type. -/
private theorem gets_int {α : Type} {k n : Nat} {x : α} (f : Nat → α) (hn : n < 256 ^ k)
    (hf : f n = x) : Gets (do let n ← getNat k; pure (f n)) (leBytes k n) x :=
  hf ▸ (gets_getNat hn).map f

theorem Leaf.gets_get (bufs : Nat → List UInt8) (l : Leaf) {x : l.Val} (hx : l.Fits x) :
    Gets (l.get bufs) (l.enc x) x := by
  cases l with
  | i8 =>
    exact gets_int (fun n => (UInt8.ofNat n).toInt8) (Int8.toUInt8 x).toNat_lt
      (by simp only [UInt8.ofNat_toNat]; rfl)
  | i16 =>
    exact gets_int (fun n => (UInt16.ofNat n).toInt16) (Int16.toUInt16 x).toNat_lt
      (by simp only [UInt16.ofNat_toNat]; rfl)
  | i32 => exact gets_getI32 x
  | i64 =>
    exact gets_int (fun n => (UInt64.ofNat n).toInt64) (Int64.toUInt64 x).toNat_lt
      (by simp only [UInt64.ofNat_toNat]; rfl)
  | u8 => exact gets_int UInt8.ofNat (UInt8.toNat_lt x) UInt8.ofNat_toNat
  | u16 => exact gets_int UInt16.ofNat (UInt16.toNat_lt x) UInt16.ofNat_toNat
  | u32 => exact gets_int UInt32.ofNat (UInt32.toNat_lt x) UInt32.ofNat_toNat
  | u64 => exact gets_int UInt64.ofNat (UInt64.toNat_lt x) UInt64.ofNat_toNat
  | double => exact gets_int UInt64.ofNat (UInt64.toNat_lt x) UInt64.ofNat_toNat
  | v32 =>
    intro h m rest hm hcontent
    exact gets_getV32 (bufs m.contentSize) x h m rest hm hcontent
  | v64 =>
    intro h m rest hm hcontent
    exact gets_getV64 (bufs m.contentSize) x hx h m rest hm hcontent
  | string => exact gets_getString bufs hx

/-! ## All types -/

mutual

/-- **Writing**: `operator<<` appends the bytes of the object. -/
theorem Ty.puts_put : (t : Ty) → (x : t.Obj) → Puts (t.put x) (t.enc x)
  | .leaf l, x => l.puts_put x
  | .pair a b, x => (a.puts_put x.1).bind (b.puts_put x.2)
  | .vector a, _ => (puts_putLen _).bind (puts_each fun x _ => a.puts_put x)
  | .list a, _ => (puts_putLen _).bind (puts_each fun x _ => a.puts_put x)
  | .set a, _ => (puts_putLen _).bind (puts_each fun x _ => a.puts_put x)
  | .map k v, _ =>
    (puts_putLen _).bind (puts_each fun x _ => (k.puts_put x.1).bind (v.puts_put x.2))
  | .unorderedSet a, _ => (puts_putLen _).bind (puts_each fun x _ => a.puts_put x)
  | .unorderedMap k v, _ =>
    (puts_putLen _).bind (puts_each fun x _ => (k.puts_put x.1).bind (v.puts_put x.2))
  | .struct _ fs, x => fs.puts_put x

theorem Fields.puts_put : (fs : Fields) → (x : fs.Obj) → Puts (fs.put x) (fs.enc x)
  | .nil, _ => Puts.pure
  | .cons _ t fs, x => (t.puts_put x.1).bind (fs.puts_put x.2)

end

mutual

/-- **Reading**: `operator>>` gives the value back and consumes exactly the bytes. -/
theorem Ty.gets_get (bufs : Nat → List UInt8) : (t : Ty) → (x : t.Obj) → t.Fits x →
    Gets (t.get bufs) (t.enc x) (t.val x)
  | .leaf l, _, hx => l.gets_get bufs hx
  | .pair a b, x, hx =>
    (a.gets_get bufs x.1 hx.1).bind ((b.gets_get bufs x.2 hx.2).map fun y => (a.val x.1, y))
  | .vector a, _, hx => gets_getVector bufs hx.1 fun x hmem => a.gets_get bufs x (hx.2 x hmem)
  | .list a, _, hx => gets_getList bufs hx.1 fun x hmem => a.gets_get bufs x (hx.2 x hmem)
  | .set a, _, hx => gets_getSet bufs hx.1 fun x hmem => a.gets_get bufs x (hx.2 x hmem)
  | .map k v, _, hx => gets_getMap bufs hx.1
      (fun x hmem => k.gets_get bufs x.1 (hx.2 x hmem).1)
      (fun x hmem => v.gets_get bufs x.2 (hx.2 x hmem).2)
  | .unorderedSet a, _, hx =>
    gets_getSet bufs hx.1 fun x hmem => a.gets_get bufs x (hx.2 x hmem)
  | .unorderedMap k v, _, hx => gets_getMap bufs hx.1
      (fun x hmem => k.gets_get bufs x.1 (hx.2 x hmem).1)
      (fun x hmem => v.gets_get bufs x.2 (hx.2 x hmem).2)
  | .struct _ fs, x, hx => fs.gets_get bufs x hx

theorem Fields.gets_get (bufs : Nat → List UInt8) : (fs : Fields) → (x : fs.Obj) → fs.Fits x →
    Gets (fs.get bufs) (fs.enc x) (fs.val x)
  | .nil, _, _ => Gets.pure ()
  | .cons _ t fs, x, hx =>
    (t.gets_get bufs x.1 hx.1).bind ((fs.gets_get bufs x.2 hx.2).map fun y => (t.val x.1, y))

end

theorem Leaf.nonempty_val (l : Leaf) : Nonempty l.Val := by
  cases l with
  | i8 => exact inferInstanceAs (Nonempty Int8)
  | i16 => exact inferInstanceAs (Nonempty Int16)
  | i32 | v32 => exact inferInstanceAs (Nonempty Int32)
  | i64 | v64 => exact inferInstanceAs (Nonempty Int64)
  | u8 => exact inferInstanceAs (Nonempty UInt8)
  | u16 => exact inferInstanceAs (Nonempty UInt16)
  | u32 => exact inferInstanceAs (Nonempty UInt32)
  | u64 | double => exact inferInstanceAs (Nonempty UInt64)
  | string => exact ⟨([] : List UInt8)⟩

mutual

/-- There is an object of every type. -/
theorem Ty.nonempty_obj : (t : Ty) → Nonempty t.Obj
  | .leaf l => l.nonempty_val
  | .pair a b =>
    have := a.nonempty_obj
    have := b.nonempty_obj
    inferInstanceAs (Nonempty (a.Obj × b.Obj))
  | .vector _ | .list _ | .set _ | .map _ _ | .unorderedSet _ | .unorderedMap _ _ =>
    ⟨([] : List _)⟩
  | .struct _ fs => fs.nonempty_obj

theorem Fields.nonempty_obj : (fs : Fields) → Nonempty fs.Obj
  | .nil => ⟨()⟩
  | .cons _ t fs =>
    have := t.nonempty_obj
    have := fs.nonempty_obj
    inferInstanceAs (Nonempty (t.Obj × fs.Obj))

end

/-! ## Bytes of any origin -/

theorem reads_loop {β : Type} {f : β → MarshalM β} (hf : ∀ b, Reads (f b)) (n : Nat) (b : β) :
    Reads (loop f n b) := by
  induction n generalizing b with
  | zero => exact Reads.pure b
  | succ n ih => exact (hf b).bind ih

theorem reads_getLen (bufs : Nat → List UInt8) : Reads (getLen bufs) := by
  intro h m
  exact reads_getV64 (bufs m.contentSize) h m

theorem reads_loopCount (len : Int64) : Reads (loopCount len) := by
  unfold loopCount
  split
  · exact Reads.fail _
  · exact Reads.pure _

/-- A container: its length, and then as many elements. -/
theorem reads_counted {β : Type} (bufs : Nat → List UInt8) {f : β → MarshalM β}
    (hf : ∀ b, Reads (f b)) (b : β) :
    Reads (do let len ← getLen bufs; let n ← loopCount len; loop f n b) :=
  (reads_getLen bufs).bind fun _ => (reads_loopCount _).bind fun n => reads_loop hf n b

theorem reads_getVector {α : Type} (bufs : Nat → List UInt8) {get : MarshalM α}
    (hget : Reads get) : Reads (getVector bufs get) := by
  apply (reads_getLen bufs).bind
  intro len
  split
  · exact Reads.fail _
  · apply (reads_loopCount len).bind
    intro n
    exact reads_loop (fun xs => hget.bind fun x => Reads.pure (xs ++ [x])) n []

theorem reads_getString (bufs : Nat → List UInt8) : Reads (getString bufs) := by
  apply (reads_getLen bufs).bind
  intro len
  split
  · exact Reads.fail _
  · split
    · exact Reads.read _
    · exact Reads.pure _

theorem reads_getNat (k : Nat) : Reads (getNat k) :=
  (Reads.read k).bind fun _ => Reads.pure _

theorem Leaf.reads_get (bufs : Nat → List UInt8) (l : Leaf) : Reads (l.get bufs) := by
  cases l with
  | i8 | i16 | i32 | i64 | u8 | u16 | u32 | u64 | double =>
    exact (reads_getNat _).bind fun _ => Reads.pure _
  | v32 =>
    intro h m
    exact reads_getV32 (bufs m.contentSize) h m
  | v64 => exact reads_getLen bufs
  | string => exact reads_getString bufs

mutual

/-- **Any bytes**: `operator>>` aborts, or consumes some of them and leaves the rest. -/
theorem Ty.reads_get (bufs : Nat → List UInt8) : (t : Ty) → Reads (t.get bufs)
  | .leaf l => l.reads_get bufs
  | .pair a b =>
    (a.reads_get bufs).bind fun x => (b.reads_get bufs).bind fun y => Reads.pure (x, y)
  | .vector a => reads_getVector bufs (a.reads_get bufs)
  | .list a => reads_counted bufs (fun _ => (a.reads_get bufs).bind fun _ => Reads.pure _) _
  | .set a | .unorderedSet a =>
    reads_counted bufs (fun _ => (a.reads_get bufs).bind fun _ => Reads.pure _) _
  | .map k v | .unorderedMap k v =>
    reads_counted bufs (fun _ => (k.reads_get bufs).bind fun _ =>
      (v.reads_get bufs).bind fun _ => Reads.pure _) _
  | .struct _ fs => fs.reads_get bufs

theorem Fields.reads_get (bufs : Nat → List UInt8) : (fs : Fields) → Reads (fs.get bufs)
  | .nil => Reads.pure ()
  | .cons _ t fs =>
    (t.reads_get bufs).bind fun x => (fs.reads_get bufs).bind fun y => Reads.pure (x, y)

end

/-! ## The round trip -/

/-- `m << x` appends bytes from which, whatever follows them and however they are spread over
    chunks, `m >> y` gives the value of `x` back, consuming exactly these bytes. -/
def WireRoundTrip (t : Ty) (x : t.Obj) : Prop :=
  ∀ h (m : Marshal), m.Ok h → m.SelfExclusive h → ∀ (bufs : Nat → List UInt8) (b : List UInt8),
    ∃ h₁ m₁ bytes, t.put x (h, m) = .ok ((), h₁, m₁) ∧ m₁.content h₁ = m.content h ++ bytes ∧
      ∀ h₂ (m₂ : Marshal), m₂.Ok h₂ → m₂.content h₂ = bytes ++ b →
        ∃ m₃, t.get bufs (h₂, m₂) = .ok (t.val x, h₂, m₃) ∧ m₃.content h₂ = b

/-- **Wire round trip**: every object of every type that fits the format is read back. -/
theorem wire_roundTrip (t : Ty) (x : t.Obj) (hx : t.Fits x) : WireRoundTrip t x := by
  intro h m hm hex bufs b
  obtain ⟨h₁, m₁, new, hput, happ, -⟩ := t.puts_put x h m hm
  refine ⟨h₁, m₁, t.enc x, hput, happ.content_eq hm hex, fun h₂ m₂ hm₂ hcontent => ?_⟩
  obtain ⟨m₃, hget, hc, -⟩ := t.gets_get bufs x hx h₂ m₂ b hm₂ hcontent
  exact ⟨m₃, hget, by rw [hc.content_eq, hcontent, List.drop_left]⟩

/-- A struct with a map from strings to vectors. -/
theorem wire_roundTrip_struct :
    WireRoundTrip (.struct "point" (.cons "names"
      (.map (.leaf .string) (.vector (.leaf .v64))) .nil)) ([([97], [(5 : Int64), (-7 : Int64)])], ()) :=
  wire_roundTrip _ _ ⟨⟨by decide, fun x hx => by
    obtain rfl := List.mem_singleton.mp hx
    refine ⟨show 1 < 2 ^ 31 by decide, show 2 < 2 ^ 31 by decide, fun y hy => ?_⟩
    rcases List.mem_cons.mp hy with rfl | hy
    · exact (by decide : SparseInt.valSize 5 ≠ 8)
    · obtain rfl := List.mem_singleton.mp hy
      exact (by decide : SparseInt.valSize (-7) ≠ 8)⟩, trivial⟩

end SimpleRpc.Rpc
