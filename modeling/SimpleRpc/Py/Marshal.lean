import SimpleRpc.Py.TypeString

/-!
# The Python Codec (`simplerpc/marshal.py`, `_pyrpc.cc`)

`Marshal.write_obj` and `Marshal.read_obj` write and read Python objects by the type strings that
`rpcgen` prints. They use the same Marshals as C++ does, through the functions of `_pyrpc` for
leaf types.

## Layers

- **Objects** (`PyObj`): Python objects; a named tuple is a tuple that knows its fields
- **Code** (`writeObj`, `readObj`): by recursion on the depth of the calls
- **Meaning** (`Rep`): the Python object stands for a C++ object

## Main results

- `puts_writeObj`: `write_obj` writes the format of the type
- `gets_readObj`: `read_obj` reads it
- `python_cpp_agree`: each side reads what the other wrote

## Model

Strings are those of Python 2, which are bytes. The order of a set or dict is the one in which it
is visited. `limit` is the number of nested calls that the interpreter allows. An `int` that is
passed for a `double` is not converted here.
-/

namespace SimpleRpc.Py

open SimpleRpc.Rpc SimpleRpc.Rpc.MarshalM

/-! ## Objects -/

/-- A Python object. -/
inductive PyObj where
  | int (n : Int)
  | float (bits : UInt64)
  | str (bytes : List UInt8)
  /-- a named tuple has the name and the fields of its type -/
  | tuple (ctor : Option (List Char × List (List Char))) (items : List PyObj)
  | list (items : List PyObj)
  | set (items : List PyObj)
  | dict (items : List (PyObj × PyObj))

/-- The number a double stands for, if it is finite. -/
def floatVal (bits : UInt64) : Option ℚ :=
  let e : Nat := bits.toNat / 2 ^ 52 % 2 ^ 11
  let m : Nat := bits.toNat % 2 ^ 52
  let sign : ℚ := if bits.toNat < 2 ^ 63 then 1 else -1
  if e = 2047 then none
  else if e = 0 then some (sign * m / 2 ^ 1074)
  else some (sign * (2 ^ 52 + m) * 2 ^ e / 2 ^ 1075)

/-- `==` of two doubles: zeros are equal, and NaN is not equal to anything. -/
def floatEq (a b : UInt64) : Bool :=
  match floatVal a, floatVal b with
  | some x, some y => x = y
  | none, none => a = b ∧ a.toNat % 2 ^ 52 = 0
  | _, _ => false

namespace PyObj

mutual

/-- `==` of objects that can be hashed. -/
def eq : PyObj → PyObj → Bool
  | .int a, .int b => a = b
  | .float a, .float b => floatEq a b
  | .int a, .float b => floatVal b = some (a : ℚ)
  | .float a, .int b => floatVal a = some (b : ℚ)
  | .str a, .str b => a = b
  | .tuple _ as, .tuple _ bs => eqs as bs
  | _, _ => false

def eqs : List PyObj → List PyObj → Bool
  | [], [] => true
  | a :: as, b :: bs => eq a b && eqs as bs
  | _, _ => false

end

mutual

/-- Lists, sets and dicts cannot be hashed. -/
def hashable : PyObj → Bool
  | .int _ | .float _ | .str _ => true
  | .tuple _ items => hashables items
  | .list _ | .set _ | .dict _ => false

def hashables : List PyObj → Bool
  | [] => true
  | o :: os => hashable o && hashables os

end

/-- `o[i]` -/
def item (o : PyObj) (i : Nat) : MarshalM PyObj :=
  match o with
  | .tuple _ items | .list items =>
    match items[i]? with
    | some x => pure x
    | none => fail .exception
  | _ => fail .exception

/-- What `for v in o` visits. -/
def iter : PyObj → Option (List PyObj)
  | .tuple _ items | .list items | .set items => some items
  | .dict items => some (items.map Prod.fst)
  | .str bytes => some (bytes.map fun b => .str [b])
  | _ => none

/-- `getattr(o, name)` -/
def getattr (o : PyObj) (name : List Char) : MarshalM PyObj :=
  match o with
  | .tuple (some (_, fields)) items =>
    match items[fields.idxOf name]? with
    | some x => pure x
    | none => fail .exception
  | _ => fail .exception

/-- `st.add(o)` -/
def setAdd (st : List PyObj) (o : PyObj) : MarshalM (List PyObj) :=
  if o.hashable then pure (if st.any (·.eq o) then st else st ++ [o]) else fail .exception

/-- `d[k] = v` -/
def setItem (d : List (PyObj × PyObj)) (k v : PyObj) : MarshalM (List (PyObj × PyObj)) :=
  if k.hashable then
    pure (if d.any (·.1.eq k) then d.map fun kv => if kv.1.eq k then (kv.1, v) else kv
      else d ++ [(k, v)])
  else fail .exception

end PyObj

/-! ## The functions of `_pyrpc` -/

/-- `PyArg_ParseTuple` refuses an `int` that is no `long`. -/
def parseLong {α : Type} (n : Int) (cast : Int → α) : Option α :=
  if -2 ^ 63 ≤ n ∧ n < 2 ^ 63 then some (cast n) else none

/-- The argument of `marshal_write_...` as a C++ value. -/
def leafOfPy : (l : Leaf) → PyObj → Option l.Val
  | .i8, .int n => parseLong n Int8.ofInt
  | .i16, .int n => parseLong n Int16.ofInt
  | .i32, .int n => parseLong n Int32.ofInt
  | .i64, .int n => parseLong n Int64.ofInt
  | .v32, .int n => parseLong n Int32.ofInt
  | .v64, .int n => parseLong n Int64.ofInt
  | .double, .float bits => some bits
  | .string, .str bytes => some bytes
  | _, _ => none

/-- The result of `marshal_read_...` as a Python object. -/
def leafToPy : (l : Leaf) → l.Val → PyObj
  | .i8, (x : Int8) => .int x.toInt
  | .i16, (x : Int16) => .int x.toInt
  | .i32, (x : Int32) => .int x.toInt
  | .i64, (x : Int64) => .int x.toInt
  | .v32, (x : Int32) => .int x.toInt
  | .v64, (x : Int64) => .int x.toInt
  | .double, (x : UInt64) => .float x
  | .string, (x : List UInt8) => .str x
  -- there are no functions for these
  | .u8, (x : UInt8) => .int x.toNat
  | .u16, (x : UInt16) => .int x.toNat
  | .u32, (x : UInt32) => .int x.toNat
  | .u64, (x : UInt64) => .int x.toNat

/-- `_pyrpc.marshal_write_...(self.id, o)` -/
def writeLeaf (l : Leaf) (o : PyObj) : MarshalM Unit :=
  match leafOfPy l o with
  | some x => l.put x
  | none => fail .exception

/-- `_pyrpc.marshal_read_...(self.id)` -/
def readLeaf (bufs : Nat → List UInt8) (l : Leaf) : MarshalM PyObj := do
  let x ← l.get bufs
  pure (leafToPy l x)

/-- `self.write_v64(len(o))` -/
def writeLen (n : Nat) : MarshalM Unit := writeLeaf .v64 (.int n)

/-- The number of rounds of `for i in range(self.read_v64())`. -/
def readLen (bufs : Nat → List UInt8) : MarshalM Nat := do
  let n : Int64 ← Leaf.get bufs .v64
  pure n.toInt.toNat

/-! ## `write_obj` and `read_obj` -/

/-- The values of a list of reads. -/
def collect {α β : Type} (f : α → MarshalM β) : List α → MarshalM (List β)
  | [] => pure []
  | x :: xs => do
    let y ← f x
    let ys ← collect f xs
    pure (y :: ys)

/-- The branches of `Marshal.write_obj`, where `self.write_obj` is `writeObj`. -/
def writeBody (structs : Structs) (writeObj : PyObj → List Char → MarshalM Unit) (o : PyObj)
    (objT : List Char) : Kind → MarshalM Unit
  | .leaf l => writeLeaf l o
  | .pair =>
    match templateSplit (arguments objT) with
    | [firstT, secondT] => do
      let first ← o.item 0
      writeObj first firstT
      let second ← o.item 1
      writeObj second secondT
    | _ => fail .exception
  | .map =>
    match templateSplit (arguments objT), o with
    | [keyT, valT], .dict items => do
      writeLen items.length
      each (fun kv => do
        writeObj kv.1 keyT
        writeObj kv.2 valT) items
    | _, _ => fail .exception
  | .sequence | .set =>
    match o.iter with
    | some items => do
      writeLen items.length
      each (fun v => writeObj v (arguments objT)) items
    | none => fail .exception
  | .struct =>
    match structs objT with
    | some fields =>
      each (fun field => do
        let v ← o.getattr field.1
        writeObj v field.2) fields
    | none => fail .exception

/-- `Marshal.write_obj` -/
def writeObj (structs : Structs) : Nat → PyObj → List Char → MarshalM Unit
  -- maximum recursion depth exceeded
  | 0, _, _ => fail .exception
  | limit + 1, o, objT => writeBody structs (writeObj structs limit) o objT (kindOf objT)

/-- The branches of `Marshal.read_obj`, where `self.read_obj` is `readObj`. -/
def readBody (structs : Structs) (bufs : Nat → List UInt8)
    (readObj : List Char → MarshalM PyObj) (objT : List Char) : Kind → MarshalM PyObj
  | .leaf l => readLeaf bufs l
  | .pair =>
    match templateSplit (arguments objT) with
    | [firstT, secondT] => do
      let first ← readObj firstT
      let second ← readObj secondT
      pure (.tuple none [first, second])
    | _ => fail .exception
  | .map =>
    match templateSplit (arguments objT) with
    | [keyT, valT] => do
      let n ← readLen bufs
      let d ← loop (fun d => do
        let k ← readObj keyT
        let v ← readObj valT
        PyObj.setItem d k v) n []
      pure (.dict d)
    | _ => fail .exception
  | .sequence => do
    let n ← readLen bufs
    let lst ← loop (fun lst => do
      let o ← readObj (arguments objT)
      pure (lst ++ [o])) n []
    pure (.list lst)
  | .set => do
    let n ← readLen bufs
    let st ← loop (fun st => do
      let o ← readObj (arguments objT)
      PyObj.setAdd st o) n []
    pure (.set st)
  | .struct =>
    match structs objT with
    | some fields => do
      let values ← collect (fun field => readObj field.2) fields
      pure (.tuple (some (objT, fields.map Prod.fst)) values)
    | none => fail .exception

/-- `Marshal.read_obj` -/
def readObj (structs : Structs) (bufs : Nat → List UInt8) : Nat → List Char → MarshalM PyObj
  | 0, _ => fail .exception
  | limit + 1, objT => readBody structs bufs (readObj structs bufs limit) objT (kindOf objT)

/-! ## Meaning -/

def fieldNames : Fields → List (List Char)
  | .nil => []
  | .cons name _ rest => name.toList :: fieldNames rest

mutual

/-- The Python object stands for a C++ object; a list may also be written as a tuple. -/
def Rep : (t : Ty) → PyObj → t.Obj → Prop
  | .leaf l, o, x => o = leafToPy l x
  | .pair a b, o, x => ∃ p q, (o = .list [p, q] ∨ ∃ ctor, o = .tuple ctor [p, q]) ∧
      Rep a p x.1 ∧ Rep b q x.2
  | .vector a, o, (xs : List a.Obj) => ∃ os, (o = .list os ∨ ∃ ctor, o = .tuple ctor os) ∧
      List.Forall₂ (Rep a) os xs
  | .list a, o, (xs : List a.Obj) => ∃ os, (o = .list os ∨ ∃ ctor, o = .tuple ctor os) ∧
      List.Forall₂ (Rep a) os xs
  | .set a, o, (xs : List a.Obj) => ∃ os, o = .set os ∧ List.Forall₂ (Rep a) os xs
  | .map k v, o, (xs : List (k.Obj × v.Obj)) => ∃ kvs, o = .dict kvs ∧
      List.Forall₂ (fun kv x => Rep k kv.1 x.1 ∧ Rep v kv.2 x.2) kvs xs
  | .unorderedSet a, o, (xs : List a.Obj) => ∃ os, o = .set os ∧ List.Forall₂ (Rep a) os xs
  | .unorderedMap k v, o, (xs : List (k.Obj × v.Obj)) => ∃ kvs, o = .dict kvs ∧
      List.Forall₂ (fun kv x => Rep k kv.1 x.1 ∧ Rep v kv.2 x.2) kvs xs
  | .struct name fields, o, x => ∃ os, o = .tuple (some (name.toList, fieldNames fields)) os ∧
      RepFields fields os x

def RepFields : (fields : Fields) → List PyObj → fields.Obj → Prop
  | .nil, os, _ => os = []
  | .cons _ t rest, os, x => ∃ p ps, os = p :: ps ∧ Rep t p x.1 ∧ RepFields rest ps x.2

end

mutual

/-- The object that `read_obj` returns for a C++ object. -/
def toPy : (t : Ty) → t.Obj → PyObj
  | .leaf l, x => leafToPy l x
  | .pair a b, x => .tuple none [toPy a x.1, toPy b x.2]
  | .vector a, (xs : List a.Obj) => .list (xs.map (toPy a))
  | .list a, (xs : List a.Obj) => .list (xs.map (toPy a))
  | .set a, (xs : List a.Obj) => .set (xs.map (toPy a))
  | .map k v, (xs : List (k.Obj × v.Obj)) => .dict (xs.map fun x => (toPy k x.1, toPy v x.2))
  | .unorderedSet a, (xs : List a.Obj) => .set (xs.map (toPy a))
  | .unorderedMap k v, (xs : List (k.Obj × v.Obj)) =>
    .dict (xs.map fun x => (toPy k x.1, toPy v x.2))
  | .struct name fields, x => .tuple (some (name.toList, fieldNames fields)) (toPyFields fields x)

def toPyFields : (fields : Fields) → fields.Obj → List PyObj
  | .nil, _ => []
  | .cons _ t rest, x => toPy t x.1 :: toPyFields rest x.2

end

/-- `==` of C++ leaves. -/
def sameLeaf : (l : Leaf) → l.Val → l.Val → Bool
  | .double, x, y => floatEq x y
  | _, x, y => decide (x = y)

mutual

/-- `==` of C++ objects that can be keys. -/
def same : (t : Ty) → t.Obj → t.Obj → Bool
  | .leaf l, x, y => sameLeaf l x y
  | .pair a b, x, y => same a x.1 y.1 && same b x.2 y.2
  | .struct _ fields, x, y => sameFields fields x y
  | _, _, _ => false

def sameFields : (fields : Fields) → fields.Obj → fields.Obj → Bool
  | .nil, _, _ => true
  | .cons _ t rest, x, y => same t x.1 y.1 && sameFields rest x.2 y.2

end

mutual

/-- What C++ containers can hold: the elements of a set and the keys of a map are different. -/
def Distinct : (t : Ty) → t.Obj → Prop
  | .leaf _, _ => True
  | .pair a b, x => Distinct a x.1 ∧ Distinct b x.2
  | .vector a, (xs : List a.Obj) => ∀ x ∈ xs, Distinct a x
  | .list a, (xs : List a.Obj) => ∀ x ∈ xs, Distinct a x
  | .set a, (xs : List a.Obj) =>
    xs.Pairwise (fun x y => same a x y = false) ∧ ∀ x ∈ xs, Distinct a x
  | .map k v, (xs : List (k.Obj × v.Obj)) =>
    xs.Pairwise (fun x y => same k x.1 y.1 = false) ∧
      ∀ x ∈ xs, Distinct k x.1 ∧ Distinct v x.2
  | .unorderedSet a, (xs : List a.Obj) =>
    xs.Pairwise (fun x y => same a x y = false) ∧ ∀ x ∈ xs, Distinct a x
  | .unorderedMap k v, (xs : List (k.Obj × v.Obj)) =>
    xs.Pairwise (fun x y => same k x.1 y.1 = false) ∧
      ∀ x ∈ xs, Distinct k x.1 ∧ Distinct v x.2
  | .struct _ fields, x => DistinctFields fields x

def DistinctFields : (fields : Fields) → fields.Obj → Prop
  | .nil, _ => True
  | .cons _ t rest, x => Distinct t x.1 ∧ DistinctFields rest x.2

end

mutual

/-- How many calls of `write_obj` are nested. -/
def depth : Ty → Nat
  | .leaf _ => 1
  | .pair a b => max (depth a) (depth b) + 1
  | .vector a => depth a + 1
  | .list a => depth a + 1
  | .set a => depth a + 1
  | .map k v => max (depth k) (depth v) + 1
  | .unorderedSet a => depth a + 1
  | .unorderedMap k v => max (depth k) (depth v) + 1
  | .struct _ fields => depthFields fields + 1

def depthFields : Fields → Nat
  | .nil => 0
  | .cons _ t rest => max (depth t) (depthFields rest)

end

/-! ## Leaves -/

/-- The leaves that `rpcgen` prints. -/
def printedLeaf : Leaf → Bool
  | .u8 | .u16 | .u32 | .u64 => false
  | _ => true

theorem Denotes.printedLeaf {structs : Structs} {e : TypeTree} {l : Leaf}
    (h : Denotes structs e (.leaf l)) : printedLeaf l = true := by
  cases h with
  | builtin b => cases b <;> rfl
  | double => rfl
  | string => rfl

theorem parseLong_of_bounds {α : Type} {n : Int} {cast : Int → α} (hlo : -2 ^ 63 ≤ n)
    (hhi : n < 2 ^ 63) : parseLong n cast = some (cast n) := if_pos ⟨hlo, hhi⟩

/-- What was read can be written. -/
theorem leafOfPy_leafToPy {l : Leaf} (hl : printedLeaf l = true) (x : l.Val) :
    leafOfPy l (leafToPy l x) = some x := by
  cases l with
  | i8 =>
    -- the value is within the bounds of its type, so `PyArg_ParseTuple` passes
    have hlo := Int8.le_toInt x
    have hhi := Int8.toInt_lt x
    exact (parseLong_of_bounds (by omega) (by omega)).trans (congrArg some (Int8.ofInt_toInt x))
  | i16 =>
    have hlo := Int16.le_toInt x
    have hhi := Int16.toInt_lt x
    exact (parseLong_of_bounds (by omega) (by omega)).trans (congrArg some (Int16.ofInt_toInt x))
  | i32 | v32 =>
    have hlo := Int32.le_toInt x
    have hhi := Int32.toInt_lt x
    exact (parseLong_of_bounds (by omega) (by omega)).trans (congrArg some (Int32.ofInt_toInt x))
  | i64 | v64 =>
    have hlo := Int64.le_toInt x
    have hhi := Int64.toInt_lt x
    exact (parseLong_of_bounds (by omega) (by omega)).trans (congrArg some (Int64.ofInt_toInt x))
  -- no bound is tested
  | double => rfl
  | string => rfl
  -- the generator prints no unsigned type
  | u8 | u16 | u32 | u64 => simp [Py.printedLeaf] at hl

theorem puts_writeLeaf {l : Leaf} (hl : printedLeaf l = true) (x : l.Val) :
    Puts (writeLeaf l (leafToPy l x)) (l.enc x) := by
  rw [writeLeaf, leafOfPy_leafToPy hl]
  exact l.puts_put x

theorem puts_writeLen {n : Nat} (hn : n < 2 ^ 31) : Puts (writeLen n) (encLen n) := by
  have hparse : leafOfPy .v64 (.int n) = some (Int64.ofNat n) :=
    parseLong_of_bounds (by omega) (by omega)
  rw [writeLen, writeLeaf, hparse]
  exact puts_putV64 [] _

theorem gets_readLeaf (bufs : Nat → List UInt8) {l : Leaf} {x : l.Val} (hx : l.Fits x) :
    Gets (readLeaf bufs l) (l.enc x) (leafToPy l x) :=
  (l.gets_get bufs hx).map (leafToPy l)

theorem gets_readLen (bufs : Nat → List UInt8) {n : Nat} (hn : n < 2 ^ 31) :
    Gets (readLen bufs) (encLen n) n := by
  have h := (gets_getLen bufs hn).map fun len => len.toInt.toNat
  rwa [toInt_ofNat_of_small hn, Int.toNat_natCast] at h

/-! ## Writing -/

theorem writeObj_succ (structs : Structs) (limit : Nat) (o : PyObj) (objT : List Char) :
    writeObj structs (limit + 1) o objT =
      writeBody structs (writeObj structs limit) o objT (kindOf objT) := rfl

theorem puts_each_rep {α β : Type} {R : α → β → Prop} {f : α → MarshalM Unit}
    {e : β → List UInt8} {os : List α} {xs : List β} (hrep : List.Forall₂ R os xs)
    (hf : ∀ o x, x ∈ xs → R o x → Puts (f o) (e x)) : Puts (each f os) (xs.flatMap e) := by
  induction hrep with
  | nil => exact Puts.pure
  | @cons o x os xs hfirst _ ih =>
    rw [List.flatMap_cons]
    exact (hf o x (by simp) hfirst).bind (ih fun o x hx => hf o x (by simp [hx]))

/-- A sequence or a set is written with its length in front. -/
theorem puts_writeObj_items {structs : Structs} {limit : Nat} {o : PyObj} {s : List Char}
    (hk : kindOf s = .sequence ∨ kindOf s = .set) {os : List PyObj} (hiter : o.iter = some os)
    {a : Ty} {xs : List a.Obj} (hrep : List.Forall₂ (Rep a) os xs) (hlen : xs.length < 2 ^ 31)
    (hf : ∀ o x, x ∈ xs → Rep a o x → Puts (writeObj structs limit o (arguments s)) (a.enc x)) :
    Puts (writeObj structs (limit + 1) o s) (encLen xs.length ++ xs.flatMap a.enc) := by
  have hbody : writeObj structs (limit + 1) o s = (do
      writeLen os.length
      each (fun v => writeObj structs limit v (arguments s)) os) := by
    rcases hk with hk | hk <;> rw [writeObj_succ, hk] <;> unfold writeBody <;> simp only [hiter]
  rw [hbody, ← hrep.length_eq]
  exact (puts_writeLen (hrep.length_eq ▸ hlen)).bind (puts_each_rep hrep hf)

theorem puts_writeObj_map {structs : Structs} {limit : Nat} {s keyT valT : List Char}
    (hk : kindOf s = .map) (hsplit : templateSplit (arguments s) = [keyT, valT]) {k v : Ty}
    {kvs : List (PyObj × PyObj)} {xs : List (k.Obj × v.Obj)}
    (hrep : List.Forall₂ (fun kv x => Rep k kv.1 x.1 ∧ Rep v kv.2 x.2) kvs xs)
    (hlen : xs.length < 2 ^ 31)
    (hkey : ∀ o x, x ∈ xs → Rep k o x.1 → Puts (writeObj structs limit o keyT) (k.enc x.1))
    (hval : ∀ o x, x ∈ xs → Rep v o x.2 → Puts (writeObj structs limit o valT) (v.enc x.2)) :
    Puts (writeObj structs (limit + 1) (.dict kvs) s)
      (encLen xs.length ++ xs.flatMap fun x => k.enc x.1 ++ v.enc x.2) := by
  rw [writeObj_succ, hk, ← hrep.length_eq]
  unfold writeBody
  simp only [hsplit]
  refine (puts_writeLen (hrep.length_eq ▸ hlen)).bind (puts_each_rep hrep fun kv x hx hkv => ?_)
  exact (hkey _ x hx hkv.1).bind (hval _ x hx hkv.2)

/-- The fields of a named tuple. -/
theorem getattr_items (name : List Char) {fields : List (List Char)} (hnodup : fields.Nodup)
    {os : List PyObj} (hlen : os.length = fields.length) :
    List.Forall₂ (fun field o => PyObj.getattr (.tuple (some (name, fields)) os) field = pure o)
      fields os := by
  rw [List.forall₂_iff_get]
  refine ⟨hlen.symm, fun i hi ho => ?_⟩
  simp only [PyObj.getattr, List.get_eq_getElem, hnodup.idxOf_getElem i hi,
    List.getElem?_eq_getElem ho]

theorem DenoteFields.names_eq {structs : Structs} : {decls : List (List Char × List Char)} →
    {fields : Fields} → DenoteFields structs decls fields → fieldNames fields = decls.map Prod.fst
  | _, _, .nil => rfl
  | _, _, .cons _ hrest => by rw [fieldNames, hrest.names_eq, List.map_cons]

theorem RepFields.length_eq : {fields : Fields} → {os : List PyObj} → {x : fields.Obj} →
    RepFields fields os x → os.length = (fieldNames fields).length
  | .nil, _, _, h => by rw [show _ = [] from h]; rfl
  | .cons _ _ rest, _, _, ⟨p, ps, rfl, _, hrest⟩ => by
    rw [fieldNames, List.length_cons, List.length_cons, RepFields.length_eq hrest]

theorem depth_pos (t : Ty) : 0 < depth t := by
  cases t <;> simp [depth]

mutual

/-- **Writing**: `write_obj` appends the bytes of the C++ object that the Python object stands
    for. -/
theorem puts_writeObj {structs : Structs} : (t : Ty) → {e : TypeTree} → Denotes structs e t →
    {limit : Nat} → depth t ≤ limit → {o : PyObj} → {x : t.Obj} → Rep t o x → t.Fits x →
    Puts (writeObj structs limit o e.print) (t.enc x)
  | .leaf l, e, h, limit + 1, _, o, x, hrep, _ => by
    obtain rfl : o = leafToPy l x := hrep
    rw [writeObj_succ, h.printed.kind]
    exact puts_writeLeaf h.printedLeaf x
  | .pair a b, _, h, limit + 1, hdepth, o, x, ⟨p, q, ho, hp, hq⟩, hfits => by
    have hkind := h.printed.kind
    cases h with
    | pair hs ha hb =>
      rw [depth] at hdepth
      have hp := puts_writeObj a ha (show depth a ≤ limit by omega) hp hfits.1
      have hq := puts_writeObj b hb (show depth b ≤ limit by omega) hq hfits.2
      rw [writeObj_succ, hkind]
      unfold kind writeBody
      simp only [templateSplit_arguments templateName_pair hs ha.printed hb.printed]
      rcases ho with rfl | ⟨ctor, rfl⟩ <;> exact hp.bind hq
  | .vector a, _, h, limit + 1, hdepth, o, xs, ⟨os, ho, hos⟩, hfits => by
    have hkind := h.printed.kind
    cases h with
    | vector hs ha =>
      have hiter : o.iter = some os := by rcases ho with rfl | ⟨ctor, rfl⟩ <;> rfl
      refine puts_writeObj_items (.inl hkind) hiter hos hfits.1 fun p x hx hp => ?_
      rw [arguments_one templateName_vector hs]
      exact puts_writeObj a ha (Nat.le_of_succ_le_succ hdepth) hp (hfits.2 x hx)
  | .list a, _, h, limit + 1, hdepth, o, xs, ⟨os, ho, hos⟩, hfits => by
    have hkind := h.printed.kind
    cases h with
    | list hs ha =>
      have hiter : o.iter = some os := by rcases ho with rfl | ⟨ctor, rfl⟩ <;> rfl
      refine puts_writeObj_items (.inl hkind) hiter hos hfits.1 fun p x hx hp => ?_
      rw [arguments_one templateName_list hs]
      exact puts_writeObj a ha (Nat.le_of_succ_le_succ hdepth) hp (hfits.2 x hx)
  | .set a, _, h, limit + 1, hdepth, _, xs, ⟨os, rfl, hos⟩, hfits => by
    have hkind := h.printed.kind
    cases h with
    | set hs ha =>
      refine puts_writeObj_items (.inr hkind) rfl hos hfits.1 fun p x hx hp => ?_
      rw [arguments_one templateName_set hs]
      exact puts_writeObj a ha (Nat.le_of_succ_le_succ hdepth) hp (hfits.2 x hx)
  | .unorderedSet a, _, h, limit + 1, hdepth, _, xs, ⟨os, rfl, hos⟩, hfits => by
    have hkind := h.printed.kind
    cases h with
    | unorderedSet hs ha =>
      refine puts_writeObj_items (.inr hkind) rfl hos hfits.1 fun p x hx hp => ?_
      rw [arguments_one templateName_unordered_set hs]
      exact puts_writeObj a ha (Nat.le_of_succ_le_succ hdepth) hp (hfits.2 x hx)
  | .map k v, _, h, limit + 1, hdepth, _, xs, ⟨kvs, rfl, hkvs⟩, hfits => by
    have hkind := h.printed.kind
    cases h with
    | map hs hk hv =>
      rw [depth] at hdepth
      exact puts_writeObj_map hkind
        (templateSplit_arguments templateName_map hs hk.printed hv.printed) hkvs hfits.1
        (fun p x hx hp => puts_writeObj k hk (by omega) hp (hfits.2 x hx).1)
        (fun p x hx hp => puts_writeObj v hv (by omega) hp (hfits.2 x hx).2)
  | .unorderedMap k v, _, h, limit + 1, hdepth, _, xs, ⟨kvs, rfl, hkvs⟩, hfits => by
    have hkind := h.printed.kind
    cases h with
    | unorderedMap hs hk hv =>
      rw [depth] at hdepth
      exact puts_writeObj_map hkind
        (templateSplit_arguments templateName_unordered_map hs hk.printed hv.printed) hkvs hfits.1
        (fun p x hx hp => puts_writeObj k hk (by omega) hp (hfits.2 x hx).1)
        (fun p x hx hp => puts_writeObj v hv (by omega) hp (hfits.2 x hx).2)
  | .struct name fields, _, h, limit + 1, hdepth, _, x, ⟨os, rfl, hos⟩, hfits => by
    have hkind := h.printed.kind
    cases h with
    | @struct _ decls _ hname hstruct hnodup hfields =>
      rw [print_none hname.stdRename_eq] at hkind ⊢
      rw [writeObj_succ, hkind]
      unfold kind writeBody
      simp only [hstruct]
      refine puts_writeFields fields hfields (Nat.le_of_succ_le_succ hdepth) ?_ hos hfits
      -- `getattr` finds each field under its own name
      rw [hfields.names_eq]
      refine List.forall₂_map_left_iff.mp (getattr_items name.toList hnodup ?_)
      rw [RepFields.length_eq hos, hfields.names_eq]
  | t, _, _, 0, hdepth, _, _, _, _ => by
    have := depth_pos t
    omega

/-- The fields of a struct, read from `o` by their names. -/
theorem puts_writeFields {structs : Structs} : (fields : Fields) →
    {decls : List (List Char × List Char)} → DenoteFields structs decls fields → {limit : Nat} →
    depthFields fields ≤ limit → {o : PyObj} → {os : List PyObj} →
    List.Forall₂ (fun decl p => o.getattr decl.1 = pure p) decls os → {x : fields.Obj} →
    RepFields fields os x → fields.Fits x →
    Puts (each (fun field => do
      let v ← o.getattr field.1
      writeObj structs limit v field.2) decls) (fields.enc x)
  | .nil, _, .nil, _, _, _, _, _, _, _, _ => Puts.pure
  | .cons _ t rest, _, .cons ht hrest, limit, hdepth, o, _, .cons hattr hattrs, x,
      ⟨p, ps, hps, hp, hos⟩, hfits => by
    obtain ⟨rfl, rfl⟩ := List.cons.inj hps
    rw [depthFields] at hdepth
    have hfirst := puts_writeObj t ht (show depth t ≤ limit by omega) hp hfits.1
    have hmore := puts_writeFields rest hrest (show depthFields rest ≤ limit by omega) hattrs hos hfits.2
    refine Puts.bind ?_ hmore
    simp only [hattr, pure_bind]
    exact hfirst

end

/-! ## Reading -/

theorem eq_leafToPy (l : Leaf) (x y : l.Val) :
    (leafToPy l x).eq (leafToPy l y) = sameLeaf l x y := by
  cases l with
  | i8 => exact decide_eq_decide.mpr Int8.toInt_inj
  | i16 => exact decide_eq_decide.mpr Int16.toInt_inj
  | i32 | v32 => exact decide_eq_decide.mpr Int32.toInt_inj
  | i64 | v64 => exact decide_eq_decide.mpr Int64.toInt_inj
  | u8 => exact decide_eq_decide.mpr (Int.natCast_inj.trans UInt8.toNat_inj)
  | u16 => exact decide_eq_decide.mpr (Int.natCast_inj.trans UInt16.toNat_inj)
  | u32 => exact decide_eq_decide.mpr (Int.natCast_inj.trans UInt32.toNat_inj)
  | u64 => exact decide_eq_decide.mpr (Int.natCast_inj.trans UInt64.toNat_inj)
  | double => rfl
  | string => rfl

mutual

/-- Python compares keys as C++ does. -/
theorem eq_toPy : (t : Ty) → hashableTy t = true → (x y : t.Obj) →
    (toPy t x).eq (toPy t y) = same t x y
  | .leaf l, _, x, y => eq_leafToPy l x y
  | .pair a b, ht, x, y => by
    obtain ⟨ha, hb⟩ := Bool.and_eq_true_iff.mp ht
    simp only [toPy, PyObj.eq, PyObj.eqs, eq_toPy a ha, eq_toPy b hb, same, Bool.and_true]
  | .struct _ fields, ht, x, y => by
    simp only [toPy, PyObj.eq, same]
    exact eqs_toPyFields fields ht x y

theorem eqs_toPyFields : (fields : Fields) → hashableFields fields = true →
    (x y : fields.Obj) → PyObj.eqs (toPyFields fields x) (toPyFields fields y) =
      sameFields fields x y
  | .nil, _, _, _ => rfl
  | .cons _ t rest, ht, x, y => by
    obtain ⟨ht, hrest⟩ := Bool.and_eq_true_iff.mp ht
    simp only [toPyFields, PyObj.eqs, eq_toPy t ht, eqs_toPyFields rest hrest, sameFields]

end

mutual

theorem hashable_toPy : (t : Ty) → hashableTy t = true → (x : t.Obj) →
    (toPy t x).hashable = true
  | .leaf l, _, x => by cases l <;> rfl
  | .pair a b, ht, x => by
    obtain ⟨ha, hb⟩ := Bool.and_eq_true_iff.mp ht
    simp only [toPy, PyObj.hashable, PyObj.hashables, hashable_toPy a ha, hashable_toPy b hb,
      Bool.and_true]
  | .struct _ fields, ht, x => by
    simp only [toPy, PyObj.hashable]
    exact hashables_toPyFields fields ht x

theorem hashables_toPyFields : (fields : Fields) → hashableFields fields = true →
    (x : fields.Obj) → PyObj.hashables (toPyFields fields x) = true
  | .nil, _, _ => rfl
  | .cons _ t rest, ht, x => by
    obtain ⟨ht, hrest⟩ := Bool.and_eq_true_iff.mp ht
    simp only [toPyFields, PyObj.hashables, hashable_toPy t ht, hashables_toPyFields rest hrest,
      Bool.and_true]

end

/-- A loop that appends what does not clash with what is there. -/
theorem foldl_append_new {α β : Type} {g : List β → α → List β} {q : α → β}
    {r : β → α → Bool} {xs : List α}
    (hg : ∀ acc, ∀ x ∈ xs, (∀ b ∈ acc, r b x = false) → g acc x = acc ++ [q x])
    (hxs : xs.Pairwise fun x y => r (q x) y = false) : xs.foldl g [] = xs.map q := by
  suffices h : ∀ acc, (∀ b ∈ acc, ∀ x ∈ xs, r b x = false) →
      xs.foldl g acc = acc ++ xs.map q by simpa using h [] (by simp)
  induction xs with
  | nil => simp
  | cons x xs ih =>
    intro acc hacc
    obtain ⟨hx, hxs⟩ := List.pairwise_cons.mp hxs
    rw [List.foldl_cons, hg acc x (by simp) fun b hb => hacc b hb x (by simp)]
    rw [ih (fun acc y hy => hg acc y (by simp [hy])) hxs]
    · simp
    · intro b hb y hy
      rcases List.mem_append.mp hb with hb | hb
      · exact hacc b hb y (by simp [hy])
      · obtain rfl := List.mem_singleton.mp hb
        exact hx y hy

/-- A container is read by a loop behind its length. -/
theorem gets_readLoop {α β : Type} (bufs : Nat → List UInt8) {f : β → MarshalM β}
    {e : α → List UInt8} {g : β → α → β} {xs : List α} (hlen : xs.length < 2 ^ 31)
    (hf : ∀ b, ∀ x ∈ xs, Gets (f b) (e x) (g b x)) (b : β) (mk : β → PyObj) :
    Gets (do let n ← readLen bufs; let r ← loop f n b; pure (mk r))
      (encLen xs.length ++ xs.flatMap e) (mk (xs.foldl g b)) :=
  (gets_readLen bufs hlen).bind ((gets_loop hf b).map mk)

theorem readObj_succ (structs : Structs) (bufs : Nat → List UInt8) (limit : Nat)
    (objT : List Char) :
    readObj structs bufs (limit + 1) objT =
      readBody structs bufs (readObj structs bufs limit) objT (kindOf objT) := rfl

section Containers

variable {structs : Structs} {bufs : Nat → List UInt8} {limit : Nat} {s : List Char}

theorem gets_readObj_sequence (hk : kindOf s = .sequence) {a : Ty} {xs : List a.Obj}
    (hlen : xs.length < 2 ^ 31)
    (hget : ∀ x ∈ xs, Gets (readObj structs bufs limit (arguments s)) (a.enc x) (toPy a x)) :
    Gets (readObj structs bufs (limit + 1) s) (encLen xs.length ++ xs.flatMap a.enc)
      (.list (xs.map (toPy a))) := by
  rw [readObj_succ, hk]
  have h := gets_readLoop bufs (g := fun lst x => lst ++ [toPy a x]) hlen
    (fun lst x hx => (hget x hx).map fun o => lst ++ [o]) [] .list
  rwa [foldl_append_new (q := toPy a) (r := fun _ _ => false) (fun _ _ _ _ => rfl)
    (List.pairwise_of_forall fun _ _ => rfl)] at h

theorem gets_readObj_set (hk : kindOf s = .set) {a : Ty} (hhash : hashableTy a = true)
    {xs : List a.Obj} (hlen : xs.length < 2 ^ 31)
    (hdistinct : xs.Pairwise fun x y => same a x y = false)
    (hget : ∀ x ∈ xs, Gets (readObj structs bufs limit (arguments s)) (a.enc x) (toPy a x)) :
    Gets (readObj structs bufs (limit + 1) s) (encLen xs.length ++ xs.flatMap a.enc)
      (.set (xs.map (toPy a))) := by
  rw [readObj_succ, hk]
  have hstep : ∀ st : List PyObj, ∀ x ∈ xs,
      Gets (do let o ← readObj structs bufs limit (arguments s); PyObj.setAdd st o) (a.enc x)
        (if st.any (·.eq (toPy a x)) then st else st ++ [toPy a x]) := by
    intro st x hx
    have hadd : PyObj.setAdd st (toPy a x) =
        pure (if st.any (·.eq (toPy a x)) then st else st ++ [toPy a x]) :=
      if_pos (hashable_toPy a hhash x)
    have h := (hget x hx).bind (f := PyObj.setAdd st) (hadd ▸ Gets.pure _)
    rwa [List.append_nil] at h
  have h := gets_readLoop bufs hlen hstep [] .set
  rwa [foldl_append_new (q := toPy a) (r := fun o x => o.eq (toPy a x))] at h
  · -- a new element goes to the end
    intro st x _ hnew
    have hany : st.any (·.eq (toPy a x)) = false := by simpa using hnew
    rw [hany]
    rfl
  · -- no two elements are equal
    simpa only [eq_toPy a hhash] using hdistinct

theorem gets_readObj_map (hk : kindOf s = .map) {keyT valT : List Char}
    (hsplit : templateSplit (arguments s) = [keyT, valT]) {k v : Ty} (hhash : hashableTy k = true)
    {xs : List (k.Obj × v.Obj)} (hlen : xs.length < 2 ^ 31)
    (hdistinct : xs.Pairwise fun x y => same k x.1 y.1 = false)
    (hkey : ∀ x ∈ xs, Gets (readObj structs bufs limit keyT) (k.enc x.1) (toPy k x.1))
    (hval : ∀ x ∈ xs, Gets (readObj structs bufs limit valT) (v.enc x.2) (toPy v x.2)) :
    Gets (readObj structs bufs (limit + 1) s)
      (encLen xs.length ++ xs.flatMap fun x => k.enc x.1 ++ v.enc x.2)
      (.dict (xs.map fun x => (toPy k x.1, toPy v x.2))) := by
  rw [readObj_succ, hk]
  unfold readBody
  simp only [hsplit]
  -- a round reads a key and its value, and stores them in the dict
  have hstep : ∀ d : List (PyObj × PyObj), ∀ x ∈ xs,
      Gets (do
        let key ← readObj structs bufs limit keyT
        let val ← readObj structs bufs limit valT
        PyObj.setItem d key val) (k.enc x.1 ++ v.enc x.2)
        (if d.any (·.1.eq (toPy k x.1)) then
          d.map fun kv => if kv.1.eq (toPy k x.1) then (kv.1, toPy v x.2) else kv
        else d ++ [(toPy k x.1, toPy v x.2)]) := by
    intro d x hx
    have hset : PyObj.setItem d (toPy k x.1) (toPy v x.2) = pure _ :=
      if_pos (hashable_toPy k hhash x.1)
    have h := (hval x hx).bind (f := PyObj.setItem d (toPy k x.1)) (hset ▸ Gets.pure _)
    rw [List.append_nil] at h
    exact (hkey x hx).bind h
  have h := gets_readLoop bufs hlen hstep [] .dict
  rwa [foldl_append_new (q := fun x => (toPy k x.1, toPy v x.2))
    (r := fun kv x => kv.1.eq (toPy k x.1))] at h
  · -- a new key goes to the end
    intro d x _ hnew
    have hany : d.any (·.1.eq (toPy k x.1)) = false := by simpa using hnew
    rw [hany]
    rfl
  · -- no two keys are equal
    simpa only [eq_toPy k hhash] using hdistinct

end Containers

mutual

/-- **Reading**: `read_obj` returns the Python object for what `operator<<` wrote. -/
theorem gets_readObj {structs : Structs} (bufs : Nat → List UInt8) : (t : Ty) → {e : TypeTree} →
    Denotes structs e t → {limit : Nat} → depth t ≤ limit → {x : t.Obj} → t.Fits x →
    Distinct t x → Gets (readObj structs bufs limit e.print) (t.enc x) (toPy t x)
  | .leaf l, e, h, limit + 1, _, x, hfits, _ => by
    rw [readObj_succ, h.printed.kind]
    exact gets_readLeaf bufs hfits
  | .pair a b, _, h, limit + 1, hdepth, x, hfits, hdistinct => by
    have hkind := h.printed.kind
    cases h with
    | pair hs ha hb =>
      rw [depth] at hdepth
      have hfirst := gets_readObj bufs a ha (show depth a ≤ limit by omega) hfits.1 hdistinct.1
      have hsecond := gets_readObj bufs b hb (show depth b ≤ limit by omega) hfits.2 hdistinct.2
      rw [readObj_succ, hkind]
      unfold kind readBody
      simp only [templateSplit_arguments templateName_pair hs ha.printed hb.printed]
      exact hfirst.bind (hsecond.map fun second => PyObj.tuple none [toPy a x.1, second])
  | .vector a, _, h, limit + 1, hdepth, xs, hfits, hdistinct => by
    have hkind := h.printed.kind
    cases h with
    | vector hs ha =>
      refine gets_readObj_sequence hkind hfits.1 fun x hx => ?_
      rw [arguments_one templateName_vector hs]
      exact gets_readObj bufs a ha (Nat.le_of_succ_le_succ hdepth) (hfits.2 x hx) (hdistinct x hx)
  | .list a, _, h, limit + 1, hdepth, xs, hfits, hdistinct => by
    have hkind := h.printed.kind
    cases h with
    | list hs ha =>
      refine gets_readObj_sequence hkind hfits.1 fun x hx => ?_
      rw [arguments_one templateName_list hs]
      exact gets_readObj bufs a ha (Nat.le_of_succ_le_succ hdepth) (hfits.2 x hx) (hdistinct x hx)
  | .set a, _, h, limit + 1, hdepth, xs, hfits, hdistinct => by
    have hkind := h.printed.kind
    cases h with
    | set hs ha hhash =>
      refine gets_readObj_set hkind hhash hfits.1 hdistinct.1 fun x hx => ?_
      rw [arguments_one templateName_set hs]
      exact gets_readObj bufs a ha (Nat.le_of_succ_le_succ hdepth) (hfits.2 x hx)
        (hdistinct.2 x hx)
  | .unorderedSet a, _, h, limit + 1, hdepth, xs, hfits, hdistinct => by
    have hkind := h.printed.kind
    cases h with
    | unorderedSet hs ha hhash =>
      refine gets_readObj_set hkind hhash hfits.1 hdistinct.1 fun x hx => ?_
      rw [arguments_one templateName_unordered_set hs]
      exact gets_readObj bufs a ha (Nat.le_of_succ_le_succ hdepth) (hfits.2 x hx)
        (hdistinct.2 x hx)
  | .map k v, _, h, limit + 1, hdepth, xs, hfits, hdistinct => by
    have hkind := h.printed.kind
    cases h with
    | map hs hk hv hhash =>
      rw [depth] at hdepth
      exact gets_readObj_map hkind
        (templateSplit_arguments templateName_map hs hk.printed hv.printed) hhash hfits.1
        hdistinct.1
        (fun x hx => gets_readObj bufs k hk (by omega) (hfits.2 x hx).1 (hdistinct.2 x hx).1)
        (fun x hx => gets_readObj bufs v hv (by omega) (hfits.2 x hx).2 (hdistinct.2 x hx).2)
  | .unorderedMap k v, _, h, limit + 1, hdepth, xs, hfits, hdistinct => by
    have hkind := h.printed.kind
    cases h with
    | unorderedMap hs hk hv hhash =>
      rw [depth] at hdepth
      exact gets_readObj_map hkind
        (templateSplit_arguments templateName_unordered_map hs hk.printed hv.printed) hhash
        hfits.1 hdistinct.1
        (fun x hx => gets_readObj bufs k hk (by omega) (hfits.2 x hx).1 (hdistinct.2 x hx).1)
        (fun x hx => gets_readObj bufs v hv (by omega) (hfits.2 x hx).2 (hdistinct.2 x hx).2)
  | .struct name fields, _, h, limit + 1, hdepth, x, hfits, hdistinct => by
    have hkind := h.printed.kind
    cases h with
    | @struct _ decls _ hname hstruct _ hfields =>
      have hvalues := gets_readFields bufs fields hfields
        (Nat.le_of_succ_le_succ hdepth) hfits hdistinct
      rw [print_none hname.stdRename_eq] at hkind ⊢
      rw [readObj_succ, hkind, toPy, hfields.names_eq]
      unfold kind readBody
      simp only [hstruct]
      exact hvalues.map fun values => PyObj.tuple (some (name.toList, decls.map Prod.fst)) values
  | t, _, _, 0, hdepth, _, _, _ => by
    have := depth_pos t
    omega

theorem gets_readFields {structs : Structs} (bufs : Nat → List UInt8) : (fields : Fields) →
    {decls : List (List Char × List Char)} → DenoteFields structs decls fields → {limit : Nat} →
    depthFields fields ≤ limit → {x : fields.Obj} → fields.Fits x → DistinctFields fields x →
    Gets (collect (fun field => readObj structs bufs limit field.2) decls) (fields.enc x)
      (toPyFields fields x)
  | .nil, _, .nil, _, _, _, _, _ => Gets.pure []
  | .cons _ t rest, _, .cons ht hrest, limit, hdepth, x, hfits, hdistinct => by
    rw [depthFields] at hdepth
    have hfirst := gets_readObj bufs t ht (show depth t ≤ limit by omega) hfits.1 hdistinct.1
    have hmore := gets_readFields bufs rest hrest (show depthFields rest ≤ limit by omega)
      hfits.2 hdistinct.2
    exact hfirst.bind (hmore.map fun values => toPy t x.1 :: values)

end

theorem forall₂_toPy {α β : Type} {R : α → β → Prop} {f : β → α} (hf : ∀ x, R (f x) x) :
    {xs : List β} → List.Forall₂ R (xs.map f) xs
  | [] => .nil
  | x :: _ => .cons (hf x) (forall₂_toPy hf)

mutual

/-- What is read stands for what was written. -/
theorem rep_toPy : (t : Ty) → (x : t.Obj) → Rep t (toPy t x) x
  | .leaf _, _ => rfl
  | .pair a b, x => ⟨_, _, .inr ⟨none, rfl⟩, rep_toPy a x.1, rep_toPy b x.2⟩
  | .vector a, _ => ⟨_, .inl rfl, forall₂_toPy fun x => rep_toPy a x⟩
  | .list a, _ => ⟨_, .inl rfl, forall₂_toPy fun x => rep_toPy a x⟩
  | .set a, _ => ⟨_, rfl, forall₂_toPy fun x => rep_toPy a x⟩
  | .unorderedSet a, _ => ⟨_, rfl, forall₂_toPy fun x => rep_toPy a x⟩
  | .map k v, _ => ⟨_, rfl, forall₂_toPy fun x => ⟨rep_toPy k x.1, rep_toPy v x.2⟩⟩
  | .unorderedMap k v, _ => ⟨_, rfl, forall₂_toPy fun x => ⟨rep_toPy k x.1, rep_toPy v x.2⟩⟩
  | .struct _ fields, x => ⟨_, rfl, repFields_toPy fields x⟩

theorem repFields_toPy : (fields : Fields) → (x : fields.Obj) →
    RepFields fields (toPyFields fields x) x
  | .nil, _ => rfl
  | .cons _ t rest, x => ⟨_, _, rfl, rep_toPy t x.1, repFields_toPy rest x.2⟩

end

/-! ## Both codecs -/

/-- What Python writes for `o`, C++ reads as the value of `x`. -/
def PyToCpp (structs : Structs) (e : TypeTree) (t : Ty) (o : PyObj) (x : t.Obj) : Prop :=
  ∀ limit, depth t ≤ limit → ∀ h (m : Marshal), m.Ok h → m.SelfExclusive h →
    ∀ (bufs : Nat → List UInt8) (b : List UInt8),
    ∃ h₁ m₁ bytes, writeObj structs limit o e.print (h, m) = .ok ((), h₁, m₁) ∧
      m₁.content h₁ = m.content h ++ bytes ∧
      ∀ h₂ (m₂ : Marshal), m₂.Ok h₂ → m₂.content h₂ = bytes ++ b →
        ∃ m₃, t.get bufs (h₂, m₂) = .ok (t.val x, h₂, m₃) ∧ m₃.content h₂ = b

/-- What C++ writes for `x`, Python reads as an object that stands for `x`. -/
def CppToPy (structs : Structs) (e : TypeTree) (t : Ty) (x : t.Obj) : Prop :=
  ∀ limit, depth t ≤ limit → ∀ h (m : Marshal), m.Ok h → m.SelfExclusive h →
    ∀ (bufs : Nat → List UInt8) (b : List UInt8),
    ∃ h₁ m₁ bytes, t.put x (h, m) = .ok ((), h₁, m₁) ∧ m₁.content h₁ = m.content h ++ bytes ∧
      ∀ h₂ (m₂ : Marshal), m₂.Ok h₂ → m₂.content h₂ = bytes ++ b →
        ∃ o m₃, readObj structs bufs limit e.print (h₂, m₂) = .ok (o, h₂, m₃) ∧
          Rep t o x ∧ m₃.content h₂ = b

/-- **The codecs agree**: for every type that `rpcgen` prints, each of Python and C++ reads what
    the other wrote. -/
theorem python_cpp_agree (structs : Structs) (e : TypeTree) (t : Ty) (h : Denotes structs e t) :
    (∀ o x, Rep t o x → t.Fits x → PyToCpp structs e t o x) ∧
      ∀ x, t.Fits x → Distinct t x → CppToPy structs e t x := by
  refine ⟨fun o x hrep hfits limit hlimit h₀ m hm hex bufs b => ?_,
    fun x hfits hdistinct limit hlimit h₀ m hm hex bufs b => ?_⟩
  · obtain ⟨h₁, m₁, new, hput, happ, -⟩ := puts_writeObj t h hlimit hrep hfits h₀ m hm
    refine ⟨h₁, m₁, t.enc x, hput, happ.content_eq hm hex, fun h₂ m₂ hm₂ hcontent => ?_⟩
    obtain ⟨m₃, hget, hc, -⟩ := t.gets_get bufs x hfits h₂ m₂ b hm₂ hcontent
    exact ⟨m₃, hget, by rw [hc.content_eq, hcontent, List.drop_left]⟩
  · obtain ⟨h₁, m₁, new, hput, happ, -⟩ := t.puts_put x h₀ m hm
    refine ⟨h₁, m₁, t.enc x, hput, happ.content_eq hm hex, fun h₂ m₂ hm₂ hcontent => ?_⟩
    obtain ⟨m₃, hget, hc, -⟩ := gets_readObj bufs t h hlimit hfits hdistinct h₂ m₂ b hm₂ hcontent
    exact ⟨toPy t x, m₃, hget, rep_toPy t x, by rw [hc.content_eq, hcontent, List.drop_left]⟩

/-- `map<string, vector<v64>>`, as it is written in a `.rpc` file. -/
def namesTree : TypeTree :=
  .symbol "map".toList (.cons (.symbol "string".toList .nil)
    (.cons (.symbol "vector".toList (.cons (.builtin .v64) .nil)) .nil))

/-- One struct that has a field of this type. -/
def pointStructs : Structs := fun name =>
  if name = "point".toList then some [("names".toList, namesTree.print)] else none

/-- The struct of that registry. -/
def pointTy : Ty :=
  .struct "point" (.cons "names" (.map (.leaf .string) (.vector (.leaf .v64))) .nil)

theorem structName_point : StructName "point".toList where
  nonempty := by decide
  symbol c hc := by
    have hall : "point".toList.all (fun c => c.isAlphanum || c == '_') = true := by decide
    simpa using List.all_eq_true.mp hall c hc
  free := by decide

theorem denotes_point :
    Denotes pointStructs (.symbol "point".toList .nil) pointTy :=
  .struct structName_point (if_pos rfl) (by decide)
    (.cons (.map (by decide) (.string (by decide)) (.vector (by decide) (.builtin .v64)) rfl) .nil)

/-- A struct with a map from strings to vectors, in both directions. -/
theorem python_cpp_agree_point :
    PyToCpp pointStructs (.symbol "point".toList .nil) pointTy
      (.tuple (some ("point".toList, ["names".toList]))
        [.dict [(.str [97], .tuple none [.int 5, .int (-7)])]])
      ([([97], [(5 : Int64), (-7 : Int64)])], ()) ∧
    CppToPy pointStructs (.symbol "point".toList .nil) pointTy
      ([([97], [(5 : Int64), (-7 : Int64)])], ()) := by
  -- no integer here has a code of eight bytes
  have hfits : pointTy.Fits ([([97], [(5 : Int64), (-7 : Int64)])], ()) := by
    refine ⟨⟨show 1 < 2 ^ 31 by decide, fun x hx => ?_⟩, trivial⟩
    obtain rfl := List.mem_singleton.mp hx
    refine ⟨show 1 < 2 ^ 31 by decide, show 2 < 2 ^ 31 by decide, fun y hy => ?_⟩
    rcases List.mem_cons.mp hy with rfl | hy
    · exact (by decide : Base.SparseInt.valSize 5 ≠ 8)
    · obtain rfl := List.mem_singleton.mp hy
      exact (by decide : Base.SparseInt.valSize (-7) ≠ 8)
  -- there is one key
  have hdistinct : Distinct pointTy ([([97], [(5 : Int64), (-7 : Int64)])], ()) := by
    refine ⟨⟨List.pairwise_singleton _ _, fun x _ => ⟨trivial, fun y _ => trivial⟩⟩, trivial⟩
  have hrep : Rep pointTy (.tuple (some ("point".toList, ["names".toList]))
      [.dict [(.str [97], .tuple none [.int 5, .int (-7)])]])
      ([([97], [(5 : Int64), (-7 : Int64)])], ()) := by
    refine ⟨_, rfl, _, _, rfl, ⟨_, rfl, .cons ⟨rfl, _, .inr ⟨none, rfl⟩, ?_⟩ .nil⟩, rfl⟩
    exact .cons rfl (.cons rfl .nil)
  obtain ⟨hwrite, hread⟩ := python_cpp_agree pointStructs _ pointTy denotes_point
  exact ⟨hwrite _ _ hrep hfits, hread _ hfits hdistinct⟩

end SimpleRpc.Py
