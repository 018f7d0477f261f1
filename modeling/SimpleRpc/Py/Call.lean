import SimpleRpc.Py.Marshal
import SimpleRpc.Rpc.RemoteCall
import SimpleRpc.Rpc.Wrappers

/-!
# Calls between C++ and Python (`server.py`, `client.py`, `future.py`, `_pyrpc.cc`)

A function of a service may be written in C++ or in Python, and so may its caller. The
Python server runs a function through `MarshalWrap` and the lambda of `_pyrpc.server_reg`; the Python
client writes its arguments with `write_obj`, and `Future.wait` reads the results with `read_obj`.

## Layers

- **Code**: `MarshalWrap.handle`, `writeReq`, `Future.wait`, `readRep`, and the C++ operators
- **Abstract**: `RpcFunc`, what the function returns for the values of its arguments
- **Connection**: `System.inv_of_kept`, where `Serves` is what the handlers promise

## Main results

- `puts_writeReq`, `handle_spec`, `wait_spec`: the three pieces of Python code
- `call_across_languages`: whoever calls whom, the caller gets what the function returns

## Model

- a function may do something else each time it is called: `Serves` only asks that each run of it
  returns what the function may return
- exceptions of Python are `Fault.exception`; all other faults end the process
- the traceback that `MarshalWrap` prints, and the Marshal that is not deleted when writing the results
  raises an exception, are left out
-/

namespace SimpleRpc.Py

open SimpleRpc.Lib SimpleRpc.Rpc SimpleRpc.Rpc.MarshalM

/-! ## The server -/

/-- An exception of the function itself: is it a `NotImplementedError`? -/
inductive Raised where
  | notImplemented
  | other

def ENOSYS : Int32 := 38

/-- The error code that the lambda of `server_reg` replies with. -/
def Raised.errorCode : Raised → Int32
  | .notImplemented => ENOSYS
  | .other => -1

/-- A Python function, as far as one call of it is concerned. -/
abbrev PyFunc := List PyObj → Except Raised PyObj

/-- `class MarshalWrap`, without its function. -/
structure MarshalWrap where
  inputTypes : List (List Char)
  outputTypes : List (List Char)

namespace MarshalWrap

variable (structs : Structs) (bufs : Nat → List UInt8) (limit : Nat)

/-- `input_values += input_m.read_obj(input_ty),` -/
def readInput (w : MarshalWrap) : MarshalM (List PyObj) :=
  collect (readObj structs bufs limit) w.inputTypes

/-- `output_m.write_obj(output[i], self.output_types[i])` -/
def writeItem (output : PyObj) (ty : List Char × Nat) : MarshalM Unit := do
  let item ← output.item ty.2
  writeObj structs limit item ty.1

/-- What is written to `output_m`; a function without results has none. -/
def writeOutput (w : MarshalWrap) (output : PyObj) : Option (MarshalM Unit) :=
  match w.outputTypes with
  | [] => none
  | [ty] => some (writeObj structs limit output ty)
  | types => some (each (writeItem structs limit output) types.zipIdx)

/-- `MarshalWrap.__call__` behind the function, and the lambda: the error code of the reply and what
    it holds. -/
def reply (w : MarshalWrap) (h : Heap) : Except Raised PyObj → Except Fault (Int32 × List UInt8)
  | .error raised => .ok (raised.errorCode, [])
  | .ok output =>
    match w.writeOutput structs limit output with
    | none => .ok (0, [])
    | some write =>
      match write (h, .empty) with
      | .ok ((), h', outputM) => .ok (0, outputM.content h')
      | .error .exception => .ok (Raised.other.errorCode, [])
      | .error fault => .error fault

/-- The lambda of `_pyrpc.server_reg` for this wrapper, on a request whose Marshal is `m`. -/
def handle (w : MarshalWrap) (f : PyFunc) (h : Heap) (m : Marshal) :
    Except Fault (Int32 × List UInt8) :=
  match w.readInput structs bufs limit (h, m) with
  | .ok (values, h', _) => w.reply structs limit h' (f values)
  | .error .exception => .ok (Raised.other.errorCode, [])
  | .error fault => .error fault

end MarshalWrap

/-! ## The client -/

section Client

variable (structs : Structs) (bufs : Nat → List UInt8) (limit : Nat)

/-- `req_m.write_obj(req_values[i], req_types[i])` -/
def writeArg (reqTypes : List (List Char)) (value : PyObj × Nat) : MarshalM Unit :=
  match reqTypes[value.2]? with
  | some ty => writeObj structs limit value.1 ty
  | none => fail .exception

/-- The loop of `async_call`, `sync_call` and `udp_call`. -/
def writeReq (reqValues : List PyObj) (reqTypes : List (List Char)) : MarshalM Unit :=
  each (writeArg structs limit reqTypes) reqValues.zipIdx

/-- `results` of `sync_call` and `Future.wait`. -/
def readRep (errorCode : Int32) (repTypes : List (List Char)) : MarshalM (List PyObj) :=
  if errorCode = 0 then collect (readObj structs bufs limit) repTypes else pure []

/-- `self.rep`: nothing, the result, or the list of them -/
def shape : List PyObj → Option PyObj
  | [] => none
  | [result] => some result
  | results => some (.list results)

/-- `class Future` of `future.py` -/
structure Future where
  repTypes : List (List Char)
  /-- `wait_ok`, and `err_code` with `rep` once it is set -/
  done : Option (Int32 × Option PyObj)

/-- `Future.wait`, when `_pyrpc` returns `errorCode` and a Marshal that holds the reply -/
def Future.wait (fu : Future) (errorCode : Int32) : MarshalM Future :=
  match fu.done with
  | some _ => pure fu
  | none => do
    let results ← readRep structs bufs limit errorCode fu.repTypes
    pure { fu with done := some (errorCode, shape results) }

end Client

/-! ## Functions -/

/-- The results of a function stand for an object: one alone, or several in a list or a tuple. -/
def RepOutput : (fields : Fields) → PyObj → fields.Obj → Prop
  | .nil, _, _ => True
  | .cons _ t .nil, o, y => Rep t o y.1
  | .cons name t (.cons name' t' rest), o, y =>
    ∃ os, (o = .list os ∨ ∃ ctor, o = .tuple ctor os) ∧
      RepFields (.cons name t (.cons name' t' rest)) os y

/-- A function of a service, with the types that `rpcgen` prints for it, and what it may do with
    the values of its arguments. -/
structure RpcFunc (structs : Structs) (limit : Nat) where
  input : Fields
  output : Fields
  inDecls : List (List Char × List Char)
  outDecls : List (List Char × List Char)
  input_denotes : DenoteFields structs inDecls input
  output_denotes : DenoteFields structs outDecls output
  input_depth : depthFields input ≤ limit
  output_depth : depthFields output ≤ limit
  returns : input.Val → Except Raised output.Obj → Prop
  fits : ∀ x y, returns x (.ok y) → output.Fits y ∧ DistinctFields output y

namespace RpcFunc

variable {structs : Structs} {limit : Nat} (func : RpcFunc structs limit)

/-- `MarshalWrap(func, input_types, output_types)` -/
def wrap : MarshalWrap := ⟨func.inDecls.map Prod.snd, func.outDecls.map Prod.snd⟩

/-- One run of a Python function does what the function may do. -/
def Computes (f : PyFunc) : Prop :=
  ∀ (x : func.input.Obj) os, RepFields func.input os x →
    match f os with
    | .error raised => func.returns (func.input.val x) (.error raised)
    | .ok o => ∃ y, func.returns (func.input.val x) (.ok y) ∧ RepOutput func.output o y

/-- A reply of a handler of the function, in C++ or in Python, to a request with the bytes `args`. -/
inductive Serves (args : List UInt8) : Int32 × List UInt8 → Prop
  | cpp {bufs : Nat → List UInt8} {h h' : Heap} {m m' : Marshal} {x : func.input.Val}
      {y : func.output.Obj} (hm : m.Ok h) (hargs : m.content h = args)
      (hget : func.input.get bufs (h, m) = .ok (x, h', m')) (hreturns : func.returns x (.ok y)) :
      Serves args (0, (func.output.value y).bytes)
  | py {bufs : Nat → List UInt8} {h : Heap} {m : Marshal} {f : PyFunc} {r : Int32 × List UInt8}
      (hm : m.Ok h) (hargs : m.content h = args) (hf : func.Computes f)
      (hrun : func.wrap.handle structs bufs limit f h m = .ok r) : Serves args r

/-- A caller, in C++ or in Python, has written these bytes for its arguments. -/
inductive Asked (x : func.input.Obj) : List UInt8 → Prop
  | cpp : Asked x (func.input.value x).bytes
  | py {h h' : Heap} {m' : Marshal} {os : List PyObj} (hos : RepFields func.input os x)
      (hrun : writeReq structs limit os (func.inDecls.map Prod.snd) (h, .empty) = .ok ((), h', m')) :
      Asked x (m'.content h')

/-- The error code and the bytes that stand for a result. -/
def wire : Except Raised func.output.Obj → Int32 × List UInt8
  | .ok y => (0, func.output.enc y)
  | .error raised => (raised.errorCode, [])

/-- What `read_obj` makes of a result. -/
def objects : Except Raised func.output.Obj → List PyObj
  | .ok y => toPyFields func.output y
  | .error _ => []

/-- What a caller gets out of a reply: in C++ the error code and the values that `>>` reads, in
    Python the same and the objects that stand for them. -/
structure Receives (errorCode : Int32) (bytes : List UInt8) (result : Except Raised func.output.Obj) :
    Prop where
  code : errorCode = (func.wire result).1
  /-- `if (__ret__ == 0) { fu->get_reply() >> *out_0; .. }` -/
  cpp : ∀ y, result = .ok y → ∀ bufs h (m : Marshal), m.Ok h → m.content h = bytes →
    ∃ m', func.output.get bufs (h, m) = .ok (func.output.val y, h, m')
  /-- `Future.wait` of a Future that nobody has waited for -/
  py : ∀ bufs h (m : Marshal), m.Ok h → m.content h = bytes →
    ∃ m', Future.wait structs bufs limit ⟨func.outDecls.map Prod.snd, none⟩ errorCode (h, m) =
      .ok (⟨func.outDecls.map Prod.snd, some (errorCode, shape (func.objects result))⟩, h, m')

end RpcFunc

/-! ## Lists of objects -/

section Lists

variable {structs : Structs} {limit : Nat}

theorem collect_map {α β γ : Type} (f : β → MarshalM γ) (g : α → β) (xs : List α) :
    collect f (xs.map g) = collect (fun x => f (g x)) xs := by
  induction xs with
  | nil => rfl
  | cons x xs ih => rw [List.map_cons, collect, collect, ih]

/-- Reading a list of types reads the fields. -/
theorem gets_collect (bufs : Nat → List UInt8) {fields : Fields}
    {decls : List (List Char × List Char)} (hdenotes : DenoteFields structs decls fields)
    (hdepth : depthFields fields ≤ limit) {x : fields.Obj} (hfits : fields.Fits x)
    (hdistinct : DistinctFields fields x) :
    Gets (collect (readObj structs bufs limit) (decls.map Prod.snd)) (fields.enc x)
      (toPyFields fields x) := by
  rw [collect_map]
  exact gets_readFields bufs fields hdenotes hdepth hfits hdistinct

/-- Writing the objects with their types, one after the other. -/
def writeAll (structs : Structs) (limit : Nat) (os : List PyObj) (types : List (List Char)) :
    MarshalM Unit :=
  each (fun p => writeObj structs limit p.1 p.2) (os.zip types)

theorem puts_writeAll : (fields : Fields) → {decls : List (List Char × List Char)} →
    DenoteFields structs decls fields → depthFields fields ≤ limit → {os : List PyObj} →
    {x : fields.Obj} → RepFields fields os x → fields.Fits x →
    Puts (writeAll structs limit os (decls.map Prod.snd)) (fields.enc x)
  | .nil, _, .nil, _, _, _, hos, _ => by
    rw [RepFields] at hos
    subst hos
    exact Puts.pure
  | .cons _ t rest, _, .cons ht hrest, hdepth, _, x, ⟨p, ps, hps, hp, hos⟩, hfits => by
    subst hps
    rw [depthFields] at hdepth
    have hfirst := puts_writeObj t ht (show depth t ≤ limit by omega) hp hfits.1
    exact hfirst.bind (puts_writeAll rest hrest (by omega) hos hfits.2)

theorem RepFields.length_decls {fields : Fields} {decls : List (List Char × List Char)}
    {os : List PyObj} {x : fields.Obj} (hdenotes : DenoteFields structs decls fields)
    (hos : RepFields fields os x) : os.length = (decls.map Prod.snd).length := by
  rw [RepFields.length_eq hos, hdenotes.names_eq, List.length_map, List.length_map]

/-- The client's loop takes the type at the position of the value. -/
theorem writeReq_from (pre : List (List Char)) (values : List PyObj) (types : List (List Char))
    (hlen : values.length = types.length) :
    each (writeArg structs limit (pre ++ types)) (values.zipIdx pre.length) =
      writeAll structs limit values types := by
  induction values generalizing pre types with
  | nil => rfl
  | cons value values ih =>
    cases types with
    | nil => cases hlen
    | cons ty types =>
      have hget : (pre ++ ty :: types)[pre.length]? = some ty := by simp
      have hrest := ih (pre ++ [ty]) types (Nat.succ.inj hlen)
      rw [List.append_assoc, List.singleton_append, List.length_append, List.length_singleton] at hrest
      rw [List.zipIdx_cons, each, writeArg, hget, hrest]
      rfl

/-- The server's loop takes the result at the position of the type. -/
theorem writeItem_from (output : PyObj) (types : List (List Char)) (os : List PyObj) (k : Nat)
    (hlen : os.length = types.length) (hitem : ∀ i o, os[i]? = some o → output.item (k + i) = pure o) :
    each (MarshalWrap.writeItem structs limit output) (types.zipIdx k) =
      writeAll structs limit os types := by
  induction types generalizing os k with
  | nil =>
    cases os with
    | nil => rfl
    | cons o os => cases hlen
  | cons ty types ih =>
    cases os with
    | nil => cases hlen
    | cons o os =>
      have hfirst : output.item k = pure o := hitem 0 o rfl
      have hrest := ih os (k + 1) (Nat.succ.inj hlen) fun i p hp => by
        rw [Nat.add_assoc, Nat.add_comm 1 i]
        exact hitem (i + 1) p hp
      rw [List.zipIdx_cons, each, MarshalWrap.writeItem, hfirst, hrest]
      rfl

theorem item_of_get {os : List PyObj} {output : PyObj}
    (houtput : output = .list os ∨ ∃ ctor, output = .tuple ctor os) {i : Nat} {o : PyObj}
    (ho : os[i]? = some o) : output.item i = pure o := by
  obtain rfl | ⟨ctor, rfl⟩ := houtput
  · simp only [PyObj.item, ho]
  · simp only [PyObj.item, ho]

end Lists

/-! ## The three pieces -/

section Pieces

variable {structs : Structs} {limit : Nat}

/-- **The request**: a Python client writes the format of the argument types. -/
theorem puts_writeReq {fields : Fields} {decls : List (List Char × List Char)}
    (hdenotes : DenoteFields structs decls fields) (hdepth : depthFields fields ≤ limit)
    {os : List PyObj} {x : fields.Obj} (hos : RepFields fields os x) (hfits : fields.Fits x) :
    Puts (writeReq structs limit os (decls.map Prod.snd)) (fields.enc x) := by
  have hlen := RepFields.length_decls hdenotes hos
  have heq : writeReq structs limit os (decls.map Prod.snd) =
      writeAll structs limit os (decls.map Prod.snd) := writeReq_from [] os _ hlen
  rw [heq]
  exact puts_writeAll fields hdenotes hdepth hos hfits

/-- The results of a function are written as the format of the result types; a function without
    results writes nothing. -/
theorem puts_writeOutput {fields : Fields} {decls : List (List Char × List Char)}
    (ins : List (List Char)) (hdenotes : DenoteFields structs decls fields) (hdepth : depthFields fields ≤ limit)
    {o : PyObj} {y : fields.Obj} (ho : RepOutput fields o y) (hfits : fields.Fits y) :
    (match MarshalWrap.writeOutput structs limit ⟨ins, decls.map Prod.snd⟩ o with
      | none => fields.enc y = []
      | some write => Puts write (fields.enc y)) := by
  have hall := hdenotes
  cases hdenotes with
  -- no result is declared
  | nil => rfl
  | cons ht hrest =>
    cases hrest with
    | nil =>
      -- one result: the object itself is written
      rw [depthFields] at hdepth
      have hput := puts_writeObj _ ht (Nat.le_trans (Nat.le_max_left _ _) hdepth) ho hfits.1
      show Puts _ (_ ++ [])
      rw [List.append_nil]
      exact hput
    | cons ht' hrest =>
      -- several results: the items of the sequence are written in order
      obtain ⟨os, houtput, hos⟩ := ho
      have hlen := RepFields.length_decls hall hos
      have hitem : ∀ i p, os[i]? = some p → o.item (0 + i) = pure p := by
        intro i p hp
        rw [Nat.zero_add]
        exact item_of_get houtput hp
      have hput := puts_writeAll _ hall hdepth hos hfits
      rw [← writeItem_from o _ os 0 hlen hitem] at hput
      exact hput

/-- **The handler**: a Python function that is handed the format of an object replies with the
    format of what it may return for it, or with the code of its exception. -/
theorem handle_spec (func : RpcFunc structs limit) (bufs : Nat → List UInt8) {h : Heap} {m : Marshal}
    {f : PyFunc} (hm : m.Ok h) {x : func.input.Obj} (hfits : func.input.Fits x)
    (hdistinct : DistinctFields func.input x) (hargs : m.content h = func.input.enc x)
    (hf : func.Computes f) :
    (∃ y, func.returns (func.input.val x) (.ok y) ∧
      func.wrap.handle structs bufs limit f h m = .ok (0, func.output.enc y)) ∨
    ∃ raised, func.returns (func.input.val x) (.error raised) ∧
      func.wrap.handle structs bufs limit f h m = .ok (raised.errorCode, []) := by
  have hgets : Gets (func.wrap.readInput structs bufs limit) (func.input.enc x)
      (toPyFields func.input x) :=
    gets_collect bufs func.input_denotes func.input_depth hfits hdistinct
  obtain ⟨m', hread, -⟩ := hgets h m [] hm (by rw [hargs, List.append_nil])
  have hresult := hf x _ (repFields_toPy func.input x)
  rw [MarshalWrap.handle, hread]
  dsimp only
  cases hbody : f (toPyFields func.input x) with
  | error raised =>
    -- the exception has become the error code of the reply
    rw [hbody] at hresult
    exact .inr ⟨raised, hresult, rfl⟩
  | ok o =>
    -- the function has returned an object for its results
    rw [hbody] at hresult
    obtain ⟨y, hreturns, ho⟩ := hresult
    refine .inl ⟨y, hreturns, ?_⟩
    have hputs := puts_writeOutput func.wrap.inputTypes func.output_denotes func.output_depth ho
      (func.fits _ _ hreturns).1
    rw [MarshalWrap.reply]
    split at hputs
    · -- nothing is written
      rename_i hnone
      have hnone' : func.wrap.writeOutput structs limit o = none := hnone
      rw [hnone', hputs]
    · -- the results are written into an empty Marshal
      rename_i write hsome
      have hsome' : func.wrap.writeOutput structs limit o = some write := hsome
      obtain ⟨h₁, m₁, new, hwrite, happ, -⟩ := hputs h .empty (Marshal.ok_empty h)
      have hcontent := happ.content_eq (Marshal.ok_empty h) (List.disjoint_nil_left _)
      rw [hsome']
      dsimp only
      rw [hwrite]
      exact congrArg (fun bytes => Except.ok ((0 : Int32), bytes)) hcontent

/-- **The reply**: `Future.wait` gets the objects of the result types out of their format. -/
theorem wait_spec (func : RpcFunc structs limit) (bufs : Nat → List UInt8) {h : Heap} {m : Marshal}
    (hm : m.Ok h) {y : func.output.Obj} (hfits : func.output.Fits y)
    (hdistinct : DistinctFields func.output y) (hcontent : m.content h = func.output.enc y) :
    ∃ m', Future.wait structs bufs limit ⟨func.outDecls.map Prod.snd, none⟩ 0 (h, m) =
      .ok (⟨func.outDecls.map Prod.snd, some (0, shape (toPyFields func.output y))⟩, h, m') := by
  have hgets := (gets_collect bufs func.output_denotes func.output_depth hfits hdistinct).map
    fun results => (⟨func.outDecls.map Prod.snd, some ((0 : Int32), shape results)⟩ : Future)
  obtain ⟨m', hread, -⟩ := hgets h m [] hm (by rw [hcontent, List.append_nil])
  exact ⟨m', hread⟩

/-- A reply with an error code has no results. -/
theorem wait_error (bufs : Nat → List UInt8) (types : List (List Char)) {errorCode : Int32}
    (hcode : errorCode ≠ 0) (h : Heap) (m : Marshal) :
    Future.wait structs bufs limit ⟨types, none⟩ errorCode (h, m) =
      .ok (⟨types, some (errorCode, none)⟩, h, m) := by
  simp only [Future.wait, readRep, if_neg hcode, pure_bind]
  rfl

end Pieces

/-! ## Both languages -/

namespace RpcFunc

variable {structs : Structs} {limit : Nat} {func : RpcFunc structs limit}

theorem Raised.errorCode_ne (raised : Raised) : raised.errorCode ≠ 0 := by
  cases raised <;> decide

/-- Callers of both languages write the format. -/
theorem Asked.eq_enc {x : func.input.Obj} {args : List UInt8} (h : func.Asked x args)
    (hfits : func.input.Fits x) : args = func.input.enc x := by
  cases h with
  | cpp => rfl
  | @py h₀ h' m' os hos hrun =>
    have hputs := puts_writeReq func.input_denotes func.input_depth hos hfits
    obtain ⟨h₁, m₁, new, hwrite, happ, -⟩ := hputs h₀ .empty (Marshal.ok_empty h₀)
    cases hrun.symm.trans hwrite
    exact happ.content_eq (Marshal.ok_empty h₀) (List.disjoint_nil_left _)

/-- Handlers of both languages reply with the format of what the function may return. -/
theorem Serves.result {x : func.input.Obj} (hfits : func.input.Fits x)
    (hdistinct : DistinctFields func.input x) {r : Int32 × List UInt8}
    (h : func.Serves (func.input.enc x) r) :
    ∃ result, func.returns (func.input.val x) result ∧ r = func.wire result := by
  cases h with
  | @cpp bufs h h' m m' x' y hm hargs hget hreturns =>
    obtain ⟨m'', hget', -⟩ := func.input.gets_get bufs x hfits h m [] hm
      (by rw [hargs, List.append_nil])
    cases hget.symm.trans hget'
    exact ⟨.ok y, hreturns, rfl⟩
  | py hm hargs hf hrun =>
    obtain ⟨y, hreturns, heq⟩ | ⟨raised, hreturns, heq⟩ :=
      handle_spec func _ hm hfits hdistinct hargs hf
    · cases hrun.symm.trans heq
      exact ⟨.ok y, hreturns, rfl⟩
    · cases hrun.symm.trans heq
      exact ⟨.error raised, hreturns, rfl⟩

/-- Callers of both languages get the result out of it. -/
theorem receives_of_eq {v : func.input.Val} {result : Except Raised func.output.Obj}
    (hreturns : func.returns v result) {errorCode : Int32} {bytes : List UInt8}
    (heq : (errorCode, bytes) = func.wire result) : func.Receives errorCode bytes result := by
  cases result with
  | ok y =>
    cases heq
    obtain ⟨hfits, hdistinct⟩ := func.fits v y hreturns
    refine ⟨rfl, fun y' hy' bufs h m hm hcontent => ?_, fun bufs h m hm hcontent => ?_⟩
    · cases hy'
      obtain ⟨m', hget, -⟩ := func.output.gets_get bufs y hfits h m [] hm
        (by rw [hcontent, List.append_nil])
      exact ⟨m', hget⟩
    · exact wait_spec func bufs hm hfits hdistinct hcontent
  | error raised =>
    cases heq
    refine ⟨rfl, fun _ hy' => ?_, fun bufs h m _ _ => ?_⟩
    · cases hy'
    · exact ⟨m, wait_error bufs _ (Raised.errorCode_ne raised) h m⟩

end RpcFunc

open RpcFunc

/-- **Calls across languages**: in every run of a client and a server whose handlers are C++ or Python
    code, whatever the threads do and however the bytes are cut, a Future that is completed holds,
    for callers of both languages, a result that the function may return for the values of the
    arguments of its own call. -/
theorem call_across_languages {κ κ' : Type} {structs : Structs} {limit : Nat}
    (handlers : Int32 → Option (RpcFunc structs limit)) (h h' : Heap) (ops : List (SystemOp κ κ'))
    (s : System κ κ' (RpcFunc structs limit))
    (hrun : Steps (System.NextKept Serves handlers) (System.init h h') ops s) (c : Completion)
    (hc : c ∈ s.completions) :
    ∃ n call, s.calls[n]? = some call ∧ c.fu = ⟨n, Int64.ofNat n⟩ ∧
      ∀ func, handlers call.rpcId = some func → ∀ x : func.input.Obj, func.input.Fits x →
        DistinctFields func.input x → func.Asked x call.args →
          ∃ result, func.returns (func.input.val x) result ∧
            func.Receives c.errorCode c.bytes result := by
  obtain ⟨hreturned, -⟩ := System.remote_call Serves handlers h h' ops s hrun
  obtain ⟨n, call, hret⟩ := hreturned c hc
  refine ⟨n, call, hret.call_eq, hret.fu_eq, fun func hfunc x hfits hdistinct hasked => ?_⟩
  obtain ⟨func', hfunc', hserves⟩ := hret.promised (by rw [hfunc]; nofun)
  cases hfunc.symm.trans hfunc'
  rw [hasked.eq_enc hfits] at hserves
  obtain ⟨result, hreturns, heq⟩ := hserves.result hfits hdistinct
  exact ⟨result, hreturns, receives_of_eq hreturns heq⟩

/-! ## One call -/

/-- `echo(i32 x | i32 y)`, which returns its argument -/
def echo : RpcFunc (fun _ => none) 1 where
  input := .cons "x" (.leaf .i32) .nil
  output := .cons "y" (.leaf .i32) .nil
  inDecls := [("x".toList, (TypeTree.builtin .i32).print)]
  outDecls := [("y".toList, (TypeTree.builtin .i32).print)]
  input_denotes := .cons (.builtin .i32) .nil
  output_denotes := .cons (.builtin .i32) .nil
  input_depth := by decide
  output_depth := by decide
  returns x result := result = .ok x
  fits _ _ _ := ⟨⟨trivial, trivial⟩, trivial, trivial⟩

/-- `def echo(x): return x` -/
def pyEcho : PyFunc
  | [x] => .ok x
  | _ => .error .other

theorem computes_pyEcho : echo.Computes pyEcho := by
  rintro x os ⟨p, ps, rfl, hp, hps⟩
  rw [RepFields] at hps
  subst hps
  exact ⟨x, rfl, hp⟩

/-- A Python handler of the function replies with the bytes it got. -/
theorem serves_echo (x : echo.input.Obj) :
    echo.Serves (echo.input.enc x) (0, echo.output.enc x) := by
  obtain ⟨h, m, new, -, happ, -⟩ := echo.input.puts_put x .empty .empty (Marshal.ok_empty _)
  have hcontent := happ.content_eq (Marshal.ok_empty _) (List.disjoint_nil_left _)
  obtain ⟨y, hy, hrun⟩ | ⟨raised, hraised, -⟩ := handle_spec echo (fun _ => []) happ.ok
    ⟨trivial, trivial⟩ ⟨trivial, trivial⟩ hcontent computes_pyEcho
  · cases hy
    exact .py happ.ok hcontent computes_pyEcho hrun
  · cases hraised

/-- A server with one function. -/
def handleEcho (rpcId : Int32) : Option (RpcFunc (fun _ => none) 1) :=
  if rpcId = 7 then some echo else none

/-- A request for `echo(5)`, and its reply. -/
def echoFive : List (SystemOp Unit Unit) :=
  [.beginRequest () [] 7, .putArg () (.raw [5, 0, 0, 0]), .endRequest (), .clientWrite [20],
    .serverRead [20], .serverParse [], .serverParse [], .serverDispatch [] [],
    .beginReply () ⟨0, 0⟩ 0 [] [], .putRet () (.raw [5, 0, 0, 0]), .endReply (), .serverWrite [20],
    .clientRead [20], .clientParse [] []]

/-- The reply that is ended is the one of `echo(5)`, and no other call was made. -/
def checkEcho {κ κ' η : Type} (s : System κ κ' η) : SystemOp κ κ' → Bool
  | .endReply _ => s.calls.all (fun call => call.args = [5, 0, 0, 0]) &&
      s.answering.all fun r => r.errorCode = 0 ∧ r.payload = [5, 0, 0, 0]
  | _ => true

theorem kept_of_checkEcho (s : System Unit Unit (RpcFunc (fun _ => none) 1))
    (op : SystemOp Unit Unit) (hI : s.Inv handleEcho) (hcheck : checkEcho s op = true) :
    s.Kept Serves op := by
  cases op with
  | endReply t =>
    simp only [checkEcho, Bool.and_eq_true, List.all_eq_true, decide_eq_true_eq] at hcheck
    obtain ⟨hcalls, hanswering⟩ := hcheck
    refine hI.kept_of_calls (fun call hcall handler hhandler r hr => ?_) _
    have hecho : echo = handler := by
      rw [handleEcho] at hhandler
      split at hhandler
      · exact Option.some.inj hhandler
      · cases hhandler
    rw [hr, Option.all_some, decide_eq_true_eq] at hanswering
    rw [← hecho, hcalls call hcall, hanswering.1, hanswering.2]
    exact serves_echo ((5 : Int32), ())
  | _ => trivial

/-- A C++ client has called a Python function and got its argument back. -/
theorem call_across_languages_echo :
    ∃ s : System Unit Unit (RpcFunc (fun _ => none) 1),
      (s.completions.map fun c => (c.fu.xid, c.errorCode, c.bytes)) = [(0, 0, [5, 0, 0, 0])] ∧
      ∀ c ∈ s.completions, echo.Receives c.errorCode c.bytes (.ok ((5 : Int32), ())) := by
  -- the run is computed, and its outcome read off
  have heval : (echoFive.foldlM
      (checked (fun s op => s.ready op && checkEcho s op) (System.step handleEcho))
      (System.init .empty .empty)).map (fun s =>
        (s.completions.map fun c => (c.fu.xid, c.errorCode, c.bytes),
          s.calls.map fun call => (call.rpcId, call.args))) =
      some ([(0, 0, [5, 0, 0, 0])], [(7, [5, 0, 0, 0])]) := by
    decide +kernel
  obtain ⟨s, hexec, hs⟩ := Option.map_eq_some_iff.mp heval
  obtain ⟨hcompletions, hcalls⟩ := Prod.mk.inj hs
  have hrun := System.steps_of_checked kept_of_checkEcho hexec
  refine ⟨s, hcompletions, fun c hc => ?_⟩
  obtain ⟨n, call, hcall, -, hreceives⟩ :=
    call_across_languages handleEcho .empty .empty echoFive s hrun c hc
  have hmem : (call.rpcId, call.args) ∈ [((7 : Int32), ([5, 0, 0, 0] : List UInt8))] := by
    rw [← hcalls]
    exact List.mem_map_of_mem (List.mem_of_getElem? hcall)
  obtain ⟨hid, hargs⟩ := Prod.mk.inj (List.mem_singleton.mp hmem)
  obtain ⟨result, hresult, hreceives⟩ := hreceives echo (by rw [hid]; rfl) ((5 : Int32), ())
    ⟨trivial, trivial⟩ ⟨trivial, trivial⟩ (by rw [hargs]; exact .cpp)
  cases hresult
  exact hreceives

end SimpleRpc.Py
