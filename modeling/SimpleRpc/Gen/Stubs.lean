import SimpleRpc.Gen.Service
import SimpleRpc.Lib.Bindings

/-!
# The Generated Stubs (`rpcgen.g`, `lang_cpp.py`, `lang_python.py`, `server.py`, `client.py`)

From one service definition two generators print four stubs: a proxy and a service class in
C++, and a proxy and a service class in Python. Each walks the argument lists of a function
with loops and counters of its own. What a stub puts on the wire, or takes from it, is a list
of types; the stubs get at these types through names: the rpc id through the name of a
constant, the arguments through variables, the Python types through the entries of a dict.

## Layers

- **Grammar**: `ServiceDecl`, with the checks of `rpcgen.g` in its types
- **C++**: `emitWrapper`, `emitProxy`, and what the printed code reads and writes when its
  names are looked up
- **Python**: `emitRegFunc`, `emitPyMethod`, and the loops of `MarshalWrap` and `Client` that
  run over their lists
- **Agreement**: `Agree`, all stubs of a function on one id and two lists of types, and
  `Clear`, the names they look up

A stub that finds no meaning for one of its names gives nothing, and so agrees with no other.
In C++ that takes in a function named like the class it is declared in, which would be a
constructor (`NoConstructor`), and two parameters of one name.

One service is taken by itself, and of it the declarations that the stubs of one function use:
class names that another service or a struct of the same file also takes are not modelled, nor
clashes between the other functions, nor are keywords, macros, names that hide a type, and types
that the target languages do not have. The mark `abstract`, which only prints `= 0`, is left out.
-/

namespace SimpleRpc.Gen

open SimpleRpc.Lib

/-! ## What the grammar accepts -/

/-- The token `SYMBOL`: `[a-zA-Z_][a-zA-Z0-9_]*` -/
def isSymbol (name : String) : Bool :=
  match name.toList with
  | [] => false
  | c :: cs => (c.isAlpha || c == '_') && cs.all fun d => d.isAlphanum || d == '_'

/-- `re.match("__([^_]+.*[^_]+|[^_])__$", name)` -/
def isReserved (name : String) : Bool :=
  match name.toList with
  | '_' :: '_' :: rest =>
    match rest.reverse with
    -- what stands between the underscores neither starts nor ends with one
    | '_' :: '_' :: mid => !mid.isEmpty && mid.head? != some '_' && mid.getLast? != some '_'
    | _ => false
  | _ => false

def forbidReservedNames (name : String) : Except String Unit :=
  if isReserved name then
    throw s!"bad name '{name}', __NAME__ format names are reserved"
  else pure ()

/-- A name of a function or an argument. -/
structure Symbol where
  val : String
  symbol : isSymbol val = true
  allowed : forbidReservedNames val = .ok ()

/-- `func_arg`: the type, as C++ spells it, and the optional name. -/
structure FuncArg where
  type : String
  name : Option Symbol

def checkRpcFunc (attrs : List Attr) (output : List FuncArg) : Except String Unit := do
  if .defer ∈ attrs ∧ .udp ∈ attrs then
    throw "udp functions does not have return value, cannot provide deferred return values"
  if .raw ∈ attrs ∧ .defer ∈ attrs then
    throw "cannot generate deferred return code stub for raw RPC handler"
  if .raw ∈ attrs ∧ .fast ∈ attrs then
    throw "cannot generate fast RPC code stub for raw RPC handler"
  if .fast ∈ attrs ∧ .defer ∈ attrs then
    throw "cannot mark an RPC as both doing fast return and deferred return"
  if .udp ∈ attrs ∧ output.length > 0 then
    throw "udp RPC handler cannot have return value"

/-- `service_function` -/
structure ServiceFunction where
  name : Symbol
  attrs : List Attr
  input : List FuncArg
  output : List FuncArg
  checked : checkRpcFunc attrs output = .ok ()

/-- `service_decl` -/
structure ServiceDecl where
  name : String
  symbol : isSymbol name = true
  functions : List ServiceFunction

/-- The table of `generate_rpc_table`, by `service.func`. -/
abbrev RpcTable := String → Nat

/-- `name.upper()` -/
def upper (name : String) : String := String.ofList (name.toList.map Char.toUpper)

namespace ServiceFunction

/-- The constant that carries the rpc id. -/
def const (func : ServiceFunction) : String := upper func.name.val

def inputTypes (func : ServiceFunction) : List String := func.input.map FuncArg.type

def outputTypes (func : ServiceFunction) : List String := func.output.map FuncArg.type

end ServiceFunction

/-- `rpc_table["%s.%s" % (service.name, func.name)]` -/
def rpcCode (rpcTable : RpcTable) (service : ServiceDecl) (func : ServiceFunction) : Nat :=
  rpcTable (service.name ++ "." ++ func.name.val)

/-- `%sService` -/
def serviceClass (service : ServiceDecl) : String := service.name ++ "Service"

/-- `%sProxy` -/
def proxyClass (service : ServiceDecl) : String := service.name ++ "Proxy"

/-! ## C++ code -/

/-- No method of the class is named like the class itself: C++ takes such a method for a
    constructor, and rejects it for its return type. -/
def NoConstructor (cls : String) (methods : List String) : Prop := cls ∉ methods

instance (cls : String) (methods : List String) : Decidable (NoConstructor cls methods) :=
  inferInstanceAs (Decidable (cls ∉ methods))

/-- The type of a variable: `T` (also `const T&`) or `T*`. -/
inductive CppType where
  | val (type : String)
  | ptr (type : String)
  deriving DecidableEq, Repr

/-- The variables of a function, parameters first. -/
abbrev Scope := List (String × CppType)

/-- `x`, `*x` or `&x` -/
inductive Operand where
  | var (x : String)
  | deref (x : String)
  | addr (x : String)

/-- A statement of a stub. -/
inductive CppStmt where
  /-- `T x;`, and `T* x = new T;` for a pointer -/
  | decl (type : CppType) (x : String)
  /-- `req->m >> e;`, `__fu__->get_reply() >> e;` -/
  | get (e : Operand)
  /-- `*sconn << e;`, `*__cl__ << e;` -/
  | put (e : Operand)

def Operand.type (scope : Scope) : Operand → Option CppType
  | .var x => once scope x
  | .deref x => match once scope x with
    | some (.ptr t) => some (.val t)
    | _ => none
  | .addr x => match once scope x with
    | some (.val t) => some (.ptr t)
    | _ => none

/-- The type for which `<<` or `>>` is called; there is none for pointers. -/
def Operand.streamed (scope : Scope) (e : Operand) : Option String :=
  match e.type scope with
  | some (.val t) => some t
  | _ => none

def declared (stmts : List CppStmt) : Scope :=
  stmts.filterMap fun
    | .decl type x => some (x, type)
    | _ => none

def getOperands (stmts : List CppStmt) : List Operand :=
  stmts.filterMap fun
    | .get e => some e
    | _ => none

def putOperands (stmts : List CppStmt) : List Operand :=
  stmts.filterMap fun
    | .put e => some e
    | _ => none

/-- The types the statements read. -/
def gets (scope : Scope) (stmts : List CppStmt) : Option (List String) :=
  (getOperands stmts).mapM (Operand.streamed scope)

/-- The types the statements write. -/
def puts (scope : Scope) (stmts : List CppStmt) : Option (List String) :=
  (putOperands stmts).mapM (Operand.streamed scope)

/-- `in_%d` -/
def inVar (i : Nat) : String := "in_" ++ toString i

/-- `out_%d` -/
def outVar (i : Nat) : String := "out_" ++ toString i

/-! ### The service class -/

/-- The loop over `func.input` in a wrapper: declare a variable and read it. -/
def wrapperInputs (type : String → CppType) (use : String → Operand) :
    List FuncArg → Nat → List CppStmt
  | [], _ => []
  | inArg :: rest, inCounter =>
    .decl (type inArg.type) (inVar inCounter) :: .get (use (inVar inCounter)) ::
      wrapperInputs type use rest (inCounter + 1)

/-- The loop over `func.output` in a wrapper: declare a variable. -/
def wrapperOutputs (type : String → CppType) : List FuncArg → Nat → List CppStmt
  | [], _ => []
  | outArg :: rest, outCounter =>
    .decl (type outArg.type) (outVar outCounter) :: wrapperOutputs type rest (outCounter + 1)

/-- What these loops add to `invoke_with`. -/
def invokeOperands (use : String → Operand) (x : Nat → String) :
    List FuncArg → Nat → List Operand
  | [], _ => []
  | _ :: rest, counter => use (x counter) :: invokeOperands use x rest (counter + 1)

/-- The loop over `func.output` in `__marshal_reply__`. -/
def marshalReply : List FuncArg → Nat → List CppStmt
  | [], _ => []
  | _ :: rest, outCounter =>
    .put (.deref (outVar outCounter)) :: marshalReply rest (outCounter + 1)

/-- A method `__func__wrapper__`. -/
structure Wrapper where
  /-- the declarations and what is read from the request -/
  body : List CppStmt
  /-- `this->func(...);` -/
  invokeWith : List Operand
  /-- what is written to the reply -/
  reply : List CppStmt
  /-- `sconn->run_async(f);` around the whole -/
  runAsync : Bool

/-- The parameters of a wrapper, and of a raw handler. -/
def requestParams : Scope :=
  [("req", .ptr "rpc::Request"), ("sconn", .ptr "rpc::ServerConnection")]

def emitWrapper (func : ServiceFunction) : Wrapper :=
  if .defer ∈ func.attrs then
    { body := wrapperInputs .ptr .deref func.input 0 ++ wrapperOutputs .ptr func.output 0 ++
        [.decl (.ptr "rpc::DeferredReply") "__defer__"]
      invokeWith := invokeOperands .deref inVar func.input 0 ++
        invokeOperands .var outVar func.output 0 ++ [.var "__defer__"]
      reply := marshalReply func.output 0
      runAsync := false }
  else
    -- normal and fast rpc
    { body := wrapperInputs .val .var func.input 0 ++ wrapperOutputs .val func.output 0
      invokeWith := invokeOperands .var inVar func.input 0 ++
        invokeOperands .addr outVar func.output 0
      reply :=
        if .udp ∈ func.attrs then []
        else (List.range func.output.length).map fun i => .put (.var (outVar i))
      runAsync := decide (.fast ∉ func.attrs) }

/-- The variables of a wrapper. -/
def Wrapper.scope (w : Wrapper) : Scope := requestParams ++ declared w.body

/-- The parameter types of the handler the user implements. -/
def handlerSignature (func : ServiceFunction) : List CppType :=
  if .raw ∈ func.attrs then requestParams.map Prod.snd
  else func.inputTypes.map .val ++ func.outputTypes.map .ptr ++
    if .defer ∈ func.attrs then [.ptr "rpc::DeferredReply"] else []

/-- The names of the arguments that have one. -/
def givenNames (args : List FuncArg) : List String :=
  args.filterMap fun arg => arg.name.map Symbol.val

/-- The parameter names of the handler; an argument without a name is declared without one. -/
def handlerNames (func : ServiceFunction) : List String :=
  if .raw ∈ func.attrs then ["req", "sconn"]
  else givenNames func.input ++ givenNames func.output ++
    if .defer ∈ func.attrs then ["defer"] else []

def wrapperName (func : ServiceFunction) : String := "__" ++ func.name.val ++ "__wrapper__"

/-- A method of the service class. -/
inductive ServiceMethod where
  | handler
  | wrapper (w : Wrapper)

/-- What tells the handler apart from overloads. -/
def handlerKey (func : ServiceFunction) : String × List CppType :=
  (func.name.val, handlerSignature func)

/-- What tells the wrapper apart from overloads. -/
def wrapperKey (func : ServiceFunction) : String × List CppType :=
  (wrapperName func, requestParams.map Prod.snd)

def handlerMethods (functions : List ServiceFunction) :
    List ((String × List CppType) × ServiceMethod) :=
  functions.map fun func => (handlerKey func, .handler)

/-- Functions that are not raw have a wrapper. -/
def wrapperMethods (functions : List ServiceFunction) :
    List ((String × List CppType) × ServiceMethod) :=
  (functions.filter fun func => .raw ∉ func.attrs).map fun func =>
    (wrapperKey func, .wrapper (emitWrapper func))

def serviceMethods (service : ServiceDecl) : List ((String × List CppType) × ServiceMethod) :=
  handlerMethods service.functions ++ wrapperMethods service.functions

/-- The service class declares no constructor. -/
def ServiceDeclares (service : ServiceDecl) : Prop :=
  NoConstructor (serviceClass service) ((serviceMethods service).map fun m => m.1.1)

instance (service : ServiceDecl) : Decidable (ServiceDeclares service) :=
  inferInstanceAs (Decidable (NoConstructor _ _))

/-- What a name of the service class stands for. -/
inductive Member where
  | const (rpcId : Nat)
  | method

/-- The constants of the `enum`. -/
def enumConsts (rpcTable : RpcTable) (service : ServiceDecl)
    (functions : List ServiceFunction) : List (String × Member) :=
  functions.map fun func => (func.const, .const (rpcCode rpcTable service func))

/-- The service class: the `enum`, `__reg_to__` and the methods. -/
def serviceMembers (rpcTable : RpcTable) (service : ServiceDecl) : List (String × Member) :=
  enumConsts rpcTable service service.functions ++
  ("__reg_to__", .method) :: (serviceMethods service).map fun m => (m.1.1, .method)

/-- `Service::CONST` -/
def cppConst (rpcTable : RpcTable) (service : ServiceDecl) (name : String) : Option Nat :=
  if ServiceDeclares service then
    match once (serviceMembers rpcTable service) name with
    | some (.const rpcId) => some rpcId
    | _ => none
  else none

/-- `svr->reg(CONST, this, &Service::__func__wrapper__)`: the wrapper it finds, with the handler
    that the wrapper calls. -/
def registeredWrapper (service : ServiceDecl) (func : ServiceFunction) : Option Wrapper :=
  if ServiceDeclares service ∧ (handlerNames func).Nodup then
    match once (serviceMethods service) (wrapperKey func) with
    | some (.wrapper w) => some w
    | _ => none
  else none

/-- The id the wrapper is registered for, and the types it reads. -/
def cppServes (rpcTable : RpcTable) (service : ServiceDecl) (func : ServiceFunction) :
    Option (Nat × List String) := do
  let rpcId ← cppConst rpcTable service func.const
  let w ← registeredWrapper service func
  return (rpcId, ← gets w.scope w.body)

/-- The types the wrapper writes to the reply. -/
def cppReplies (service : ServiceDecl) (func : ServiceFunction) : Option (List String) := do
  let w ← registeredWrapper service func
  puts w.scope w.reply

/-! ### The proxy class -/

/-- The four lists the generator fills for a function of the proxy. -/
structure ProxyParams where
  asyncFuncParams : Scope
  asyncCallParams : List String
  syncFuncParams : Scope
  syncOutParams : List String

/-- The loop over `func.input` in the proxy. -/
def proxyInputs : List FuncArg → Nat → ProxyParams → ProxyParams
  | [], _, p => p
  | inArg :: rest, inCounter, p =>
    proxyInputs rest (inCounter + 1) <|
      match inArg.name with
      | some name =>
        { p with
          asyncFuncParams := p.asyncFuncParams ++ [(name.val, .val inArg.type)]
          asyncCallParams := p.asyncCallParams ++ [name.val]
          syncFuncParams := p.syncFuncParams ++ [(name.val, .val inArg.type)] }
      | none =>
        { p with
          asyncFuncParams := p.asyncFuncParams ++ [(inVar inCounter, .val inArg.type)]
          asyncCallParams := p.asyncCallParams ++ [inVar inCounter]
          syncFuncParams := p.syncFuncParams ++ [(inVar inCounter, .val inArg.type)] }

/-- The loop over `func.output` in the proxy. -/
def proxyOutputs : List FuncArg → Nat → ProxyParams → ProxyParams
  | [], _, p => p
  | outArg :: rest, outCounter, p =>
    proxyOutputs rest (outCounter + 1) <|
      match outArg.name with
      | some name =>
        { p with
          syncFuncParams := p.syncFuncParams ++ [(name.val, .ptr outArg.type)]
          syncOutParams := p.syncOutParams ++ [name.val] }
      | none =>
        { p with
          syncFuncParams := p.syncFuncParams ++ [(outVar outCounter, .ptr outArg.type)]
          syncOutParams := p.syncOutParams ++ [outVar outCounter] }

def proxyParams (func : ServiceFunction) : ProxyParams :=
  proxyOutputs func.output 0 (proxyInputs func.input 0 ⟨[], [], [], []⟩)

/-- The body of a proxy method. -/
inductive ProxyBody where
  /-- `begin_request(Service::CONST, __fu_attr__)`, the statements when there is a connection,
      `end_request()` -/
  | async (const : String) (stmts : List CppStmt)
  /-- `this->callee(args)`, and the statements when `__ret__ == 0` -/
  | sync (callee : String) (args : List String) (stmts : List CppStmt)
  /-- `begin_udp_request(Service::CONST)`, the statements, `end_udp_request()` -/
  | udp (const : String) (stmts : List CppStmt)

/-- A proxy method; `locals` also holds `__fu_attr__`, which no call passes. -/
structure ProxyMethod where
  name : String
  params : Scope
  locals : Scope
  body : ProxyBody

def ProxyMethod.scope (m : ProxyMethod) : Scope := m.params ++ m.locals

def asyncName (func : ServiceFunction) : String := "async_" ++ func.name.val

def asyncMethod (func : ServiceFunction) : ProxyMethod where
  name := asyncName func
  params := (proxyParams func).asyncFuncParams
  locals := [("__fu_attr__", .val "rpc::FutureAttr"), ("__fu__", .ptr "rpc::Future")]
  body := .async func.const
    ((proxyParams func).asyncCallParams.map fun param => .put (.var param))

def syncMethod (func : ServiceFunction) : ProxyMethod where
  name := func.name.val
  params := (proxyParams func).syncFuncParams
  locals := [("__fu__", .ptr "rpc::Future"), ("__ret__", .val "rpc::i32")]
  body := .sync (asyncName func) (proxyParams func).asyncCallParams
    ((proxyParams func).syncOutParams.map fun param => .get (.deref param))

def udpMethod (func : ServiceFunction) : ProxyMethod where
  name := func.name.val
  params := (proxyParams func).syncFuncParams
  locals := []
  body := .udp func.const
    ((proxyParams func).asyncCallParams.map fun param => .put (.var param))

/-- The methods of the proxy class. -/
def emitProxy (service : ServiceDecl) : List ProxyMethod :=
  service.functions.flatMap fun func =>
    if .udp ∈ func.attrs then [udpMethod func] else [asyncMethod func, syncMethod func]

/-- The proxy class declares no constructor but its own. -/
def ProxyDeclares (service : ServiceDecl) : Prop :=
  NoConstructor (proxyClass service) ((emitProxy service).map ProxyMethod.name)

instance (service : ServiceDecl) : Decidable (ProxyDeclares service) :=
  inferInstanceAs (Decidable (NoConstructor _ _))

/-- What tells overloaded methods apart. -/
def ProxyMethod.signature (m : ProxyMethod) : String × List CppType :=
  (m.name, m.params.map Prod.snd)

/-- The method that a call with arguments of these types selects. -/
def proxyLookup (service : ServiceDecl) (name : String) (types : List CppType) :
    Option ProxyMethod :=
  once ((emitProxy service).map fun m => (m.signature, m)) (name, types)

/-- The id and the types that an `async_` method writes. -/
def ProxyMethod.asyncRequest (rpcTable : RpcTable) (service : ServiceDecl) (m : ProxyMethod) :
    Option (Nat × List String) :=
  match m.body with
  | .async const stmts =>
    if ProxyDeclares service then do
      let rpcId ← cppConst rpcTable service const
      return (rpcId, ← puts m.scope stmts)
    else none
  | _ => none

/-- The id and the types that the method calls an `async_` method to write. -/
def ProxyMethod.syncRequest (rpcTable : RpcTable) (service : ServiceDecl) (m : ProxyMethod) :
    Option (Nat × List String) :=
  match m.body with
  | .sync callee args _ => do
    let types ← args.mapM (once m.scope)
    let m' ← proxyLookup service callee types
    m'.asyncRequest rpcTable service
  | _ => none

/-- The types that the method reads from the reply. -/
def ProxyMethod.syncReads (m : ProxyMethod) : Option (List String) :=
  match m.body with
  | .sync _ _ stmts => gets m.scope stmts
  | _ => none

/-! ## Python code -/

/-- A name that Python rewrites inside a class: `__x`, but not `__x__`. -/
def isPrivate (name : String) : Bool :=
  name.toList.take 2 == ['_', '_'] && name.toList.reverse.take 2 != ['_', '_']

/-- The name as the compiler sees it in the body of class `cls`. -/
def mangle (cls name : String) : String :=
  if isPrivate name then "_" ++ String.ofList (cls.toList.dropWhile (· == '_')) ++ name
  else name

/-- An attribute of the service class. -/
inductive PyAttr where
  | int (rpcId : Nat)
  | typeInfo (entries : List (String × List String))
  | function

/-- The constants of the service class. -/
def constAttrs (rpcTable : RpcTable) (service : ServiceDecl) (functions : List ServiceFunction) :
    List (String × PyAttr) :=
  functions.map fun func =>
    (mangle (serviceClass service) func.const, .int (rpcCode rpcTable service func))

/-- The attributes with names of the generator. -/
def infoAttrs (service : ServiceDecl) : List (String × PyAttr) :=
  [("__input_type_info__",
      .typeInfo (service.functions.map fun func => (func.name.val, func.inputTypes))),
    ("__output_type_info__",
      .typeInfo (service.functions.map fun func => (func.name.val, func.outputTypes))),
    ("__bind_helper__", .function),
    ("__reg_to__", .function)]

/-- `def func(__self__, ...)` for each function. -/
def handlerAttrs (service : ServiceDecl) : List (String × PyAttr) :=
  service.functions.map fun func => (mangle (serviceClass service) func.name.val, .function)

/-- The attributes of the service class in the order in which its body assigns them. -/
def serviceAttrs (rpcTable : RpcTable) (service : ServiceDecl) : List (String × PyAttr) :=
  constAttrs rpcTable service service.functions ++ (infoAttrs service ++ handlerAttrs service)

/-- `Service.name`, in a method of class `cls` with these parameters. -/
def attrRef (rpcTable : RpcTable) (service : ServiceDecl) (cls : String) (params : List String)
    (name : String) : Option PyAttr :=
  let global := mangle cls (serviceClass service)
  -- a parameter of that name hides the class, a rewritten name misses it
  if global ∈ params ∨ global ≠ serviceClass service then none
  else last (serviceAttrs rpcTable service) (mangle cls name)

/-- `Service.name` as an rpc id: a number, unless a function took the name. -/
def idRef (rpcTable : RpcTable) (service : ServiceDecl) (cls : String) (params : List String)
    (name : String) : Option Nat :=
  match attrRef rpcTable service cls params name with
  | some (.int rpcId) => some rpcId
  | _ => none

/-- `Service.name['key']` -/
def infoRef (rpcTable : RpcTable) (service : ServiceDecl) (cls : String) (params : List String)
    (name key : String) : Option (List String) :=
  match attrRef rpcTable service cls params name with
  | some (.typeInfo entries) => last entries key
  | _ => none

/-- `in%d` -/
def pyInVar (i : Nat) : String := "in" ++ toString i

/-- The names in `in_params_decl`. -/
def inParams (func : ServiceFunction) : List String :=
  func.input.zipIdx.map fun (inArg, i) =>
    match inArg.name with
    | some name => name.val
    | none => pyInVar i

/-- `for ty in types: results += m.read_obj(ty),` -/
def readObjs (types : List String) : List String :=
  types.foldl (fun results ty => results ++ [ty]) []

/-! ### The service class -/

/-- `MarshalWrap`, without the function it wraps. -/
structure MarshalWrap where
  inputTypes : List String
  outputTypes : List String

/-- `MarshalWrap.__call__`, up to the call of the function: the types it reads. -/
def MarshalWrap.reads (w : MarshalWrap) : List String := readObjs w.inputTypes

/-- `MarshalWrap.__call__`, behind the call of the function: the types it writes. -/
def MarshalWrap.writes (w : MarshalWrap) : Option (List String) :=
  match w.outputTypes with
  -- void rpc: a NULL reply
  | [] => some []
  -- single return value
  | [ty] => some [ty]
  -- multiple return values
  | types => (List.range types.length).mapM fun i => types[i]?

/-- `server.__reg_func__(Service.CONST, self.__bind_helper__(self.func), [..], [..])` -/
structure RegFunc where
  const : String
  func : String
  wrap : MarshalWrap

/-- What `__reg_to__` prints for a function. -/
def emitRegFunc (func : ServiceFunction) : RegFunc where
  const := func.const
  func := func.name.val
  wrap := ⟨func.inputTypes, func.outputTypes⟩

/-- The parameters of `def func(__self__, ...)` in the service class. -/
def pyHandlerParams (service : ServiceDecl) (func : ServiceFunction) : List String :=
  ("__self__" :: inParams func).map (mangle (serviceClass service))

/-- The id the function is registered for, and the types its `MarshalWrap` reads. -/
def pyServes (rpcTable : RpcTable) (service : ServiceDecl) (func : ServiceFunction) :
    Option (Nat × List String) :=
  -- a parameter that is there twice is a `SyntaxError`
  if (pyHandlerParams service func).Nodup then do
    let rpcId ← idRef rpcTable service (serviceClass service) ["self", "server"]
      (emitRegFunc func).const
    return (rpcId, (emitRegFunc func).wrap.reads)
  else none

/-- The types its `MarshalWrap` writes to the reply. -/
def pyReplies (func : ServiceFunction) : Option (List String) := (emitRegFunc func).wrap.writes

/-! ### The proxy class -/

/-- A method of the proxy class. It returns
    `__self__.__clnt__.CALL(Service.CONST, [values], Service.__input_type_info__[key],
    Service.__output_type_info__[key])`. -/
structure PyMethod where
  params : List String
  const : String
  values : List String
  key : String

/-- What is printed for `async_func` and `sync_func`. -/
def emitPyMethod (func : ServiceFunction) : PyMethod where
  params := "__self__" :: inParams func
  const := func.const
  values := inParams func
  key := func.name.val

/-- The functions that get an `async_` and a `sync_` method. -/
def nonUdp (service : ServiceDecl) : List ServiceFunction :=
  service.functions.filter fun func => .udp ∉ func.attrs

/-- The `async_` and then the `sync_` methods. -/
def emitPyProxy (service : ServiceDecl) : List (String × PyMethod) :=
  ((nonUdp service).map fun func => ("async_" ++ func.name.val, emitPyMethod func)) ++
  (nonUdp service).map fun func => ("sync_" ++ func.name.val, emitPyMethod func)

/-- A call of the client: what it writes, each value with the type it is written as, and the
    types that are read from the reply. -/
structure PyCall where
  rpcId : Nat
  written : List (Nat × String)
  read : List String

/-- The loop that fills `req_m`. -/
def writeReq (reqValues : List Nat) (reqTypes : List String) : Option (List (Nat × String)) :=
  (List.range reqValues.length).mapM fun i => do
    return (← reqValues[i]?, ← reqTypes[i]?)

/-- `Client.async_call`, and `Future.wait` for the reply. -/
def asyncCall (rpcId : Nat) (reqValues : List Nat) (reqTypes repTypes : List String) :
    Option PyCall := do
  return ⟨rpcId, ← writeReq reqValues reqTypes, readObjs repTypes⟩

/-- `Client.sync_call` -/
def syncCall (rpcId : Nat) (reqValues : List Nat) (reqTypes repTypes : List String) :
    Option PyCall := do
  return ⟨rpcId, ← writeReq reqValues reqTypes, readObjs repTypes⟩

/-- Run the body of a proxy method; a value stands for the argument at its position. -/
def PyMethod.run (rpcTable : RpcTable) (service : ServiceDecl)
    (call : Nat → List Nat → List String → List String → Option PyCall) (m : PyMethod) :
    Option PyCall := do
  let cls := proxyClass service
  let params := m.params.map (mangle cls)
  let rpcId ← idRef rpcTable service cls params m.const
  let reqValues ← (m.values.map (mangle cls)).mapM (once params.zipIdx)
  let reqTypes ← infoRef rpcTable service cls params "__input_type_info__" m.key
  let repTypes ← infoRef rpcTable service cls params "__output_type_info__" m.key
  call rpcId reqValues reqTypes repTypes

/-- `proxy.async_func(...)` -/
def pyAsync (rpcTable : RpcTable) (service : ServiceDecl) (func : ServiceFunction) :
    Option PyCall := do
  let m ← last (emitPyProxy service) ("async_" ++ func.name.val)
  m.run rpcTable service asyncCall

/-- `proxy.sync_func(...)` -/
def pySync (rpcTable : RpcTable) (service : ServiceDecl) (func : ServiceFunction) :
    Option PyCall := do
  let m ← last (emitPyProxy service) ("sync_" ++ func.name.val)
  m.run rpcTable service syncCall

/-- The id of a call and the types it writes. -/
def PyCall.request (call : PyCall) : Nat × List String := (call.rpcId, call.written.map Prod.snd)

/-! ## Agreement -/

section Statement

variable (rpcTable : RpcTable) (service : ServiceDecl) (func : ServiceFunction)

/-- Every stub of the function works on this id and these types. -/
structure AgreeOn (rpcId : Nat) (inTypes outTypes : List String) : Prop where
  cppAsync : (asyncMethod func).asyncRequest rpcTable service = some (rpcId, inTypes)
  cppSync : (syncMethod func).syncRequest rpcTable service = some (rpcId, inTypes)
  pyAsync : (pyAsync rpcTable service func).map PyCall.request = some (rpcId, inTypes)
  pySync : (pySync rpcTable service func).map PyCall.request = some (rpcId, inTypes)
  cppWrapper : cppServes rpcTable service func = some (rpcId, inTypes)
  marshalWrap : pyServes rpcTable service func = some (rpcId, inTypes)
  cppReply : cppReplies service func = some outTypes
  pyReply : pyReplies func = some outTypes
  cppRead : (syncMethod func).syncReads = some outTypes
  pyAsyncRead : (Gen.pyAsync rpcTable service func).map PyCall.read = some outTypes
  pySyncRead : (Gen.pySync rpcTable service func).map PyCall.read = some outTypes

/-- The stubs of a function agree. -/
def Agree : Prop :=
  ∃ rpcId inTypes outTypes, AgreeOn rpcTable service func rpcId inTypes outTypes

/-- The name of a C++ argument, or the default one for its position. -/
def argName (x : Nat → String) (arg : FuncArg) (i : Nat) : String :=
  (arg.name.map Symbol.val).getD (x i)

/-- The names of the arguments from position `k` on. -/
def argNames (x : Nat → String) (args : List FuncArg) (k : Nat) : List String :=
  (args.zipIdx k).map fun (arg, i) => argName x arg i

/-- The names of all arguments of a function in its C++ proxy. -/
def cppNames : List String :=
  argNames inVar func.input 0 ++ argNames outVar func.output 0

/-- The names of the inputs in a Python proxy, as Python sees them. -/
def pyNames : List String :=
  (inParams func).map (mangle (proxyClass service))

/-- No other method takes the call of the `async_` method. -/
def NoOverload : Prop :=
  ∀ g ∈ service.functions, g.name.val = asyncName func → g.output = [] →
    g.inputTypes ≠ func.inputTypes

/-- The names that the stubs of a function look up are clear. -/
structure Clear : Prop where
  /-- the name of no other function is the same in upper case -/
  const : (service.functions.map ServiceFunction.const).count func.const = 1
  /-- no function is named by the constant -/
  function : ∀ g ∈ service.functions, g.name.val ≠ func.const
  /-- no function is named like the C++ service class -/
  cppService : ∀ g ∈ service.functions, g.name.val ≠ serviceClass service
  /-- no method of the C++ proxy is named like its class -/
  cppProxy : ∀ g ∈ service.functions, g.name.val ≠ proxyClass service ∧
    (.udp ∉ g.attrs → asyncName g ≠ proxyClass service)
  /-- the arguments have different names in C++, unnamed ones being `in_%d` and `out_%d` -/
  cppNames : (cppNames func).Nodup
  /-- and none has the name of the last parameter of a handler that replies later -/
  deferArg : .defer ∈ func.attrs → "defer" ∉ Gen.cppNames func
  /-- the inputs have different names in Python, unnamed ones being `in%d` -/
  pyNames : (pyNames service func).Nodup
  /-- also in the service class, where Python rewrites private names differently -/
  pyHandler : ((inParams func).map (mangle (serviceClass service))).Nodup
  /-- no input is named like the service class -/
  pyClass : serviceClass service ∉ Gen.pyNames service func
  /-- Python rewrites neither the name of the class nor that of the constant -/
  pyGlobal : isPrivate (serviceClass service) = false
  pyConst : isPrivate func.const = false
  /-- no function without outputs is an overload of the `async_` method -/
  async : NoOverload service func
  /-- no handler is an overload of the wrapper -/
  wrapper : ∀ g ∈ service.functions, handlerKey g ≠ wrapperKey func

end Statement

end SimpleRpc.Gen
