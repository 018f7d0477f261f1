import SimpleRpc.Gen.PyStubs

/-!
# Agreement of the Generated Stubs

From the C++ code and the Python code to all stubs of a function.

## Main results

- `stubs_agree_iff`: the stubs of a function agree exactly when the names they look up are
  clear (`Clear`)
- `twice_disagrees`: nothing keeps a service from having two functions of one name; its Python
  proxy then writes the types of the second one to the handler of the first
-/

namespace SimpleRpc.Gen

section Agreement

variable {rpcTable : RpcTable} {service : ServiceDecl} {func : ServiceFunction}

theorem pyAsync_eq (hmem : func ∈ service.functions) (hudp : .udp ∉ func.attrs)
    (hconst : (service.functions.map ServiceFunction.const).count func.const = 1) :
    pyAsync rpcTable service func = (emitPyMethod func).run rpcTable service asyncCall := by
  rw [pyAsync, (last_pyProxy hmem hudp hconst).1]
  rfl

theorem pySync_eq (hmem : func ∈ service.functions) (hudp : .udp ∉ func.attrs)
    (hconst : (service.functions.map ServiceFunction.const).count func.const = 1) :
    pySync rpcTable service func = (emitPyMethod func).run rpcTable service asyncCall := by
  rw [pySync, (last_pyProxy hmem hudp hconst).2]
  rfl

/-- With clear names every stub works on the id of the table and the declared types. -/
theorem agreeOn_of_clear (hmem : func ∈ service.functions) (hraw : .raw ∉ func.attrs)
    (hudp : .udp ∉ func.attrs) (h : Clear service func) :
    AgreeOn rpcTable service func (rpcCode rpcTable service func) func.inputTypes
      func.outputTypes := by
  have hid : cppConst rpcTable service func.const = some (rpcCode rpcTable service func) :=
    cppConst_eq hmem h.cppService h.const h.function
  have hproxy : ProxyDeclares service := proxyDeclares_iff.mpr h.cppProxy
  have hwrapper := registeredWrapper_eq hmem hraw h.cppService
    ((nodup_handlerNames_iff hraw h.cppNames).mpr h.deferArg) h.const h.wrapper
  have hrun : (emitPyMethod func).run rpcTable service asyncCall =
      some (clearCall rpcTable service func) := run_eq hmem h
  have hasync := (pyAsync_eq hmem hudp h.const).trans hrun
  have hsync := (pySync_eq hmem hudp h.const).trans hrun
  -- the Python service refers to the same constant
  have hreg : idRef rpcTable service (serviceClass service) ["self", "server"] func.const =
      some (rpcCode rpcTable service func) := by
    refine idRef_eq hmem h ?_
    simp only [List.mem_cons, List.not_mem_nil, or_false, not_or]
    exact ⟨serviceClass_ne (by decide), serviceClass_ne (by decide)⟩
  exact {
    cppAsync := asyncRequest_eq hproxy hid h.cppNames
    cppSync := syncRequest_eq hmem hudp hproxy h.const hid h.async h.cppNames
    pyAsync := by rw [hasync, Option.map_some, request_clearCall]
    pySync := by rw [hsync, Option.map_some, request_clearCall]
    cppWrapper := by
      rw [cppServes, hid, hwrapper]
      simp [gets_emitWrapper]
    marshalWrap := by
      rw [pyServes, if_pos (nodup_pyHandlerParams_iff.mpr h.pyHandler), emitRegFunc, hreg]
      simp [MarshalWrap.reads, readObjs_eq]
    cppReply := by
      rw [cppReplies, hwrapper]
      exact puts_emitWrapper hudp
    pyReply := writes_eq _
    cppRead := syncReads_eq h.cppNames
    pyAsyncRead := by rw [hasync, Option.map_some, clearCall]
    pySyncRead := by rw [hsync, Option.map_some, clearCall] }

/-- Stubs that agree find all their names. -/
theorem clear_of_agreeOn {rpcId : Nat} {inTypes outTypes : List String}
    (hmem : func ∈ service.functions) (hraw : .raw ∉ func.attrs) (hudp : .udp ∉ func.attrs)
    (h : AgreeOn rpcTable service func rpcId inTypes outTypes) : Clear service func := by
  -- each stub that has a meaning gives some of the conditions
  have hnames := nodup_of_sync h.cppSync h.cppRead
  obtain ⟨hproxy, hid⟩ := cppConst_of_asyncRequest h.cppAsync
  obtain ⟨hservice, hconst, hfunction⟩ := clear_of_cppConst hmem hid
  obtain ⟨w, hw, -⟩ := Option.bind_eq_some_iff.mp h.cppReply
  obtain ⟨hhandler, hwrapper⟩ := clear_of_registeredWrapper hw
  obtain ⟨hparams, -⟩ := Option.ite_none_right_eq_some.mp h.marshalWrap
  obtain ⟨call, hcall, -⟩ := Option.map_eq_some_iff.mp h.pyAsync
  rw [pyAsync_eq hmem hudp hconst] at hcall
  obtain ⟨hglobal, hpriv, hclass, hpyNames⟩ := clear_of_run hcall
  exact {
    const := hconst
    function := hfunction
    cppService := hservice
    cppProxy := proxyDeclares_iff.mp hproxy
    cppNames := hnames
    deferArg := (nodup_handlerNames_iff hraw hnames).mp hhandler
    pyNames := hpyNames
    pyHandler := nodup_pyHandlerParams_iff.mp hparams
    pyClass := hclass
    pyGlobal := hglobal
    pyConst := hpriv
    async := noOverload_of_sync hnames h.cppSync
    wrapper := hwrapper }

/-- **The stubs of a function agree** exactly when the names they look up are clear. -/
theorem stubs_agree_iff (rpcTable : RpcTable) (service : ServiceDecl) (func : ServiceFunction)
    (hmem : func ∈ service.functions) (hraw : .raw ∉ func.attrs) (hudp : .udp ∉ func.attrs) :
    Agree rpcTable service func ↔ Clear service func :=
  ⟨fun ⟨_, _, _, h⟩ => clear_of_agreeOn hmem hraw hudp h,
    fun h => ⟨_, _, _, agreeOn_of_clear hmem hraw hudp h⟩⟩

end Agreement

/-- `service Math { gcd(i64 a, i64 | i64 g); };` -/
def gcd : ServiceFunction where
  name := ⟨"gcd", by decide, rfl⟩
  attrs := []
  input := [⟨"rpc::i64", some ⟨"a", by decide, rfl⟩⟩, ⟨"rpc::i64", none⟩]
  output := [⟨"rpc::i64", some ⟨"g", by decide, rfl⟩⟩]
  checked := rfl

def mathService : ServiceDecl where
  name := "Math"
  symbol := by decide
  functions := [gcd]

/-- The stubs of the test service agree. -/
theorem gcd_agrees : Agree (fun _ => 0x29b25705) mathService gcd :=
  (stubs_agree_iff _ mathService gcd (List.mem_singleton.mpr rfl) (by decide) (by decide)).mpr {
    const := by decide
    function := by decide
    cppService := by decide
    cppProxy := by decide
    cppNames := by decide
    deferArg := by decide
    pyNames := by decide
    pyHandler := by decide
    pyClass := by decide
    pyGlobal := by decide
    pyConst := by decide
    async := fun g hg hname => by
      obtain rfl := List.mem_singleton.mp hg
      exact absurd hname (by decide)
    wrapper := by decide }

/-- `f(i32 x)` -/
def firstF : ServiceFunction where
  name := ⟨"f", by decide, rfl⟩
  attrs := []
  input := [⟨"rpc::i32", some ⟨"x", by decide, rfl⟩⟩]
  output := []
  checked := rfl

/-- `f(string x)` -/
def secondF : ServiceFunction where
  name := ⟨"f", by decide, rfl⟩
  attrs := []
  input := [⟨"std::string", some ⟨"x", by decide, rfl⟩⟩]
  output := []
  checked := rfl

/-- `service Twice { f(i32 x); f(string x); };` -/
def twice : ServiceDecl where
  name := "Twice"
  symbol := by decide
  functions := [firstF, secondF]

/-- The Python proxy of a service with two functions `f` writes a string, and the handler that
    is registered for the first one reads a number. -/
theorem twice_disagrees :
    (pyAsync (fun _ => 0x20000000) twice firstF).map PyCall.request =
      some (0x20000000, ["std::string"]) ∧
    pyServes (fun _ => 0x20000000) twice firstF = some (0x20000000, ["rpc::i32"]) ∧
    ¬ Agree (fun _ => 0x20000000) twice firstF := by
  have hwritten : (pyAsync (fun _ => 0x20000000) twice firstF).map PyCall.request =
      some (0x20000000, ["std::string"]) := by decide
  have hread : pyServes (fun _ => 0x20000000) twice firstF =
      some (0x20000000, ["rpc::i32"]) := by decide
  refine ⟨hwritten, hread, ?_⟩
  rintro ⟨rpcId, inTypes, outTypes, h⟩
  have heq := h.pyAsync.symm.trans hwritten
  rw [← h.marshalWrap, hread] at heq
  simp at heq

end SimpleRpc.Gen
