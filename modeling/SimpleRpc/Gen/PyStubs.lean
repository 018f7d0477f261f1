import SimpleRpc.Gen.CppStubs

/-!
# The Generated Python Code

What `MarshalWrap` and the calls of the client read and write, and how the methods of the proxy
find the constant and the two dicts of the service class.

## Main results

- `writes_eq`: `MarshalWrap` writes the declared outputs
- `run_eq`: with clear names a proxy method writes its arguments in order, each as the declared
  type
- `clear_of_run`: a proxy method that makes its call found all its names
-/

namespace SimpleRpc.Gen

open SimpleRpc.Lib

/-! ## Loops over types -/

theorem readObjs_eq (types : List String) : readObjs types = types := by
  have hacc : ∀ acc, types.foldl (fun results ty => results ++ [ty]) acc = acc ++ types := by
    induction types with
    | nil => simp
    | cons ty types ih => simp [ih]
  exact hacc []

/-- **`MarshalWrap` writes** one value for each output type, whatever their number. -/
theorem writes_eq (w : MarshalWrap) : w.writes = some w.outputTypes := by
  unfold MarshalWrap.writes
  split
  · rename_i heq
    rw [heq]
  · rename_i heq
    rw [heq]
  · exact mapM_getElem w.outputTypes

/-- A call writes each value as the type at its position. -/
theorem writeReq_eq {reqValues : List Nat} {reqTypes : List String}
    (h : reqValues.length = reqTypes.length) :
    writeReq reqValues reqTypes = some (reqValues.zip reqTypes) := by
  have hlen : (reqValues.zip reqTypes).length = reqValues.length := by simp [h]
  rw [← mapM_getElem (reqValues.zip reqTypes), hlen, writeReq]
  congr 1
  funext i
  rw [List.zip, List.getElem?_zipWith]
  cases reqValues[i]? with
  | none => rfl
  | some v => cases reqTypes[i]? <;> rfl

/-! ## Names of the classes -/

theorem mangle_serviceClass_ne_upper (service : ServiceDecl) {name : String}
    (hpriv : isPrivate name = true) (t : String) :
    mangle (serviceClass service) name ≠ upper t :=
  mangle_ne_upper hpriv service.name "Service" (c := 'e') (by decide) (by decide) (by decide) t

section Attrs

variable {rpcTable : RpcTable} {service : ServiceDecl} {func : ServiceFunction}

/-- An attribute named in upper case is one that was written so. -/
theorem mangle_eq_const {name : String}
    (h : mangle (serviceClass service) name = func.const) : name = func.const := by
  cases hpriv : isPrivate name with
  | false => rwa [mangle_of_not_private hpriv] at h
  | true => exact absurd h (mangle_serviceClass_ne_upper service hpriv _)

theorem last_const (hmem : func ∈ service.functions)
    (hconst : (service.functions.map ServiceFunction.const).count func.const = 1)
    (hfunction : ∀ g ∈ service.functions, g.name.val ≠ func.const)
    (hpriv : isPrivate func.const = false) :
    last (serviceAttrs rpcTable service) func.const =
      some (.int (rpcCode rpcTable service func)) := by
  obtain ⟨pre, post, hsplit, -, hpost⟩ := split_of_count hmem hconst
  have hattrs : serviceAttrs rpcTable service = constAttrs rpcTable service pre ++
      (func.const, .int (rpcCode rpcTable service func)) ::
        (constAttrs rpcTable service post ++ (infoAttrs service ++ handlerAttrs service)) := by
    rw [serviceAttrs, constAttrs, hsplit, List.map_append, List.map_cons,
      mangle_of_not_private hpriv, List.append_assoc, List.cons_append]
    rfl
  rw [hattrs]
  refine last_split fun hin => ?_
  rw [List.map_append, List.map_append, List.mem_append, List.mem_append] at hin
  rcases hin with hin | hin | hin
  · -- a constant of another function has another name
    rw [constAttrs, List.map_map] at hin
    obtain ⟨g, hg, heq⟩ := List.mem_map.mp hin
    simp only [Function.comp_apply] at heq
    exact hpost g hg (mangle_eq_const heq)
  · -- the names of the generator are in lower case
    have hlower : ∀ name ∈ ["__input_type_info__", "__output_type_info__", "__bind_helper__",
        "__reg_to__"], 'e' ∈ name.toList := by decide
    have he : 'e' ∈ func.const.toList := hlower func.const hin
    exact ne_upper (by decide) he func.name.val rfl
  · -- no function is named like the constant
    rw [handlerAttrs, List.map_map] at hin
    obtain ⟨g, hg, heq⟩ := List.mem_map.mp hin
    simp only [Function.comp_apply] at heq
    exact hfunction g hg (mangle_eq_const heq)

/-- No handler takes a name of the generator. -/
theorem notMem_handlerAttrs {name : String} (h : isReserved name = true) :
    name ∉ (handlerAttrs service).map Prod.fst := by
  intro hin
  rw [handlerAttrs, List.map_map] at hin
  obtain ⟨g, -, rfl⟩ := List.mem_map.mp hin
  have hres := mangle_not_reserved g.name.not_reserved (serviceClass service)
  exact absurd h (by simp [hres])

theorem last_input_info :
    last (serviceAttrs rpcTable service) "__input_type_info__" =
      some (.typeInfo (service.functions.map fun func => (func.name.val, func.inputTypes))) := by
  rw [serviceAttrs, last_append, last_append, last_eq_none (notMem_handlerAttrs (by decide))]
  rfl

theorem last_output_info :
    last (serviceAttrs rpcTable service) "__output_type_info__" =
      some (.typeInfo (service.functions.map fun func => (func.name.val, func.outputTypes))) := by
  rw [serviceAttrs, last_append, last_append, last_eq_none (notMem_handlerAttrs (by decide))]
  rfl

/-- The entry of a function in a dict of its service. -/
theorem last_entry (hmem : func ∈ service.functions)
    (hconst : (service.functions.map ServiceFunction.const).count func.const = 1)
    (types : ServiceFunction → List String) :
    last (service.functions.map fun g => (g.name.val, types g)) func.name.val =
      some (types func) := by
  obtain ⟨pre, post, hsplit, -, hpost⟩ := split_of_count hmem hconst
  rw [hsplit, List.map_append, List.map_cons]
  refine last_split fun hin => ?_
  rw [List.map_map] at hin
  obtain ⟨g, hg, heq⟩ := List.mem_map.mp hin
  exact hpost g hg (const_of_name heq)

/-! ### References to the service class -/

theorem attrRef_eq {cls name : String} {params : List String}
    (hglobal : isPrivate (serviceClass service) = false) (hparams : serviceClass service ∉ params)
    (hname : isPrivate name = false) :
    attrRef rpcTable service cls params name = last (serviceAttrs rpcTable service) name := by
  simp [attrRef, mangle_of_not_private hglobal, mangle_of_not_private hname, hparams]

theorem length_mangle (cls : String) {name : String} (h : isPrivate name = true) :
    name.toList.length < (mangle cls name).toList.length := by
  rw [mangle_of_private h]
  simp only [String.toList_append, List.length_append]
  have hone : "_".toList.length = 1 := rfl
  omega

/-- A reference that finds something stands in sight of the class. -/
theorem clear_of_attrRef {cls name : String} {params : List String} {attr : PyAttr}
    (h : attrRef rpcTable service cls params name = some attr) :
    isPrivate (serviceClass service) = false ∧ serviceClass service ∉ params ∧
      (mangle cls name, attr) ∈ serviceAttrs rpcTable service := by
  simp only [attrRef] at h
  split at h
  · cases h
  · rename_i hsight
    obtain ⟨hparams, hglobal⟩ := not_or.mp hsight
    have hglobal := not_not.mp hglobal
    refine ⟨?_, by rwa [hglobal] at hparams, mem_of_last h⟩
    cases hpriv : isPrivate (serviceClass service) with
    | false => rfl
    | true =>
      have hlt := length_mangle cls hpriv
      rw [hglobal] at hlt
      exact absurd hlt (lt_irrefl _)

/-- A constant with a private name is rewritten differently in the proxy class. -/
theorem mangle_proxy_ne_service (service : ServiceDecl) {c d : String}
    (hc : isPrivate c = true) (hd : isPrivate d = true) :
    mangle (proxyClass service) c ≠ mangle (serviceClass service) d := by
  have hstrip : ∀ suffix : String, suffix.toList.head? ≠ some '_' →
      (service.name ++ suffix).toList.dropWhile (· == '_') =
        service.name.toList.dropWhile (· == '_') ++ suffix.toList := by
    intro suffix hhead
    rw [String.toList_append, List.dropWhile_append]
    split
    · rename_i hempty
      rw [List.isEmpty_iff.mp hempty, List.dropWhile_beq_eq_self_of_head?_ne hhead]
      rfl
    · rfl
  intro heq
  have hlist := congrArg String.toList heq
  simp only [mangle_of_private hc, mangle_of_private hd, proxyClass, serviceClass,
    String.toList_append, String.toList_ofList, List.append_assoc] at hlist
  rw [← String.toList_append, ← String.toList_append, hstrip "Proxy" (by decide),
    hstrip "Service" (by decide)] at hlist
  simp at hlist

theorem not_private_of_const {rpcId : Nat}
    (h : (mangle (proxyClass service) func.const, .int rpcId) ∈ serviceAttrs rpcTable service) :
    isPrivate func.const = false := by
  rcases List.mem_append.mp h with hin | hin
  · cases hpriv : isPrivate func.const with
    | false => rfl
    | true =>
      obtain ⟨g, -, heq⟩ := List.mem_map.mp hin
      have heq := (Prod.mk.inj heq).1
      cases hg : isPrivate g.const with
      | true => exact absurd heq.symm (mangle_proxy_ne_service service hpriv hg)
      | false =>
        rw [mangle_of_not_private hg] at heq
        exact absurd heq.symm (mangle_ne_upper hpriv service.name "Proxy" (c := 'r') (by decide)
          (by decide) (by decide) _)
  · -- nothing else is a number
    rcases List.mem_append.mp hin with hin | hin
    · simp [infoAttrs] at hin
    · obtain ⟨g, -, heq⟩ := List.mem_map.mp hin
      cases (Prod.mk.inj heq).2

/-! ### Calls of the proxy -/

theorem inParams_not_reserved {name : String} (h : name ∈ inParams func) :
    isReserved name = false := by
  obtain ⟨⟨arg, i⟩, -, rfl⟩ := List.mem_map.mp h
  cases hname : arg.name with
  | none =>
    simp only [hname]
    exact not_reserved_of_head (by simp [pyInVar_head])
  | some s =>
    simp only [hname]
    exact s.not_reserved

theorem pyNames_not_reserved {name : String} (h : name ∈ pyNames service func) :
    isReserved name = false := by
  obtain ⟨n, hn, rfl⟩ := List.mem_map.mp h
  exact mangle_not_reserved (inParams_not_reserved hn) _

/-- The handler has its arguments behind `__self__`. -/
theorem nodup_pyHandlerParams_iff : (pyHandlerParams service func).Nodup ↔
    ((inParams func).map (mangle (serviceClass service))).Nodup := by
  rw [pyHandlerParams, List.map_cons, mangle_of_not_private (by decide), List.nodup_cons]
  refine and_iff_right fun hin => ?_
  obtain ⟨n, hn, heq⟩ := List.mem_map.mp hin
  have hres := mangle_not_reserved (inParams_not_reserved hn) (serviceClass service)
  exact absurd (heq ▸ hres) (by decide)

theorem params_emitPyMethod (service : ServiceDecl) (func : ServiceFunction) :
    (emitPyMethod func).params.map (mangle (proxyClass service)) =
      "__self__" :: pyNames service func := by
  rw [emitPyMethod, List.map_cons, mangle_of_not_private (by decide)]
  rfl

theorem length_pyNames (service : ServiceDecl) (func : ServiceFunction) :
    (pyNames service func).length = func.inputTypes.length := by
  simp [pyNames, inParams, ServiceFunction.inputTypes]

/-- The values of a call are the arguments behind `__self__`, in order. -/
theorem values_eq (hnodup : (pyNames service func).Nodup) :
    (pyNames service func).mapM (once ("__self__" :: pyNames service func).zipIdx) =
      some (List.range' 1 func.inputTypes.length) := by
  have hscope : ((("__self__" :: pyNames service func).zipIdx).map Prod.fst).Nodup := by
    rw [List.zipIdx_map_fst, List.nodup_cons]
    refine ⟨fun hmem => ?_, hnodup⟩
    exact absurd (pyNames_not_reserved hmem) (by decide)
  have hlookup : ((((pyNames service func).zipIdx 1).map Prod.fst).mapM
      (once ("__self__" :: pyNames service func).zipIdx)) =
      some (((pyNames service func).zipIdx 1).map Prod.snd) := by
    refine mapM_eq_some fun p hp => once_of_nodup ?_ hscope
    rw [List.zipIdx_cons]
    exact List.mem_cons_of_mem _ hp
  rwa [List.zipIdx_map_fst, List.zipIdx_map_snd, length_pyNames] at hlookup

/-- Every value of a call is the name of one parameter only. -/
theorem nodup_of_values {values : List Nat}
    (h : (pyNames service func).mapM (once ("__self__" :: pyNames service func).zipIdx) =
      some values) : (pyNames service func).Nodup := by
  rw [List.nodup_iff_count_eq_one]
  intro name hmem
  obtain ⟨i, hi⟩ := exists_of_mapM h name hmem
  have hcount := count_of_once hi
  have hne : name ≠ "__self__" := by
    rintro rfl
    exact absurd (pyNames_not_reserved hmem) (by decide)
  rwa [List.zipIdx_map_fst, List.count_cons_of_ne (Ne.symm hne)] at hcount

/-- What a proxy method returns when all its names are clear. -/
def clearCall (rpcTable : RpcTable) (service : ServiceDecl) (func : ServiceFunction) : PyCall where
  rpcId := rpcCode rpcTable service func
  written := (List.range' 1 func.inputTypes.length).zip func.inputTypes
  read := func.outputTypes

theorem request_clearCall : (clearCall rpcTable service func).request =
    (rpcCode rpcTable service func, func.inputTypes) := by
  rw [PyCall.request, clearCall, List.map_snd_zip (by simp)]

/-- The call that both client methods make. -/
theorem call_eq (rpcId : Nat) (func : ServiceFunction) :
    asyncCall rpcId (List.range' 1 func.inputTypes.length) func.inputTypes func.outputTypes =
      some ⟨rpcId, (List.range' 1 func.inputTypes.length).zip func.inputTypes,
        func.outputTypes⟩ := by
  rw [asyncCall, writeReq_eq (by simp), readObjs_eq]
  rfl

theorem idRef_eq (hmem : func ∈ service.functions) (h : Clear service func) {cls : String}
    {params : List String} (hparams : serviceClass service ∉ params) :
    idRef rpcTable service cls params func.const = some (rpcCode rpcTable service func) := by
  rw [idRef, attrRef_eq h.pyGlobal hparams h.pyConst,
    last_const hmem h.const h.function h.pyConst]

theorem run_eq (hmem : func ∈ service.functions) (h : Clear service func) :
    (emitPyMethod func).run rpcTable service asyncCall =
      some (clearCall rpcTable service func) := by
  have hparams : serviceClass service ∉ "__self__" :: pyNames service func := by
    rw [List.mem_cons, not_or]
    exact ⟨serviceClass_ne (by decide), h.pyClass⟩
  have hinfo : ∀ {name : String} {types : ServiceFunction → List String},
      isPrivate name = false →
      last (serviceAttrs rpcTable service) name =
        some (.typeInfo (service.functions.map fun g => (g.name.val, types g))) →
      infoRef rpcTable service (proxyClass service) ("__self__" :: pyNames service func) name
        func.name.val = some (types func) := by
    intro name types hname hlast
    rw [infoRef, attrRef_eq h.pyGlobal hparams hname, hlast]
    exact last_entry hmem h.const types
  have hvalues := values_eq h.pyNames
  have hid : idRef rpcTable service (proxyClass service) ("__self__" :: pyNames service func)
      func.const = some (rpcCode rpcTable service func) := idRef_eq hmem h hparams
  simp only [PyMethod.run, params_emitPyMethod]
  change (do
    let rpcId ← idRef rpcTable service (proxyClass service)
      ("__self__" :: pyNames service func) func.const
    let reqValues ← (pyNames service func).mapM (once ("__self__" :: pyNames service func).zipIdx)
    let reqTypes ← infoRef rpcTable service (proxyClass service)
      ("__self__" :: pyNames service func) "__input_type_info__" func.name.val
    let repTypes ← infoRef rpcTable service (proxyClass service)
      ("__self__" :: pyNames service func) "__output_type_info__" func.name.val
    asyncCall rpcId reqValues reqTypes repTypes) = _
  rw [hid, hvalues, hinfo (by decide) last_input_info, hinfo (by decide) last_output_info]
  exact call_eq _ func

/-- A proxy method that makes its call has clear names. -/
theorem clear_of_run {call : PyCall} (h : (emitPyMethod func).run rpcTable service asyncCall =
    some call) :
    isPrivate (serviceClass service) = false ∧ isPrivate func.const = false ∧
      serviceClass service ∉ pyNames service func ∧ (pyNames service func).Nodup := by
  simp only [PyMethod.run, params_emitPyMethod] at h
  obtain ⟨rpcId, hid, h⟩ := Option.bind_eq_some_iff.mp h
  obtain ⟨values, hvalues, -⟩ := Option.bind_eq_some_iff.mp h
  have hattr : attrRef rpcTable service (proxyClass service) ("__self__" :: pyNames service func)
      func.const = some (.int rpcId) := by
    unfold idRef at hid
    split at hid
    · rename_i heq
      cases hid
      exact heq
    · cases hid
  obtain ⟨hglobal, hparams, hmem⟩ := clear_of_attrRef hattr
  exact ⟨hglobal, not_private_of_const hmem, fun hin => hparams (List.mem_cons_of_mem _ hin),
    nodup_of_values hvalues⟩

theorem last_pyProxy (hmem : func ∈ service.functions) (hudp : .udp ∉ func.attrs)
    (hconst : (service.functions.map ServiceFunction.const).count func.const = 1) :
    last (emitPyProxy service) ("async_" ++ func.name.val) = some (emitPyMethod func) ∧
      last (emitPyProxy service) ("sync_" ++ func.name.val) = some (emitPyMethod func) := by
  obtain ⟨pre, post, hsplit, -, hpost⟩ := split_of_count hmem hconst
  let methods (kind : String) (l : List ServiceFunction) : List (String × PyMethod) :=
    (l.filter fun g => .udp ∉ g.attrs).map fun g => (kind ++ g.name.val, emitPyMethod g)
  have hmethods : ∀ kind, methods kind service.functions =
      methods kind pre ++ (kind ++ func.name.val, emitPyMethod func) :: methods kind post := by
    simp [methods, hsplit, hudp]
  have hother : ∀ kind, kind ++ func.name.val ∉ (methods kind post).map Prod.fst := by
    intro kind hin
    rw [List.map_map] at hin
    obtain ⟨g, hg, heq⟩ := List.mem_map.mp hin
    exact hpost g (List.mem_of_mem_filter hg)
      (const_of_name ((String.append_right_inj kind).mp heq))
  have hproxy : emitPyProxy service =
      methods "async_" service.functions ++ methods "sync_" service.functions := rfl
  rw [hproxy]
  constructor
  · -- an `async_` method has not the name of a `sync_` method
    rw [last_append, last_eq_none, hmethods, last_split (hother "async_")]
    · rfl
    · intro hin
      rw [List.map_map] at hin
      obtain ⟨g, -, heq⟩ := List.mem_map.mp hin
      exact ne_of_head (by simp [String.toList_append]) heq
  · -- no `sync_` method stands behind it
    rw [hmethods "sync_", last_append, last_split (hother "sync_")]
    rfl

end Attrs

end SimpleRpc.Gen
