import SimpleRpc.Gen.StubNames

/-!
# The Generated C++ Code

What the wrapper and the proxy of a function read and write.

## Main results

- `gets_emitWrapper`, `puts_emitWrapper`: every wrapper reads the declared inputs and writes
  the declared outputs; its variables are numbered, so no choice of names can disturb it
- `invokeWith_emitWrapper`: in between it calls the handler with what that declares
- `asyncRequest_eq`, `syncRequest_eq`, `syncReads_eq`: the proxy writes and reads the same
  types when its parameters have different names
- `serviceDeclares_iff`, `proxyDeclares_iff`, `nodup_handlerNames_iff`: when the two classes and
  the handler can be declared at all
- `nodup_of_sync`, `noOverload_of_sync`, `clear_of_cppConst`, `clear_of_registeredWrapper`: what
  follows when a stub finds its names
-/

namespace SimpleRpc.Gen

open SimpleRpc.Lib

/-! ## The wrapper -/

@[simp] theorem declared_append (as bs : List CppStmt) :
    declared (as ++ bs) = declared as ++ declared bs := List.filterMap_append ..

@[simp] theorem getOperands_append (as bs : List CppStmt) :
    getOperands (as ++ bs) = getOperands as ++ getOperands bs := List.filterMap_append ..

/-- The variables `x_k`, `x_{k+1}`, ... for arguments of these types. -/
def numbered (x : Nat → String) (type : String → CppType) (args : List FuncArg) (k : Nat) :
    Scope :=
  (args.zipIdx k).map fun (arg, i) => (x i, type arg.type)

theorem declared_wrapperInputs (type : String → CppType) (use : String → Operand)
    (args : List FuncArg) (k : Nat) :
    declared (wrapperInputs type use args k) = numbered inVar type args k := by
  induction args generalizing k with
  | nil => rfl
  | cons arg args ih =>
    rw [wrapperInputs, numbered, List.zipIdx_cons, List.map_cons]
    exact congrArg _ (ih (k + 1))

theorem declared_wrapperOutputs (type : String → CppType) (args : List FuncArg) (k : Nat) :
    declared (wrapperOutputs type args k) = numbered outVar type args k := by
  induction args generalizing k with
  | nil => rfl
  | cons arg args ih =>
    rw [wrapperOutputs, numbered, List.zipIdx_cons, List.map_cons]
    exact congrArg _ (ih (k + 1))

/-- Only the inputs are read. -/
theorem getOperands_wrapperInputs (type : String → CppType) (use : String → Operand)
    (args : List FuncArg) (k : Nat) :
    getOperands (wrapperInputs type use args k) =
      (args.zipIdx k).map fun (_, i) => use (inVar i) := by
  induction args generalizing k with
  | nil => rfl
  | cons arg args ih =>
    rw [wrapperInputs, List.zipIdx_cons, List.map_cons]
    exact congrArg _ (ih (k + 1))

theorem getOperands_wrapperOutputs (type : String → CppType) (args : List FuncArg) (k : Nat) :
    getOperands (wrapperOutputs type args k) = [] := by
  induction args generalizing k with
  | nil => rfl
  | cons arg args ih =>
    rw [wrapperOutputs]
    exact ih (k + 1)

theorem putOperands_marshalReply (args : List FuncArg) (k : Nat) :
    putOperands (marshalReply args k) =
      (args.zipIdx k).map fun (_, i) => .deref (outVar i) := by
  induction args generalizing k with
  | nil => rfl
  | cons arg args ih =>
    rw [marshalReply, List.zipIdx_cons, List.map_cons]
    exact congrArg _ (ih (k + 1))

theorem putOperands_map (es : List Operand) : putOperands (es.map .put) = es := by
  induction es with
  | nil => rfl
  | cons e es ih => exact congrArg _ ih

theorem getOperands_map (es : List Operand) : getOperands (es.map .get) = es := by
  induction es with
  | nil => rfl
  | cons e es ih => exact congrArg _ ih

/-- The names of numbered variables. -/
theorem numbered_names (x : Nat → String) (type : String → CppType) (args : List FuncArg)
    (k : Nat) : (numbered x type args k).map Prod.fst = (List.range' k args.length).map x := by
  rw [numbered, List.map_map, ← List.zipIdx_map_snd k args, List.map_map]
  rfl

theorem zipIdx_types (args : List FuncArg) (k : Nat) :
    ((args.zipIdx k).map fun (arg, _) => arg.type) = args.map FuncArg.type := by
  conv_rhs => rw [← List.zipIdx_map_fst k args, List.map_map]
  rfl

theorem nodup_numbered {x : Nat → String} (hx : Function.Injective x) (type : String → CppType)
    (args : List FuncArg) (k : Nat) : ((numbered x type args k).map Prod.fst).Nodup := by
  rw [numbered_names]
  exact List.Nodup.map hx List.nodup_range'

/-- All names of numbered variables start with the same letter. -/
theorem head_of_mem_numbered {x : Nat → String} {c : Char}
    (hc : ∀ i, (x i).toList.head? = some c) (type : String → CppType) (args : List FuncArg)
    (k : Nat) {name : String} (h : name ∈ (numbered x type args k).map Prod.fst) :
    name.toList.head? = some c := by
  rw [numbered_names] at h
  obtain ⟨i, -, rfl⟩ := List.mem_map.mp h
  exact hc i

/-- The variables of a wrapper: what it is called with, the inputs, the outputs, and in the
    defer form `__defer__`. -/
def wrapperScope (type : String → CppType) (func : ServiceFunction) (tail : Scope) : Scope :=
  requestParams ++ (numbered inVar type func.input 0 ++ numbered outVar type func.output 0 ++ tail)

theorem nodup_wrapperScope (type : String → CppType) (func : ServiceFunction) {tail : Scope}
    (htail : tail = [] ∨ tail = [("__defer__", .ptr "rpc::DeferredReply")]) :
    ((wrapperScope type func tail).map Prod.fst).Nodup := by
  -- the groups start with different letters: `r` or `s`, `i`, `o` and `_`
  have hin : ∀ name ∈ (numbered inVar type func.input 0).map Prod.fst,
      name.toList.head? = some 'i' := fun _ => head_of_mem_numbered inVar_head type func.input 0
  have hout : ∀ name ∈ (numbered outVar type func.output 0).map Prod.fst,
      name.toList.head? = some 'o' := fun _ => head_of_mem_numbered outVar_head type func.output 0
  have hlast : (tail.map Prod.fst).Nodup ∧
      ∀ name ∈ tail.map Prod.fst, name.toList.head? = some '_' := by
    rcases htail with rfl | rfl <;> simp
  have hfirst : (requestParams.map Prod.fst).Nodup ∧
      ∀ name ∈ requestParams.map Prod.fst,
        name.toList.head? = some 'r' ∨ name.toList.head? = some 's' := by
    simp [requestParams]
  simp only [wrapperScope, List.map_append]
  refine List.nodup_append.mpr ⟨hfirst.1, List.nodup_append.mpr ⟨List.nodup_append.mpr
    ⟨nodup_numbered inVar_injective .., nodup_numbered outVar_injective .., ?_⟩, hlast.1, ?_⟩, ?_⟩
  · -- inputs against outputs
    rintro a ha b hb rfl
    simpa [hout a hb] using hin a ha
  · -- `__defer__` against both
    rintro a ha b hb rfl
    have hb := hlast.2 a hb
    rcases List.mem_append.mp ha with ha | ha
    · simpa [hb] using hin a ha
    · simpa [hb] using hout a ha
  · -- the request parameters against all others
    rintro a ha b hb rfl
    have ha := hfirst.2 a ha
    rcases List.mem_append.mp hb with hb | hb
    · rcases List.mem_append.mp hb with hb | hb
      · simp [hin a hb] at ha
      · simp [hout a hb] at ha
    · simp [hlast.2 a hb] at ha

/-- Variables declared as `type T` are streamed as `T` when used by `use`. -/
def Streams (type : String → CppType) (use : String → Operand) : Prop :=
  ∀ scope x t, once scope x = some (type t) → (use x).streamed scope = some t

theorem streams_val : Streams .val .var := fun scope x t h => by
  simp only [Operand.streamed, Operand.type, h]

theorem streams_ptr : Streams .ptr .deref := fun scope x t h => by
  simp only [Operand.streamed, Operand.type, h]

/-- Numbered variables of a clear scope are streamed with the types of their arguments. -/
theorem mapM_numbered {x : Nat → String} {type : String → CppType} {use : String → Operand}
    (huse : Streams type use) {scope : Scope} (hnodup : (scope.map Prod.fst).Nodup)
    {args : List FuncArg} {k : Nat} (hsub : numbered x type args k ⊆ scope) :
    ((args.zipIdx k).map fun (_, i) => use (x i)).mapM (Operand.streamed scope) =
      some (args.map FuncArg.type) := by
  rw [← zipIdx_types args k]
  refine mapM_eq_some fun p hp => huse _ _ _ (once_of_nodup (hsub ?_) hnodup)
  exact List.mem_map_of_mem (f := fun (arg, i) => (x i, type arg.type)) hp

theorem gets_wrapper {type : String → CppType} {use : String → Operand}
    (huse : Streams type use) (func : ServiceFunction) (tail : Scope) (stmts : List CppStmt)
    (htail : tail = [] ∨ tail = [("__defer__", .ptr "rpc::DeferredReply")])
    (hstmts : getOperands stmts = []) :
    gets (wrapperScope type func tail)
      (wrapperInputs type use func.input 0 ++ wrapperOutputs type func.output 0 ++ stmts) =
      some func.inputTypes := by
  simp only [gets, getOperands_append, getOperands_wrapperInputs, getOperands_wrapperOutputs,
    hstmts, List.append_nil]
  refine mapM_numbered huse (nodup_wrapperScope type func htail) fun p hp => ?_
  simp [wrapperScope, hp]

theorem puts_wrapper {type : String → CppType} {use : String → Operand}
    (huse : Streams type use) (func : ServiceFunction) {tail : Scope} {stmts : List CppStmt}
    (htail : tail = [] ∨ tail = [("__defer__", .ptr "rpc::DeferredReply")])
    (hstmts : putOperands stmts = func.output.zipIdx.map fun (_, i) => use (outVar i)) :
    puts (wrapperScope type func tail) stmts = some func.outputTypes := by
  rw [puts, hstmts]
  refine mapM_numbered huse (nodup_wrapperScope type func htail) fun p hp => ?_
  simp [wrapperScope, hp]

theorem scope_emitWrapper (func : ServiceFunction) :
    (emitWrapper func).scope =
      if .defer ∈ func.attrs then
        wrapperScope .ptr func [("__defer__", .ptr "rpc::DeferredReply")]
      else wrapperScope .val func [] := by
  unfold emitWrapper Wrapper.scope wrapperScope
  split
  · have hlast : declared [.decl (.ptr "rpc::DeferredReply") "__defer__"] =
        [("__defer__", .ptr "rpc::DeferredReply")] := rfl
    simp only [declared_append, declared_wrapperInputs, declared_wrapperOutputs, hlast]
  · simp only [declared_append, declared_wrapperInputs, declared_wrapperOutputs,
      List.append_nil]

/-- **The wrapper reads** the declared inputs, in all its forms. -/
theorem gets_emitWrapper (func : ServiceFunction) :
    gets (emitWrapper func).scope (emitWrapper func).body = some func.inputTypes := by
  rw [scope_emitWrapper, emitWrapper]
  split
  · exact gets_wrapper streams_ptr func _ _ (.inr rfl) rfl
  · have h := gets_wrapper streams_val func [] [] (.inl rfl) rfl
    rwa [List.append_nil] at h

/-- **The wrapper writes** the declared outputs, unless the function is a udp one. -/
theorem puts_emitWrapper {func : ServiceFunction} (hudp : .udp ∉ func.attrs) :
    puts (emitWrapper func).scope (emitWrapper func).reply = some func.outputTypes := by
  rw [scope_emitWrapper, emitWrapper]
  split
  · exact puts_wrapper streams_ptr func (.inr rfl) (putOperands_marshalReply func.output 0)
  · -- `range(out_counter)` counts the outputs once more
    have hcount : func.output.zipIdx.map (fun (_, i) => Operand.var (outVar i)) =
        (List.range func.output.length).map fun i => .var (outVar i) := by
      rw [List.range_eq_range', ← List.zipIdx_map_snd 0 func.output, List.map_map]
      rfl
    refine puts_wrapper streams_val func (.inl rfl) ?_
    rw [hcount, ← putOperands_map ((List.range func.output.length).map _), List.map_map]
    rfl

theorem invokeOperands_eq (use : String → Operand) (x : Nat → String) (args : List FuncArg)
    (k : Nat) : invokeOperands use x args k = (args.zipIdx k).map fun (_, i) => use (x i) := by
  induction args generalizing k with
  | nil => rfl
  | cons arg args ih =>
    rw [invokeOperands, List.zipIdx_cons, List.map_cons]
    exact congrArg _ (ih (k + 1))

/-- Numbered variables are passed on with the types that `use` makes of theirs. -/
theorem types_invokeOperands {x : Nat → String} {type param : String → CppType}
    {use : String → Operand}
    (huse : ∀ scope y t, once scope y = some (type t) → (use y).type scope = some (param t))
    {scope : Scope} (hnodup : (scope.map Prod.fst).Nodup) {args : List FuncArg} {k : Nat}
    (hsub : numbered x type args k ⊆ scope) :
    (invokeOperands use x args k).mapM (Operand.type scope) =
      some ((args.map FuncArg.type).map param) := by
  rw [invokeOperands_eq, ← zipIdx_types args k, List.map_map]
  refine mapM_eq_some fun p hp => huse _ _ _ (once_of_nodup (hsub ?_) hnodup)
  exact List.mem_map_of_mem (f := fun (arg, i) => (x i, type arg.type)) hp

theorem mapM_append_some {f : Operand → Option CppType} {as bs : List Operand}
    {ts us : List CppType} (has : as.mapM f = some ts) (hbs : bs.mapM f = some us) :
    (as ++ bs).mapM f = some (ts ++ us) := by
  rw [List.mapM_append, has, hbs]
  rfl

/-- **The wrapper calls the handler** with arguments of the types that the handler declares. -/
theorem invokeWith_emitWrapper {func : ServiceFunction} (hraw : .raw ∉ func.attrs) :
    (emitWrapper func).invokeWith.mapM (Operand.type (emitWrapper func).scope) =
      some (handlerSignature func) := by
  have hvar : ∀ (type : String → CppType) scope y t, once scope y = some (type t) →
      (Operand.var y).type scope = some (type t) := fun _ _ _ _ h => h
  have hderef : ∀ scope y t, once scope y = some (.ptr t) →
      (Operand.deref y).type scope = some (.val t) := fun scope y t h => by
    simp only [Operand.type, h]
  have haddr : ∀ scope y t, once scope y = some (.val t) →
      (Operand.addr y).type scope = some (.ptr t) := fun scope y t h => by
    simp only [Operand.type, h]
  rw [scope_emitWrapper, emitWrapper, handlerSignature, if_neg hraw]
  split
  · -- inputs are passed as `*in_%d`, outputs as the pointers they are
    have hnodup := nodup_wrapperScope .ptr func (.inr rfl)
    refine mapM_append_some (mapM_append_some
      (types_invokeOperands hderef hnodup fun p hp => ?_)
      (types_invokeOperands (hvar .ptr) hnodup fun p hp => ?_)) ?_
    · simp [wrapperScope, hp]
    · simp [wrapperScope, hp]
    · -- `__defer__` is passed last
      have hdefer := hvar .ptr _ _ _ (once_of_nodup
        (k := "__defer__") (a := .ptr "rpc::DeferredReply") (by simp [wrapperScope]) hnodup)
      rw [List.mapM_cons, hdefer]
      rfl
  · -- inputs are passed as the values they are, outputs as `&out_%d`
    have hnodup := nodup_wrapperScope .val func (.inl rfl)
    rw [List.append_nil]
    refine mapM_append_some (types_invokeOperands (hvar .val) hnodup fun p hp => ?_)
      (types_invokeOperands haddr hnodup fun p hp => ?_)
    · simp [wrapperScope, hp]
    · simp [wrapperScope, hp]

/-! ## Names of the classes -/

section Classes

variable {rpcTable : RpcTable} {service : ServiceDecl} {func : ServiceFunction}

/-- Functions of one name have one constant. -/
theorem const_of_name {f g : ServiceFunction} (h : f.name.val = g.name.val) : f.const = g.const :=
  congrArg upper h

/-- Of the methods of the service class only a handler can be named like it: wrappers end in
    underscores. -/
theorem serviceDeclares_iff :
    ServiceDeclares service ↔ ∀ g ∈ service.functions, g.name.val ≠ serviceClass service := by
  have hwrapper : ∀ g, wrapperName g ≠ serviceClass service := fun g => by
    have hlast : (wrapperName g).toList.getLast? = some '_' := by
      rw [wrapperName, String.toList_append, List.getLast?_append]
      rfl
    exact (serviceClass_ne (by simp [hlast])).symm
  constructor
  · intro h g hg heq
    have hhandler : (handlerKey g, ServiceMethod.handler) ∈ serviceMethods service :=
      List.mem_append_left _ (List.mem_map_of_mem hg)
    exact h (heq ▸ List.mem_map_of_mem (f := fun m => m.1.1) hhandler)
  · intro h hin
    obtain ⟨m, hm, heq⟩ := List.mem_map.mp hin
    rcases List.mem_append.mp hm with hm | hm
    · obtain ⟨g, hg, rfl⟩ := List.mem_map.mp hm
      exact h g hg heq
    · obtain ⟨g, -, rfl⟩ := List.mem_map.mp hm
      exact hwrapper g heq

theorem cppConst_eq (hmem : func ∈ service.functions)
    (hclass : ∀ g ∈ service.functions, g.name.val ≠ serviceClass service)
    (hconst : (service.functions.map ServiceFunction.const).count func.const = 1)
    (hfunction : ∀ g ∈ service.functions, g.name.val ≠ func.const) :
    cppConst rpcTable service func.const = some (rpcCode rpcTable service func) := by
  obtain ⟨pre, post, hsplit, hpre, hpost⟩ := split_of_count hmem hconst
  have honce : once (serviceMembers rpcTable service) func.const =
      some (.const (rpcCode rpcTable service func)) := by
    refine once_eq_some_iff.mpr ⟨enumConsts rpcTable service pre,
      enumConsts rpcTable service post ++
        ("__reg_to__", .method) :: (serviceMethods service).map fun m => (m.1.1, .method),
      by simp [serviceMembers, enumConsts, hsplit], ?_, ?_⟩
    · -- no other constant in front has the name
      simpa [enumConsts] using hpre
    · -- nor has anything behind
      rw [List.map_append, List.mem_append, not_or]
      refine ⟨by simpa [enumConsts] using hpost, fun hin => ?_⟩
      rw [List.map_cons, List.mem_cons] at hin
      rcases hin with heq | hin
      · -- `__reg_to__` is in lower case
        exact ne_upper (c := 'r') (by decide) (by decide) _ heq.symm
      · -- a method is a handler, or a wrapper and then not in upper case
        rw [List.map_map] at hin
        obtain ⟨m, hm, heq⟩ := List.mem_map.mp hin
        rcases List.mem_append.mp hm with hm | hm
        · obtain ⟨g, hg, rfl⟩ := List.mem_map.mp hm
          exact hfunction g hg heq
        · obtain ⟨g, -, rfl⟩ := List.mem_map.mp hm
          exact wrapperName_ne_upper g _ heq
  rw [cppConst, if_pos (serviceDeclares_iff.mpr hclass), honce]

theorem clear_of_cppConst {rpcId : Nat} (hmem : func ∈ service.functions)
    (h : cppConst rpcTable service func.const = some rpcId) :
    (∀ g ∈ service.functions, g.name.val ≠ serviceClass service) ∧
      (service.functions.map ServiceFunction.const).count func.const = 1 ∧
      ∀ g ∈ service.functions, g.name.val ≠ func.const := by
  obtain ⟨hclass, h⟩ := Option.ite_none_right_eq_some.mp h
  have honce : once (serviceMembers rpcTable service) func.const = some (.const rpcId) := by
    split at h
    · rename_i heq
      cases h
      exact heq
    · cases h
  refine ⟨serviceDeclares_iff.mp hclass, ?_, ?_⟩
  · -- a name that is found once is there once
    have hcount := count_of_once honce
    have hpos : 0 < (service.functions.map ServiceFunction.const).count func.const :=
      List.count_pos_iff.mpr (List.mem_map_of_mem hmem)
    have hnames : (enumConsts rpcTable service service.functions).map Prod.fst =
        service.functions.map ServiceFunction.const := by
      rw [enumConsts, List.map_map]
      rfl
    rw [serviceMembers, List.map_append, List.count_append, hnames] at hcount
    omega
  · -- a handler of this name would be a second member
    intro g hg heq
    have hhandler : (handlerKey g, ServiceMethod.handler) ∈ serviceMethods service :=
      List.mem_append_left _ (List.mem_map_of_mem hg)
    have hmethod : (func.const, Member.method) ∈ serviceMembers rpcTable service := by
      rw [← heq]
      exact List.mem_append_right _ (List.mem_cons_of_mem _
        (List.mem_map_of_mem (f := fun m => (m.1.1, Member.method)) hhandler))
    cases (eq_of_once honce hmethod)

theorem givenNames_sublist (x : Nat → String) (args : List FuncArg) (k : Nat) :
    (givenNames args).Sublist (argNames x args k) := by
  induction args generalizing k with
  | nil => exact List.Sublist.slnil
  | cons arg args ih =>
    rw [givenNames, List.filterMap_cons, argNames, List.zipIdx_cons, List.map_cons]
    cases hname : arg.name with
    | none => exact (ih (k + 1)).cons _
    | some name =>
      simp only [Option.map_some, argName, hname, Option.getD_some]
      exact (ih (k + 1)).cons_cons _

/-- A name that is not numbered is the name of an argument only if it was given to one. -/
theorem mem_givenNames {x : Nat → String} {name : String} (hx : ∀ i, x i ≠ name)
    {args : List FuncArg} {k : Nat} (h : name ∈ argNames x args k) : name ∈ givenNames args := by
  obtain ⟨⟨arg, i⟩, hmem, heq⟩ := List.mem_map.mp h
  cases hname : arg.name with
  | none => exact absurd (by simpa [argName, hname] using heq) (hx i)
  | some s =>
    have harg : arg ∈ args := (List.zipIdx_map_fst k args) ▸ List.mem_map_of_mem (f := Prod.fst) hmem
    refine List.mem_filterMap.mpr ⟨arg, harg, ?_⟩
    simpa [argName, hname] using heq

/-- The handler declares different parameters when the arguments have different names and, in
    the defer form, none is named `defer`. -/
theorem nodup_handlerNames_iff (hraw : .raw ∉ func.attrs) (hnames : (cppNames func).Nodup) :
    (handlerNames func).Nodup ↔ (.defer ∈ func.attrs → "defer" ∉ cppNames func) := by
  have hsub : (givenNames func.input ++ givenNames func.output).Sublist (cppNames func) :=
    (givenNames_sublist inVar func.input 0).append (givenNames_sublist outVar func.output 0)
  have hgiven : "defer" ∈ givenNames func.input ++ givenNames func.output ↔
      "defer" ∈ cppNames func := by
    refine ⟨fun h => hsub.subset h, fun h => ?_⟩
    rcases List.mem_append.mp h with h | h
    · exact List.mem_append_left _
        (mem_givenNames (fun i => ne_of_head (by simp [inVar_head])) h)
    · exact List.mem_append_right _
        (mem_givenNames (fun i => ne_of_head (by simp [outVar_head])) h)
  rw [handlerNames, if_neg hraw, ← hgiven]
  by_cases hdefer : .defer ∈ func.attrs
  · -- `__defer__` is declared as `defer`, behind the arguments
    rw [if_pos hdefer, List.nodup_append]
    constructor
    · intro h _ hin
      exact h.2.2 _ hin _ (List.mem_singleton.mpr rfl) rfl
    · intro h
      refine ⟨hsub.nodup hnames, List.nodup_singleton _, ?_⟩
      rintro a ha b hb rfl
      exact h hdefer (List.mem_singleton.mp hb ▸ ha)
  · -- the arguments are all there is
    rw [if_neg hdefer, List.append_nil]
    exact iff_of_true (hsub.nodup hnames) fun h => absurd h hdefer

theorem registeredWrapper_eq (hmem : func ∈ service.functions) (hraw : .raw ∉ func.attrs)
    (hclass : ∀ g ∈ service.functions, g.name.val ≠ serviceClass service)
    (hhandler : (handlerNames func).Nodup)
    (hconst : (service.functions.map ServiceFunction.const).count func.const = 1)
    (hwrapper : ∀ g ∈ service.functions, handlerKey g ≠ wrapperKey func) :
    registeredWrapper service func = some (emitWrapper func) := by
  obtain ⟨pre, post, hsplit, hpre, hpost⟩ := split_of_count hmem hconst
  -- the wrappers of the other functions have other names
  have hother : ∀ l : List ServiceFunction, (∀ g ∈ l, g.const ≠ func.const) →
      wrapperKey func ∉ (wrapperMethods l).map Prod.fst := by
    intro l hl hin
    rw [wrapperMethods, List.map_map] at hin
    obtain ⟨g, hg, heq⟩ := List.mem_map.mp hin
    exact hl g (List.mem_of_mem_filter hg)
      (const_of_name (wrapperName_inj (Prod.mk.inj heq).1))
  have honce : once (serviceMethods service) (wrapperKey func) =
      some (.wrapper (emitWrapper func)) := by
    refine once_eq_some_iff.mpr ⟨handlerMethods service.functions ++ wrapperMethods pre,
      wrapperMethods post, by simp [serviceMethods, wrapperMethods, hsplit, hraw], ?_,
      hother post hpost⟩
    rw [List.map_append, List.mem_append, not_or]
    refine ⟨fun hin => ?_, hother pre hpre⟩
    -- no handler has the key of this wrapper
    rw [handlerMethods, List.map_map] at hin
    obtain ⟨g, hg, heq⟩ := List.mem_map.mp hin
    exact hwrapper g hg heq
  rw [registeredWrapper, if_pos ⟨serviceDeclares_iff.mpr hclass, hhandler⟩, honce]

theorem clear_of_registeredWrapper {w : Wrapper} (h : registeredWrapper service func = some w) :
    (handlerNames func).Nodup ∧ ∀ g ∈ service.functions, handlerKey g ≠ wrapperKey func := by
  obtain ⟨⟨-, hhandler⟩, h⟩ := Option.ite_none_right_eq_some.mp h
  refine ⟨hhandler, fun g hg hkey => ?_⟩
  split at h
  · rename_i heq
    have hhandler : (wrapperKey func, ServiceMethod.handler) ∈ serviceMethods service := by
      rw [← hkey]
      exact List.mem_append_left _ (List.mem_map_of_mem hg)
    cases (eq_of_once heq hhandler)
  · cases h

end Classes

/-! ## The proxy -/

/-- The parameters for arguments of these types. -/
def named (x : Nat → String) (type : String → CppType) (args : List FuncArg) (k : Nat) : Scope :=
  (args.zipIdx k).map fun (arg, i) => (argName x arg i, type arg.type)

theorem named_names (x : Nat → String) (type : String → CppType) (args : List FuncArg) (k : Nat) :
    (named x type args k).map Prod.fst = argNames x args k := by
  rw [named, List.map_map]
  rfl

theorem named_types (x : Nat → String) (type : String → CppType) (args : List FuncArg) (k : Nat) :
    (named x type args k).map Prod.snd = (args.map FuncArg.type).map type := by
  rw [named, List.map_map, ← zipIdx_types args k, List.map_map]
  rfl

theorem proxyInputs_eq (args : List FuncArg) (k : Nat) (p : ProxyParams) :
    proxyInputs args k p =
      ⟨p.asyncFuncParams ++ named inVar .val args k, p.asyncCallParams ++ argNames inVar args k,
        p.syncFuncParams ++ named inVar .val args k, p.syncOutParams⟩ := by
  induction args generalizing k p with
  | nil => simp [proxyInputs, named, argNames]
  | cons arg args ih =>
    rw [proxyInputs, ih]
    cases hname : arg.name <;>
      simp [named, argNames, argName, hname, List.zipIdx_cons]

theorem proxyOutputs_eq (args : List FuncArg) (k : Nat) (p : ProxyParams) :
    proxyOutputs args k p =
      ⟨p.asyncFuncParams, p.asyncCallParams, p.syncFuncParams ++ named outVar .ptr args k,
        p.syncOutParams ++ argNames outVar args k⟩ := by
  induction args generalizing k p with
  | nil => simp [proxyOutputs, named, argNames]
  | cons arg args ih =>
    rw [proxyOutputs, ih]
    cases hname : arg.name <;>
      simp [named, argNames, argName, hname, List.zipIdx_cons]

/-- The four lists of a function, without counters. -/
theorem proxyParams_eq (func : ServiceFunction) :
    proxyParams func =
      ⟨named inVar .val func.input 0, argNames inVar func.input 0,
        named inVar .val func.input 0 ++ named outVar .ptr func.output 0,
        argNames outVar func.output 0⟩ := by
  rw [proxyParams, proxyInputs_eq, proxyOutputs_eq]
  simp

/-- No parameter has a name that the grammar reserves for generated code. -/
theorem argNames_not_reserved {x : Nat → String} {c : Char}
    (hx : ∀ i, (x i).toList.head? = some c) (hc : c ≠ '_') {args : List FuncArg} {k : Nat}
    {name : String} (h : name ∈ argNames x args k) : isReserved name = false := by
  obtain ⟨⟨arg, i⟩, -, rfl⟩ := List.mem_map.mp h
  change isReserved ((arg.name.map Symbol.val).getD (x i)) = false
  cases arg.name with
  | none =>
    refine not_reserved_of_head ?_
    simpa [hx i] using hc
  | some s => exact s.not_reserved

/-- The parameters of a clear scope are streamed with the types of their arguments. -/
theorem mapM_named {x : Nat → String} {type : String → CppType} {use : String → Operand}
    (huse : Streams type use) {scope : Scope} (hnodup : (scope.map Prod.fst).Nodup)
    {args : List FuncArg} {k : Nat} (hsub : named x type args k ⊆ scope) :
    ((argNames x args k).map use).mapM (Operand.streamed scope) =
      some (args.map FuncArg.type) := by
  rw [← zipIdx_types args k, argNames, List.map_map]
  refine mapM_eq_some fun p hp => huse _ _ _ (once_of_nodup (hsub ?_) hnodup)
  exact List.mem_map_of_mem (f := fun (arg, i) => (argName x arg i, type arg.type)) hp

theorem cppNames_not_reserved {func : ServiceFunction} {name : String}
    (h : name ∈ cppNames func) : isReserved name = false := by
  rcases List.mem_append.mp h with h | h
  · exact argNames_not_reserved inVar_head (by decide) h
  · exact argNames_not_reserved outVar_head (by decide) h

/-- Names of the user and names that the generator reserves make a clear scope. -/
theorem nodup_scope {names : List String} {locals : Scope} (hnames : names.Nodup)
    (hlocals : (locals.map Prod.fst).Nodup) (huser : ∀ name ∈ names, isReserved name = false)
    (hreserved : ∀ name ∈ locals.map Prod.fst, isReserved name = true) :
    (names ++ locals.map Prod.fst).Nodup := by
  refine List.nodup_append.mpr ⟨hnames, hlocals, ?_⟩
  rintro a ha b hb rfl
  exact absurd (huser a ha) (by simp [hreserved a hb])

section Proxy

variable {rpcTable : RpcTable} {service : ServiceDecl} {func : ServiceFunction}

theorem nodup_asyncScope (hnames : (cppNames func).Nodup) :
    ((asyncMethod func).scope.map Prod.fst).Nodup := by
  simp only [ProxyMethod.scope, asyncMethod, proxyParams_eq, List.map_append, named_names]
  refine nodup_scope (List.nodup_append.mp hnames).1 (by decide) (fun name hmem => ?_) (by decide)
  exact cppNames_not_reserved (List.mem_append_left _ hmem)

theorem syncScope_names (func : ServiceFunction) :
    (syncMethod func).scope.map Prod.fst = cppNames func ++ ["__fu__", "__ret__"] := by
  simp [ProxyMethod.scope, syncMethod, proxyParams_eq, named_names, cppNames]

theorem nodup_syncScope (hnames : (cppNames func).Nodup) :
    ((syncMethod func).scope.map Prod.fst).Nodup := by
  rw [syncScope_names]
  have hlocals : (([("__fu__", .ptr "rpc::Future"), ("__ret__", .val "rpc::i32")] : Scope).map
      Prod.fst).Nodup := by decide
  exact nodup_scope hnames hlocals (fun _ => cppNames_not_reserved) (by decide)

/-- The methods of the proxy class, by their names. -/
theorem proxyDeclares_iff :
    ProxyDeclares service ↔ ∀ g ∈ service.functions, g.name.val ≠ proxyClass service ∧
      (.udp ∉ g.attrs → asyncName g ≠ proxyClass service) := by
  have hmem : ∀ {g : ServiceFunction} {m : ProxyMethod}, g ∈ service.functions →
      m ∈ (if .udp ∈ g.attrs then [udpMethod g] else [asyncMethod g, syncMethod g]) →
      m.name ∈ (emitProxy service).map ProxyMethod.name := fun hg hm =>
    List.mem_map_of_mem (List.mem_flatMap.mpr ⟨_, hg, hm⟩)
  constructor
  · -- a udp function has one method, the others have two
    intro h g hg
    by_cases hudp : .udp ∈ g.attrs
    · refine ⟨fun heq => h ?_, fun hnot => absurd hudp hnot⟩
      exact heq ▸ hmem (m := udpMethod g) hg (by simp [hudp])
    · refine ⟨fun heq => h ?_, fun _ heq => h ?_⟩
      · exact heq ▸ hmem (m := syncMethod g) hg (by simp [hudp])
      · exact heq ▸ hmem (m := asyncMethod g) hg (by simp [hudp])
  · -- every method comes from one of the functions
    intro h hin
    obtain ⟨m, hm, heq⟩ := List.mem_map.mp hin
    obtain ⟨g, hg, hm⟩ := List.mem_flatMap.mp hm
    obtain ⟨hsync, hasync⟩ := h g hg
    split at hm
    · obtain rfl := List.mem_singleton.mp hm
      exact hsync heq
    · rename_i hudp
      rcases List.mem_pair.mp hm with rfl | rfl
      · exact hasync hudp heq
      · exact hsync heq

theorem asyncRequest_eq {rpcId : Nat} (hclass : ProxyDeclares service)
    (hconst : cppConst rpcTable service func.const = some rpcId) (hnames : (cppNames func).Nodup) :
    (asyncMethod func).asyncRequest rpcTable service = some (rpcId, func.inputTypes) := by
  have hputs : puts (asyncMethod func).scope
      ((proxyParams func).asyncCallParams.map fun param => .put (.var param)) =
      some func.inputTypes := by
    have hsub : named inVar .val func.input 0 ⊆ (asyncMethod func).scope := fun p hp => by
      simp [ProxyMethod.scope, asyncMethod, proxyParams_eq, hp]
    have hops := putOperands_map ((argNames inVar func.input 0).map .var)
    rw [List.map_map] at hops
    simp only [puts, proxyParams_eq]
    exact hops ▸ mapM_named streams_val (nodup_asyncScope hnames) hsub
  simp only [ProxyMethod.asyncRequest, asyncMethod, hconst, if_pos hclass] at hputs ⊢
  rw [hputs]
  rfl

theorem cppConst_of_asyncRequest {rpcId : Nat} {types : List String}
    (h : (asyncMethod func).asyncRequest rpcTable service = some (rpcId, types)) :
    ProxyDeclares service ∧ cppConst rpcTable service func.const = some rpcId := by
  obtain ⟨hclass, h⟩ := Option.ite_none_right_eq_some.mp h
  obtain ⟨id, hid, h⟩ := Option.bind_eq_some_iff.mp h
  obtain ⟨types', -, h⟩ := Option.bind_eq_some_iff.mp h
  cases h
  exact ⟨hclass, hid⟩

theorem syncReads_eq (hnames : (cppNames func).Nodup) :
    (syncMethod func).syncReads = some func.outputTypes := by
  have hsub : named outVar .ptr func.output 0 ⊆ (syncMethod func).scope := fun p hp => by
    simp [ProxyMethod.scope, syncMethod, proxyParams_eq, hp]
  have hops := getOperands_map ((argNames outVar func.output 0).map .deref)
  rw [List.map_map] at hops
  change gets (syncMethod func).scope
    ((proxyParams func).syncOutParams.map fun param => .get (.deref param)) = _
  simp only [gets, proxyParams_eq]
  exact hops ▸ mapM_named streams_ptr (nodup_syncScope hnames) hsub

/-- The arguments that the sync method passes on. -/
theorem syncArgs_eq (hnames : (cppNames func).Nodup) :
    (argNames inVar func.input 0).mapM (once (syncMethod func).scope) =
      some (func.inputTypes.map .val) := by
  have hsub : named inVar .val func.input 0 ⊆ (syncMethod func).scope := fun p hp => by
    simp [ProxyMethod.scope, syncMethod, proxyParams_eq, hp]
  rw [ServiceFunction.inputTypes, ← named_types inVar .val func.input 0, named, List.map_map]
  refine mapM_eq_some fun p hp => once_of_nodup (hsub ?_) (nodup_syncScope hnames)
  exact List.mem_map_of_mem (f := fun (arg, i) => (argName inVar arg i, CppType.val arg.type)) hp

/-- Every name that the sync method looks up is the name of one argument only. -/
theorem nodup_of_sync {request : Nat × List String} {reads : List String}
    (hrequest : (syncMethod func).syncRequest rpcTable service = some request)
    (hreads : (syncMethod func).syncReads = some reads) : (cppNames func).Nodup := by
  rw [List.nodup_iff_count_eq_one]
  intro name hmem
  -- it has one binding in the scope of the method, and so one among the arguments
  obtain ⟨type, honce⟩ : ∃ type, once (syncMethod func).scope name = some type := by
    rcases List.mem_append.mp hmem with hmem | hmem
    · obtain ⟨types, htypes, -⟩ := Option.bind_eq_some_iff.mp hrequest
      simp only [proxyParams_eq] at htypes
      exact exists_of_mapM htypes name hmem
    · change gets (syncMethod func).scope
        ((proxyParams func).syncOutParams.map fun param => .get (.deref param)) = _ at hreads
      simp only [gets, proxyParams_eq] at hreads
      have hops := getOperands_map ((argNames outVar func.output 0).map .deref)
      rw [List.map_map] at hops
      obtain ⟨t, ht⟩ := exists_of_mapM (hops ▸ hreads) _ (List.mem_map_of_mem hmem)
      simp only [Operand.streamed, Operand.type] at ht
      cases honce : once (syncMethod func).scope name with
      | none => simp [honce] at ht
      | some type => exact ⟨type, rfl⟩
  have hcount := count_of_once honce
  rw [syncScope_names, List.count_append] at hcount
  have hpos := List.count_pos_iff.mpr hmem
  omega

/-- The methods of one function. -/
theorem signature_cases {g : ServiceFunction} {m : ProxyMethod}
    (h : m ∈ if .udp ∈ g.attrs then [udpMethod g] else [asyncMethod g, syncMethod g]) :
    m = asyncMethod g ∨
      m.signature = (g.name.val, g.inputTypes.map .val ++ g.outputTypes.map .ptr) := by
  have hsync : (syncMethod g).signature =
      (g.name.val, g.inputTypes.map .val ++ g.outputTypes.map .ptr) := by
    simp only [ProxyMethod.signature, syncMethod, proxyParams_eq, List.map_append, named_types]
    rfl
  split at h
  · obtain rfl := List.mem_singleton.mp h
    exact .inr hsync
  · rcases List.mem_pair.mp h with rfl | rfl
    · exact .inl rfl
    · exact .inr hsync

theorem asyncSignature (g : ServiceFunction) :
    (asyncMethod g).signature = (asyncName g, g.inputTypes.map .val) := by
  simp only [ProxyMethod.signature, asyncMethod, proxyParams_eq, named_types]
  rfl

theorem sync_ne_async (h : NoOverload service func) {g : ServiceFunction}
    (hg : g ∈ service.functions) :
    (g.name.val, g.inputTypes.map CppType.val ++ g.outputTypes.map .ptr) ≠
      (asyncName func, func.inputTypes.map .val) := by
  intro heq
  obtain ⟨hname, htypes⟩ := Prod.mk.inj heq
  cases hout : g.output with
  | nil =>
    refine h g hg hname hout ?_
    rw [ServiceFunction.outputTypes, hout, List.map_nil, List.map_nil, List.append_nil] at htypes
    exact List.map_injective_iff.mpr (fun _ _ heq => CppType.val.inj heq) htypes
  | cons arg args =>
    -- an output is a pointer, and no argument of the call is one
    have hptr : CppType.ptr arg.type ∈ func.inputTypes.map CppType.val := by
      rw [← htypes, ServiceFunction.outputTypes, hout]
      simp
    simp at hptr

theorem proxyLookup_eq (hmem : func ∈ service.functions) (hudp : .udp ∉ func.attrs)
    (hconst : (service.functions.map ServiceFunction.const).count func.const = 1)
    (hasync : NoOverload service func) :
    proxyLookup service (asyncName func) (func.inputTypes.map .val) = some (asyncMethod func) := by
  obtain ⟨pre, post, hsplit, hpre, hpost⟩ := split_of_count hmem hconst
  let bindings (l : List ServiceFunction) : List ((String × List CppType) × ProxyMethod) :=
    (l.flatMap fun g =>
      if .udp ∈ g.attrs then [udpMethod g] else [asyncMethod g, syncMethod g]).map
      fun m => (m.signature, m)
  have hother : ∀ l ⊆ service.functions, (∀ g ∈ l, g.const ≠ func.const) →
      (asyncName func, func.inputTypes.map .val) ∉ (bindings l).map Prod.fst := by
    intro l hsub hl hin
    rw [List.map_map] at hin
    obtain ⟨m, hm, heq⟩ := List.mem_map.mp hin
    obtain ⟨g, hg, hm⟩ := List.mem_flatMap.mp hm
    -- another `async_` method, or a sync method of the same signature
    rcases signature_cases hm with rfl | hsig
    · have hname : g.name.val = func.name.val := by
        simpa [asyncSignature, asyncName] using (Prod.mk.inj ((asyncSignature g).symm.trans heq)).1
      exact hl g hg (const_of_name hname)
    · exact sync_ne_async hasync (hsub hg) (hsig.symm.trans heq)
  have hself : (asyncName func, func.inputTypes.map .val) ≠ (syncMethod func).signature := by
    rcases signature_cases (g := func) (m := syncMethod func) (by simp [hudp]) with heq | hsig
    · cases (congrArg ProxyMethod.body heq)
    · rw [hsig]
      exact (sync_ne_async hasync hmem).symm
  refine once_eq_some_iff.mpr ⟨bindings pre,
    ((syncMethod func).signature, syncMethod func) :: bindings post, ?_, ?_, ?_⟩
  · -- the two methods of the function stand side by side
    simp [emitProxy, bindings, hsplit, hudp, asyncSignature]
  · -- nothing in front has this signature
    exact hother pre (by simp [hsplit]) hpre
  · -- nor has the sync method or anything behind it
    rw [List.map_cons, List.mem_cons, not_or]
    exact ⟨hself, hother post (by simp [hsplit]) hpost⟩

theorem syncRequest_eq {rpcId : Nat} (hmem : func ∈ service.functions) (hudp : .udp ∉ func.attrs)
    (hclass : ProxyDeclares service)
    (hconst : (service.functions.map ServiceFunction.const).count func.const = 1)
    (hid : cppConst rpcTable service func.const = some rpcId)
    (hasync : NoOverload service func) (hnames : (cppNames func).Nodup) :
    (syncMethod func).syncRequest rpcTable service = some (rpcId, func.inputTypes) := by
  have hargs := syncArgs_eq hnames
  change (do
    let types ← ((proxyParams func).asyncCallParams).mapM (once (syncMethod func).scope)
    let m' ← proxyLookup service (asyncName func) types
    m'.asyncRequest rpcTable service) = _
  simp only [proxyParams_eq, hargs, proxyLookup_eq hmem hudp hconst hasync, Option.bind_eq_bind,
    Option.bind_some]
  exact asyncRequest_eq hclass hid hnames

/-- The call of the sync method finds its `async_` method only if there is no overload. -/
theorem noOverload_of_sync {request : Nat × List String} (hnames : (cppNames func).Nodup)
    (h : (syncMethod func).syncRequest rpcTable service = some request) :
    NoOverload service func := by
  intro g hg hname hout htypes
  have hargs := syncArgs_eq hnames
  change (do
    let types ← ((proxyParams func).asyncCallParams).mapM (once (syncMethod func).scope)
    let m' ← proxyLookup service (asyncName func) types
    m'.asyncRequest rpcTable service) = _ at h
  simp only [proxyParams_eq, hargs, Option.bind_eq_bind, Option.bind_some] at h
  obtain ⟨m, hm, hm'⟩ := Option.bind_eq_some_iff.mp h
  -- the overload is another method of the same signature, and the call selects neither
  obtain ⟨m', hmem, hsig, hnot⟩ : ∃ m' ∈ emitProxy service,
      m'.signature = (asyncName func, func.inputTypes.map .val) ∧
      m'.asyncRequest rpcTable service = none := by
    by_cases hudp : .udp ∈ g.attrs
    · refine ⟨udpMethod g, List.mem_flatMap.mpr ⟨g, hg, by simp [hudp]⟩, ?_, rfl⟩
      rcases signature_cases (g := g) (m := udpMethod g) (by simp [hudp]) with heq | hsig
      · cases (congrArg ProxyMethod.body heq)
      · simp [hsig, hname, ServiceFunction.outputTypes, hout, htypes]
    · refine ⟨syncMethod g, List.mem_flatMap.mpr ⟨g, hg, by simp [hudp]⟩, ?_, rfl⟩
      rcases signature_cases (g := g) (m := syncMethod g) (by simp [hudp]) with heq | hsig
      · cases (congrArg ProxyMethod.body heq)
      · simp [hsig, hname, ServiceFunction.outputTypes, hout, htypes]
  have heq : m' = m := eq_of_once hm (List.mem_map.mpr ⟨m', hmem, by rw [hsig]⟩)
  rw [heq, hm'] at hnot
  cases hnot

end Proxy

end SimpleRpc.Gen
