import Mathlib.Data.List.Nodup
import Mathlib.Logic.Function.Basic

/-!
# Registering a Generated Service (`lang_cpp.py`, `rpc/server.h`, `rpc/server.cc`)

For each service `emit_service_and_proxy` prints a method `__reg_to__` that registers the
functions of the service one by one and, when one of them fails, jumps to a rollback.

## Layers

- **Server**: the table `handlers_` with `reg` and `unreg`
- **Generator**: `emitRegTo`, the statements of `__reg_to__` for a service
- **Generated code**: `RegTo.run`, their execution

## Main results

- `allOrNothing_iff`: registration is all or nothing exactly when no id of the service was in
  the table before. The rollback unregisters every function of the service, also those that
  were never registered and whose ids belong to somebody else
-/

namespace SimpleRpc.Gen

/-! ## The server's table -/

/-- A handler, named as the generated code names it: the object and the member function. -/
structure Handler where
  svc : String
  func : String
  deriving DecidableEq, Repr

/-- The part of `Server` that registration changes. -/
structure Server where
  /-- `handlers_` -/
  handlers : Int32 → Option Handler
  /-- `udp_` -/
  udp : Bool

namespace Server

/-- `EEXIST` -/
def eexist : Int32 := 17

/-- `Server::enable_udp` -/
def enableUdp (svr : Server) : Server := { svr with udp := true }

/-- `Server::reg`: disallow duplicate rpc_id -/
def reg (svr : Server) (rpcId : Int32) (f : Handler) : Int32 × Server :=
  if svr.handlers rpcId ≠ none then (eexist, svr)
  else (0, { svr with handlers := Function.update svr.handlers rpcId (some f) })

/-- `Server::unreg` -/
def unreg (svr : Server) (rpcId : Int32) : Server :=
  { svr with handlers := Function.update svr.handlers rpcId none }

end Server

/-! ## The generator -/

/-- A function attribute of the rpc source. -/
inductive Attr where
  | fast | raw | defer | udp
  deriving DecidableEq, Repr

/-- A function of a service, with the code the rpc table gives it. -/
structure Func where
  name : String
  attrs : List Attr
  rpcCode : Int32

/-- A service of the rpc source. -/
structure Service where
  name : String
  functions : List Func

/-- A statement of the body of `__reg_to__`. -/
inductive Stmt where
  /-- `svr->enable_udp();` -/
  | enableUdp
  /-- `if ((ret = svr->reg(ID, this, &F)) != 0) { goto err; }` -/
  | reg (rpcId : Int32) (f : Handler)

/-- The method `__reg_to__`: its body and the statements behind the label `err`. -/
structure RegTo where
  body : List Stmt
  /-- `svr->unreg(ID);` for each id -/
  err : List Int32

/-- The member function that is registered: `raw` functions are registered themselves. -/
def handlerOf (service : Service) (func : Func) : Handler :=
  if .raw ∈ func.attrs then ⟨service.name, func.name⟩
  else ⟨service.name, "__" ++ func.name ++ "__wrapper__"⟩

/-- The loop over the functions that prints the body. -/
def emitBody (service : Service) : List Func → Bool → List Stmt
  | [], _ => []
  | func :: funcs, udpEnabled =>
    if .udp ∈ func.attrs ∧ udpEnabled = false then
      .enableUdp :: .reg func.rpcCode (handlerOf service func) :: emitBody service funcs true
    else
      .reg func.rpcCode (handlerOf service func) :: emitBody service funcs udpEnabled

/-- What `emit_service_and_proxy` prints for `__reg_to__`. -/
def emitRegTo (service : Service) : RegTo where
  body := emitBody service service.functions false
  err := service.functions.map Func.rpcCode

/-! ## The generated code -/

/-- Run the body up to its end or to the first `goto err`; returns `ret`. -/
def runBody : List Stmt → Server → Int32 × Server
  | [], svr => (0, svr)
  | .enableUdp :: stmts, svr => runBody stmts svr.enableUdp
  | .reg rpcId f :: stmts, svr =>
    let (ret, svr) := svr.reg rpcId f
    if ret ≠ 0 then (ret, svr) else runBody stmts svr

/-- `svc->__reg_to__(svr)` -/
def RegTo.run (m : RegTo) (svr : Server) : Int32 × Server :=
  let (ret, svr) := runBody m.body svr
  if ret ≠ 0 then (ret, m.err.foldl Server.unreg svr) else (0, svr)

/-- `Server::reg(Service*)` for a generated service. -/
def regService (service : Service) (svr : Server) : Int32 × Server := (emitRegTo service).run svr

/-! ## What registration does -/

/-- The ids the body registers. -/
def regIds (stmts : List Stmt) : List Int32 :=
  stmts.filterMap fun
    | .enableUdp => none
    | .reg rpcId _ => some rpcId

theorem regIds_emitBody (service : Service) (funcs : List Func) (udpEnabled : Bool) :
    regIds (emitBody service funcs udpEnabled) = funcs.map Func.rpcCode := by
  induction funcs generalizing udpEnabled with
  | nil => rfl
  | cons func funcs ih =>
    rw [emitBody]
    split
    · simpa [regIds] using ih true
    · simpa [regIds] using ih udpEnabled

/-- Other ids are left alone. -/
theorem runBody_frame (stmts : List Stmt) (svr : Server) {rpcId : Int32}
    (h : rpcId ∉ regIds stmts) : (runBody stmts svr).2.handlers rpcId = svr.handlers rpcId := by
  induction stmts generalizing svr with
  | nil => rfl
  | cons stmt stmts ih =>
    cases stmt with
    | enableUdp => exact ih svr.enableUdp h
    | reg rpcId' f =>
      obtain ⟨hne, hrest⟩ : rpcId ≠ rpcId' ∧ rpcId ∉ regIds stmts := by simpa [regIds] using h
      rw [runBody, Server.reg]
      by_cases hnew : svr.handlers rpcId' ≠ none
      · simp [hnew, Server.eexist]
      · simp only [hnew, if_false, ne_eq, not_true_eq_false]
        rw [ih _ hrest]
        exact Function.update_of_ne hne ..

/-- The body succeeds only if every id was free, and then every id has its handler. -/
theorem runBody_zero (stmts : List Stmt) (svr : Server) (h : (runBody stmts svr).1 = 0) :
    (∀ rpcId ∈ regIds stmts, svr.handlers rpcId = none) ∧
    ∀ rpcId f, Stmt.reg rpcId f ∈ stmts → (runBody stmts svr).2.handlers rpcId = some f := by
  induction stmts generalizing svr with
  | nil => exact ⟨by simp [regIds], by simp⟩
  | cons stmt stmts ih =>
    cases stmt with
    | enableUdp =>
      -- UDP does not touch the table
      obtain ⟨hfree, hreg⟩ := ih svr.enableUdp h
      refine ⟨fun rpcId hmem => hfree rpcId (by simpa [regIds] using hmem), fun rpcId f hmem => ?_⟩
      exact hreg rpcId f (by simpa using hmem)
    | reg rpcId' f' =>
      rw [runBody, Server.reg] at h ⊢
      -- the id is taken, and the body fails with `EEXIST`
      by_cases hnew : svr.handlers rpcId' ≠ none
      · simp [hnew, Server.eexist] at h
      · -- the id is free, and is in the table from here on
        have hnone : svr.handlers rpcId' = none := not_not.mp hnew
        simp only [hnew, if_false, ne_eq, not_true_eq_false] at h ⊢
        obtain ⟨hfree, hreg⟩ := ih _ h
        -- the id just registered cannot come again
        have hnot : rpcId' ∉ regIds stmts := fun hmem => by
          have := hfree rpcId' hmem
          simp at this
        refine ⟨fun rpcId hmem => ?_, fun rpcId f hmem => ?_⟩
        · -- the id of this statement, or of one behind it
          by_cases heq : rpcId = rpcId'
          · rw [heq, hnone]
          · have hmem' : rpcId ∈ regIds stmts := by simpa [regIds, heq] using hmem
            simpa [Function.update_of_ne heq] using hfree rpcId hmem'
        · -- its handler stays, for nothing behind registers the id
          rcases List.mem_cons.mp hmem with heq | hmem
          · obtain ⟨rfl, rfl⟩ : rpcId = rpcId' ∧ f = f' := by simpa using heq
            rw [runBody_frame _ _ hnot]
            simp
          · exact hreg rpcId f hmem

/-- The rollback removes every id of the service, registered or not. -/
theorem foldl_unreg (ids : List Int32) (svr : Server) (rpcId : Int32) :
    (ids.foldl Server.unreg svr).handlers rpcId =
      if rpcId ∈ ids then none else svr.handlers rpcId := by
  induction ids generalizing svr with
  | nil => simp
  | cons i ids ih =>
    rw [List.foldl_cons, ih]
    by_cases hmem : rpcId ∈ ids
    · simp [hmem]
    · by_cases heq : rpcId = i
      · subst heq
        simp [hmem, Server.unreg]
      · simp [hmem, heq, Server.unreg]

theorem mem_emitBody (service : Service) {func : Func} {funcs : List Func} (udpEnabled : Bool)
    (h : func ∈ funcs) :
    Stmt.reg func.rpcCode (handlerOf service func) ∈ emitBody service funcs udpEnabled := by
  induction funcs generalizing udpEnabled with
  | nil => simp at h
  | cons g funcs ih =>
    rw [emitBody]
    rcases List.mem_cons.mp h with rfl | h
    · split <;> simp
    · split
      · simp [ih true h]
      · simp [ih udpEnabled h]

/-- A zero return extends the table by exactly the functions of the service; a non-zero one
    leaves it as it was. -/
def AllOrNothing (service : Service) (svr : Server) : Prop :=
  ((regService service svr).1 = 0 →
    (∀ func ∈ service.functions, svr.handlers func.rpcCode = none ∧
      (regService service svr).2.handlers func.rpcCode = some (handlerOf service func)) ∧
    ∀ rpcId ∉ service.functions.map Func.rpcCode,
      (regService service svr).2.handlers rpcId = svr.handlers rpcId) ∧
  ((regService service svr).1 ≠ 0 → (regService service svr).2.handlers = svr.handlers)

theorem regService_zero {service : Service} {svr : Server} (h : (regService service svr).1 = 0) :
    (runBody (emitRegTo service).body svr).1 = 0 ∧
      (regService service svr).2 = (runBody (emitRegTo service).body svr).2 := by
  unfold regService RegTo.run at h ⊢
  by_cases hret : (runBody (emitRegTo service).body svr).1 = 0
  · simp [hret]
  · simp [hret] at h

theorem regService_ne_zero {service : Service} {svr : Server}
    (h : (regService service svr).1 ≠ 0) :
    (regService service svr).2 =
      (emitRegTo service).err.foldl Server.unreg (runBody (emitRegTo service).body svr).2 := by
  unfold regService RegTo.run at h ⊢
  by_cases hret : (runBody (emitRegTo service).body svr).1 = 0
  · simp [hret] at h
  · simp [hret]

theorem allOrNothing_of_free {service : Service} {svr : Server}
    (hfree : ∀ func ∈ service.functions, svr.handlers func.rpcCode = none) :
    AllOrNothing service svr := by
  have hids := regIds_emitBody service service.functions false
  refine ⟨fun hzero => ?_, fun hne => ?_⟩
  · obtain ⟨hbody, heq⟩ := regService_zero hzero
    obtain ⟨-, hreg⟩ := runBody_zero _ _ hbody
    rw [heq]
    refine ⟨fun func hmem => ⟨hfree func hmem, hreg _ _ (mem_emitBody service false hmem)⟩,
      fun rpcId hnot => runBody_frame _ _ ?_⟩
    rwa [emitRegTo, hids]
  · rw [regService_ne_zero hne]
    funext rpcId
    rw [foldl_unreg]
    split
    · rename_i hmem
      obtain ⟨func, hfunc, rfl⟩ := List.mem_map.mp hmem
      exact (hfree func hfunc).symm
    · rename_i hnot
      exact runBody_frame _ _ (by rwa [emitRegTo, hids])

/-- Whoever owns an id of the service loses it. -/
theorem not_allOrNothing_of_taken {service : Service} {svr : Server} {func : Func}
    (hfunc : func ∈ service.functions) (htaken : svr.handlers func.rpcCode ≠ none) :
    ¬ AllOrNothing service svr := by
  rintro ⟨hzero, hne⟩
  by_cases hret : (regService service svr).1 = 0
  · exact htaken ((hzero hret).1 func hfunc).1
  · have hgone : (regService service svr).2.handlers func.rpcCode = none := by
      rw [regService_ne_zero hret, foldl_unreg, if_pos]
      exact List.mem_map_of_mem hfunc
    rw [hne hret] at hgone
    exact htaken hgone

/-- **Registration** is all or nothing exactly when none of the service's ids was taken. -/
theorem allOrNothing_iff (service : Service) (svr : Server) :
    AllOrNothing service svr ↔
      ∀ func ∈ service.functions, svr.handlers func.rpcCode = none :=
  ⟨fun hall func hfunc => by
    by_contra htaken
    exact not_allOrNothing_of_taken hfunc htaken hall, allOrNothing_of_free⟩

/-- `RLogService`, as it stands in `rlog/log_service.h`. -/
def rLogService : Service :=
  ⟨"RLog", [⟨"log", [], 0x57982f30⟩, ⟨"aggregate_qps", [], 0x5d6a8636⟩]⟩

/-- Registered on a server where another service owns the id of `aggregate_qps`, it removes
    that service's handler. -/
theorem rLogService_wipes_handler :
    ¬ AllOrNothing rLogService
      ⟨fun rpcId => if rpcId = 0x5d6a8636 then some ⟨"Stat", "__count__wrapper__"⟩ else none, false⟩ := by
  have hmem : (⟨"aggregate_qps", [], 0x5d6a8636⟩ : Func) ∈ rLogService.functions := by
    simp [rLogService]
  exact not_allOrNothing_of_taken hmem (by simp)

end SimpleRpc.Gen
