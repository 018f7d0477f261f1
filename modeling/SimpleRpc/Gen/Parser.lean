import SimpleRpc.Gen.Scanner
import SimpleRpc.Gen.Stubs

/-!
# The Generated Parser (`rpcgen.g`, `rpcgen.py`)

Each rule of the grammar is a method that peeks and scans. A rule keeps its name; what Python does
with exceptions, from a bad token to a forbidden name, is the failure of the parser. The loops of a
rule and the nesting of types take fuel, and a text is parsed when some fuel is enough.

The names that a source carries are symbols by their types, as the stubs want them: a service that
was parsed is a `ServiceDecl`.

## Main results

- `rpcSource_below`: more fuel changes nothing
- `Parsed.unique`: a text has one result
- `Parsed.tokens`: `EOF` is the last token that is read
-/

namespace SimpleRpc.Gen

open SimpleRpc.Lib
open SimpleRpc.Lib.Parser (peek scan whileDo)

/-! ## What is parsed -/

/-- The text of the token `SYMBOL`. -/
abbrev SymbolText := { name : String // isSymbol name = true }

/-- `struct_field` -/
structure StructField where
  name : SymbolText
  type : String

/-- `struct_decl` -/
structure StructDecl where
  name : SymbolText
  fields : List StructField

/-- `service_function`, with the mark `abstract` -/
structure ParsedFunction extends ServiceFunction where
  abstract : Bool

/-- `service_decl`, with the mark `abstract` -/
structure ParsedService where
  name : SymbolText
  abstract : Bool
  functions : List ParsedFunction

/-- `structs_and_services` -/
structure StructsAndServices where
  structs : List StructDecl
  services : List ParsedService

/-- `rpc_source` -/
structure RpcSource extends StructsAndServices where
  namespace_ : Option (List SymbolText)

/-! ## The rules -/

/-- `class Rpc(runtime.Parser)` -/
abbrev Rpc := Parser TokType (List Char)

/-- `SYMBOL = self._scan('SYMBOL', context=_context)`; `token_symbol` says that the text of this
    token is always a symbol -/
def scanSymbol : Rpc SymbolText := do
  let value ← scan .symbol
  if h : isSymbol (String.ofList value) = true then pure ⟨String.ofList value, h⟩ else .fail

/-- `forbid_reserved_names(name)` -/
def forbid (name : SymbolText) : Rpc Symbol :=
  match h : forbidReservedNames name.1 with
  | .ok () => pure ⟨name.1, name.2, h⟩
  | .error _ => .fail

/-- `if self._peek(types) == t: yes; else: no` -/
def ifPeek {α : Type} (types : List TokType) (t : TokType) (yes no : Rpc α) : Rpc α := do
  let token ← peek types
  if token = t then yes else no

def stdRename (t : String) : String :=
  if t ∈ ["pair", "string", "map", "list", "set", "vector", "unordered_map", "unordered_set"] then
    "std::" ++ t
  else t

def namespaceDecl (fuel : Nat) : Rpc (List SymbolText) := do
  let _ ← scan .namespace_
  let symbol ← scanSymbol
  whileDo (do return (← peek [.colons, .eof, .struct, .abstract, .service]) == .colons)
    (fun namespace_ => do
      let _ ← scan .colons
      let symbol ← scanSymbol
      return namespace_ ++ [symbol])
    fuel [symbol]

def fullSymbol (fuel : Nat) : Rpc String := do
  let s ← ifPeek [.colons, .symbol] .colons
    (do
      let _ ← scan .colons
      return "::")
    (return "")
  let symbol ← scanSymbol
  whileDo (do return (← peek [.colons, .lt, .symbol, .comma, .gt, .bar, .rparen]) == .colons)
    (fun s => do
      let _ ← scan .colons
      let symbol ← scanSymbol
      return s ++ "::" ++ symbol.1)
    fuel (s ++ symbol.1)

/-- One of the types `rpc::i8` and so on. -/
def scanBuiltin (t : TokType) (name : String) : Rpc String := do
  let _ ← scan t
  return name

def type : Nat → Rpc String
  | 0 => .fail
  | fuel + 1 => do
    let token ← peek [.i8, .i16, .i32, .i64, .v32, .v64, .bool, .int, .unsigned, .long, .colons,
      .symbol]
    if token = .i8 then scanBuiltin .i8 "rpc::i8"
    else if token = .i16 then scanBuiltin .i16 "rpc::i16"
    else if token = .i32 then scanBuiltin .i32 "rpc::i32"
    else if token = .i64 then scanBuiltin .i64 "rpc::i64"
    else if token = .v32 then scanBuiltin .v32 "rpc::v32"
    else if token = .v64 then scanBuiltin .v64 "rpc::v64"
    else if token ∈ [.colons, .symbol] then
      let symbol ← fullSymbol fuel
      let t := stdRename symbol
      ifPeek [.lt, .symbol, .comma, .gt, .bar, .rparen] .lt
        (do
          let _ ← scan .lt
          let arg ← type fuel
          let t ← whileDo (do return (← peek [.gt, .comma]) == .comma)
            (fun t => do
              let _ ← scan .comma
              let arg ← type fuel
              return t ++ ", " ++ arg)
            fuel (t ++ "<" ++ arg)
          let _ ← scan .gt
          return t ++ ">")
        (return t)
    else
      let token ← peek [.bool, .int, .unsigned, .long]
      let _ ← scan
        (if token = .bool then .bool
        else if token = .int then .int
        else if token = .unsigned then .unsigned
        else .long)
      -- "please use i8, i16, i32, i64, v32 or v64 instead"
      .fail

def structField (fuel : Nat) : Rpc StructField := do
  let type ← type fuel
  let symbol ← scanSymbol
  return ⟨symbol, type⟩

def structFields (fuel : Nat) : Rpc (List StructField) :=
  whileDo
    (do return (← peek [.rbrace, .i8, .i16, .i32, .i64, .v32, .v64, .bool, .int, .unsigned, .long,
      .colons, .symbol]) != .rbrace)
    (fun fields => do return fields ++ [← structField fuel])
    fuel []

def structDecl (fuel : Nat) : Rpc StructDecl := do
  let _ ← scan .struct
  let symbol ← scanSymbol
  let _ ← scan .lbrace
  let fields ← structFields fuel
  let _ ← scan .rbrace
  return ⟨symbol, fields⟩

def funcAttr : Rpc Attr := do
  let token ← peek [.fast, .raw, .defer, .udp]
  if token = .fast then
    let _ ← scan .fast
    return .fast
  else if token = .raw then
    let _ ← scan .raw
    return .raw
  else if token = .defer then
    let _ ← scan .defer
    return .defer
  else
    let _ ← scan .udp
    return .udp

/-- The attributes are a set. -/
def funcAttrs (fuel : Nat) : Rpc (List Attr) :=
  whileDo (do return (← peek [.fast, .raw, .defer, .udp, .symbol]) != .symbol)
    (fun attrs => do
      let attr ← funcAttr
      return if attr ∈ attrs then attrs else attrs ++ [attr])
    fuel []

def funcArg (fuel : Nat) : Rpc FuncArg := do
  let type ← type fuel
  let name ← ifPeek [.symbol, .comma, .bar, .rparen] .symbol
    (do
      let symbol ← scanSymbol
      return some (← forbid symbol))
    (return none)
  return ⟨type, name⟩

def funcArgList (fuel : Nat) : Rpc (List FuncArg) := do
  let token ← peek [.i8, .i16, .i32, .i64, .v32, .v64, .bool, .int, .unsigned, .long, .comma,
    .colons, .symbol, .bar, .rparen]
  if token ∈ [.comma, .bar, .rparen] then return []
  else
    let arg ← funcArg fuel
    whileDo (do return (← peek [.comma, .bar, .rparen]) == .comma)
      (fun args => do
        let _ ← scan .comma
        return args ++ [← funcArg fuel])
      fuel [arg]

def serviceFunction (fuel : Nat) : Rpc ParsedFunction := do
  let attrs ← funcAttrs fuel
  let symbol ← scanSymbol
  let name ← forbid symbol
  let _ ← scan .lparen
  let input ← funcArgList fuel
  let output ← ifPeek [.bar, .rparen] .bar
    (do
      let _ ← scan .bar
      funcArgList fuel)
    (return [])
  let _ ← scan .rparen
  let abstract ← ifPeek [.equals, .symbol, .rbrace, .fast, .raw, .defer, .udp] .equals
    (do
      let _ ← scan .equals
      let _ ← scan .zero
      return true)
    (return false)
  match h : checkRpcFunc attrs output with
  | .ok () => return { name, attrs, input, output, checked := h, abstract }
  | .error _ => .fail

def serviceFunctions (fuel : Nat) : Rpc (List ParsedFunction) :=
  whileDo (do return (← peek [.symbol, .rbrace, .fast, .raw, .defer, .udp]) != .rbrace)
    (fun functions => do return functions ++ [← serviceFunction fuel])
    fuel []

def serviceDecl (fuel : Nat) : Rpc ParsedService := do
  let abstract ← ifPeek [.abstract, .service] .abstract
    (do
      let _ ← scan .abstract
      return true)
    (return false)
  let _ ← scan .service
  let symbol ← scanSymbol
  let _ ← scan .lbrace
  let functions ← serviceFunctions fuel
  let _ ← scan .rbrace
  return ⟨symbol, abstract, functions⟩

def structsAndServices (fuel : Nat) : Rpc StructsAndServices :=
  whileDo (do return (← peek [.struct, .abstract, .service, .eof]) != .eof)
    (fun found => do
      let token ← peek [.struct, .abstract, .service]
      if token = .struct then
        let decl ← structDecl fuel
        return { found with structs := found.structs ++ [decl] }
      else
        let decl ← serviceDecl fuel
        return { found with services := found.services ++ [decl] })
    fuel ⟨[], []⟩

/-- `namespace` and what stands behind it, up to the end of the source -/
def rpcBody (fuel : Nat) : Rpc RpcSource := do
  let namespace_ ← ifPeek [.namespace_, .eof, .struct, .abstract, .service] .namespace_
    (do return some (← namespaceDecl fuel))
    (return none)
  let found ← structsAndServices fuel
  return ⟨found, namespace_⟩

def rpcSource (fuel : Nat) : Rpc RpcSource := do
  let source ← rpcBody fuel
  let _ ← scan .eof
  return source

/-- `Rpc(RpcScanner(text))` -/
def rpcScanner (text : List Char) : Scanner TokType (List Char) (List Char) := ⟨text, none, []⟩

/-- `parse('rpc_source', text)`, with the tokens that were read and what was not read. -/
def parse (fuel : Nat) (text : List Char) :
    Option (RpcSource × List (Read TokType (List Char)) × List Char) :=
  ((rpcSource fuel).run token (rpcScanner text)).map fun (source, log, s) => (source, log, s.input)

/-! ## More fuel

One lemma a rule, each from those of the rules it calls. They also say that no rule but
`rpcSource` scans `EOF`. -/

section

variable {m n : Nat}

theorem scanSymbol_below : Below .eof scanSymbol scanSymbol :=
  .bind (.scan (by decide)) fun value => by
    split
    · exact .ret _
    · exact .fail _

theorem forbid_below (name : SymbolText) : Below .eof (forbid name) (forbid name) := by
  rw [forbid]
  split
  · exact .ret _
  · exact .fail _

theorem ifPeek_below {α : Type} {yes yes' no no' : Rpc α} (types : List TokType) (t : TokType)
    (hyes : Below .eof yes yes') (hno : Below .eof no no') :
    Below .eof (ifPeek types t yes no) (ifPeek types t yes' no') :=
  .bind (.peek types) fun _ => .ite hyes hno

theorem cond_below (types : List TokType) (f : TokType → Bool) :
    Below .eof (do return f (← peek types) : Rpc Bool) (do return f (← peek types)) :=
  .bind (.peek types) fun _ => .ret _

theorem namespaceDecl_below (h : m ≤ n) : Below .eof (namespaceDecl m) (namespaceDecl n) :=
  .bind (.scan (by decide)) fun _ => .bind scanSymbol_below fun _ =>
    .whileDo h (cond_below _ (· == .colons))
      (fun _ => .bind (.scan (by decide)) fun _ => .bind scanSymbol_below fun _ => .ret _) _

theorem fullSymbol_below (h : m ≤ n) : Below .eof (fullSymbol m) (fullSymbol n) :=
  .bind (ifPeek_below _ _ (.bind (.scan (by decide)) fun _ => .ret _) (.ret _)) fun _ =>
    .bind scanSymbol_below fun _ => .whileDo h (cond_below _ (· == .colons))
      (fun _ => .bind (.scan (by decide)) fun _ => .bind scanSymbol_below fun _ => .ret _) _

theorem scanBuiltin_below {t : TokType} (ht : t ≠ .eof) (name : String) :
    Below .eof (scanBuiltin t name) (scanBuiltin t name) :=
  .bind (.scan ht) fun _ => .ret _

theorem type_below (h : m ≤ n) : Below .eof (type m) (type n) := by
  induction m generalizing n with
  | zero => exact .fail _
  | succ m ih =>
    obtain ⟨n, rfl⟩ : ∃ k, n = k + 1 := ⟨n - 1, by omega⟩
    have hmn : m ≤ n := by omega
    rw [type, type]
    refine .bind (.peek _) fun token => ?_
    refine .ite (scanBuiltin_below (by decide) _) ?_
    refine .ite (scanBuiltin_below (by decide) _) ?_
    refine .ite (scanBuiltin_below (by decide) _) ?_
    refine .ite (scanBuiltin_below (by decide) _) ?_
    refine .ite (scanBuiltin_below (by decide) _) ?_
    refine .ite (scanBuiltin_below (by decide) _) ?_
    refine .ite ?_ ?_
    · refine .bind (fullSymbol_below hmn) fun symbol => ifPeek_below _ _ ?_ (.ret _)
      exact .bind (.scan (by decide)) fun _ => .bind (ih hmn) fun arg =>
        .bind (.whileDo hmn (cond_below _ (· == .comma))
          (fun _ => .bind (.scan (by decide)) fun _ => .bind (ih hmn) fun _ => .ret _) _) fun _ =>
        .bind (.scan (by decide)) fun _ => .ret _
    · exact .bind (.peek _) fun token => .bind (.scan (by split_ifs <;> decide)) fun _ => .fail _

theorem structField_below (h : m ≤ n) : Below .eof (structField m) (structField n) :=
  .bind (type_below h) fun _ => .bind scanSymbol_below fun _ => .ret _

theorem structFields_below (h : m ≤ n) : Below .eof (structFields m) (structFields n) :=
  .whileDo h (cond_below _ (· != .rbrace)) (fun _ => .bind (structField_below h) fun _ => .ret _) _

theorem structDecl_below (h : m ≤ n) : Below .eof (structDecl m) (structDecl n) :=
  .bind (.scan (by decide)) fun _ => .bind scanSymbol_below fun _ =>
    .bind (.scan (by decide)) fun _ => .bind (structFields_below h) fun _ =>
      .bind (.scan (by decide)) fun _ => .ret _

theorem funcAttr_below : Below .eof funcAttr funcAttr :=
  .bind (.peek _) fun _ => .ite (.bind (.scan (by decide)) fun _ => .ret _)
    (.ite (.bind (.scan (by decide)) fun _ => .ret _)
      (.ite (.bind (.scan (by decide)) fun _ => .ret _)
        (.bind (.scan (by decide)) fun _ => .ret _)))

theorem funcAttrs_below (h : m ≤ n) : Below .eof (funcAttrs m) (funcAttrs n) :=
  .whileDo h (cond_below _ (· != .symbol)) (fun _ => .bind funcAttr_below fun _ => .ret _) _

theorem funcArg_below (h : m ≤ n) : Below .eof (funcArg m) (funcArg n) :=
  .bind (type_below h) fun _ =>
    .bind (ifPeek_below _ _
      (.bind scanSymbol_below fun symbol => .bind (forbid_below symbol) fun _ => .ret _) (.ret _))
      fun _ => .ret _

theorem funcArgList_below (h : m ≤ n) : Below .eof (funcArgList m) (funcArgList n) :=
  .bind (.peek _) fun _ => .ite (.ret _) <| .bind (funcArg_below h) fun _ =>
    .whileDo h (cond_below _ (· == .comma))
      (fun _ => .bind (.scan (by decide)) fun _ => .bind (funcArg_below h) fun _ => .ret _) _

theorem serviceFunction_below (h : m ≤ n) :
    Below .eof (serviceFunction m) (serviceFunction n) := by
  refine .bind (funcAttrs_below h) fun attrs => .bind scanSymbol_below fun symbol =>
    .bind (forbid_below symbol) fun name => .bind (.scan (by decide)) fun _ =>
    .bind (funcArgList_below h) fun input =>
    .bind (ifPeek_below _ _ (.bind (.scan (by decide)) fun _ => funcArgList_below h) (.ret _))
      fun output => .bind (.scan (by decide)) fun _ =>
    .bind (ifPeek_below _ _
      (.bind (.scan (by decide)) fun _ => .bind (.scan (by decide)) fun _ => .ret _) (.ret _))
      fun abstract => ?_
  split
  · exact .ret _
  · exact .fail _

theorem serviceFunctions_below (h : m ≤ n) :
    Below .eof (serviceFunctions m) (serviceFunctions n) :=
  .whileDo h (cond_below _ (· != .rbrace)) (fun _ => .bind (serviceFunction_below h) fun _ => .ret _)
    _

theorem serviceDecl_below (h : m ≤ n) : Below .eof (serviceDecl m) (serviceDecl n) :=
  .bind (ifPeek_below _ _ (.bind (.scan (by decide)) fun _ => .ret _) (.ret _)) fun _ =>
    .bind (.scan (by decide)) fun _ => .bind scanSymbol_below fun _ =>
      .bind (.scan (by decide)) fun _ => .bind (serviceFunctions_below h) fun _ =>
        .bind (.scan (by decide)) fun _ => .ret _

theorem structsAndServices_below (h : m ≤ n) :
    Below .eof (structsAndServices m) (structsAndServices n) :=
  .whileDo h (cond_below _ (· != .eof))
    (fun _ => .bind (.peek _) fun _ => .ite (.bind (structDecl_below h) fun _ => .ret _)
      (.bind (serviceDecl_below h) fun _ => .ret _)) _

theorem rpcBody_below (h : m ≤ n) : Below .eof (rpcBody m) (rpcBody n) :=
  .bind (ifPeek_below _ _ (.bind (namespaceDecl_below h) fun _ => .ret _) (.ret _)) fun _ =>
    .bind (structsAndServices_below h) fun _ => .ret _

end

/-! ## What `parse` returns -/

/-- The text is parsed, from the tokens of `log`; `rest` is not read. -/
def Parsed (text : List Char) (source : RpcSource) (log : List (Read TokType (List Char)))
    (rest : List Char) : Prop :=
  ∃ fuel, parse fuel text = some (source, log, rest)

theorem rpcSource_run {fuel : Nat} {text rest : List Char} {source : RpcSource}
    {log : List (Read TokType (List Char))} (h : parse fuel text = some (source, log, rest)) :
    ∃ s, (rpcSource fuel).run token (rpcScanner text) = some (source, log, s) ∧ s.input = rest := by
  obtain ⟨⟨source', log', s⟩, hrun, heq⟩ := Option.map_eq_some_iff.mp h
  cases heq
  exact ⟨s, hrun, rfl⟩

/-- **More fuel** changes nothing. -/
theorem rpcSource_mono {m n : Nat} (hle : m ≤ n) {s s' : Scanner TokType (List Char) (List Char)}
    {source : RpcSource} {log : List (Read TokType (List Char))}
    (h : (rpcSource m).run token s = some (source, log, s')) :
    (rpcSource n).run token s = some (source, log, s') := by
  obtain ⟨a, log₁, s₁, log₂, hbody, hend, rfl⟩ := Parser.run_bind h
  exact Parser.run_bind_of_eq ((rpcBody_below hle).run hbody) hend

theorem parse_mono {m n : Nat} (hle : m ≤ n) {text rest : List Char} {source : RpcSource}
    {log : List (Read TokType (List Char))} (h : parse m text = some (source, log, rest)) :
    parse n text = some (source, log, rest) := by
  obtain ⟨s, hrun, rfl⟩ := rpcSource_run h
  rw [parse, rpcSource_mono hle hrun]
  rfl

/-- A text has one result. -/
theorem Parsed.unique {text rest rest' : List Char} {source source' : RpcSource}
    {log log' : List (Read TokType (List Char))} (h : Parsed text source log rest)
    (h' : Parsed text source' log' rest') : source = source' ∧ log = log' ∧ rest = rest' := by
  obtain ⟨m, hm⟩ := h
  obtain ⟨n, hn⟩ := h'
  have hm' := parse_mono (Nat.le_max_left m n) hm
  rw [parse_mono (Nat.le_max_right m n) hn] at hm'
  simpa [eq_comm] using hm'

/-- The tokens stand in the text one behind the other, and the last one and only the last one is
    `EOF`. -/
theorem Parsed.tokens {text rest : List Char} {source : RpcSource}
    {log : List (Read TokType (List Char))} (h : Parsed text source log rest) :
    Reads token text log rest ∧ ∃ front r, log = front ++ [r] ∧
      (∀ r ∈ front, r.token.type ≠ .eof) ∧ r.token.type = .eof := by
  obtain ⟨fuel, hparse⟩ := h
  obtain ⟨s, hrun, rfl⟩ := rpcSource_run hparse
  refine ⟨Parser.run_reads hrun, ?_⟩
  exact (rpcBody_below (Nat.le_refl fuel)).run_scan_last (f := id) (by simp [Waiting, rpcScanner]) hrun

end SimpleRpc.Gen
