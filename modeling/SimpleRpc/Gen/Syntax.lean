import SimpleRpc.Gen.Lexemes
import SimpleRpc.Py.TypeString

/-!
# Syntax Trees of the Sources of Services (`rpcgen.g`)

One tree for each rule of the grammar that returns something of its own. A tree holds what the
scanner and the checks of the grammar demand of its names, so that every tree can be written down
and read again.

## Layers

- **Names and types**: `FullSymbol`, `TypeSyntax`
- **Declarations**: `StructSyntax`, `FunctionSyntax`, `ServiceSyntax`, `SourceSyntax`
- For each of them `lexemes`, how it is written, and `meaning`, what the actions of the rule return

## Main results

- `TypeSyntax.meaning_toList`: the meaning of a type is the type string that the Python library
  takes apart
-/

namespace SimpleRpc.Gen

open SimpleRpc.Lib

/-! ## Lexemes -/

/-- The lexeme of a fixed text. -/
def fixed (t : TokType) : Lexeme := ⟨t, (patterns.lookup t).elim [] Pattern.text⟩

/-- The lexeme of a symbol. -/
def sym (name : SymbolText) : Lexeme := ⟨.symbol, name.1.toList⟩

/-- The fixed texts among `types` that look like symbols. -/
def words (types : List TokType) : List String :=
  (types.map fun t => String.ofList (fixed t).text).filter isSymbol

theorem lookup_patterns : ∀ x ∈ patterns, patterns.lookup x.1 = some x.2 := by decide

instance (l : Lexeme) : Decidable l.Formed :=
  inferInstanceAs (Decidable (l.type ∉ ignore ∧
    ((l.type, .literal l.text) ∈ patterns ∨
      l.type = .eof ∧ (l.text = [] ∨ l.text = ['%', '%']) ∨
      l.type = .symbol ∧ isSymbol (String.ofList l.text) = true)))

theorem reads_fixed {types : List TokType} {t : TokType} (hmem : t ∈ types)
    (hformed : (fixed t).Formed) (hne : t ≠ .symbol) : ReadAs types (fixed t) :=
  ⟨hmem, hformed, fun heq => absurd heq hne⟩

theorem sym_formed (name : SymbolText) : (sym name).Formed :=
  ⟨show TokType.symbol ∉ ignore by decide,
    .inr (.inr ⟨rfl, by rw [sym, String.ofList_toList]; exact name.2⟩)⟩

/-- A symbol is read as one where no word of this form is asked for. -/
theorem reads_sym {types : List TokType} {name : SymbolText} (hmem : .symbol ∈ types)
    (hfree : name.1 ∉ words types) : ReadAs types (sym name) := by
  refine ⟨hmem, sym_formed name, fun _ t ht hlit => hfree ?_⟩
  have htext : String.ofList (fixed t).text = name.1 := by
    rw [fixed, lookup_patterns _ hlit]
    exact String.ofList_toList
  rw [words, List.mem_filter, List.mem_map]
  exact ⟨⟨t, ht, htext⟩, name.2⟩

theorem reads_sym_of_nil {types : List TokType} (name : SymbolText) (hmem : .symbol ∈ types)
    (hwords : words types = []) : ReadAs types (sym name) :=
  reads_sym hmem (by rw [hwords]; exact List.not_mem_nil)

/-! ## Names -/

/-- `full_symbol` -/
structure FullSymbol where
  /-- whether it starts with `::` -/
  rooted : Bool
  first : SymbolText
  more : List SymbolText

namespace FullSymbol

def lexemes (name : FullSymbol) : List Lexeme :=
  (if name.rooted then [fixed .colons] else []) ++
    sym name.first :: name.more.flatMap fun symbol => [fixed .colons, sym symbol]

def meaning (name : FullSymbol) : String :=
  name.more.foldl (fun s symbol => s ++ "::" ++ symbol.1)
    ((if name.rooted then "::" else "") ++ name.first.1)

end FullSymbol

/-! ## Types -/

/-- The token of a builtin type. -/
def builtinTok : Py.Builtin → TokType
  | .i8 => .i8
  | .i16 => .i16
  | .i32 => .i32
  | .i64 => .i64
  | .v32 => .v32
  | .v64 => .v64

/-- The words that start an alternative of the rule `type` of their own. -/
def typeWords : List String :=
  ["i8", "i16", "i32", "i64", "v32", "v64", "bool", "int", "unsigned", "long"]

mutual

/-- `type` -/
inductive TypeSyntax where
  | builtin (b : Py.Builtin)
  | symbol (name : FullSymbol) (free : name.rooted = true ∨ name.first.1 ∉ typeWords)
      (args : TypeArgs)

/-- What stands between `<` and `>`; there are none if the brackets are missing. -/
inductive TypeArgs where
  | nil
  | cons (type : TypeSyntax) (rest : TypeArgs)

end

def TypeArgs.toList : TypeArgs → List TypeSyntax
  | .nil => []
  | .cons type rest => type :: rest.toList

mutual

def TypeSyntax.lexemes : TypeSyntax → List Lexeme
  | .builtin b => [fixed (builtinTok b)]
  | .symbol name _ args => name.lexemes ++ args.lexemes

def TypeArgs.lexemes : TypeArgs → List Lexeme
  | .nil => []
  | .cons type rest => fixed .lt :: (type.lexemes ++ (rest.lexemesMore ++ [fixed .gt]))

def TypeArgs.lexemesMore : TypeArgs → List Lexeme
  | .nil => []
  | .cons type rest => fixed .comma :: (type.lexemes ++ rest.lexemesMore)

end

mutual

def TypeSyntax.meaning : TypeSyntax → String
  | .builtin b => String.ofList b.print
  | .symbol name _ args => args.meaning (stdRename name.meaning)

/-- The type `t` with the arguments. -/
def TypeArgs.meaning : TypeArgs → String → String
  | .nil, t => t
  | .cons type rest, t => rest.meaningMore (t ++ "<" ++ type.meaning) ++ ">"

def TypeArgs.meaningMore : TypeArgs → String → String
  | .nil, t => t
  | .cons type rest, t => rest.meaningMore (t ++ ", " ++ type.meaning)

end

/-- The arguments are a list of types. -/
theorem TypeArgs.list_induction {P : TypeArgs → Prop} (nil : P .nil)
    (cons : ∀ type rest, P rest → P (.cons type rest)) : ∀ args, P args
  | .nil => nil
  | .cons type rest => cons type rest (list_induction nil cons rest)

theorem TypeArgs.lexemesMore_eq (args : TypeArgs) :
    args.lexemesMore = args.toList.flatMap fun type => fixed .comma :: type.lexemes := by
  induction args using TypeArgs.list_induction with
  | nil => rfl
  | cons type rest ih => rw [lexemesMore, ih, toList, List.flatMap_cons, List.cons_append]

theorem TypeArgs.meaningMore_eq (args : TypeArgs) (t : String) :
    args.meaningMore t = args.toList.foldl (fun t type => t ++ ", " ++ type.meaning) t := by
  induction args using TypeArgs.list_induction generalizing t with
  | nil => rfl
  | cons type rest ih => rw [meaningMore, ih, toList, List.foldl_cons]

/-! ### The type strings of the Python library -/

mutual

/-- The parse tree that the Python library has of the type. -/
def TypeSyntax.tree : TypeSyntax → Py.TypeTree
  | .builtin b => .builtin b
  | .symbol name _ args => .symbol name.meaning.toList args.trees

def TypeArgs.trees : TypeArgs → Py.TypeTrees
  | .nil => .nil
  | .cons type rest => .cons type.tree rest.trees

end

theorem stdRename_toList (t : String) : (stdRename t).toList = Py.stdRename t.toList := by
  have hmem : t.toList ∈ Py.stdNames ↔
      t ∈ ["pair", "string", "map", "list", "set", "vector", "unordered_map", "unordered_set"] := by
    simp only [Py.stdNames, List.mem_cons, List.not_mem_nil, or_false, String.toList_inj]
  rw [stdRename, Py.stdRename]
  by_cases h : t ∈ ["pair", "string", "map", "list", "set", "vector", "unordered_map",
    "unordered_set"]
  · rw [if_pos h, if_pos (hmem.mpr h), String.toList_append]
  · rw [if_neg h, if_neg (mt hmem.mp h)]

mutual

/-- **Type strings**: what the rule `type` returns is what is printed for the parse tree. -/
theorem TypeSyntax.meaning_toList : ∀ type : TypeSyntax, type.meaning.toList = type.tree.print
  | .builtin b => by rw [TypeSyntax.meaning, TypeSyntax.tree, Py.TypeTree.print, String.toList_ofList]
  | .symbol name _ args => by
    rw [TypeSyntax.meaning, TypeSyntax.tree, Py.TypeTree.print, args.meaning_toList, stdRename_toList]

theorem TypeArgs.meaning_toList : ∀ (args : TypeArgs) (t : String),
    (args.meaning t).toList = t.toList ++ args.trees.print
  | .nil, t => by rw [TypeArgs.meaning, TypeArgs.trees, Py.TypeTrees.print, List.append_nil]
  | .cons type rest, t => by
    rw [TypeArgs.meaning, TypeArgs.trees, Py.TypeTrees.print, String.toList_append, rest.meaningMore_toList,
      String.toList_append, String.toList_append, type.meaning_toList]
    simp

theorem TypeArgs.meaningMore_toList : ∀ (args : TypeArgs) (t : String),
    (args.meaningMore t).toList = t.toList ++ args.trees.printMore
  | .nil, t => by rw [TypeArgs.meaningMore, TypeArgs.trees, Py.TypeTrees.printMore, List.append_nil]
  | .cons type rest, t => by
    rw [TypeArgs.meaningMore, TypeArgs.trees, Py.TypeTrees.printMore, rest.meaningMore_toList, String.toList_append,
      String.toList_append, type.meaning_toList]
    simp

end

/-! ## Structures -/

/-- `struct_field` -/
structure FieldSyntax where
  type : TypeSyntax
  name : SymbolText

def FieldSyntax.lexemes (field : FieldSyntax) : List Lexeme := field.type.lexemes ++ [sym field.name]

def FieldSyntax.meaning (field : FieldSyntax) : StructField := ⟨field.name, field.type.meaning⟩

/-- `struct_decl` -/
structure StructSyntax where
  name : SymbolText
  fields : List FieldSyntax

def StructSyntax.lexemes (decl : StructSyntax) : List Lexeme :=
  fixed .struct :: sym decl.name :: fixed .lbrace ::
    (decl.fields.flatMap FieldSyntax.lexemes ++ [fixed .rbrace])

def StructSyntax.meaning (decl : StructSyntax) : StructDecl :=
  ⟨decl.name, decl.fields.map FieldSyntax.meaning⟩

/-! ## Services -/

/-- `func_arg` -/
structure ArgSyntax where
  type : TypeSyntax
  name : Option Symbol

/-- The text of a name that is not reserved. -/
def Symbol.toText (name : Symbol) : SymbolText := ⟨name.val, name.symbol⟩

def ArgSyntax.lexemes (arg : ArgSyntax) : List Lexeme :=
  arg.type.lexemes ++ arg.name.toList.map fun name => sym name.toText

def ArgSyntax.meaning (arg : ArgSyntax) : FuncArg := ⟨arg.type.meaning, arg.name⟩

/-- `func_arg_list` -/
def argsLexemes : List ArgSyntax → List Lexeme
  | [] => []
  | arg :: args => arg.lexemes ++ args.flatMap fun arg => fixed .comma :: arg.lexemes

def attrTok : Attr → TokType
  | .fast => .fast
  | .raw => .raw
  | .defer => .defer
  | .udp => .udp

/-- The words of the rule `func_attr`. -/
def attrWords : List String := ["fast", "raw", "defer", "udp"]

/-- `attrs.add(func_attr,)` for each attribute. -/
def attrSet (attrs : List Attr) : List Attr :=
  attrs.foldl (fun attrs attr => if attr ∈ attrs then attrs else attrs ++ [attr]) []

/-- `service_function`, as it passes the checks of the grammar -/
structure FunctionSyntax where
  attrs : List Attr
  name : Symbol
  /-- else the name would be taken for an attribute -/
  free : name.val ∉ attrWords
  input : List ArgSyntax
  /-- what stands behind the bar, if there is one -/
  output : Option (List ArgSyntax)
  abstract : Bool
  checked : checkRpcFunc (attrSet attrs) ((output.getD []).map ArgSyntax.meaning) = .ok ()

namespace FunctionSyntax

def lexemes (func : FunctionSyntax) : List Lexeme :=
  func.attrs.map (fun attr => fixed (attrTok attr)) ++
    (sym func.name.toText :: fixed .lparen :: (argsLexemes func.input ++
      (func.output.elim [] (fun output => fixed .bar :: argsLexemes output) ++
        (fixed .rparen :: if func.abstract then [fixed .equals, fixed .zero] else []))))

def meaning (func : FunctionSyntax) : ParsedFunction where
  name := func.name
  attrs := attrSet func.attrs
  input := func.input.map ArgSyntax.meaning
  output := (func.output.getD []).map ArgSyntax.meaning
  checked := func.checked
  abstract := func.abstract

end FunctionSyntax

/-- `service_decl` -/
structure ServiceSyntax where
  abstract : Bool
  name : SymbolText
  functions : List FunctionSyntax

namespace ServiceSyntax

def lexemes (service : ServiceSyntax) : List Lexeme :=
  (if service.abstract then [fixed .abstract] else []) ++
    (fixed .service :: sym service.name :: fixed .lbrace ::
      (service.functions.flatMap FunctionSyntax.lexemes ++ [fixed .rbrace]))

def meaning (service : ServiceSyntax) : ParsedService :=
  ⟨service.name, service.abstract, service.functions.map FunctionSyntax.meaning⟩

end ServiceSyntax

/-! ## Sources -/

/-- One round of the loop of `structs_and_services`. -/
inductive DeclSyntax where
  | struct (decl : StructSyntax)
  | service (decl : ServiceSyntax)

def DeclSyntax.lexemes : DeclSyntax → List Lexeme
  | .struct decl => decl.lexemes
  | .service decl => decl.lexemes

def DeclSyntax.add (found : StructsAndServices) : DeclSyntax → StructsAndServices
  | .struct decl => { found with structs := found.structs ++ [decl.meaning] }
  | .service decl => { found with services := found.services ++ [decl.meaning] }

/-- `rpc_source` in front of `EOF` -/
structure SourceSyntax where
  /-- the names behind `namespace` -/
  namespace_ : Option (SymbolText × List SymbolText)
  decls : List DeclSyntax

namespace SourceSyntax

def lexemes (source : SourceSyntax) : List Lexeme :=
  source.namespace_.elim [] (fun (first, more) => fixed .namespace_ :: sym first ::
      more.flatMap fun symbol => [fixed .colons, sym symbol]) ++
    source.decls.flatMap DeclSyntax.lexemes

def meaning (source : SourceSyntax) : RpcSource :=
  ⟨source.decls.foldl DeclSyntax.add ⟨[], []⟩,
    source.namespace_.map fun (first, more) => first :: more⟩

end SourceSyntax

end SimpleRpc.Gen
