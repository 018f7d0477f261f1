import SimpleRpc.Gen.Syntax

/-!
# Sources That Are Written Are Read (`rpcgen.g`, `rpcgen.py`)

A syntax tree is written as its lexemes, with any layout between them. Each rule of the parser, in
front of the lexemes of its tree, returns the meaning of the tree and stops behind them. The rules
look one token ahead, so that each says what may follow.

## Main results

- `runs_type`, `runs_serviceFunction`: the rules with loops and options
- `returns_of_spells`: a text that spells a source is parsed to the meaning of the source
-/

namespace SimpleRpc.Gen

open SimpleRpc.Lib
open SimpleRpc.Lib.Parser (peek scan whileDo)

/-! ## What follows -/

/-- The next lexeme, read among `types`, is one of `allowed`. -/
def Follow (types allowed : List TokType) (ls : List Lexeme) : Prop :=
  ∃ l rest, ls = l :: rest ∧ ReadAs types l ∧ l.type ∈ allowed

theorem follow_fixed {types allowed : List TokType} {t : TokType} (ls : List Lexeme)
    (hmem : t ∈ types) (hformed : (fixed t).Formed) (hne : t ≠ .symbol) (hallowed : t ∈ allowed) :
    Follow types allowed (fixed t :: ls) :=
  ⟨_, ls, rfl, reads_fixed hmem hformed hne, hallowed⟩

theorem follow_sym {types allowed : List TokType} {name : SymbolText} (ls : List Lexeme)
    (hmem : .symbol ∈ types) (hfree : name.1 ∉ words types) (hallowed : .symbol ∈ allowed) :
    Follow types allowed (sym name :: ls) :=
  ⟨_, ls, rfl, reads_sym hmem hfree, hallowed⟩

/-- From `n` on the fuel is enough for the rule to read these lexemes and return `a`, in front of
    whatever satisfies `follow`. -/
def Written {α : Type} (n : Nat) (rule : Nat → Rpc α) (types : List TokType)
    (lexemes : List Lexeme) (a : α) (types' : List TokType) (follow : List Lexeme → Prop) : Prop :=
  ∀ fuel ≥ n, ∀ ls, follow ls → Runs (rule fuel) types (lexemes ++ ls) a types' ls

theorem Written.mono {α : Type} {m n : Nat} {rule : Nat → Rpc α} {types types' : List TokType}
    {lexemes : List Lexeme} {a : α} {follow : List Lexeme → Prop}
    (h : Written m rule types lexemes a types' follow) (hle : m ≤ n) :
    Written n rule types lexemes a types' follow :=
  fun fuel hfuel => h fuel (Nat.le_trans hle hfuel)

/-- Some fuel is enough for all items of a list. -/
theorem exists_enough {ι : Type} {P : Nat → ι → Prop} (hmono : ∀ x, Monotone fun n => P n x)
    (items : List ι) (h : ∀ x ∈ items, ∃ n, P n x) : ∃ n, ∀ x ∈ items, P n x := by
  induction items with
  | nil => exact ⟨0, nofun⟩
  | cons x items ih =>
    obtain ⟨m, hx⟩ := h x (List.mem_cons_self ..)
    obtain ⟨n, hitems⟩ := ih fun y hy => h y (List.mem_cons_of_mem x hy)
    refine ⟨max m n, fun y hy => ?_⟩
    obtain rfl | hy := List.mem_cons.mp hy
    · exact hmono y (Nat.le_max_left m n) hx
    · exact hmono y (Nat.le_max_right m n) (hitems y hy)

theorem Written.exists_forall {α ι : Type} {rule : Nat → Rpc α} {types types' : List TokType}
    {lex : ι → List Lexeme} {mean : ι → α} {follow : List Lexeme → Prop} (items : List ι)
    (h : ∀ x ∈ items, ∃ n, Written n rule types (lex x) (mean x) types' follow) :
    ∃ n, ∀ x ∈ items, Written n rule types (lex x) (mean x) types' follow :=
  exists_enough (fun _ _ _ hle hx => hx.mono hle) items h

/-- A loop that puts something behind a list in each round. -/
theorem foldl_snoc {ι β : Type} (f : ι → β) (items : List ι) (acc : List β) :
    items.foldl (fun acc x => acc ++ [f x]) acc = acc ++ items.map f := by
  rw [List.foldl_append_eq_append, ← List.flatMap_def, ← List.map_eq_flatMap]

theorem foldl_snoc_nil {ι β : Type} (f : ι → β) (items : List ι) :
    items.foldl (fun acc x => acc ++ [f x]) [] = items.map f := by
  rw [foldl_snoc, List.nil_append]

/-! ## Names -/

section

variable {α : Type} {types : List TokType} {ls : List Lexeme}

theorem runs_fixed (next : List TokType) {t : TokType} (hformed : (fixed t).Formed)
    (hmem : t ∈ types) : Runs (scan t) types (fixed t :: ls) (fixed t).text next ls :=
  runs_scan next (l := fixed t) hformed hmem

theorem runs_scanSymbol (next : List TokType) (name : SymbolText) (hmem : .symbol ∈ types) :
    Runs scanSymbol types (sym name :: ls) name next ls := by
  refine (runs_scan next (sym_formed name) hmem).bind ?_
  have htext : String.ofList (sym name).text = name.1 := String.ofList_toList
  have hsymbol : isSymbol (String.ofList (sym name).text) = true := htext ▸ name.2
  rw [dif_pos hsymbol]
  have hname : (⟨String.ofList (sym name).text, hsymbol⟩ : SymbolText) = name := Subtype.ext htext
  rw [hname]
  exact runs_pure name fun _ h => h

theorem runs_forbid (name : Symbol) : Runs (forbid name.toText) types ls name types ls := by
  rw [forbid]
  split
  · exact runs_pure _ fun _ h => h
  · rename_i heq
    rw [Symbol.toText, name.allowed] at heq
    cases heq

/-- `::` and a symbol, as a round of a loop. -/
theorem runs_colonsSymbol (symbol : SymbolText) (a : SymbolText → α) (hmem : .colons ∈ types) :
    Runs (do
      let _ ← scan .colons
      let symbol ← scanSymbol
      return a symbol) types ([fixed .colons, sym symbol] ++ ls) (a symbol) types ls :=
  (runs_fixed [.symbol] (by decide) hmem).bind <|
    (runs_scanSymbol types symbol (List.mem_singleton_self _)).bind <|
    runs_pure _ fun _ h => h

/-- The loop over `::` and a symbol. -/
theorem runs_colonsLoop {β : Type} (symbols : List SymbolText) (step : β → SymbolText → β)
    {allowed : List TokType} (hcolons : .colons ∈ types) (hnext : Follow types allowed ls)
    (hnot : .colons ∉ allowed) {fuel : Nat} (hfuel : symbols.length < fuel) (b : β) :
    Runs (whileDo (do return (← peek types) == .colons)
      (fun b => do
        let _ ← scan .colons
        let symbol ← scanSymbol
        return step b symbol) fuel b) types
      (symbols.flatMap (fun symbol => [fixed .colons, sym symbol]) ++ ls)
      (symbols.foldl step b) types ls := by
  obtain ⟨l, rest, rfl, hread, hallowed⟩ := hnext
  have hne : l.type ≠ .colons := by
    intro heq
    rw [heq] at hallowed
    exact hnot hallowed
  refine runs_whileDo (· == .colons) (fun symbol => [fixed .colons, sym symbol]) step
    (fun _ => True) symbols
    (fun symbol _ b ls _ => runs_colonsSymbol symbol (step b) hcolons)
    (fun symbol _ => ⟨_, _, rfl, reads_fixed hcolons (by decide) (by decide), rfl⟩)
    (fun _ _ _ => trivial) trivial hread ?_ hfuel b
  simpa using hne

theorem runs_namespaceDecl (first : SymbolText) (more : List SymbolText)
    (hmem : .namespace_ ∈ types)
    (hnext : Follow [.colons, .eof, .struct, .abstract, .service]
      [.eof, .struct, .abstract, .service] ls) {fuel : Nat} (hfuel : more.length < fuel) :
    Runs (namespaceDecl fuel) types
      (fixed .namespace_ :: sym first ::
        (more.flatMap (fun symbol => [fixed .colons, sym symbol]) ++ ls))
      (first :: more) [.colons, .eof, .struct, .abstract, .service] ls := by
  have hloop := runs_colonsLoop more (fun namespace_ symbol => namespace_ ++ [symbol])
    (by decide) hnext (by decide) hfuel [first]
  rw [foldl_snoc (fun symbol => symbol), List.map_id', List.singleton_append] at hloop
  exact (runs_fixed [.symbol] (by decide) hmem).bind <|
    (runs_scanSymbol _ first (List.mem_singleton_self _)).bind hloop

/-! ## Types -/

/-- What `full_symbol` asks for behind a name. -/
def symbolNext : List TokType := [.colons, .lt, .symbol, .comma, .gt, .bar, .rparen]

/-- What may stand behind a type. -/
def typeNext : List TokType := [.symbol, .comma, .gt, .bar, .rparen]

theorem runs_fullSymbol (name : FullSymbol)
    (hnext : Follow symbolNext [.lt, .symbol, .comma, .gt, .bar, .rparen] ls) {fuel : Nat}
    (hfuel : name.more.length < fuel) :
    Runs (fullSymbol fuel) [.colons, .symbol] (name.lexemes ++ ls) name.meaning symbolNext ls := by
  -- behind the first symbol, the loop; in front of it, nothing or `::`
  have hfirst : ∀ s : String, Runs (do
      let symbol ← scanSymbol
      whileDo (do return (← peek symbolNext) == .colons)
        (fun s => do
          let _ ← scan .colons
          let symbol ← scanSymbol
          return s ++ "::" ++ symbol.1)
        fuel (s ++ symbol.1)) [.colons, .symbol]
      (sym name.first :: ((name.more.flatMap fun symbol => [fixed .colons, sym symbol]) ++ ls))
      (name.more.foldl (fun s symbol => s ++ "::" ++ symbol.1) (s ++ name.first.1)) symbolNext
      ls := fun s =>
    (runs_scanSymbol _ name.first (by decide)).bind <|
      runs_colonsLoop name.more (fun s symbol => s ++ "::" ++ symbol.1) (by decide) hnext
        (by decide) hfuel (s ++ name.first.1)
  rw [FullSymbol.lexemes, FullSymbol.meaning]
  cases name.rooted with
  | true =>
    -- `::` is there and is read
    refine (runs_ifPeek (l := fixed .colons) (reads_fixed (by decide) (by decide) (by decide))
      (fun _ => ?_) (fun hne => absurd rfl hne)).bind (hfirst "::")
    exact (runs_fixed [.colons, .symbol] (by decide) (by decide)).bind
      (runs_pure _ fun _ h => h)
  | false =>
    -- a symbol comes first, so the option is not taken
    have hread : ReadAs [.colons, .symbol] (sym name.first) :=
      reads_sym_of_nil name.first (by decide) (by decide)
    have hne : (sym name.first).type ≠ .colons := show TokType.symbol ≠ .colons by decide
    exact (runs_ifPeek hread (fun heq => absurd heq hne)
      (fun _ => runs_pure "" fun _ h => h)).bind (hfirst "")

end

/-- What the rule `type` asks for first. -/
def typeFirst : List TokType :=
  [.i8, .i16, .i32, .i64, .v32, .v64, .bool, .int, .unsigned, .long, .colons, .symbol]

/-- From `n` on the fuel is enough for the rule `type` to read this type. -/
def TypeRuns (n : Nat) (t : TypeSyntax) : Prop :=
  Written n type typeFirst t.lexemes t.meaning typeNext (Follow symbolNext typeNext)

theorem typeRuns_builtin (b : Py.Builtin) : TypeRuns 1 (.builtin b) := by
  intro fuel hfuel ls hnext
  obtain ⟨fuel, rfl⟩ : ∃ k, fuel = k + 1 := ⟨fuel - 1, by omega⟩
  rw [type]
  cases b
  all_goals
    refine (runs_peek (reads_fixed (by decide) (by decide) (by decide))).bind ?_
    exact (runs_fixed typeNext (by decide) (by decide)).bind
      (runs_pure _ fun _ h => h)

/-- The loop over the arguments behind the first one, up to the closing bracket. -/
theorem runs_typeArgs {n : Nat} {rest : TypeArgs} (hargs : ∀ t ∈ rest.toList, TypeRuns n t)
    {fuel : Nat} (hn : n ≤ fuel) (hlen : rest.toList.length < fuel) (t : String)
    (ls : List Lexeme) :
    Runs (whileDo (do return (← peek [.gt, .comma]) == .comma)
      (fun t => do
        let _ ← scan .comma
        let arg ← type fuel
        return t ++ ", " ++ arg) fuel t) typeNext
      (rest.lexemesMore ++ fixed .gt :: ls) (rest.meaningMore t) [.gt, .comma]
      (fixed .gt :: ls) := by
  rw [rest.lexemesMore_eq, rest.meaningMore_eq]
  have hcomma : (fixed .comma).Formed := by decide
  refine Runs.weaken _ (runs_whileDo (· == .comma) (fun arg => fixed .comma :: arg.lexemes)
    (fun t arg => t ++ ", " ++ arg.meaning) (Follow symbolNext typeNext) rest.toList ?_ ?_ ?_ ?_ ?_
    (by decide) hlen t) (by decide)
  · -- a comma and the next argument
    intro x hx t ls hfollow
    exact (runs_fixed typeFirst hcomma (by decide)).bind <|
      (hargs x hx fuel hn ls hfollow).bind (runs_pure _ (by decide))
  · -- each round begins with a comma
    exact fun x _ => ⟨_, _, rfl, reads_fixed (by decide) hcomma (by decide), rfl⟩
  · -- what follows a type may be a comma
    exact fun x _ ls => follow_fixed _ (by decide) hcomma (by decide) (by decide)
  · -- or the closing bracket
    exact follow_fixed _ (by decide) (by decide) (by decide) (by decide)
  · -- which ends the loop
    exact reads_fixed (by decide) (by decide) (by decide)

theorem follow_lexemesMore (rest : TypeArgs) (ls : List Lexeme) :
    Follow symbolNext typeNext (rest.lexemesMore ++ fixed .gt :: ls) := by
  cases rest with
  | nil => exact follow_fixed _ (by decide) (by decide) (by decide) (by decide)
  | cons t rest => exact follow_fixed _ (by decide) (by decide) (by decide) (by decide)

theorem follow_fullSymbol (types : List TokType) {name : FullSymbol}
    (free : name.rooted = true ∨ name.first.1 ∉ typeWords) (hcolons : .colons ∈ types)
    (hsymbol : .symbol ∈ types) (hwords : words types = typeWords) (ls : List Lexeme) :
    Follow types [.colons, .symbol] (name.lexemes ++ ls) := by
  rw [FullSymbol.lexemes]
  cases hrooted : name.rooted with
  | true => exact follow_fixed _ hcolons (by decide) (by decide) (by decide)
  | false =>
    have hfree : name.first.1 ∉ typeWords := free.resolve_left (by rw [hrooted]; nofun)
    exact follow_sym _ hsymbol (hwords ▸ hfree) (by decide)

/-- What the rule `type` does behind `full_symbol`. -/
def typeBehind (fuel : Nat) (symbol : String) : Rpc String :=
  ifPeek [.lt, .symbol, .comma, .gt, .bar, .rparen] .lt
    (do
      let _ ← scan .lt
      let arg ← type fuel
      let t ← whileDo (do return (← peek [.gt, .comma]) == .comma)
        (fun t => do
          let _ ← scan .comma
          let arg ← type fuel
          return t ++ ", " ++ arg)
        fuel (stdRename symbol ++ "<" ++ arg)
      let _ ← scan .gt
      return t ++ ">")
    (return stdRename symbol)

theorem runs_typeBehind {n : Nat} {args : TypeArgs} (hargs : ∀ t ∈ args.toList, TypeRuns n t)
    {fuel : Nat} (hn : n ≤ fuel) (hlen : args.toList.length < fuel) (symbol : String)
    {ls : List Lexeme} (hnext : Follow symbolNext typeNext ls) :
    Runs (typeBehind fuel symbol) symbolNext (args.lexemes ++ ls) (args.meaning (stdRename symbol))
      typeNext ls := by
  refine Runs.weaken [.lt, .symbol, .comma, .gt, .bar, .rparen] ?_ (by decide)
  cases args with
  | nil =>
    -- what follows is no `<`
    obtain ⟨l, rest, rfl, hread, hmem⟩ := hnext
    refine runs_ifPeek (hread.mono (by decide) (List.mem_cons_of_mem _ hmem)) (fun heq => ?_)
      fun _ => runs_pure _ (by decide)
    rw [heq] at hmem
    exact absurd hmem (by decide)
  | cons t rest =>
    -- `<`, the first argument, the loop, `>`
    rw [TypeArgs.lexemes, TypeArgs.meaning, List.cons_append, List.append_assoc,
      List.append_assoc, List.singleton_append]
    refine runs_ifPeek (reads_fixed (by decide) (by decide) (by decide)) (fun _ => ?_)
      fun hne => absurd rfl hne
    rw [TypeArgs.toList, List.length_cons] at hlen
    refine (runs_fixed typeFirst (by decide) (by decide)).bind ?_
    refine (hargs t (List.mem_cons_self ..) fuel hn _ (follow_lexemesMore rest ls)).bind ?_
    refine (runs_typeArgs (fun u hu => hargs u (List.mem_cons_of_mem t hu)) hn (by omega) _ ls).bind
      ?_
    exact (runs_fixed typeNext (by decide) (by decide)).bind
      (runs_pure _ fun _ h => h)

theorem typeRuns_symbol {n : Nat} (name : FullSymbol)
    (free : name.rooted = true ∨ name.first.1 ∉ typeWords) (args : TypeArgs)
    (hargs : ∀ t ∈ args.toList, TypeRuns n t) :
    TypeRuns (n + args.toList.length + name.more.length + 2) (.symbol name free args) := by
  intro fuel hfuel ls hnext
  obtain ⟨fuel, rfl⟩ : ∃ k, fuel = k + 1 := ⟨fuel - 1, by omega⟩
  rw [TypeSyntax.lexemes, TypeSyntax.meaning, List.append_assoc]
  -- behind the name, the brackets or what follows the type
  have hbehind : Follow symbolNext [.lt, .symbol, .comma, .gt, .bar, .rparen]
      (args.lexemes ++ ls) := by
    cases args with
    | nil =>
      obtain ⟨l, rest, rfl, hread, hmem⟩ := hnext
      exact ⟨l, rest, rfl, hread, List.mem_cons_of_mem _ hmem⟩
    | cons t rest => exact follow_fixed _ (by decide) (by decide) (by decide) (by decide)
  have hname := runs_fullSymbol name hbehind (show name.more.length < fuel by omega)
  have hbrackets := runs_typeBehind hargs (show n ≤ fuel by omega) (by omega) name.meaning hnext
  -- the first token tells that a name comes
  obtain ⟨l, rest, hfirst, hread, hmem⟩ := follow_fullSymbol typeFirst free (by decide)
    (by decide) (by decide) (args.lexemes ++ ls)
  have hall := (hname.weaken _ (show [.colons, .symbol] ⊆ typeFirst by decide)).bind hbrackets
  rw [type]
  rw [hfirst] at hall ⊢
  refine (runs_peek hread).bind ?_
  simp only [List.mem_cons, List.not_mem_nil, or_false] at hmem
  obtain hl | hl := hmem
  · rw [hl]
    exact hall
  · rw [hl]
    exact hall

mutual

/-- **Types** are read with enough fuel. -/
theorem runs_type : ∀ t : TypeSyntax, ∃ n, TypeRuns n t
  | .builtin b => ⟨1, typeRuns_builtin b⟩
  | .symbol name free args => by
    obtain ⟨n, hargs⟩ := Written.exists_forall args.toList (runs_types args)
    exact ⟨_, typeRuns_symbol name free args hargs⟩

theorem runs_types : ∀ args : TypeArgs, ∀ t ∈ args.toList, ∃ n, TypeRuns n t
  | .nil => nofun
  | .cons t rest => fun u hu => by
    obtain heq | hu := List.mem_cons.mp hu
    · exact heq ▸ runs_type t
    · exact runs_types rest u hu

end

/-- A type starts with a token that only a type starts with. -/
theorem follow_type (types : List TokType) (t : TypeSyntax) (hsub : typeFirst ⊆ types)
    (hwords : words types = typeWords) (ls : List Lexeme) :
    Follow types typeFirst (t.lexemes ++ ls) := by
  cases t with
  | builtin b =>
    cases b
    all_goals exact follow_fixed _ (hsub (by decide)) (by decide) (by decide) (by decide)
  | symbol name free args =>
    obtain ⟨l, rest, heq, hread, hmem⟩ := follow_fullSymbol types free (hsub (by decide))
      (hsub (by decide)) hwords (args.lexemes ++ ls)
    rw [TypeSyntax.lexemes, List.append_assoc]
    exact ⟨l, rest, heq, hread, (show [TokType.colons, .symbol] ⊆ typeFirst by decide) hmem⟩

/-! ## Structures -/

/-- What the loop of `struct_fields` asks for. -/
def fieldTypes : List TokType :=
  [.rbrace, .i8, .i16, .i32, .i64, .v32, .v64, .bool, .int, .unsigned, .long, .colons, .symbol]

/-- What the loop of `structs_and_services` asks for. -/
def declTypes : List TokType := [.struct, .abstract, .service, .eof]

theorem runs_structField (field : FieldSyntax) :
    ∃ n, Written n structField fieldTypes field.lexemes field.meaning fieldTypes
      fun _ => True := by
  obtain ⟨n, htype⟩ := runs_type field.type
  refine ⟨n, fun fuel hfuel ls _ => ?_⟩
  have hname : Follow symbolNext typeNext (sym field.name :: ls) :=
    ⟨_, ls, rfl, reads_sym_of_nil field.name (by decide) (by decide),
      show TokType.symbol ∈ typeNext by decide⟩
  rw [FieldSyntax.lexemes, List.append_assoc, List.singleton_append]
  exact ((htype fuel hfuel _ hname).weaken _ (by decide)).bind <|
    (runs_scanSymbol fieldTypes field.name (by decide)).bind (runs_pure _ fun _ h => h)

theorem runs_structFields (fields : List FieldSyntax) :
    ∃ n, ∀ fuel ≥ n, ∀ ls, Runs (structFields fuel) fieldTypes
      (fields.flatMap FieldSyntax.lexemes ++ fixed .rbrace :: ls) (fields.map FieldSyntax.meaning)
      fieldTypes (fixed .rbrace :: ls) := by
  obtain ⟨n, hfields⟩ := Written.exists_forall fields fun field _ => runs_structField field
  refine ⟨n + fields.length + 1, fun fuel hfuel ls => ?_⟩
  rw [← foldl_snoc_nil FieldSyntax.meaning]
  refine runs_whileDo (· != .rbrace) FieldSyntax.lexemes
    (fun fields field => fields ++ [FieldSyntax.meaning field]) (fun _ => True) fields
    (fun field hfield b ls _ => (hfields field hfield fuel (by omega) ls trivial).bind
      (runs_pure _ fun _ h => h)) (fun field _ => ?_) (fun _ _ _ => trivial) trivial
    (reads_fixed (by decide) (by decide) (by decide)) rfl (by omega) []
  -- a field starts with its type
  obtain ⟨l, rest, heq, hread, hmem⟩ :=
    follow_type fieldTypes field.type (by decide) (by decide) [sym field.name]
  have hne : l.type ≠ .rbrace := by
    intro hl
    rw [hl] at hmem
    exact absurd hmem (by decide)
  exact ⟨l, rest, heq, hread, by simpa using hne⟩

theorem runs_structDecl (decl : StructSyntax) :
    ∃ n, Written n structDecl [.struct, .abstract, .service] decl.lexemes decl.meaning declTypes
      fun _ => True := by
  obtain ⟨n, hfields⟩ := runs_structFields decl.fields
  refine ⟨n, fun fuel hfuel ls _ => ?_⟩
  have hbody := hfields fuel hfuel ls
  simp only [StructSyntax.lexemes, List.cons_append, List.append_assoc]
  refine (runs_fixed [.symbol] (by decide) (by decide)).bind ?_
  refine (runs_scanSymbol [.lbrace] decl.name (by decide)).bind ?_
  refine (runs_fixed fieldTypes (by decide) (by decide)).bind ?_
  refine hbody.bind ?_
  exact (runs_fixed declTypes (by decide) (by decide)).bind (runs_pure _ fun _ h => h)

/-! ## Functions -/

/-- What `func_arg` asks for behind its type. -/
def argNext : List TokType := [.symbol, .comma, .bar, .rparen]

/-- What `func_arg_list` asks for first. -/
def argFirst : List TokType :=
  [.i8, .i16, .i32, .i64, .v32, .v64, .bool, .int, .unsigned, .long, .comma, .colons, .symbol,
    .bar, .rparen]

/-- A list of arguments ends with `|` or `)`. -/
def ArgsEnd (ls : List Lexeme) : Prop := ∃ t ∈ [TokType.bar, .rparen], ∃ rest, ls = fixed t :: rest

theorem ArgsEnd.follow (types allowed : List TokType) {ls : List Lexeme} (h : ArgsEnd ls)
    (htypes : [TokType.bar, .rparen] ⊆ types) (hallowed : [TokType.bar, .rparen] ⊆ allowed) :
    Follow types allowed ls := by
  obtain ⟨t, ht, rest, rfl⟩ := h
  have hformed : (fixed t).Formed ∧ t ≠ .symbol := by
    simp only [List.mem_cons, List.not_mem_nil, or_false] at ht
    obtain rfl | rfl := ht
    · decide
    · decide
  exact follow_fixed rest (htypes ht) hformed.1 hformed.2 (hallowed ht)

/-- An argument ends with a comma as well. -/
def ArgEnd (ls : List Lexeme) : Prop := (∃ rest, ls = fixed .comma :: rest) ∨ ArgsEnd ls

theorem ArgEnd.follow (types allowed : List TokType) {ls : List Lexeme} (h : ArgEnd ls)
    (htypes : [TokType.comma, .bar, .rparen] ⊆ types)
    (hallowed : [TokType.comma, .bar, .rparen] ⊆ allowed) : Follow types allowed ls := by
  obtain ⟨rest, rfl⟩ | h := h
  · exact follow_fixed rest (htypes (by decide)) (by decide) (by decide) (hallowed (by decide))
  · exact h.follow _ _ (fun t ht => htypes (List.mem_cons_of_mem _ ht))
      (fun t ht => hallowed (List.mem_cons_of_mem _ ht))

theorem runs_funcArg (arg : ArgSyntax) :
    ∃ n, Written n funcArg typeFirst arg.lexemes arg.meaning argNext ArgEnd := by
  obtain ⟨n, htype⟩ := runs_type arg.type
  refine ⟨n, fun fuel hfuel ls hnext => ?_⟩
  rw [ArgSyntax.lexemes, ArgSyntax.meaning, List.append_assoc]
  cases arg.name with
  | none =>
    -- what follows is no symbol
    obtain ⟨l, rest, heq, hread, hmem⟩ :=
      hnext.follow argNext [.comma, .bar, .rparen] (by decide) (by decide)
    have hrun := htype fuel hfuel ls (hnext.follow _ _ (by decide) (by decide))
    rw [Option.toList, List.map_nil, List.nil_append]
    have hnone : Runs (ifPeek argNext .symbol
        (do return some (← forbid (← scanSymbol))) (return none)) argNext ls none argNext ls := by
      rw [heq]
      refine runs_ifPeek hread (fun hsymbol => ?_) fun _ => runs_pure none fun _ h => h
      rw [hsymbol] at hmem
      exact absurd hmem (by decide)
    exact hrun.bind ((hnone.weaken _ (by decide)).bind (runs_pure _ fun _ h => h))
  | some name =>
    -- the name follows the type
    have hname : Follow symbolNext typeNext (sym name.toText :: ls) :=
      ⟨_, ls, rfl, reads_sym_of_nil name.toText (by decide) (by decide),
        show TokType.symbol ∈ typeNext by decide⟩
    have hsome : Runs (ifPeek argNext .symbol
        (do return some (← forbid (← scanSymbol))) (return none)) argNext
        (sym name.toText :: ls) (some name) argNext ls := by
      refine runs_ifPeek (reads_sym_of_nil name.toText (by decide) (by decide)) (fun _ => ?_)
        fun hne => absurd rfl hne
      exact (runs_scanSymbol argNext name.toText (by decide)).bind <|
        (runs_forbid name).bind (runs_pure _ fun _ h => h)
    exact (htype fuel hfuel _ hname).bind <|
      (hsome.weaken _ (by decide)).bind (runs_pure _ fun _ h => h)

/-- One round of the loop of `func_arg_list`. -/
def commaRound (fuel : Nat) (args : List FuncArg) : Rpc (List FuncArg) := do
  let _ ← scan .comma
  return args ++ [← funcArg fuel]

/-- The loop over the arguments behind the first one. -/
theorem runs_funcArgs {n : Nat} {args : List ArgSyntax}
    (hargs : ∀ arg ∈ args, Written n funcArg typeFirst arg.lexemes arg.meaning argNext ArgEnd)
    {fuel : Nat} (hn : n ≤ fuel) (hlen : args.length < fuel) (first : FuncArg) {ls : List Lexeme}
    (hend : ArgsEnd ls) :
    Runs (whileDo (do return (← peek [.comma, .bar, .rparen]) == .comma) (commaRound fuel) fuel
      [first]) argNext
      (args.flatMap (fun arg => fixed .comma :: arg.lexemes) ++ ls)
      (first :: args.map ArgSyntax.meaning) [.bar, .rparen] ls := by
  have hcomma : (fixed .comma).Formed := by decide
  obtain ⟨l, rest, rfl, hread, hmem⟩ := hend.follow [.comma, .bar, .rparen] [.bar, .rparen]
    (by decide) (by decide)
  -- what follows is no comma, so the loop ends
  have hne : (l.type == .comma) = false := by
    rw [beq_eq_false_iff_ne]
    intro heq
    rw [heq] at hmem
    exact absurd hmem (by decide)
  have hmean : first :: args.map ArgSyntax.meaning =
      args.foldl (fun args arg => args ++ [ArgSyntax.meaning arg]) [first] :=
    (foldl_snoc ArgSyntax.meaning args [first]).symm
  rw [hmean]
  have hloop := runs_whileDo (p := commaRound fuel) (· == .comma)
    (fun arg => fixed .comma :: ArgSyntax.lexemes arg)
    (fun args arg => args ++ [ArgSyntax.meaning arg]) ArgEnd args
    (fun arg harg b ls hls => (runs_fixed typeFirst hcomma (by decide)).bind <|
      (hargs arg harg fuel hn ls hls).bind
        (runs_pure _ (show [.comma, .bar, .rparen] ⊆ argNext by decide)))
    (fun _ _ => ⟨_, _, rfl, reads_fixed (by decide) hcomma (by decide), rfl⟩)
    (fun _ _ _ => .inl ⟨_, rfl⟩) (.inr hend) hread hne hlen [first]
  exact (hloop.weaken [.comma, .bar, .rparen] (by decide)).forget (by decide)

theorem runs_funcArgList (args : List ArgSyntax) :
    ∃ n, Written n funcArgList argFirst (argsLexemes args) (args.map ArgSyntax.meaning)
      [.bar, .rparen] ArgsEnd := by
  obtain ⟨n, hargs⟩ := Written.exists_forall args fun arg _ => runs_funcArg arg
  refine ⟨n + args.length, fun fuel hfuel ls hend => ?_⟩
  cases args with
  | nil =>
    obtain ⟨l, rest, rfl, hread, hmem⟩ :=
      hend.follow argFirst [.comma, .bar, .rparen] (by decide) (by decide)
    refine (runs_peek hread).bind ?_
    rw [if_pos hmem]
    exact runs_pure _ (by decide)
  | cons arg args =>
    rw [List.length_cons] at hfuel
    -- behind the first argument stands a comma, or the end
    have hbehind : ArgEnd (args.flatMap (fun arg => fixed .comma :: arg.lexemes) ++ ls) := by
      cases args with
      | nil => exact .inr hend
      | cons x xs => exact .inl ⟨_, rfl⟩
    have hfirst := hargs arg (List.mem_cons_self ..) fuel (by omega) _ hbehind
    have hrest := runs_funcArgs (fun x hx => hargs x (List.mem_cons_of_mem arg hx))
      (show n ≤ fuel by omega) (by omega) arg.meaning hend
    -- the first token of its type tells that there is one
    obtain ⟨l, rest, hl, hread, hmem⟩ := follow_type argFirst arg.type (by decide)
      (by decide) (arg.name.toList.map (fun name => sym name.toText) ++
        (args.flatMap (fun arg => fixed .comma :: arg.lexemes) ++ ls))
    have hnot : l.type ∉ [TokType.comma, .bar, .rparen] := by
      intro hin
      simp only [List.mem_cons, List.not_mem_nil, or_false] at hin
      obtain h | h | h := hin
      all_goals
        rw [h] at hmem
        exact absurd hmem (by decide)
    rw [← List.append_assoc, ← ArgSyntax.lexemes] at hl
    rw [argsLexemes, List.append_assoc, hl]
    refine (runs_peek hread).bind ?_
    rw [if_neg hnot, ← hl]
    exact (hfirst.weaken _ (by decide)).bind hrest

/-- What the loop of `func_attrs` asks for. -/
def attrTypes : List TokType := [.fast, .raw, .defer, .udp, .symbol]

/-- What the loop of `service_functions` asks for. -/
def funcTypes : List TokType := [.symbol, .rbrace, .fast, .raw, .defer, .udp]

/-- What `service_function` asks for behind its closing bracket. -/
def funcEnd : List TokType := [.equals, .symbol, .rbrace, .fast, .raw, .defer, .udp]

theorem attrTok_fixed (attr : Attr) : (fixed (attrTok attr)).Formed ∧
    attrTok attr ∈ [TokType.fast, .raw, .defer, .udp] ∧ attrTok attr ≠ .symbol := by
  cases attr
  all_goals decide

theorem runs_funcAttr (attr : Attr) (ls : List Lexeme) :
    Runs funcAttr attrTypes (fixed (attrTok attr) :: ls) attr attrTypes ls := by
  obtain ⟨hformed, hmem, hne⟩ := attrTok_fixed attr
  refine Runs.weaken [.fast, .raw, .defer, .udp] ?_ (by decide)
  refine (runs_peek (reads_fixed hmem hformed hne)).bind ?_
  cases attr
  all_goals
    exact (runs_fixed attrTypes (by decide) (by decide)).bind
      (runs_pure _ fun _ h => h)

/-- The attributes, up to a name that is none of them. -/
theorem runs_funcAttrs (attrs : List Attr) (name : Symbol) (free : name.val ∉ attrWords)
    (ls : List Lexeme) {fuel : Nat} (hfuel : attrs.length < fuel) :
    Runs (funcAttrs fuel) attrTypes
      (attrs.map (fun attr => fixed (attrTok attr)) ++ sym name.toText :: ls) (attrSet attrs)
      attrTypes (sym name.toText :: ls) := by
  have hread : ReadAs attrTypes (sym name.toText) :=
    reads_sym (by decide) ((show words attrTypes = attrWords by decide) ▸ free)
  rw [List.map_eq_flatMap]
  exact runs_whileDo (· != .symbol) (fun attr => [fixed (attrTok attr)]) _ (fun _ => True) attrs
    (fun attr _ b ls _ => (runs_funcAttr attr ls).bind (runs_pure _ fun _ h => h))
    (fun attr _ => ⟨_, _, rfl, reads_fixed ((show _ ⊆ attrTypes by decide) (attrTok_fixed attr).2.1)
      (attrTok_fixed attr).1 (attrTok_fixed attr).2.2, by simpa [fixed] using (attrTok_fixed attr).2.2⟩)
    (fun _ _ _ => trivial) trivial hread rfl hfuel []

/-- What `service_function` does behind its arguments. -/
theorem runs_functionOutput (output : Option (List ArgSyntax)) :
    ∃ n, ∀ fuel ≥ n, ∀ ls,
      Runs (ifPeek [.bar, .rparen] .bar
        (do
          let _ ← scan .bar
          funcArgList fuel)
        (return [])) [.bar, .rparen]
        (output.elim [] (fun output => fixed .bar :: argsLexemes output) ++ fixed .rparen :: ls)
        ((output.getD []).map ArgSyntax.meaning) [.bar, .rparen] (fixed .rparen :: ls) := by
  have hend : ∀ ls, ArgsEnd (fixed .rparen :: ls) := fun ls => ⟨_, by decide, ls, rfl⟩
  cases output with
  | none =>
    -- no bar: no output
    refine ⟨0, fun fuel _ ls => ?_⟩
    exact runs_ifPeek (reads_fixed (by decide) (by decide) (by decide))
      (fun heq => absurd heq (by decide)) fun _ => runs_pure _ fun _ h => h
  | some output =>
    -- a bar and the second list
    obtain ⟨n, hargs⟩ := runs_funcArgList output
    refine ⟨n, fun fuel hfuel ls => ?_⟩
    refine runs_ifPeek (l := fixed .bar) (reads_fixed (by decide) (by decide) (by decide))
      (fun _ => ?_) fun hne => absurd rfl hne
    exact (runs_fixed argFirst (by decide) (by decide)).bind
      (hargs fuel hfuel _ (hend ls))

/-- `= 0` -/
theorem runs_functionAbstract (abstract : Bool) {ls : List Lexeme}
    (hnext : Follow funcEnd funcTypes ls) :
    Runs (ifPeek funcEnd .equals
      (do
        let _ ← scan .equals
        let _ ← scan .zero
        return true)
      (return false)) funcEnd
      ((if abstract then [fixed .equals, fixed .zero] else []) ++ ls) abstract funcTypes ls := by
  cases abstract with
  | true =>
    refine runs_ifPeek (l := fixed .equals) (reads_fixed (by decide) (by decide) (by decide))
      (fun _ => ?_) fun hne => absurd rfl hne
    exact (runs_fixed [.zero] (by decide) (by decide)).bind <|
      (runs_fixed funcTypes (by decide) (by decide)).bind (runs_pure _ fun _ h => h)
  | false =>
    obtain ⟨l, rest, rfl, hread, hmem⟩ := hnext
    refine runs_ifPeek hread (fun heq => ?_) fun _ => runs_pure _ (by decide)
    rw [heq] at hmem
    exact absurd hmem (by decide)

theorem runs_serviceFunction (func : FunctionSyntax) :
    ∃ n, Written n serviceFunction funcTypes func.lexemes func.meaning funcTypes
      (Follow funcEnd funcTypes) := by
  obtain ⟨n, hinput⟩ := runs_funcArgList func.input
  obtain ⟨m, houtput⟩ := runs_functionOutput func.output
  refine ⟨func.attrs.length + n + m + 1, fun fuel hfuel ls hnext => ?_⟩
  -- the second list of arguments, or the closing bracket
  have hend : ∀ ls, ArgsEnd (func.output.elim [] (fun output => fixed .bar :: argsLexemes output) ++
      fixed .rparen :: ls) := by
    intro ls
    cases func.output with
    | none => exact ⟨_, by decide, _, rfl⟩
    | some output => exact ⟨_, by decide, _, rfl⟩
  -- attributes, name, brackets with both lists, and `= 0`
  simp only [FunctionSyntax.lexemes, List.append_assoc, List.cons_append]
  refine ((runs_funcAttrs func.attrs func.name func.free _ (by omega)).weaken _ (by decide)).bind ?_
  refine (runs_scanSymbol [.lparen] func.name.toText (by decide)).bind ?_
  refine (runs_forbid func.name).bind ?_
  refine (runs_fixed argFirst (by decide) (by decide)).bind ?_
  refine (hinput fuel (by omega) _ (hend _)).bind ?_
  refine (houtput fuel (by omega) _).bind ?_
  refine (runs_fixed funcEnd (by decide) (by decide)).bind ?_
  refine (runs_functionAbstract func.abstract hnext).bind ?_
  split
  · exact runs_pure func.meaning fun _ h => h
  · -- an attribute list that the grammar refuses is no syntax
    rename_i heq
    rw [func.checked] at heq
    cases heq

/-- A function starts with an attribute or its name. -/
theorem follow_function (types : List TokType) (func : FunctionSyntax)
    (hsub : attrTypes ⊆ types) (hwords : words types = attrWords) (ls : List Lexeme) :
    Follow types attrTypes (func.lexemes ++ ls) := by
  rw [FunctionSyntax.lexemes]
  cases func.attrs with
  | nil => exact follow_sym _ (hsub (by decide)) (hwords ▸ func.free) (by decide)
  | cons attr attrs =>
    obtain ⟨hformed, hmem, hne⟩ := attrTok_fixed attr
    have hin : attrTok attr ∈ attrTypes := (show _ ⊆ attrTypes by decide) hmem
    exact follow_fixed _ (hsub hin) hformed hne hin

/-! ## Services and sources -/

theorem runs_serviceFunctions (functions : List FunctionSyntax) :
    ∃ n, ∀ fuel ≥ n, ∀ ls, Runs (serviceFunctions fuel) funcTypes
      (functions.flatMap FunctionSyntax.lexemes ++ fixed .rbrace :: ls)
      (functions.map FunctionSyntax.meaning) funcTypes (fixed .rbrace :: ls) := by
  obtain ⟨n, hfunctions⟩ := Written.exists_forall functions fun func _ => runs_serviceFunction func
  refine ⟨n + functions.length + 1, fun fuel hfuel ls => ?_⟩
  rw [← foldl_snoc_nil FunctionSyntax.meaning]
  refine runs_whileDo (· != .rbrace) FunctionSyntax.lexemes
    (fun functions func => functions ++ [FunctionSyntax.meaning func]) (Follow funcEnd funcTypes)
    functions
    (fun func hfunc b ls hls => (hfunctions func hfunc fuel (by omega) ls hls).bind
      (runs_pure _ fun _ h => h)) (fun func _ => ?_) (fun func _ ls => ?_)
    (follow_fixed ls (by decide) (by decide) (by decide) (by decide))
    (reads_fixed (by decide) (by decide) (by decide)) rfl (by omega) []
  · -- a round begins with a function, not with the closing brace
    obtain ⟨l, rest, heq, hread, hmem⟩ :=
      follow_function funcTypes func (by decide) (by decide) []
    have hne : l.type ≠ .rbrace := by
      intro hl
      rw [hl] at hmem
      exact absurd hmem (by decide)
    rw [List.append_nil] at heq
    exact ⟨l, rest, heq, hread, by simpa using hne⟩
  · -- so does what follows a function
    obtain ⟨l, rest, heq, hread, hmem⟩ :=
      follow_function funcEnd func (by decide) (by decide) ls
    exact ⟨l, rest, heq, hread, (show attrTypes ⊆ funcTypes by decide) hmem⟩

theorem runs_serviceDecl (service : ServiceSyntax) :
    ∃ n, Written n serviceDecl [.struct, .abstract, .service] service.lexemes service.meaning
      declTypes fun _ => True := by
  obtain ⟨n, hfunctions⟩ := runs_serviceFunctions service.functions
  refine ⟨n, fun fuel hfuel ls _ => ?_⟩
  have habstract : ∀ ls, Runs (ifPeek [.abstract, .service] .abstract
      (do
        let _ ← scan .abstract
        return true)
      (return false)) [.abstract, .service]
      ((if service.abstract then [fixed .abstract] else []) ++ fixed .service :: ls)
      service.abstract [.abstract, .service] (fixed .service :: ls) := by
    intro ls
    cases service.abstract with
    | true =>
      -- `abstract` is there and is read
      refine runs_ifPeek (l := fixed .abstract) (reads_fixed (by decide) (by decide) (by decide))
        (fun _ => ?_) fun hne => absurd rfl hne
      exact (runs_fixed [.abstract, .service] (by decide) (by decide)).bind
        (runs_pure _ fun _ h => h)
    | false =>
      -- the next token is `service`
      exact runs_ifPeek (l := fixed .service) (reads_fixed (by decide) (by decide) (by decide))
        (fun heq => absurd heq (by decide)) fun _ => runs_pure _ fun _ h => h
  simp only [ServiceSyntax.lexemes, List.cons_append, List.append_assoc]
  refine ((habstract _).weaken _ (by decide)).bind ?_
  refine (runs_fixed [.symbol] (by decide) (by decide)).bind ?_
  refine (runs_scanSymbol [.lbrace] service.name (by decide)).bind ?_
  refine (runs_fixed funcTypes (by decide) (by decide)).bind ?_
  refine (hfunctions fuel hfuel ls).bind ?_
  exact (runs_fixed declTypes (by decide) (by decide)).bind (runs_pure _ fun _ h => h)

/-- A declaration starts with one of its three words. -/
theorem follow_decl (types : List TokType) (decl : DeclSyntax)
    (hsub : [TokType.struct, .abstract, .service] ⊆ types) (ls : List Lexeme) :
    Follow types [.struct, .abstract, .service] (decl.lexemes ++ ls) := by
  cases decl with
  | struct decl =>
    exact follow_fixed _ (hsub (by decide)) (by decide) (by decide) (by decide)
  | service decl =>
    simp only [DeclSyntax.lexemes, ServiceSyntax.lexemes]
    cases decl.abstract with
    | true => exact follow_fixed _ (hsub (by decide)) (by decide) (by decide) (by decide)
    | false => exact follow_fixed _ (hsub (by decide)) (by decide) (by decide) (by decide)

/-- One round of the loop of `structs_and_services`. -/
def declRound (fuel : Nat) (found : StructsAndServices) : Rpc StructsAndServices := do
  let token ← peek [.struct, .abstract, .service]
  if token = .struct then
    let decl ← structDecl fuel
    return { found with structs := found.structs ++ [decl] }
  else
    let decl ← serviceDecl fuel
    return { found with services := found.services ++ [decl] }

theorem runs_declRound (decl : DeclSyntax) :
    ∃ n, ∀ fuel ≥ n, ∀ found ls,
      Runs (declRound fuel found) declTypes (decl.lexemes ++ ls) (decl.add found) declTypes ls := by
  cases decl with
  | struct decl =>
    -- the token in front is `struct`
    obtain ⟨n, hdecl⟩ := runs_structDecl decl
    refine ⟨n, fun fuel hfuel found ls => ?_⟩
    have hread : ReadAs [.struct, .abstract, .service] (fixed .struct) :=
      reads_fixed (by decide) (by decide) (by decide)
    exact ((runs_peek hread).weaken _ (by decide)).bind <|
      (hdecl fuel hfuel ls trivial).bind (runs_pure _ fun _ h => h)
  | service decl =>
    -- it is `abstract` or `service`
    obtain ⟨n, hdecl⟩ := runs_serviceDecl decl
    refine ⟨n, fun fuel hfuel found ls => ?_⟩
    have hrun := hdecl fuel hfuel ls trivial
    obtain ⟨l, rest, heq, hread, hne⟩ : ∃ l rest, decl.lexemes ++ ls = l :: rest ∧
        ReadAs [.struct, .abstract, .service] l ∧ l.type ≠ .struct := by
      rw [ServiceSyntax.lexemes]
      cases decl.abstract with
      | true => exact ⟨_, _, rfl, reads_fixed (by decide) (by decide) (by decide), by decide⟩
      | false => exact ⟨_, _, rfl, reads_fixed (by decide) (by decide) (by decide), by decide⟩
    rw [DeclSyntax.lexemes, heq]
    refine ((runs_peek hread).weaken _ (by decide)).bind ?_
    rw [if_neg hne, ← heq]
    exact hrun.bind (runs_pure _ fun _ h => h)

/-- The end of a source. -/
def eofLexeme (text : List Char) : Lexeme := ⟨.eof, text⟩

theorem reads_eof {types : List TokType} {text : List Char} (htext : text = [] ∨ text = ['%', '%'])
    (hmem : .eof ∈ types) : ReadAs types (eofLexeme text) :=
  ⟨hmem, ⟨show TokType.eof ∉ ignore by decide, .inr (.inl ⟨rfl, htext⟩)⟩, nofun⟩

theorem runs_structsAndServices (decls : List DeclSyntax) {text : List Char}
    (htext : text = [] ∨ text = ['%', '%']) :
    ∃ n, ∀ fuel ≥ n, Runs (structsAndServices fuel) declTypes
      (decls.flatMap DeclSyntax.lexemes ++ [eofLexeme text]) (decls.foldl DeclSyntax.add ⟨[], []⟩)
      declTypes [eofLexeme text] := by
  obtain ⟨n, hdecls⟩ := exists_enough
    (P := fun n decl => ∀ fuel ≥ n, ∀ found ls, Runs (declRound fuel found) declTypes
      (DeclSyntax.lexemes decl ++ ls) (decl.add found) declTypes ls)
    (fun _ _ _ hle h fuel hfuel => h fuel (Nat.le_trans hle hfuel)) decls
    fun decl _ => runs_declRound decl
  refine ⟨n + decls.length + 1, fun fuel hfuel => ?_⟩
  refine runs_whileDo (p := declRound fuel) (· != .eof) _ _ (fun _ => True) decls
    (fun decl hdecl found ls _ => hdecls decl hdecl fuel (by omega) found ls) (fun decl _ => ?_)
    (fun _ _ _ => trivial) trivial (reads_eof htext (by decide)) rfl (by omega) ⟨[], []⟩
  obtain ⟨l, rest, heq, hread, hmem⟩ := follow_decl declTypes decl (by decide) []
  have hne : l.type ≠ .eof := by
    intro hl
    rw [hl] at hmem
    exact absurd hmem (by decide)
  rw [List.append_nil] at heq
  exact ⟨l, rest, heq, hread, by simpa using hne⟩

/-- What the rule `rpc_source` asks for first. -/
def sourceFirst : List TokType := [.namespace_, .eof, .struct, .abstract, .service]

/-- Behind the namespace stands a declaration, or the end. -/
theorem follow_decls (types allowed : List TokType) (decls : List DeclSyntax) {text : List Char}
    (htext : text = [] ∨ text = ['%', '%']) (hsub : declTypes ⊆ types) (hallowed : declTypes ⊆ allowed) :
    Follow types allowed (decls.flatMap DeclSyntax.lexemes ++ [eofLexeme text]) := by
  cases decls with
  | nil => exact ⟨_, [], rfl, reads_eof htext (hsub (by decide)),
      hallowed (show TokType.eof ∈ declTypes by decide)⟩
  | cons decl decls =>
    rw [List.flatMap_cons, List.append_assoc]
    obtain ⟨l, rest, heq, hread, hmem⟩ := follow_decl types decl
      (fun t ht => hsub ((show _ ⊆ declTypes by decide) ht))
      (decls.flatMap DeclSyntax.lexemes ++ [eofLexeme text])
    exact ⟨l, rest, heq, hread, hallowed ((show _ ⊆ declTypes by decide) hmem)⟩

theorem runs_rpcBody (source : SourceSyntax) {text : List Char}
    (htext : text = [] ∨ text = ['%', '%']) :
    ∃ n, ∀ fuel ≥ n, Runs (rpcBody fuel) sourceFirst (source.lexemes ++ [eofLexeme text])
      source.meaning declTypes [eofLexeme text] := by
  obtain ⟨n, hdecls⟩ := runs_structsAndServices source.decls htext
  obtain ⟨names, decls⟩ := source
  have hfollow := follow_decls [.colons, .eof, .struct, .abstract, .service]
    [.eof, .struct, .abstract, .service] decls htext (by decide) (by decide)
  -- no `namespace`: a declaration or the end comes first
  cases names with
  | none =>
    refine ⟨n, fun fuel hfuel => ?_⟩
    obtain ⟨l, rest, heq, hread, hmem⟩ :=
      follow_decls sourceFirst declTypes decls htext (by decide) (by decide)
    have hne : l.type ≠ .namespace_ := by
      intro hl
      rw [hl] at hmem
      exact absurd hmem (by decide)
    have hnone : Runs (ifPeek sourceFirst .namespace_
        (do return some (← namespaceDecl fuel)) (return none)) sourceFirst
        (decls.flatMap DeclSyntax.lexemes ++ [eofLexeme text]) none sourceFirst
        (decls.flatMap DeclSyntax.lexemes ++ [eofLexeme text]) := by
      rw [heq]
      exact runs_ifPeek hread (fun h => absurd h hne) fun _ => runs_pure none fun _ h => h
    exact hnone.bind <| ((hdecls fuel hfuel).weaken _ (by decide)).bind (runs_pure _ fun _ h => h)
  | some names =>
    -- the namespace, then the declarations
    obtain ⟨first, more⟩ := names
    refine ⟨n + more.length + 1, fun fuel hfuel => ?_⟩
    have hnames := runs_namespaceDecl first more (show .namespace_ ∈ sourceFirst by decide) hfollow
      (show more.length < fuel by omega)
    have hread : ReadAs sourceFirst (fixed .namespace_) :=
      reads_fixed (by decide) (by decide) (by decide)
    simp only [SourceSyntax.lexemes, Option.elim, List.append_assoc, List.cons_append]
    have hsome : Runs (do return some (← namespaceDecl fuel)) sourceFirst _ (some (first :: more)) _ _ :=
      hnames.bind (runs_pure _ fun _ h => h)
    refine (runs_ifPeek hread (fun _ => hsome) fun h => absurd rfl h).bind ?_
    exact ((hdecls fuel (by omega)).weaken _ (by decide)).bind (runs_pure _ fun _ h => h)

theorem runs_rpcSource (source : SourceSyntax) {text : List Char}
    (htext : text = [] ∨ text = ['%', '%']) :
    ∃ n, ∀ fuel ≥ n, Runs (rpcSource fuel) sourceFirst (source.lexemes ++ [eofLexeme text])
      source.meaning [] [] := by
  obtain ⟨n, hbody⟩ := runs_rpcBody source htext
  have heof : (eofLexeme text).Formed := (reads_eof htext (List.mem_singleton_self _)).formed
  have hend : Runs (scan .eof) declTypes [eofLexeme text] text [] [] :=
    runs_scan [] heof (show TokType.eof ∈ declTypes by decide)
  exact ⟨n, fun fuel hfuel => (hbody fuel hfuel).bind (hend.bind (runs_pure _ fun _ h => h))⟩

/-- What the parser returns in front of lexemes, it returns for a text that spells them. -/
theorem returns_of_runs {ls : List Lexeme} {source : RpcSource} {text : List Char}
    (hruns : ∃ n, ∀ fuel ≥ n, Runs (rpcSource fuel) sourceFirst ls source [] [])
    (h : Spells ls text) : Returns text source := by
  obtain ⟨n, hrun⟩ := hruns
  obtain ⟨log, s, hs, -⟩ := hrun n (Nat.le_refl n) (rpcScanner text) h
  exact returns_of_run hs

/-- **Round trip**: a text that spells a source, with any layout between the lexemes, is parsed to
    the meaning of the source. -/
theorem returns_of_spells (source : SourceSyntax) {eof text : List Char}
    (heof : eof = [] ∨ eof = ['%', '%']) (h : Spells (source.lexemes ++ [eofLexeme eof]) text) :
    Returns text source.meaning :=
  returns_of_runs (runs_rpcSource source heof) h

/-- `struct fast { ::v64 raw; }`, where neither name is an attribute and the type is no builtin. -/
def fastStruct : SourceSyntax where
  namespace_ := none
  decls := [.struct ⟨⟨"fast", by decide⟩,
    [⟨.symbol ⟨true, ⟨"v64", by decide⟩, []⟩ (.inl rfl) .nil, ⟨"raw", by decide⟩⟩]⟩]

/-- The source with a comment in it and no blanks around its brackets. -/
theorem fastStruct_returns :
    Returns "struct fast{// v64
::v64 raw;}
".toList fastStruct.meaning := by
  refine returns_of_spells fastStruct (.inl rfl) ?_
  refine ⟨[], " fast\x7b// v64\n::v64 raw;\x7d\n".toList, .nil, by decide, ?_, ?_⟩
  · exact ⟨nofun, fun _ d hd => by cases hd; rfl⟩
  refine ⟨[' '], "\x7b// v64\n::v64 raw;\x7d\n".toList, .space rfl .nil, by decide, ?_, ?_⟩
  · exact ⟨nofun, fun _ d hd => by cases hd; rfl⟩
  refine ⟨[], "// v64\n::v64 raw;\x7d\n".toList, .nil, by decide, ⟨nofun, nofun⟩, ?_⟩
  have hcomment : Closed "// v64\n".toList :=
    .comment (show " v64".toList ≠ [] by decide) (by decide) .nil
  refine ⟨"// v64\n".toList, "v64 raw;\x7d\n".toList, hcomment, by decide, ⟨nofun, nofun⟩, ?_⟩
  refine ⟨[], " raw;\x7d\n".toList, .nil, by decide, ?_, ?_⟩
  · exact ⟨nofun, fun _ d hd => by cases hd; rfl⟩
  refine ⟨[' '], ";\x7d\n".toList, .space rfl .nil, by decide, ?_, ?_⟩
  · exact ⟨nofun, fun _ d hd => by cases hd; rfl⟩
  refine ⟨[';'], ['\n'], .semicolon .nil, by decide, ⟨nofun, nofun⟩, ?_⟩
  exact ⟨['\n'], [], .space rfl .nil, by decide, ⟨fun _ => rfl, nofun⟩, trivial⟩

end SimpleRpc.Gen
