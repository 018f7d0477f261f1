import SimpleRpc.Gen.RoundTrip

/-!
# Sources That Are Read Were Written (`rpcgen.g`, `rpcgen.py`)

The other direction: whatever a rule returns is the meaning of a syntax tree, and the tokens it has
passed are the lexemes of this tree. The parser accepts nothing that the grammar does not have, and
its result depends on the tree alone.

## Main results

- `takes_type`, `takes_serviceFunction`: the rules that look at what they are about to take
- `Parsed.syntax`: a text that is parsed has the tokens of a source, and its result is the meaning
- `printed_returns`, `meaning_eq_of_lexemes`: a source can be printed and read again, and two
  sources with the same lexemes mean the same
-/

namespace SimpleRpc.Gen

open SimpleRpc.Lib
open SimpleRpc.Lib.Parser (peek scan whileDo)

/-! ## Tokens -/

theorem fixed_of_formed {t : TokType} {v : List Char} (h : Lexeme.Formed ⟨t, v⟩) (heof : t ≠ .eof)
    (hsym : t ≠ .symbol) : (⟨t, v⟩ : Lexeme) = fixed t := by
  obtain ⟨-, hlit | ⟨h, -⟩ | ⟨h, -⟩⟩ := h
  · rw [fixed, lookup_patterns _ hlit]
    rfl
  · exact absurd h heof
  · exact absurd h hsym

theorem word_literal (t : TokType) (h : isSymbol (String.ofList (fixed t).text) = true) :
    (t, .literal (fixed t).text) ∈ patterns := by
  revert h
  cases t
  all_goals decide

/-- A symbol that was read among `types` is none of their words. -/
theorem Seen.free {types : List TokType} {name : SymbolText} (h : Seen types (sym name)) :
    name.1 ∉ words types := by
  obtain ⟨more, hsub, hread⟩ := h
  intro hmem
  rw [words, List.mem_filter, List.mem_map] at hmem
  obtain ⟨⟨t, ht, htext⟩, hsym⟩ := hmem
  have hlit := word_literal t (by rw [htext]; exact hsym)
  have heq : (fixed t).text = (sym name).text := by
    rw [sym, ← htext, String.toList_ofList]
  exact hread.free rfl t (hsub ht) (heq ▸ hlit)

section

variable {α : Type} {pre : List Lexeme}

theorem takes_fixed {t : TokType} (heof : t ≠ .eof) (hsym : t ≠ .symbol) :
    Takes pre (scan t) fun _ ls post => ls = [fixed t] ∧ post = [] := by
  refine takes_scan.imp ?_
  rintro v ls post ⟨rfl, rfl, hformed⟩
  exact ⟨by rw [fixed_of_formed hformed heof hsym], rfl⟩

/-- A token in front of what the rest of a rule takes. -/
theorem Takes.fixed_bind {t : TokType} {p : Rpc α} {Q : α → List Lexeme → List Lexeme → Prop}
    (heof : t ≠ .eof) (hsym : t ≠ .symbol)
    (h : Takes [] p fun a ls post => Q a (fixed t :: ls) post) :
    Takes pre (do
      let _ ← scan t
      p) Q := by
  refine (takes_fixed heof hsym).bind ?_
  rintro v ls post - ⟨rfl, rfl⟩
  exact h

theorem takes_scanSymbol :
    Takes pre scanSymbol fun name ls post => ls = [sym name] ∧ post = [] := by
  refine takes_scan.bind ?_
  rintro v ls post - ⟨rfl, rfl, -⟩
  split
  · exact takes_pure ⟨by rw [sym, String.toList_ofList]; rfl, rfl⟩
  · exact takes_fail

theorem takes_forbid (name : SymbolText) :
    Takes pre (forbid name) fun name' ls post => name'.toText = name ∧ ls = [] ∧ post = pre := by
  rw [forbid]
  split
  · exact takes_pure ⟨rfl, rfl, rfl⟩
  · exact takes_fail

end

/-! ## Names and types -/

section

variable {pre : List Lexeme} (fuel : Nat)

/-- The loop over `::` and a symbol. -/
theorem takes_colonsLoop {β : Type} {types : List TokType} (hne : types ≠ [])
    (step : β → SymbolText → β) (b : β) :
    Takes pre (whileDo (do return (← peek types) == .colons)
      (fun b => do
        let _ ← scan .colons
        let symbol ← scanSymbol
        return step b symbol) fuel b) fun b' ls _ => ∃ symbols : List SymbolText,
          b' = symbols.foldl step b ∧
            ls = symbols.flatMap fun symbol => [fixed .colons, sym symbol] := by
  refine (takes_whileDo (· == .colons) (fun symbol => [fixed .colons, sym symbol]) step hne
    (fun b l _ _ => ?_) fuel b).imp ?_
  · refine Takes.fixed_bind (by decide) (by decide) (takes_scanSymbol.bind ?_)
    rintro symbol ls post - ⟨rfl, rfl⟩
    exact takes_pure ⟨symbol, rfl, rfl⟩
  · rintro b' ls post ⟨symbols, rfl, rfl, -⟩
    exact ⟨symbols, rfl, rfl⟩

theorem takes_namespaceDecl :
    Takes pre (namespaceDecl fuel) fun names ls _ => ∃ (first : SymbolText) (more : List SymbolText),
      names = first :: more ∧ ls = fixed .namespace_ :: sym first ::
        more.flatMap fun symbol => [fixed .colons, sym symbol] := by
  refine Takes.fixed_bind (by decide) (by decide) (takes_scanSymbol.bind ?_)
  rintro first ls post - ⟨rfl, rfl⟩
  refine (takes_colonsLoop fuel (by decide) (fun names symbol => names ++ [symbol]) [first]).imp ?_
  rintro names ls post ⟨more, rfl, rfl⟩
  rw [foldl_snoc (fun symbol => symbol), List.map_id']
  exact ⟨first, more, rfl, rfl⟩

theorem takes_fullSymbol :
    Takes pre (fullSymbol fuel) fun s ls _ =>
      ∃ name : FullSymbol, s = name.meaning ∧ ls = name.lexemes := by
  have hroot : Takes pre (ifPeek [.colons, .symbol] .colons
      (do
        let _ ← scan .colons
        return "::")
      (return "")) fun s ls _ => ∃ rooted : Bool,
        s = (if rooted then "::" else "") ∧ ls = if rooted then [fixed .colons] else [] := by
    refine takes_ifPeek (by decide) (fun l _ _ _ => ?_) fun l _ _ _ => ?_
    · exact Takes.fixed_bind (by decide) (by decide) (takes_pure ⟨true, rfl, rfl⟩)
    · exact takes_pure ⟨false, rfl, rfl⟩
  refine hroot.bind ?_
  rintro s ls post - ⟨rooted, rfl, rfl⟩
  refine takes_scanSymbol.bind ?_
  rintro first ls post - ⟨rfl, rfl⟩
  refine (takes_colonsLoop fuel (by decide) (fun s symbol => s ++ "::" ++ symbol.1) _).imp ?_
  rintro s ls post ⟨more, rfl, rfl⟩
  exact ⟨⟨rooted, first, more⟩, rfl, by simp [FullSymbol.lexemes]⟩

end

def TypeArgs.ofList : List TypeSyntax → TypeArgs
  | [] => .nil
  | type :: types => .cons type (ofList types)

theorem TypeArgs.toList_ofList (types : List TypeSyntax) : (ofList types).toList = types := by
  induction types with
  | nil => rfl
  | cons type types ih => rw [ofList, toList, ih]

/-- The rule takes a type. -/
def TakesType (fuel : Nat) : Prop :=
  ∀ pre, Takes pre (type fuel) fun t ls _ => ∃ ty : TypeSyntax, t = ty.meaning ∧ ls = ty.lexemes

theorem takes_typeBehind {fuel : Nat} (h : TakesType fuel) {pre : List Lexeme} (symbol : String) :
    Takes pre (typeBehind fuel symbol) fun t ls _ =>
      ∃ args : TypeArgs, t = args.meaning (stdRename symbol) ∧ ls = args.lexemes := by
  refine takes_ifPeek (by decide) (fun l _ _ _ => ?_) fun l _ _ _ => takes_pure ⟨.nil, rfl, rfl⟩
  refine Takes.fixed_bind (by decide) (by decide) ((h []).bind ?_)
  rintro arg ls post - ⟨first, rfl, rfl⟩
  refine (takes_whileDo (· == .comma) (fun ty => fixed .comma :: TypeSyntax.lexemes ty)
    (fun t ty => t ++ ", " ++ TypeSyntax.meaning ty) (by decide) (fun t l _ _ => ?_) fuel
    _).bind ?_
  · refine Takes.fixed_bind (by decide) (by decide) ((h []).bind ?_)
    rintro arg ls post - ⟨ty, rfl, rfl⟩
    exact takes_pure ⟨ty, rfl, by simp⟩
  · rintro t ls post - ⟨rest, rfl, rfl, -⟩
    refine Takes.fixed_bind (by decide) (by decide) (takes_pure ⟨.cons first (.ofList rest), ?_, ?_⟩)
    · rw [TypeArgs.meaning, TypeArgs.meaningMore_eq, TypeArgs.toList_ofList]
    · rw [TypeArgs.lexemes, TypeArgs.lexemesMore_eq, TypeArgs.toList_ofList]

theorem takes_builtin {pre : List Lexeme} (b : Py.Builtin) {t : TokType} {name : String}
    (ht : builtinTok b = t) (hname : String.ofList b.print = name) (heof : t ≠ .eof)
    (hsym : t ≠ .symbol) :
    Takes pre (scanBuiltin t name) fun t ls _ =>
      ∃ ty : TypeSyntax, t = ty.meaning ∧ ls = ty.lexemes := by
  refine Takes.fixed_bind heof hsym (takes_pure ⟨.builtin b, ?_, ?_⟩)
  · rw [TypeSyntax.meaning, hname]
  · rw [TypeSyntax.lexemes, ht]

/-- **Types**: what was looked at tells that a name is none of the words. -/
theorem takes_type (fuel : Nat) : TakesType fuel := by
  induction fuel with
  | zero => exact fun pre => takes_fail
  | succ fuel ih =>
    intro pre
    rw [type]
    refine (takes_peek (by decide)).bind ?_
    rintro token ls post - ⟨rfl, l, rfl, rfl, hseen⟩
    split
    · exact takes_builtin .i8 rfl (by decide) (by decide) (by decide)
    split
    · exact takes_builtin .i16 rfl (by decide) (by decide) (by decide)
    split
    · exact takes_builtin .i32 rfl (by decide) (by decide) (by decide)
    split
    · exact takes_builtin .i64 rfl (by decide) (by decide) (by decide)
    split
    · exact takes_builtin .v32 rfl (by decide) (by decide) (by decide)
    split
    · exact takes_builtin .v64 rfl (by decide) (by decide) (by decide)
    split
    · -- a name, which may have arguments
      refine (takes_fullSymbol fuel).bind ?_
      rintro s ls post hstarts ⟨name, rfl, rfl⟩
      refine (takes_typeBehind ih name.meaning).imp ?_
      rintro t ls post' ⟨args, rfl, rfl⟩
      have free : name.rooted = true ∨ name.first.1 ∉ typeWords := by
        cases hrooted : name.rooted with
        | true => exact .inl rfl
        | false =>
          rw [FullSymbol.lexemes, hrooted] at hstarts
          obtain rfl : l = sym name.first := (List.cons_prefix_cons.mp hstarts).1
          exact .inr ((show words typeFirst = typeWords by decide) ▸ hseen.free)
      exact ⟨.symbol name free args, rfl, rfl⟩
    · -- any other token is no type
      refine (takes_peek (by decide)).bind ?_
      rintro token ls post - -
      refine takes_scan.bind ?_
      rintro v ls post - -
      exact takes_fail

/-! ## Structures -/

section

variable {pre : List Lexeme} (fuel : Nat)

theorem takes_structField :
    Takes pre (structField fuel) fun field ls _ =>
      ∃ tree : FieldSyntax, field = tree.meaning ∧ ls = tree.lexemes := by
  refine (takes_type fuel pre).bind ?_
  rintro t ls post - ⟨ty, rfl, rfl⟩
  refine takes_scanSymbol.bind ?_
  rintro name ls post - ⟨rfl, rfl⟩
  exact takes_pure ⟨⟨ty, name⟩, rfl, by simp [FieldSyntax.lexemes]⟩

theorem takes_structDecl :
    Takes pre (structDecl fuel) fun decl ls _ =>
      ∃ tree : StructSyntax, decl = tree.meaning ∧ ls = tree.lexemes := by
  refine Takes.fixed_bind (by decide) (by decide) (takes_scanSymbol.bind ?_)
  rintro name ls post - ⟨rfl, rfl⟩
  refine Takes.fixed_bind (by decide) (by decide) ?_
  refine (takes_whileDo (· != .rbrace) FieldSyntax.lexemes
    (fun fields field => fields ++ [field.meaning]) (by decide) (fun b l _ _ => ?_) fuel
    []).bind ?_
  · refine (takes_structField fuel).bind ?_
    rintro field ls post - ⟨tree, rfl, rfl⟩
    exact takes_pure ⟨tree, rfl, by simp⟩
  · rintro fields ls post - ⟨trees, rfl, rfl, -⟩
    refine Takes.fixed_bind (by decide) (by decide) (takes_pure ⟨⟨name, trees⟩, ?_, ?_⟩)
    · rw [foldl_snoc]
      rfl
    · simp [StructSyntax.lexemes]

/-! ## Functions -/

theorem takes_funcArg :
    Takes pre (funcArg fuel) fun arg ls _ =>
      ∃ tree : ArgSyntax, arg = tree.meaning ∧ ls = tree.lexemes := by
  refine (takes_type fuel pre).bind ?_
  rintro t ls post - ⟨ty, rfl, rfl⟩
  have hname : Takes post (ifPeek [.symbol, .comma, .bar, .rparen] .symbol
      (do
        let symbol ← scanSymbol
        return some (← forbid symbol))
      (return none)) fun name ls _ =>
        ls = (name.toList.map fun name => sym (Symbol.toText name)) := by
    refine takes_ifPeek (by decide) (fun l _ _ _ => takes_scanSymbol.bind ?_)
      fun l _ _ _ => takes_pure rfl
    rintro symbol ls post - ⟨rfl, rfl⟩
    refine (takes_forbid symbol).bind ?_
    rintro name ls post - ⟨rfl, rfl, rfl⟩
    exact takes_pure rfl
  refine hname.bind ?_
  rintro name ls post - rfl
  exact takes_pure ⟨⟨ty, name⟩, rfl, by simp [ArgSyntax.lexemes]⟩

theorem takes_funcArgList :
    Takes pre (funcArgList fuel) fun args ls _ =>
      ∃ trees : List ArgSyntax, args = trees.map ArgSyntax.meaning ∧ ls = argsLexemes trees := by
  refine (takes_peek (by decide)).bind ?_
  rintro token ls post - ⟨rfl, l, rfl, rfl, -⟩
  split
  · exact takes_pure ⟨[], rfl, rfl⟩
  · refine (takes_funcArg fuel).bind ?_
    rintro arg ls post - ⟨first, rfl, rfl⟩
    refine (takes_whileDo (· == .comma) (fun arg => fixed .comma :: ArgSyntax.lexemes arg)
      (fun args arg => args ++ [ArgSyntax.meaning arg]) (by decide) (fun b l _ _ => ?_) fuel
      _).imp ?_
    · refine Takes.fixed_bind (by decide) (by decide) ((takes_funcArg fuel).bind ?_)
      rintro arg ls post - ⟨tree, rfl, rfl⟩
      exact takes_pure ⟨tree, rfl, by simp⟩
    · rintro args ls post ⟨trees, rfl, rfl, -⟩
      exact ⟨first :: trees, by rw [foldl_snoc]; rfl, rfl⟩

theorem takes_funcAttr :
    Takes pre funcAttr fun attr ls _ => ls = [fixed (attrTok attr)] := by
  refine (takes_peek (by decide)).bind ?_
  rintro token ls post - ⟨rfl, l, rfl, rfl, -⟩
  split
  · exact Takes.fixed_bind (by decide) (by decide) (takes_pure rfl)
  split
  · exact Takes.fixed_bind (by decide) (by decide) (takes_pure rfl)
  split
  · exact Takes.fixed_bind (by decide) (by decide) (takes_pure rfl)
  · exact Takes.fixed_bind (by decide) (by decide) (takes_pure rfl)

/-- The attributes end at a symbol that is none. -/
theorem takes_funcAttrs :
    Takes pre (funcAttrs fuel) fun attrs ls post => ∃ trees : List Attr, attrs = attrSet trees ∧
      ls = trees.map (fun attr => fixed (attrTok attr)) ∧ ∃ l, post = [l] ∧ Seen attrTypes l := by
  refine (takes_whileDo (· != .symbol) (fun attr => [fixed (attrTok attr)])
    (fun attrs attr => if attr ∈ attrs then attrs else attrs ++ [attr]) (by decide)
    (fun b l _ _ => takes_funcAttr.bind ?_) fuel []).imp ?_
  · rintro attr ls post - rfl
    exact takes_pure ⟨attr, rfl, by simp⟩
  · rintro attrs ls post ⟨trees, rfl, rfl, l, rfl, hseen, -⟩
    exact ⟨trees, rfl, by rw [List.map_eq_flatMap], l, rfl, hseen⟩

theorem takes_serviceFunction :
    Takes pre (serviceFunction fuel) fun func ls _ =>
      ∃ tree : FunctionSyntax, func = tree.meaning ∧ ls = tree.lexemes := by
  refine (takes_funcAttrs fuel).bind ?_
  rintro attrs ls post - ⟨trees, rfl, rfl, l, rfl, hseen⟩
  refine takes_scanSymbol.bind ?_
  rintro symbol ls post hstarts ⟨rfl, rfl⟩
  -- the name was looked at among the attributes
  obtain rfl : l = sym symbol := (List.cons_prefix_cons.mp hstarts).1
  have free : symbol.1 ∉ attrWords := (show words attrTypes = attrWords by decide) ▸ hseen.free
  refine (takes_forbid symbol).bind ?_
  rintro name ls post - ⟨rfl, rfl, rfl⟩
  refine Takes.fixed_bind (by decide) (by decide) ((takes_funcArgList fuel).bind ?_)
  rintro input ls post - ⟨inputs, rfl, rfl⟩
  -- the second list, if there is a bar
  have houtput : Takes post (ifPeek [.bar, .rparen] .bar
      (do
        let _ ← scan .bar
        funcArgList fuel)
      (return [])) fun args ls _ => ∃ output : Option (List ArgSyntax),
        args = (output.getD []).map ArgSyntax.meaning ∧
          ls = output.elim [] fun output => fixed .bar :: argsLexemes output := by
    refine takes_ifPeek (by decide) (fun l _ _ _ => ?_) fun l _ _ _ => takes_pure ⟨none, rfl, rfl⟩
    refine Takes.fixed_bind (by decide) (by decide) ((takes_funcArgList fuel).imp ?_)
    rintro args ls post ⟨trees, rfl, rfl⟩
    exact ⟨some trees, rfl, rfl⟩
  refine houtput.bind ?_
  rintro output ls post - ⟨outputs, rfl, rfl⟩
  refine Takes.fixed_bind (by decide) (by decide) ?_
  -- `= 0`, if it is there
  have habstract : Takes [] (ifPeek funcEnd .equals
      (do
        let _ ← scan .equals
        let _ ← scan .zero
        return true)
      (return false)) fun abstract ls _ =>
        ls = if abstract then [fixed .equals, fixed .zero] else [] := by
    refine takes_ifPeek (by decide) (fun l _ _ _ => ?_) fun l _ _ _ => takes_pure rfl
    exact Takes.fixed_bind (by decide) (by decide)
      (Takes.fixed_bind (by decide) (by decide) (takes_pure rfl))
  refine habstract.bind ?_
  rintro abstract ls post - rfl
  split
  · rename_i hchecked
    refine takes_pure ⟨⟨trees, name, free, inputs, outputs, abstract, hchecked⟩, rfl, ?_⟩
    simp [FunctionSyntax.lexemes]
  · -- `function_attrs` has refused
    exact takes_fail

/-! ## Services and sources -/

theorem takes_serviceDecl :
    Takes pre (serviceDecl fuel) fun service ls _ =>
      ∃ tree : ServiceSyntax, service = tree.meaning ∧ ls = tree.lexemes := by
  -- `abstract`, if it is there
  have habstract : Takes pre (ifPeek [.abstract, .service] .abstract
      (do
        let _ ← scan .abstract
        return true)
      (return false)) fun abstract ls _ => ls = if abstract then [fixed .abstract] else [] := by
    refine takes_ifPeek (by decide) (fun l _ _ _ => ?_) fun l _ _ _ => takes_pure rfl
    exact Takes.fixed_bind (by decide) (by decide) (takes_pure rfl)
  refine habstract.bind ?_
  rintro abstract ls post - rfl
  refine Takes.fixed_bind (by decide) (by decide) (takes_scanSymbol.bind ?_)
  rintro name ls post - ⟨rfl, rfl⟩
  refine Takes.fixed_bind (by decide) (by decide) ?_
  refine (takes_whileDo (· != .rbrace) FunctionSyntax.lexemes
    (fun functions func => functions ++ [func.meaning]) (by decide) (fun b l _ _ => ?_)
    fuel []).bind ?_
  · refine (takes_serviceFunction fuel).bind ?_
    rintro func ls post - ⟨tree, rfl, rfl⟩
    exact takes_pure ⟨tree, rfl, by simp⟩
  · rintro functions ls post - ⟨trees, rfl, rfl, -⟩
    refine Takes.fixed_bind (by decide) (by decide) (takes_pure ⟨⟨abstract, name, trees⟩, ?_, ?_⟩)
    · rw [foldl_snoc]
      rfl
    · simp [ServiceSyntax.lexemes]

theorem takes_structsAndServices :
    Takes pre (structsAndServices fuel) fun found ls _ => ∃ decls : List DeclSyntax,
      found = decls.foldl DeclSyntax.add ⟨[], []⟩ ∧ ls = decls.flatMap DeclSyntax.lexemes := by
  refine (takes_whileDo (p := declRound fuel) (· != .eof) DeclSyntax.lexemes DeclSyntax.add (by decide)
    (fun found l _ _ => ?_) fuel _).imp ?_
  · refine (takes_peek (by decide)).bind ?_
    rintro token ls post - ⟨rfl, l, rfl, rfl, -⟩
    split
    · refine (takes_structDecl fuel).bind ?_
      rintro decl ls post - ⟨tree, rfl, rfl⟩
      exact takes_pure ⟨.struct tree, rfl, by simp [DeclSyntax.lexemes]⟩
    · refine (takes_serviceDecl fuel).bind ?_
      rintro decl ls post - ⟨tree, rfl, rfl⟩
      exact takes_pure ⟨.service tree, rfl, by simp [DeclSyntax.lexemes]⟩
  · rintro found ls post ⟨decls, rfl, rfl, -⟩
    exact ⟨decls, rfl, rfl⟩

theorem takes_rpcSource :
    Takes pre (rpcSource fuel) fun source ls post => post = [] ∧ ∃ (tree : SourceSyntax) (eof : List Char),
      (eof = [] ∨ eof = ['%', '%']) ∧ source = tree.meaning ∧
        ls = tree.lexemes ++ [eofLexeme eof] := by
  -- the namespace, if there is one
  have hnames : Takes pre (ifPeek sourceFirst .namespace_
      (do return some (← namespaceDecl fuel)) (return none)) fun names ls _ =>
        ∃ tree : Option (SymbolText × List SymbolText),
          names = (tree.map fun names => names.1 :: names.2) ∧
            ls = tree.elim [] fun names => fixed .namespace_ :: sym names.1 ::
              names.2.flatMap fun symbol => [fixed .colons, sym symbol] := by
    refine takes_ifPeek (by decide) (fun l _ _ _ => (takes_namespaceDecl fuel).bind ?_)
      fun l _ _ _ => takes_pure ⟨none, rfl, rfl⟩
    rintro names ls post - ⟨first, more, rfl, rfl⟩
    exact takes_pure ⟨some (first, more), rfl, by simp⟩
  have hbody : Takes pre (rpcBody fuel) fun source ls _ =>
      ∃ tree : SourceSyntax, source = tree.meaning ∧ ls = tree.lexemes := by
    refine hnames.bind ?_
    rintro names ls post - ⟨tree, rfl, rfl⟩
    refine (takes_structsAndServices fuel).bind ?_
    rintro found ls post - ⟨decls, rfl, rfl⟩
    exact takes_pure ⟨⟨tree, decls⟩, rfl, by simp [SourceSyntax.lexemes]⟩
  refine hbody.bind ?_
  rintro source ls post - ⟨tree, rfl, rfl⟩
  refine takes_scan.bind ?_
  rintro v ls post - ⟨rfl, rfl, -, hform⟩
  -- the end of the text, or `%%`
  have heof : v = [] ∨ v = ['%', '%'] := by
    obtain hlit | ⟨-, hv⟩ | ⟨hsym, -⟩ := hform
    · cases pattern_unique hlit (show (TokType.eof, Pattern.eof) ∈ patterns by decide)
    · exact hv
    · cases hsym
  exact takes_pure ⟨rfl, tree, v, heof, rfl, by simp [eofLexeme]⟩

end

/-! ## Texts -/

/-- The tokens of a text that is parsed are the lexemes of a source and the end, and the result is
    the meaning of this source. -/
theorem Parsed.tree {text rest : List Char} {source : RpcSource}
    {log : List (Read TokType (List Char))} (h : Parsed text source log rest) :
    ∃ (tree : SourceSyntax) (eof : List Char), (eof = [] ∨ eof = ['%', '%']) ∧
      source = tree.meaning ∧ logLexemes log = tree.lexemes ++ [eofLexeme eof] := by
  obtain ⟨fuel, hparse⟩ := h
  obtain ⟨s, hrun, -⟩ := rpcSource_run hparse
  obtain ⟨-, ls, hls, hpost, tree, eof, heof, hsource, rfl⟩ :=
    takes_rpcSource fuel (rpcScanner text) source log s nofun rfl hrun
  rw [hpost, List.append_nil] at hls
  exact ⟨tree, eof, heof, hsource, hls⟩

/-! ## Printing -/

/-- The lexemes with a blank in front of each. -/
def printLexemes (ls : List Lexeme) : List Char := ls.flatMap fun l => ' ' :: l.text

/-- No lexeme is empty. -/
def Solid (ls : List Lexeme) : Prop := ∀ l ∈ ls, l.text ≠ []

@[simp] theorem solid_nil : Solid [] := nofun

@[simp] theorem solid_cons (l : Lexeme) (ls : List Lexeme) :
    Solid (l :: ls) ↔ l.text ≠ [] ∧ Solid ls := List.forall_mem_cons

@[simp] theorem solid_append (ls ls' : List Lexeme) :
    Solid (ls ++ ls') ↔ Solid ls ∧ Solid ls' := List.forall_mem_append

@[simp] theorem solid_flatMap {ι : Type} (lex : ι → List Lexeme) (items : List ι) :
    Solid (items.flatMap lex) ↔ ∀ x ∈ items, Solid (lex x) := by
  constructor
  · exact fun h x hx l hl => h l (List.mem_flatMap.mpr ⟨x, hx, hl⟩)
  · intro h l hl
    obtain ⟨x, hx, hl⟩ := List.mem_flatMap.mp hl
    exact h x hx l hl

@[simp] theorem sym_text_ne_nil (name : SymbolText) : (sym name).text ≠ [] := by
  intro hnil
  have hempty : name.1 = "" := String.toList_eq_nil_iff.mp hnil
  exact absurd name.2 (by rw [hempty]; decide)

theorem fixed_text_ne_nil (t : TokType) (h : t ∉ [TokType.space, .comment, .symbol]) :
    (fixed t).text ≠ [] := by
  revert h
  cases t
  all_goals decide

theorem FullSymbol.solid (name : FullSymbol) : Solid name.lexemes := by
  rw [lexemes]
  cases name.rooted <;> simp (disch := decide) [fixed_text_ne_nil]

mutual

theorem TypeSyntax.solid : ∀ type : TypeSyntax, Solid type.lexemes
  | .builtin b => by
    cases b <;> simp (disch := decide) [TypeSyntax.lexemes, builtinTok, fixed_text_ne_nil]
  | .symbol name _ args => by simp [TypeSyntax.lexemes, name.solid, args.solid]

theorem TypeArgs.solid : ∀ args : TypeArgs, Solid args.lexemes
  | .nil => solid_nil
  | .cons type rest => by
    simp (disch := decide) [TypeArgs.lexemes, type.solid, rest.solidMore, fixed_text_ne_nil]

theorem TypeArgs.solidMore : ∀ args : TypeArgs, Solid args.lexemesMore
  | .nil => solid_nil
  | .cons type rest => by
    simp (disch := decide) [TypeArgs.lexemesMore, type.solid, rest.solidMore, fixed_text_ne_nil]

end

theorem ArgSyntax.solid (arg : ArgSyntax) : Solid arg.lexemes := by
  rw [lexemes]
  cases arg.name <;> simp [arg.type.solid]

theorem argsLexemes_solid (args : List ArgSyntax) : Solid (argsLexemes args) := by
  cases args with
  | nil => exact solid_nil
  | cons arg args => simp (disch := decide) [argsLexemes, ArgSyntax.solid, fixed_text_ne_nil]

theorem FunctionSyntax.solid (func : FunctionSyntax) : Solid func.lexemes := by
  have hattrs : Solid (func.attrs.map fun attr => fixed (attrTok attr)) := by
    intro l hl
    obtain ⟨attr, -, rfl⟩ := List.mem_map.mp hl
    cases attr <;> exact fixed_text_ne_nil _ (by decide)
  rw [lexemes]
  cases func.output <;> cases func.abstract <;>
    simp (disch := decide) [hattrs, argsLexemes_solid, fixed_text_ne_nil]

theorem DeclSyntax.solid (decl : DeclSyntax) : Solid decl.lexemes := by
  cases decl with
  | struct decl =>
    simp (disch := decide) [lexemes, StructSyntax.lexemes, FieldSyntax.lexemes, TypeSyntax.solid,
      fixed_text_ne_nil]
  | service decl =>
    rw [lexemes, ServiceSyntax.lexemes]
    cases decl.abstract <;> simp (disch := decide) [FunctionSyntax.solid, fixed_text_ne_nil]

theorem SourceSyntax.solid (source : SourceSyntax) : Solid source.lexemes := by
  rw [lexemes]
  cases source.namespace_ <;> simp (disch := decide) [DeclSyntax.solid, fixed_text_ne_nil]

theorem spells_print {ls : List Lexeme} (h : Solid ls) :
    Spells (ls ++ [eofLexeme []]) (printLexemes ls) := by
  induction ls with
  | nil => exact ⟨[], [], .nil, rfl, ⟨fun _ => rfl, nofun⟩, trivial⟩
  | cons l ls ih =>
    obtain ⟨hl, hls⟩ := (solid_cons l ls).mp h
    refine ⟨[' '], printLexemes ls, .space (by decide) .nil, rfl, ⟨fun h => absurd h hl, ?_⟩, ih hls⟩
    -- a word is followed by a blank, or by nothing
    intro _ d hd
    cases ls with
    | nil => cases hd
    | cons m ls =>
      cases hd
      decide

/-- A source is read again from its printed form. -/
theorem printed_returns (source : SourceSyntax) :
    Returns (printLexemes source.lexemes) source.meaning :=
  returns_of_runs (runs_rpcSource source (.inl rfl)) (spells_print source.solid)

/-- **Lexemes determine the meaning**: the grammar is not ambiguous. -/
theorem meaning_eq_of_lexemes {source source' : SourceSyntax}
    (h : source.lexemes = source'.lexemes) : source.meaning = source'.meaning := by
  obtain ⟨log, rest, hparsed⟩ := printed_returns source
  have hreturns := printed_returns source'
  rw [← h] at hreturns
  exact ((hparsed.returns_iff _).mp hreturns).symm

/-- **Acceptance**: the tokens of a text that is parsed are the lexemes of a syntax tree and the end,
    the result is the meaning of every tree with these lexemes, and the printed form of the tree is
    parsed to the same result. -/
theorem Parsed.syntax {text rest : List Char} {source : RpcSource}
    {log : List (Read TokType (List Char))} (h : Parsed text source log rest) :
    ∃ (tree : SourceSyntax) (eof : List Char), (eof = [] ∨ eof = ['%', '%']) ∧
      logLexemes log = tree.lexemes ++ [eofLexeme eof] ∧
      (∀ tree' : SourceSyntax, tree'.lexemes = tree.lexemes → tree'.meaning = source) ∧
      Returns (printLexemes tree.lexemes) source := by
  obtain ⟨tree, eof, heof, rfl, hlexemes⟩ := h.tree
  exact ⟨tree, eof, heof, hlexemes, fun tree' htree => meaning_eq_of_lexemes htree,
    printed_returns tree⟩

/-- The tokens of a structure with two fields. -/
theorem struct_syntax : ∃ (source : RpcSource) (log : List (Read TokType (List Char)))
    (tree : SourceSyntax) (eof : List Char), logLexemes log = tree.lexemes ++ [eofLexeme eof] ∧
      Returns (printLexemes tree.lexemes) source := by
  obtain ⟨source, log, rest, hparsed, -⟩ := point_struct
  obtain ⟨tree, eof, -, hlexemes, -, hprinted⟩ := hparsed.syntax
  exact ⟨source, log, tree, eof, hlexemes, hprinted⟩

end SimpleRpc.Gen
