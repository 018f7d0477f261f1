import SimpleRpc.Gen.Acceptance

/-!
# Type Strings of Parsed Sources (`rpcgen.g`, `Marshal.template_split`)

The parser hands types on as strings, and `template_split` takes such a string apart whenever a
template is written or read. It keeps a count of the open brackets, so that it can be applied to
types of any depth.

## Main results

- `TypeSyntax.inert`: no comma of a type string separates anything outside of it
- `templateSplit_meaning`: `template_split` gets back the arguments of every type of the grammar
- `Parsed.typeStrings`: these are the types of a parsed source
-/

namespace SimpleRpc.Gen

open SimpleRpc.Lib
open SimpleRpc.Py (Inert Nested Plain Trimmed arguments templateSplit)

/-! ## Names -/

/-- What a name is made of. -/
def isNameChar (c : Char) : Bool := isSymbolChar c || c == ':'

theorem plain_of_name {s : List Char} (hs : ∀ c ∈ s, isNameChar c = true) : Plain s := by
  intro c hc
  have hname := hs c hc
  refine ⟨?_, ?_, ?_⟩ <;>
    · rintro rfl
      exact absurd hname (by decide)

theorem not_space_of_name {c : Char} (hc : isNameChar c = true) : Py.isSpace c = false := by
  by_contra hspace
  simp only [Py.isSpace, Bool.not_eq_false, decide_eq_true_eq, List.mem_cons, List.not_mem_nil,
    or_false] at hspace
  obtain rfl | rfl | rfl | rfl | rfl | rfl := hspace
  all_goals exact absurd hc (by decide)

theorem SymbolText.chars (name : SymbolText) : ∀ c ∈ name.1.toList, isNameChar c = true := by
  have h := name.2
  rw [isSymbol] at h
  intro c hc
  cases hl : name.1.toList with
  | nil =>
    rw [hl] at hc
    cases hc
  | cons d ds =>
    rw [hl, Bool.and_eq_true, List.all_eq_true] at h
    rw [hl] at hc
    rw [isNameChar, Bool.or_eq_true]
    obtain rfl | hc := List.mem_cons.mp hc
    · exact .inl (isSymbolChar_of_isSymbolStart h.1)
    · exact .inl (h.2 c hc)

theorem colons_chars : ∀ c ∈ "::".toList, isNameChar c = true := List.all_eq_true.mp (by decide)

theorem FullSymbol.chars (name : FullSymbol) : ∀ c ∈ name.meaning.toList, isNameChar c = true := by
  have hfold : ∀ (more : List SymbolText) (s : String), (∀ c ∈ s.toList, isNameChar c = true) →
      ∀ c ∈ (more.foldl (fun s symbol => s ++ "::" ++ symbol.1) s).toList,
        isNameChar c = true := by
    intro more
    induction more with
    | nil => exact fun s hs => hs
    | cons symbol more ih =>
      intro s hs
      refine ih _ ?_
      simp only [String.toList_append, List.forall_mem_append]
      exact ⟨⟨hs, colons_chars⟩, symbol.chars⟩
  refine hfold name.more _ ?_
  rw [String.toList_append, List.forall_mem_append]
  refine ⟨?_, name.first.chars⟩
  cases name.rooted
  · exact nofun
  · exact colons_chars

theorem stdRename_chars {t : String} (ht : ∀ c ∈ t.toList, isNameChar c = true) :
    ∀ c ∈ (stdRename t).toList, isNameChar c = true := by
  rw [stdRename]
  split
  · rw [String.toList_append, List.forall_mem_append]
    exact ⟨List.all_eq_true.mp (by decide), ht⟩
  · exact ht

theorem FullSymbol.meaning_ne_nil (name : FullSymbol) : (stdRename name.meaning).toList ≠ [] := by
  have hfold : ∀ (more : List SymbolText) (s : String), s.toList ≠ [] →
      (more.foldl (fun s symbol => s ++ "::" ++ symbol.1) s).toList ≠ [] := by
    intro more
    induction more with
    | nil => exact fun s hs => hs
    | cons symbol more ih =>
      intro s hs
      refine ih _ ?_
      simp only [String.toList_append, Ne, List.append_eq_nil_iff, not_and]
      exact fun h => absurd h.1 hs
  have hname : name.meaning.toList ≠ [] := by
    refine hfold name.more _ ?_
    rw [String.toList_append, Ne, List.append_eq_nil_iff, not_and]
    exact fun _ => sym_text_ne_nil name.first
  rw [stdRename]
  split
  · simp
  · exact hname

/-! ## Printed types -/

theorem trimmed_append_closed {s t : List Char} {c : Char} (hs : Trimmed s)
    (hc : Py.isSpace c = false) : Trimmed (s ++ t ++ [c]) := by
  obtain ⟨⟨d, ds, rfl, hd⟩, -⟩ := hs
  exact ⟨⟨d, ds ++ t ++ [c], rfl, hd⟩, ⟨d :: ds ++ t, c, rfl, hc⟩⟩

theorem TypeArgs.meaningMore_append (args : TypeArgs) (s t : String) :
    args.meaningMore (s ++ t) = s ++ args.meaningMore t := by
  rw [meaningMore_eq, meaningMore_eq]
  induction args.toList generalizing t with
  | nil => rfl
  | cons type types ih =>
    rw [List.foldl_cons, List.foldl_cons, String.append_assoc, String.append_assoc, ih,
      String.append_assoc]

/-- A type with arguments: its name, and the arguments between brackets. -/
theorem TypeArgs.meaning_cons (type : TypeSyntax) (rest : TypeArgs) (t : String) :
    ((TypeArgs.cons type rest).meaning t).toList =
      t.toList ++ '<' :: ((rest.meaningMore type.meaning).toList ++ ['>']) := by
  rw [meaning, meaningMore_append]
  simp

theorem trimmed_name (name : FullSymbol) : Trimmed (stdRename name.meaning).toList :=
  Py.trimmed_of_not_space name.meaning_ne_nil fun c hc =>
    not_space_of_name (stdRename_chars name.chars c hc)

mutual

/-- **Type strings** are inert: the loop of `template_split` passes over them. -/
theorem TypeSyntax.inert : ∀ type : TypeSyntax, Inert type.meaning.toList
  | .builtin b => by
    rw [TypeSyntax.meaning, String.toList_ofList]
    cases b
    all_goals exact (Py.plain_of_all (by decide)).inert
  | .symbol name _ .nil => by
    rw [TypeSyntax.meaning, TypeArgs.meaning]
    exact (plain_of_name (stdRename_chars name.chars)).inert
  | .symbol name _ (.cons type rest) => by
    rw [TypeSyntax.meaning, TypeArgs.meaning_cons]
    exact Nested.template (plain_of_name (stdRename_chars name.chars))
      (rest.nested type.meaning type.inert.nested)

theorem TypeArgs.nested : ∀ (args : TypeArgs) (t : String), Nested t.toList →
    Nested (args.meaningMore t).toList
  | .nil, t, ht => by rwa [TypeArgs.meaningMore]
  | .cons type rest, t, ht => by
    rw [TypeArgs.meaningMore]
    refine rest.nested _ ?_
    rw [String.toList_append, String.toList_append]
    exact (ht.append Py.nested_separator).append type.inert.nested

end

theorem TypeSyntax.trimmed (type : TypeSyntax) : Trimmed type.meaning.toList := by
  cases type with
  | builtin b =>
    rw [meaning, String.toList_ofList]
    cases b
    all_goals exact Py.trimmed_of_not_space (by decide) (Py.not_space_of_all (by decide))
  | symbol name free args =>
    cases args with
    | nil => exact trimmed_name name
    | cons type rest =>
      rw [meaning, TypeArgs.meaning_cons, ← List.cons_append, ← List.append_assoc]
      exact trimmed_append_closed (trimmed_name name) (by decide)

/-! ## Taking apart -/

/-- The loop over the arguments behind the first one: each comma closes the argument in front of
    it. -/
theorem foldl_step_more (types : List TypeSyntax) (splt : List (List Char)) (sp : List Char)
    (hsp : Py.strip sp ≠ []) :
    ∃ st : Py.Split,
      (types.flatMap fun type => ", ".toList ++ type.meaning.toList).foldl Py.Split.step
        ⟨splt, 0, sp⟩ = st ∧
      st.splt ++ [Py.strip st.sp] =
        splt ++ Py.strip sp :: types.map (fun type => type.meaning.toList) ∧
      Py.strip st.sp ≠ [] := by
  induction types generalizing splt sp with
  -- the last argument is still in `sp`
  | nil => exact ⟨_, rfl, rfl, hsp⟩
  | cons type types ih =>
    -- the comma closes the argument in front of it
    have hcomma : ", ".toList.foldl Py.Split.step ⟨splt, 0, sp⟩ =
        ⟨splt ++ [Py.strip sp], 0, [' ']⟩ := by simp [Py.Split.step]
    have hstrip : Py.strip (' ' :: type.meaning.toList) = type.meaning.toList :=
      type.trimmed.strip_cons_space
    obtain ⟨st, hst, hsplt, hne⟩ := ih (splt ++ [Py.strip sp]) (' ' :: type.meaning.toList)
      (by rw [hstrip]; exact type.trimmed.ne_nil)
    refine ⟨st, ?_, ?_, hne⟩
    · rw [List.flatMap_cons, List.foldl_append, List.foldl_append, hcomma,
        type.inert _ (Int.le_refl 0)]
      exact hst
    · rw [hsplt, hstrip]
      simp

theorem TypeArgs.meaningMore_flatMap (args : TypeArgs) (t : String) :
    (args.meaningMore t).toList =
      t.toList ++ args.toList.flatMap fun type => ", ".toList ++ type.meaning.toList := by
  rw [meaningMore_eq]
  induction args.toList generalizing t with
  | nil => simp
  | cons type types ih =>
    rw [List.foldl_cons, ih]
    simp

/-- **Taking apart**: whatever the arguments of a type are, `template_split` gets them back. -/
theorem templateSplit_meaning (name : FullSymbol)
    (free : name.rooted = true ∨ name.first.1 ∉ typeWords) (first : TypeSyntax) (rest : TypeArgs) :
    templateSplit (arguments (TypeSyntax.symbol name free (.cons first rest)).meaning.toList) =
      (first :: rest.toList).map fun type => type.meaning.toList := by
  have hplain : Plain (stdRename name.meaning).toList :=
    plain_of_name (stdRename_chars name.chars)
  have hstrip : Py.strip first.meaning.toList = first.meaning.toList := first.trimmed.strip_eq
  obtain ⟨st, hst, hsplt, hne⟩ := foldl_step_more rest.toList [] first.meaning.toList
    (by rw [hstrip]; exact first.trimmed.ne_nil)
  have hloop : (rest.meaningMore first.meaning).toList.foldl Py.Split.step ⟨[], 0, []⟩ = st := by
    rw [TypeArgs.meaningMore_flatMap, List.foldl_append, first.inert _ (Int.le_refl 0)]
    exact hst
  rw [TypeSyntax.meaning, TypeArgs.meaning_cons, Py.arguments_template hplain]
  simp only [templateSplit, hloop, if_pos hne]
  rw [hsplt, hstrip, List.nil_append, List.map_cons]

/-- `map<string, vector<v64>>` -/
theorem templateSplit_meaning_map :
    templateSplit (arguments "std::map<std::string, std::vector<rpc::v64>>".toList) =
      ["std::string".toList, "std::vector<rpc::v64>".toList] :=
  templateSplit_meaning ⟨false, ⟨"map", by decide⟩, []⟩ (.inr (by decide))
    (.symbol ⟨false, ⟨"string", by decide⟩, []⟩ (.inr (by decide)) .nil)
    (.cons (.symbol ⟨false, ⟨"vector", by decide⟩, []⟩ (.inr (by decide))
      (.cons (.builtin .v64) .nil)) .nil)

/-! ## Parsed sources -/

/-- The type strings of a source: those of the fields of its structures, and those of the arguments
    of its functions. -/
def RpcSource.typeStrings (source : RpcSource) : List String :=
  source.structs.flatMap (fun decl => decl.fields.map StructField.type) ++
    source.services.flatMap fun service => service.functions.flatMap fun func =>
      func.input.map FuncArg.type ++ func.output.map FuncArg.type

/-- The types are those of the syntax. -/
def FromGrammar (types : List String) : Prop := ∀ t ∈ types, ∃ type : TypeSyntax, type.meaning = t

theorem typeStrings_args (args : List ArgSyntax) :
    FromGrammar ((args.map ArgSyntax.meaning).map FuncArg.type) := by
  intro t ht
  obtain ⟨arg, harg, rfl⟩ := List.mem_map.mp ht
  obtain ⟨tree, -, rfl⟩ := List.mem_map.mp harg
  exact ⟨tree.type, rfl⟩

theorem typeStrings_struct (decl : StructSyntax) :
    FromGrammar (decl.meaning.fields.map StructField.type) := by
  intro t ht
  obtain ⟨field, hfield, rfl⟩ := List.mem_map.mp ht
  obtain ⟨tree, -, rfl⟩ := List.mem_map.mp hfield
  exact ⟨tree.type, rfl⟩

theorem typeStrings_service (service : ServiceSyntax) :
    FromGrammar (service.meaning.functions.flatMap fun func =>
      func.input.map FuncArg.type ++ func.output.map FuncArg.type) := by
  intro t ht
  obtain ⟨func, hfunc, ht⟩ := List.mem_flatMap.mp ht
  obtain ⟨tree, -, rfl⟩ := List.mem_map.mp hfunc
  obtain ht | ht := List.mem_append.mp ht
  · exact typeStrings_args tree.input t ht
  · exact typeStrings_args (tree.output.getD []) t ht

theorem typeStrings_source (source : SourceSyntax) :
    FromGrammar source.meaning.typeStrings := by
  -- each declaration adds its own types to those of the others
  have hfold : ∀ (decls : List DeclSyntax) (found : StructsAndServices),
      FromGrammar (RpcSource.typeStrings ⟨found, none⟩) →
      FromGrammar (RpcSource.typeStrings ⟨decls.foldl DeclSyntax.add found, none⟩) := by
    intro decls
    induction decls with
    | nil => exact fun found h => h
    | cons decl decls ih =>
      intro found h
      refine ih _ fun t ht => ?_
      cases decl with
      | struct decl =>
        -- a struct adds the types of its fields
        simp only [RpcSource.typeStrings, DeclSyntax.add, List.flatMap_append, List.mem_append,
          List.flatMap_singleton] at ht h
        obtain (ht | ht) | ht := ht
        · exact h t (List.mem_append_left _ ht)
        · exact typeStrings_struct decl t ht
        · exact h t (List.mem_append_right _ ht)
      | service decl =>
        -- a service adds those of its functions
        simp only [RpcSource.typeStrings, DeclSyntax.add, List.flatMap_append, List.mem_append,
          List.flatMap_singleton] at ht h
        obtain ht | ht | ht := ht
        · exact h t (List.mem_append_left _ ht)
        · exact h t (List.mem_append_right _ ht)
        · exact typeStrings_service decl t ht
  exact hfold source.decls ⟨[], []⟩ nofun

/-- Every type of a source that is parsed is a type of the grammar. -/
theorem Parsed.typeStrings {text rest : List Char} {source : RpcSource}
    {log : List (Read TokType (List Char))} (h : Parsed text source log rest) :
    FromGrammar source.typeStrings := by
  obtain ⟨tree, -, -, rfl, -⟩ := h.tree
  exact typeStrings_source tree

end SimpleRpc.Gen
